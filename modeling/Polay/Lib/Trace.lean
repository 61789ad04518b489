import Mathlib

/-!
# Runs of a deterministic system

A system that makes a step for every element of a list. `Along` says that every
step of a run meets a condition on the state it starts from, and `Along.rule` is
the induction rule: what such steps preserve holds at the end of the run.
-/

namespace Polay.Lib.Trace

variable {σ α : Type} (step : σ → α → σ)

/-- The state after a run. -/
def after (s : σ) (l : List α) : σ := l.foldl step s

/-- Every step of the run meets a condition on the state before it. -/
def Along (P : σ → α → Prop) : σ → List α → Prop
  | _, [] => True
  | s, a :: rest => P s a ∧ Along P (step s a) rest

/-- What the steps of the run yield. -/
def collect {β : Type} (f : σ → α → Option β) : σ → List α → List β
  | _, [] => []
  | s, a :: rest => (f s a).toList ++ collect f (step s a) rest

/-- The sum of a figure over the steps of the run. -/
def sumOver (f : σ → α → Nat) : σ → List α → Nat
  | _, [] => 0
  | s, a :: rest => f s a + sumOver f (step s a) rest

variable {step}
variable {I : σ → Prop} {s : σ} {l : List α} {P : σ → α → Prop}

/-- What steps under the condition preserve, a run of such steps preserves. -/
theorem Along.rule (hStep : ∀ s a, I s → P s a → I (step s a)) (h : Along step P s l) (hs : I s) :
    I (after step s l) := by
  induction l generalizing s with
  | nil => exact hs
  | cons a rest ih => exact ih h.2 (hStep s a hs h.1)

/-- The rule of accounts: a figure that changes with every step by what comes in and what
goes out changes over the run by the sums of both. -/
theorem Along.accounts {m : σ → Nat} {f g : σ → α → Nat}
    (hStep : ∀ s a, I s → P s a → I (step s a))
    (hEntry : ∀ s a, I s → P s a → m (step s a) + f s a = m s + g s a) (h : Along step P s l)
    (hs : I s) : m (after step s l) + sumOver step f s l = m s + sumOver step g s l := by
  induction l generalizing s with
  | nil => rfl
  | cons a rest ih =>
      have hFirst := hEntry s a hs h.1
      have hRest := ih h.2 (hStep s a hs h.1)
      show m (after step (step s a) rest) + (f s a + sumOver step f (step s a) rest) =
        m s + (g s a + sumOver step g (step s a) rest)
      omega

/-- The rule of accounts for a figure that may also lose something on the way. -/
theorem Along.accounts_le {m : σ → Nat} {f g : σ → α → Nat}
    (hStep : ∀ s a, I s → P s a → I (step s a))
    (hEntry : ∀ s a, I s → P s a → m (step s a) + f s a ≤ m s + g s a) (h : Along step P s l)
    (hs : I s) : m (after step s l) + sumOver step f s l ≤ m s + sumOver step g s l := by
  induction l generalizing s with
  | nil => exact Nat.le_refl _
  | cons a rest ih =>
      have hFirst := hEntry s a hs h.1
      have hRest := ih h.2 (hStep s a hs h.1)
      show m (after step (step s a) rest) + (f s a + sumOver step f (step s a) rest) ≤
        m s + (g s a + sumOver step g (step s a) rest)
      omega

theorem Along.mono {Q : σ → α → Prop} (hPQ : ∀ s a, P s a → Q s a) (h : Along step P s l) :
    Along step Q s l := by
  induction l generalizing s with
  | nil => trivial
  | cons a rest ih => exact ⟨hPQ s a h.1, ih h.2⟩

theorem Along.and {Q : σ → α → Prop} (hP : Along step P s l) (hQ : Along step Q s l) :
    Along step (fun s a => P s a ∧ Q s a) s l := by
  induction l generalizing s with
  | nil => trivial
  | cons a rest ih => exact ⟨⟨hP.1, hQ.1⟩, ih hP.2 hQ.2⟩

theorem along_of_forall {P : α → Prop} (h : ∀ a ∈ l, P a) (s : σ) :
    Along step (fun _ a => P a) s l := by
  induction l generalizing s with
  | nil => trivial
  | cons a rest ih =>
      exact ⟨h a List.mem_cons_self, ih (fun b hb => h b (List.mem_cons_of_mem a hb)) _⟩

/-- A property that one step keeps exactly if the step meets a condition holds throughout a
run exactly if every step meets the condition. The steps may be assumed to meet `C`. -/
theorem Along.throughout_iff {C : σ → α → Prop} {Q : σ → Prop}
    (hStep : ∀ s a, I s → C s a → I (step s a))
    (hIff : ∀ s a, I s → C s a → Q s → (Q (step s a) ↔ P s a)) (hC : Along step C s l) (hs : I s)
    (hQ : Q s) : (∀ l', l' <+: l → Q (after step s l')) ↔ Along step P s l := by
  induction l generalizing s with
  | nil =>
      refine ⟨fun _ => trivial, fun _ l' hl' => ?_⟩
      rw [List.prefix_nil.mp hl']
      exact hQ
  | cons a rest ih =>
      have hNextI : I (step s a) := hStep s a hs hC.1
      constructor
      · intro hAll
        have hNext : Q (step s a) := hAll [a] (List.prefix_append [a] rest)
        refine ⟨(hIff s a hs hC.1 hQ).mp hNext, (ih hC.2 hNextI hNext).mp fun l' hl' => ?_⟩
        exact hAll (a :: l') (List.cons_prefix_cons.mpr ⟨rfl, hl'⟩)
      · rintro ⟨hFirst, hRest⟩ l' hl'
        have hNext : Q (step s a) := (hIff s a hs hC.1 hQ).mpr hFirst
        cases l' with
        | nil => exact hQ
        | cons b l' =>
            obtain ⟨rfl, hTail⟩ := List.cons_prefix_cons.mp hl'
            exact (ih hC.2 hNextI hNext).mpr hRest l' hTail

theorem throughout_iff_along {Q : σ → Prop} (hStep : ∀ s a, I s → I (step s a))
    (hIff : ∀ s a, I s → Q s → (Q (step s a) ↔ P s a)) (hs : I s) (hQ : Q s) :
    (∀ l', l' <+: l → Q (after step s l')) ↔ Along step P s l :=
  (along_of_forall (P := fun _ => True) (fun _ _ => trivial) s).throughout_iff
    (fun s a hs _ => hStep s a hs) (fun s a hs _ => hIff s a hs) hs hQ

theorem after_concat (s : σ) (l : List α) (a : α) :
    after step s (l ++ [a]) = step (after step s l) a :=
  List.foldl_append

theorem along_append {l' : List α} :
    Along step P s (l ++ l') ↔ Along step P s l ∧ Along step P (after step s l) l' := by
  induction l generalizing s with
  | nil => exact ⟨fun h => ⟨trivial, h⟩, fun h => h.2⟩
  | cons a rest ih =>
      show (P s a ∧ Along step P (step s a) (rest ++ l')) ↔ _
      rw [ih, ← and_assoc]
      rfl

end Polay.Lib.Trace
