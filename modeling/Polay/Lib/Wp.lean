import Polay.Lib.Prog

/-!
# Weakest preconditions

`p.Wp Q s` says that the run of a program from a store ends as the postcondition
`Q` on outcome and store says. Unlike `Safe`, which speaks about one key at a
time, a postcondition sees the whole store, so it is the rule for sums. The
simp lemmas below push a postcondition through a program down to its leaves;
every branch arrives there with the facts that lead to it.
-/

namespace Polay.Lib.Prog

open Lib.Machine

variable {K : Type} {V : K → Type} {cmp : K → K → Ordering} {ε α β : Type}
variable [Std.TransCmp cmp] [Std.LawfulEqCmp cmp]

/-- The run of the program from `s` ends as `Q` says. -/
def Wp (p : Prog K V ε α) (Q : Outcome ε α → Store V cmp → Prop) (s : Store V cmp) : Prop :=
  Q (p.run s).1 (p.run s).2

variable {Q : Outcome ε α → Store V cmp → Prop} {s : Store V cmp}
variable {k : K} {f : α → β} {p : Prog K V ε α}

@[simp] theorem wp_pure {a : α} : (pure a : Prog K V ε α).Wp Q s ↔ Q (.ok a) s := Iff.rfl

@[simp] theorem wp_fail {e : ε} : (fail e : Prog K V ε α).Wp Q s ↔ Q (.err e) s := Iff.rfl

@[simp] theorem wp_panic : (panic : Prog K V ε α).Wp Q s ↔ Q .panic s := Iff.rfl

@[simp] theorem wp_get {next : Option (V k) → Prog K V ε α} :
    (get k next).Wp Q s ↔ (next (s.get? k)).Wp Q s := Iff.rfl

@[simp] theorem wp_put {v : V k} {next : Prog K V ε α} :
    (put k v next).Wp Q s ↔ next.Wp Q (s.insert k v) := Iff.rfl

/-- What the second program has to meet, from how the first one ended. -/
def After (f : α → Prog K V ε β) (Q : Outcome ε β → Store V cmp → Prop) :
    Outcome ε α → Store V cmp → Prop
  | .ok a, t => (f a).Wp Q t
  | .err e, t => Q (.err e) t
  | .panic, t => Q .panic t

theorem wp_bind {f : α → Prog K V ε β} {Q : Outcome ε β → Store V cmp → Prop} :
    (p.bind f).Wp Q s ↔ p.Wp (After f Q) s := by
  unfold Wp
  rw [run_bind]
  cases hRun : p.run s with
  | mk outcome t => cases outcome <;> exact Iff.rfl

theorem Wp.mono {Q' : Outcome ε α → Store V cmp → Prop} (h : p.Wp Q s)
    (hQ : ∀ o t, Q o t → Q' o t) : p.Wp Q' s :=
  hQ _ _ h

/-- The rule of sequences: a fact about the store between the parts. If the first part does
not return, that fact has to be enough. -/
theorem Wp.seq {f : α → Prog K V ε β} {R R' : Store V cmp → Prop} (h : p.Wp (fun _ t => R t) s)
    (hEnd : ∀ t, R t → R' t) (hf : ∀ a t, R t → (f a).Wp (fun _ t => R' t) t) :
    (p.bind f).Wp (fun _ t => R' t) s := by
  rw [wp_bind]
  refine h.mono fun o t ht => ?_
  cases o with
  | ok a => exact hf a t ht
  | err e => exact hEnd t ht
  | panic => exact hEnd t ht

/-- What holds of the result holds of a computation on it. -/
theorem wp_bind_pure {R : Store V cmp → Prop} :
    (p.bind fun a => .pure (f a)).Wp (fun _ t => R t) s ↔ p.Wp (fun _ t => R t) s := by
  rw [wp_bind]
  unfold Wp
  cases (p.run s).1 <;> exact Iff.rfl

/-- The same where it matters whether the program returned. -/
theorem wp_isSome_bind_pure {R : Bool → Store V cmp → Prop} :
    (p.bind fun a => .pure (f a)).Wp (fun o t => R o.toOption.isSome t) s ↔
      p.Wp (fun o t => R o.toOption.isSome t) s := by
  rw [wp_bind]
  unfold Wp
  cases (p.run s).1 <;> exact Iff.rfl

/-- The program returns with a store as `P` says, or it does not return and leaves `s`. -/
def OnOk (P : Store V cmp → Prop) (s : Store V cmp) : Outcome ε α → Store V cmp → Prop
  | .ok _, t => P t
  | .err _, t => t = s
  | .panic, t => t = s

theorem wp_onOk_bind_pure {P : Store V cmp → Prop} {s t : Store V cmp} :
    (p.bind fun a => .pure (f a)).Wp (OnOk P s) t ↔ p.Wp (OnOk P s) t := by
  rw [wp_bind]
  unfold Wp
  cases (p.run t).1 <;> exact Iff.rfl

section Checks

variable {Q : Outcome ε β → Store V cmp → Prop}
variable {c : Prop} {f : Unit → Prog K V ε β}

@[simp] theorem wp_require_bind {r : Option α} {e : ε} {f : α → Prog K V ε β} :
    ((require r e).bind f).Wp Q s ↔
      (r = none → Q (.err e) s) ∧ ∀ a, r = some a → (f a).Wp Q s := by
  cases r <;> simp [require]

@[simp] theorem wp_ensure_bind [Decidable c] {e : ε} :
    ((ensure c e).bind f).Wp Q s ↔ (¬c → Q (.err e) s) ∧ (c → (f ()).Wp Q s) := by
  unfold ensure
  split <;> simp_all

@[simp] theorem wp_assert_bind [Decidable c] :
    ((assert c).bind f).Wp Q s ↔ (¬c → Q .panic s) ∧ (c → (f ()).Wp Q s) := by
  unfold assert
  split <;> simp_all

@[simp] theorem wp_unwrap_bind {r : Option α} {f : α → Prog K V ε β} :
    ((unwrap r).bind f).Wp Q s ↔
      (r = none → Q .panic s) ∧ ∀ a, r = some a → (f a).Wp Q s := by
  cases r <;> simp [unwrap]

@[simp] theorem wp_when_bind [Decidable c] {p : Prog K V ε Unit} :
    ((when c p).bind f).Wp Q s ↔ (c → (p.bind f).Wp Q s) ∧ (¬c → (f ()).Wp Q s) := by
  unfold when
  split <;> simp_all

/-- A loop of programs that always return is a fold over the store. -/
theorem wp_each_bind {f : α → Prog K V ε Unit} {g : Store V cmp → α → Store V cmp}
    (h : ∀ s a, (f a).run s = (.ok (), g s a)) {k : Unit → Prog K V ε β} {l : List α} :
    ((each f l).bind k).Wp Q s ↔ (k ()).Wp Q (l.foldl g s) := by
  induction l generalizing s with
  | nil => exact Iff.rfl
  | cons a rest ih =>
      rw [List.foldl_cons, ← ih, wp_bind, wp_bind, each, wp_bind]
      unfold Wp
      rw [h]
      exact Iff.rfl

end Checks

end Polay.Lib.Prog
