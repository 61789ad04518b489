import Polay.Lib.Machine

/-!
# Programs over a key-value store

Stateful code that reads and writes a key-value store is modelled as a term of
`Prog`: a tree of `get`, `put`, `delete` and `scan` steps that ends with a
value, an error or a panic. The value type may depend on the key. Nothing is
rolled back when a program fails: `run` returns the store as the last write
left it, whatever the outcome, so partial writes are part of the meaning.

* `run` executes a program on a sorted map, `runOn` on any other store that has
  the four operations; `runOn_simulates` transfers results between the two.
* `reify` turns a program into one that always returns and reports how the
  original ended, as a caller that catches panics sees it; `attempt` does so for
  errors only, as a caller that matches on a result.
* `Safe R P E p wrote` is the proof rule. It is computed by recursion on the
  program, and says that every write of `p` satisfies the per-key relation `R`
  as long as everything it reads does, that `p` panics only when `P` holds, and
  that an error follows a write only when `E` holds.
-/

namespace Polay.Lib

open Lib.Machine

/-- A program over a store with keys `K` and values `V k`, with errors `ε`. -/
inductive Prog (K : Type) (V : K → Type) (ε α : Type) : Type where
  | pure (a : α)
  | fail (e : ε)
  | panic
  | get (k : K) (next : Option (V k) → Prog K V ε α)
  | put (k : K) (v : V k) (next : Prog K V ε α)
  | delete (k : K) (next : Prog K V ε α)
  | scan (p : K → Bool) (next : List (Sigma V) → Prog K V ε α)

namespace Prog

variable {K : Type} {V : K → Type} {ε ε' α β γ : Type}

def bind : Prog K V ε α → (α → Prog K V ε β) → Prog K V ε β
  | .pure a, f => f a
  | .fail e, _ => .fail e
  | .panic, _ => .panic
  | .get k next, f => .get k fun r => (next r).bind f
  | .put k v next, f => .put k v (next.bind f)
  | .delete k next, f => .delete k (next.bind f)
  | .scan p next, f => .scan p fun l => (next l).bind f

instance : Monad (Prog K V ε) where
  pure := .pure
  bind := .bind

/-- Report how a program ended instead of ending with it. Its writes stay. -/
def reify : Prog K V ε α → Prog K V ε' (Outcome ε α)
  | .pure a => .pure (.ok a)
  | .fail e => .pure (.err e)
  | .panic => .pure .panic
  | .get k next => .get k fun r => (next r).reify
  | .put k v next => .put k v next.reify
  | .delete k next => .delete k next.reify
  | .scan p next => .scan p fun l => (next l).reify

/-- Report an error instead of failing with it; a panic stays one. -/
def attempt (p : Prog K V ε α) : Prog K V ε' (Except ε α) :=
  p.reify.bind fun
    | .ok a => .pure (.ok a)
    | .err e => .pure (.error e)
    | .panic => .panic

/-- The value, or the given error if there is none. -/
def require (r : Option α) (e : ε) : Prog K V ε α :=
  match r with
  | some a => .pure a
  | none => .fail e

/-- The value of a result, or its error. -/
def ofExcept : Except ε α → Prog K V ε α
  | .ok a => .pure a
  | .error e => .fail e

/-- Fail unless a condition holds. -/
def ensure (c : Prop) [Decidable c] (e : ε) : Prog K V ε Unit :=
  if c then .pure () else .fail e

/-- Panic unless a condition holds. -/
def assert (c : Prop) [Decidable c] : Prog K V ε Unit :=
  if c then .pure () else .panic

/-- The value of a call that must not fail. -/
def unwrap (r : Option α) : Prog K V ε α :=
  match r with
  | some a => .pure a
  | none => .panic

/-- Run a program only if a condition holds. -/
def when (c : Prop) [Decidable c] (p : Prog K V ε Unit) : Prog K V ε Unit :=
  if c then p else .pure ()

/-- Run a program on every element of a list, first to last. -/
def each (f : β → Prog K V ε Unit) : List β → Prog K V ε Unit
  | [] => .pure ()
  | b :: bs => (f b).bind fun _ => each f bs

/-- Thread an accumulator through a list, first to last. -/
def fold (f : γ → β → Prog K V ε γ) : γ → List β → Prog K V ε γ
  | c, [] => .pure c
  | c, b :: bs => (f c b).bind fun c' => fold f c' bs

/-! ## The monad -/

section Monad

variable (k : K) (p : Prog K V ε α) (f : α → Prog K V ε β)

@[simp] theorem pure_eq (a : α) : (Pure.pure a : Prog K V ε α) = .pure a := rfl

@[simp] theorem bind_eq :
    p >>= f = p.bind f := rfl

@[simp] theorem pure_bind (a : α) (f : α → Prog K V ε β) : (pure a).bind f = f a := rfl

@[simp] theorem fail_bind (e : ε) (f : α → Prog K V ε β) : (fail e).bind f = .fail e := rfl

@[simp] theorem panic_bind :
    (panic : Prog K V ε α).bind f = .panic := rfl

@[simp] theorem get_bind (next : Option (V k) → Prog K V ε α) (f : α → Prog K V ε β) :
    (get k next).bind f = .get k fun r => (next r).bind f := rfl

@[simp] theorem put_bind (v : V k) (next : Prog K V ε α) (f : α → Prog K V ε β) :
    (put k v next).bind f = .put k v (next.bind f) := rfl

@[simp] theorem delete_bind (next : Prog K V ε α) (f : α → Prog K V ε β) :
    (delete k next).bind f = .delete k (next.bind f) := rfl

@[simp] theorem scan_bind (p : K → Bool) (next : List (Sigma V) → Prog K V ε α)
    (f : α → Prog K V ε β) : (scan p next).bind f = .scan p fun l => (next l).bind f := rfl

@[simp] theorem bind_assoc (g : β → Prog K V ε γ) :
    (p.bind f).bind g = p.bind fun a => (f a).bind g := by
  induction p with
  | pure a => rfl
  | fail e => rfl
  | panic => rfl
  | get k next ih => simp only [get_bind, ih]
  | put k v next ih => simp only [put_bind, ih]
  | delete k next ih => simp only [delete_bind, ih]
  | scan p next ih => simp only [scan_bind, ih]

@[simp] theorem bind_pure : p.bind .pure = p := by
  induction p with
  | pure a => rfl
  | fail e => rfl
  | panic => rfl
  | get k next ih => simp only [get_bind, ih]
  | put k v next ih => simp only [put_bind, ih]
  | delete k next ih => simp only [delete_bind, ih]
  | scan p next ih => simp only [scan_bind, ih]

end Monad

/-! ## Running a program -/

/-- The operations of a store of type `σ`. -/
structure Backend (K : Type) (V : K → Type) (σ : Type) where
  get : σ → (k : K) → Option (V k)
  put : σ → (k : K) → V k → σ
  delete : σ → K → σ
  scan : σ → (K → Bool) → List (Sigma V)

section Run

variable {σ : Type}

/-- Run a program: how it ended and the store it left. -/
def runOn (b : Backend K V σ) : Prog K V ε α → σ → Outcome ε α × σ
  | .pure a, s => (.ok a, s)
  | .fail e, s => (.err e, s)
  | .panic, s => (.panic, s)
  | .get k next, s => (next (b.get s k)).runOn b s
  | .put k v next, s => next.runOn b (b.put s k v)
  | .delete k next, s => next.runOn b (b.delete s k)
  | .scan p next, s => (next (b.scan s p)).runOn b s

/-- What a sequence of two programs does, from how the first one ended. -/
def andThen (b : Backend K V σ) (f : α → Prog K V ε β) :
    Outcome ε α × σ → Outcome ε β × σ
  | (.ok a, s) => (f a).runOn b s
  | (.err e, s) => (.err e, s)
  | (.panic, s) => (.panic, s)

theorem runOn_bind (b : Backend K V σ) (p : Prog K V ε α) (f : α → Prog K V ε β) (s : σ) :
    (p.bind f).runOn b s = andThen b f (p.runOn b s) := by
  induction p generalizing s with
  | pure a => rfl
  | fail e => rfl
  | panic => rfl
  | get k next ih => exact ih _ s
  | put k v next ih => exact ih _
  | delete k next ih => exact ih _
  | scan p next ih => exact ih _ s

theorem runOn_reify (b : Backend K V σ) (p : Prog K V ε α) (s : σ) :
    (p.reify : Prog K V ε' _).runOn b s = (.ok (p.runOn b s).1, (p.runOn b s).2) := by
  induction p generalizing s with
  | pure a => rfl
  | fail e => rfl
  | panic => rfl
  | get k next ih => exact ih _ s
  | put k v next ih => exact ih _
  | delete k next ih => exact ih _
  | scan p next ih => exact ih _ s

/-- A store that keeps a view of another one under every operation computes
what the other computes. -/
theorem runOn_simulates {τ : Type} {b : Backend K V σ} {c : Backend K V τ} (view : σ → τ)
    (hGet : ∀ s k, b.get s k = c.get (view s) k)
    (hPut : ∀ s k v, view (b.put s k v) = c.put (view s) k v)
    (hDelete : ∀ s k, view (b.delete s k) = c.delete (view s) k)
    (hScan : ∀ s p, b.scan s p = c.scan (view s) p)
    (p : Prog K V ε α) (s : σ) :
    p.runOn c (view s) = ((p.runOn b s).1, view (p.runOn b s).2) := by
  induction p generalizing s with
  | pure a => rfl
  | fail e => rfl
  | panic => rfl
  | get k next ih =>
      show (next (c.get (view s) k)).runOn c (view s) = _
      rw [← hGet]
      exact ih _ s
  | put k v next ih =>
      show next.runOn c (c.put (view s) k v) = _
      rw [← hPut]
      exact ih _
  | delete k next ih =>
      show next.runOn c (c.delete (view s) k) = _
      rw [← hDelete]
      exact ih _
  | scan p next ih =>
      show (next (c.scan (view s) p)).runOn c (view s) = _
      rw [← hScan]
      exact ih _ s

end Run

end Prog

/-! ## Sorted maps as stores -/

/-- A store whose keys are kept in the order `cmp`. -/
abbrev Store {K : Type} (V : K → Type) (cmp : K → K → Ordering) := Std.ExtDTreeMap K V cmp

namespace Store

variable {K : Type} {V : K → Type} {cmp : K → K → Ordering}
variable [Std.TransCmp cmp] [Std.LawfulEqCmp cmp]
variable {s : Store V cmp}

/-- The entries whose key satisfies `p`, in key order. -/
def scan (s : Store V cmp) (p : K → Bool) : List (Sigma V) :=
  s.toList.filter fun e => p e.1

def backend : Prog.Backend K V (Store V cmp) where
  get s k := s.get? k
  put s k v := s.insert k v
  delete s k := s.erase k
  scan s p := s.scan p

theorem get?_insert_ne {k a : K} {v : V k} (h : k ≠ a) : (s.insert k v).get? a = s.get? a := by
  rw [Std.ExtDTreeMap.get?_insert, dif_neg]
  exact fun hEq => h (Std.LawfulEqCmp.eq_of_compare hEq)

theorem get?_erase_ne {k a : K} (h : k ≠ a) : (s.erase k).get? a = s.get? a := by
  rw [Std.ExtDTreeMap.get?_erase, if_neg]
  exact fun hEq => h (Std.LawfulEqCmp.eq_of_compare hEq)

/-- What is read at a key after one that may be the same was written. -/
theorem read_insert {α : Type} (s : Store V cmp) {k : K} {v : V k} {p : Prop} [Decidable p]
    {x : α} (a : K) (f : Option (V a) → α) (hIff : k = a ↔ p)
    (hSelf : ∀ h : k = a, f (some (h ▸ v)) = x) :
    f ((s.insert k v).get? a) = if p then x else f (s.get? a) := by
  by_cases hEq : k = a
  · subst hEq
    rw [Std.ExtDTreeMap.get?_insert_self, if_pos (hIff.mp rfl), ← hSelf rfl]
  · rw [get?_insert_ne hEq, if_neg (hIff.not.mp hEq)]

theorem read_erase {α : Type} (s : Store V cmp) {k : K} {p : Prop} [Decidable p] (a : K)
    (f : Option (V a) → α) (hIff : k = a ↔ p) :
    f ((s.erase k).get? a) = if p then f none else f (s.get? a) := by
  by_cases hEq : k = a
  · subst hEq
    rw [Std.ExtDTreeMap.get?_erase_self, if_pos (hIff.mp rfl)]
  · rw [get?_erase_ne hEq, if_neg (hIff.not.mp hEq)]

theorem mem_scan {p : K → Bool} {e : Sigma V} :
    e ∈ s.scan p ↔ p e.1 = true ∧ s.get? e.1 = some e.2 := by
  obtain ⟨k, v⟩ := e
  rw [scan, List.mem_filter, Std.ExtDTreeMap.mem_toList_iff_get?_eq_some]
  exact and_comm

/-- A scan only sees the keys it asks for. -/
theorem scan_congr {t : Store V cmp} {p : K → Bool} (h : ∀ k, p k = true → s.get? k = t.get? k) :
    s.scan p = t.scan p := by
  have hFilter : (s.filter fun k _ => p k) = t.filter fun k _ => p k := by
    apply Std.ExtDTreeMap.ext_get?
    intro k
    rw [Std.ExtDTreeMap.get?_filter, Std.ExtDTreeMap.get?_filter]
    by_cases hk : p k = true
    · rw [h k hk]
    · cases s.get? k <;> cases t.get? k <;> simp [Option.filter, hk]
  have hList := congrArg Std.ExtDTreeMap.toList hFilter
  rw [Std.ExtDTreeMap.toList_filter, Std.ExtDTreeMap.toList_filter] at hList
  exact hList

end Store

namespace Prog

section OnStore

variable {K : Type} {V : K → Type} {cmp : K → K → Ordering} {ε ε' α β : Type}
variable [Std.TransCmp cmp] [Std.LawfulEqCmp cmp]
variable (k : K) (p : Prog K V ε α) (s : Store V cmp)

/-- Run a program on a sorted map. -/
def run (p : Prog K V ε α) (s : Store V cmp) : Outcome ε α × Store V cmp :=
  p.runOn Store.backend s

@[simp] theorem run_pure (a : α) (s : Store V cmp) :
    (pure a : Prog K V ε α).run s = (.ok a, s) := rfl

@[simp] theorem run_fail (e : ε) (s : Store V cmp) :
    (fail e : Prog K V ε α).run s = (.err e, s) := rfl

@[simp] theorem run_panic :
    (panic : Prog K V ε α).run s = (.panic, s) := rfl

@[simp] theorem run_get (next : Option (V k) → Prog K V ε α) (s : Store V cmp) :
    (get k next).run s = (next (s.get? k)).run s := rfl

@[simp] theorem run_put (v : V k) (next : Prog K V ε α) (s : Store V cmp) :
    (put k v next).run s = next.run (s.insert k v) := rfl

@[simp] theorem run_delete (next : Prog K V ε α) (s : Store V cmp) :
    (delete k next).run s = next.run (s.erase k) := rfl

@[simp] theorem run_scan (p : K → Bool) (next : List (Sigma V) → Prog K V ε α)
    (s : Store V cmp) : (scan p next).run s = (next (s.scan p)).run s := rfl

theorem run_bind (f : α → Prog K V ε β) (s : Store V cmp) :
    (p.bind f).run s = andThen Store.backend f (p.run s) :=
  runOn_bind _ p f s

/-- After a part that returns, the rest runs. -/
theorem run_bind_of_ok {p : Prog K V ε α} {f : α → Prog K V ε β} {s s₁ : Store V cmp} {a : α}
    (h : p.run s = (.ok a, s₁)) : (p.bind f).run s = (f a).run s₁ := by
  rw [run_bind, h]
  rfl

/-- A sequence that returns: both parts do. -/
theorem run_bind_eq_ok {p : Prog K V ε α} {f : α → Prog K V ε β} {s t : Store V cmp} {b : β} :
    (p.bind f).run s = (.ok b, t) ↔
      ∃ a s₁, p.run s = (.ok a, s₁) ∧ (f a).run s₁ = (.ok b, t) := by
  rw [run_bind]
  cases hRun : p.run s with
  | mk outcome s₁ => cases outcome <;> simp [andThen, run]

/-- Programs that succeed whatever the store holds succeed one after another. -/
theorem each_succeeds_iff {f : β → Prog K V ε Unit} {P : β → Prop}
    (hf : ∀ b (s : Store V cmp), (∃ t, (f b).run s = (.ok (), t)) ↔ P b) (l : List β)
    (s : Store V cmp) : (∃ t, (each f l).run s = (.ok (), t)) ↔ ∀ b ∈ l, P b := by
  induction l generalizing s with
  | nil => exact ⟨fun _ => List.forall_mem_nil _, fun _ => ⟨s, rfl⟩⟩
  | cons b rest ih =>
      rw [List.forall_mem_cons, ← hf b s]
      constructor
      · rintro ⟨t, hRun⟩
        obtain ⟨_, s₁, hFirst, hRest⟩ := run_bind_eq_ok.mp hRun
        exact ⟨⟨s₁, hFirst⟩, (ih s₁).mp ⟨t, hRest⟩⟩
      · rintro ⟨⟨s₁, hFirst⟩, hAll⟩
        obtain ⟨t, hRest⟩ := (ih s₁).mpr hAll
        exact ⟨t, run_bind_eq_ok.mpr ⟨(), s₁, hFirst, hRest⟩⟩

theorem run_reify : (p.reify : Prog K V ε' _).run s = (.ok (p.run s).1, (p.run s).2) :=
  runOn_reify _ p s

/-- How an attempt ends, from how the program ended. -/
theorem run_attempt :
    (p.attempt : Prog K V ε' _).run s =
      match p.run s with
      | (.ok a, t) => (.ok (.ok a), t)
      | (.err e, t) => (.ok (.error e), t)
      | (.panic, t) => (.panic, t) := by
  rw [attempt, run_bind, run_reify]
  cases hRun : p.run s with
  | mk outcome t => cases outcome <;> rfl

end OnStore

/-! ## The proof rule -/

section Rule

variable {K : Type} {V : K → Type} {cmp : K → K → Ordering} {ε ε' α β γ : Type}
variable (R : (k : K) → Option (V k) → Prop) (P E : Prop)

/-- Every write of the program is allowed by `R` provided its reads are, a panic
is possible only under `P` and an error after a write only under `E`. The flag
says whether something was written before. -/
def Safe : Prog K V ε α → Bool → Prop
  | .pure _, _ => True
  | .fail _, wrote => wrote = true → E
  | .panic, _ => P
  | .get k next, wrote => ∀ r, R k r → (next r).Safe wrote
  | .put k v next, _ => R k (some v) ∧ next.Safe true
  | .delete k next, _ => R k none ∧ next.Safe true
  | .scan p next, wrote =>
      ∀ l : List (Sigma V), (∀ e ∈ l, p e.1 = true ∧ R e.1 (some e.2)) → (next l).Safe wrote

variable {R P E}
variable {k : K} {e : ε} {p : Prog K V ε α} {c : Prop} {f : α → Prog K V ε β} {w : Bool}

@[simp] theorem safe_pure {a : α} :
    (pure a : Prog K V ε α).Safe R P E w ↔ True := Iff.rfl

@[simp] theorem safe_fail :
    (fail e : Prog K V ε α).Safe R P E w ↔ (w = true → E) := Iff.rfl

@[simp] theorem safe_panic :
    (panic : Prog K V ε α).Safe R P E w ↔ P := Iff.rfl

@[simp] theorem safe_get {next : Option (V k) → Prog K V ε α} :
    (get k next).Safe R P E w ↔ ∀ r, R k r → (next r).Safe R P E w := Iff.rfl

@[simp] theorem safe_put {v : V k} {next : Prog K V ε α} :
    (put k v next).Safe R P E w ↔ R k (some v) ∧ next.Safe R P E true := Iff.rfl

@[simp] theorem safe_delete {next : Prog K V ε α} :
    (delete k next).Safe R P E w ↔ R k none ∧ next.Safe R P E true := Iff.rfl

@[simp] theorem safe_scan {p : K → Bool} {next : List (Sigma V) → Prog K V ε α} :
    (scan p next).Safe R P E w ↔
      ∀ l : List (Sigma V), (∀ e ∈ l, p e.1 = true ∧ R e.1 (some e.2)) →
        (next l).Safe R P E w := Iff.rfl

@[simp] theorem safe_ite [Decidable c] {q : Prog K V ε α} :
    (if c then p else q).Safe R P E w ↔ (c → p.Safe R P E w) ∧ (¬c → q.Safe R P E w) := by
  split <;> simp_all

@[simp] theorem safe_require_bind {r : Option α} :
    ((require r e).bind f).Safe R P E w ↔
      (r = none → w = true → E) ∧ ∀ a, r = some a → (f a).Safe R P E w := by
  cases r <;> simp [require]

@[simp] theorem safe_ofExcept_bind {r : Except ε α} :
    ((ofExcept r).bind f).Safe R P E w ↔
      (∀ e, r = .error e → w = true → E) ∧ ∀ a, r = .ok a → (f a).Safe R P E w := by
  cases r <;> simp [ofExcept]

@[simp] theorem safe_ensure_bind [Decidable c] {f : Unit → Prog K V ε β} :
    ((ensure c e).bind f).Safe R P E w ↔ (¬c → w = true → E) ∧ (c → (f ()).Safe R P E w) := by
  unfold ensure
  split <;> simp_all

@[simp] theorem safe_assert_bind [Decidable c] {f : Unit → Prog K V ε β} :
    ((assert c).bind f).Safe R P E w ↔ (¬c → P) ∧ (c → (f ()).Safe R P E w) := by
  unfold assert
  split <;> simp_all

@[simp] theorem safe_unwrap_bind {r : Option α} :
    ((unwrap r).bind f).Safe R P E w ↔
      (r = none → P) ∧ ∀ a, r = some a → (f a).Safe R P E w := by
  cases r <;> simp [unwrap]

@[simp] theorem safe_when_bind [Decidable c] {p : Prog K V ε Unit} {f : Unit → Prog K V ε β} :
    ((when c p).bind f).Safe R P E w ↔
      (c → (p.bind f).Safe R P E w) ∧ (¬c → (f ()).Safe R P E w) := by
  unfold when
  split <;> simp_all

@[simp] theorem safe_ite_bind [Decidable c] {q : Prog K V ε α} :
    ((if c then p else q).bind f).Safe R P E w ↔
      (c → (p.bind f).Safe R P E w) ∧ (¬c → (q.bind f).Safe R P E w) := by
  split <;> simp_all

/-- What is safe after a write is safe before one. -/
theorem Safe.of_true (h : p.Safe R P E true) (w : Bool) : p.Safe R P E w := by
  induction p generalizing w with
  | pure a => trivial
  | fail e => exact fun _ => h rfl
  | panic => exact h
  | get k next ih => exact fun r hr => ih r (h r hr) w
  | put k v next ih => exact h
  | delete k next ih => exact h
  | scan p next ih => exact fun l hl => ih l (h l hl) w

/-- A safe program followed by programs that are safe after a write. -/
theorem Safe.bind (hp : p.Safe R P E w) (hf : ∀ a, (f a).Safe R P E true) :
    (p.bind f).Safe R P E w := by
  induction p generalizing w with
  | pure a => exact (hf a).of_true w
  | fail e => exact hp
  | panic => exact hp
  | get k next ih => exact fun r hr => ih r (hp r hr)
  | put _ _ _ ih | delete _ _ ih => exact ⟨hp.1, ih hp.2⟩
  | scan p next ih => exact fun l hl => ih l (hp l hl)

theorem Safe.each {f : β → Prog K V ε Unit} {l : List β}
    (h : ∀ b ∈ l, (f b).Safe R P E true) : (each f l).Safe R P E true := by
  induction l with
  | nil => trivial
  | cons b l ih =>
      exact Safe.bind (h b (by simp)) fun _ => ih fun b' hb' => h b' (by simp [hb'])

theorem Safe.fold {f : γ → β → Prog K V ε γ} {l : List β} {c : γ}
    (h : ∀ c, ∀ b ∈ l, (f c b).Safe R P E true) : (fold f c l).Safe R P E true := by
  induction l generalizing c with
  | nil => trivial
  | cons b l ih =>
      exact Safe.bind (h c b (by simp)) fun _ => ih fun c' b' hb' => h c' b' (by simp [hb'])

end Rule

end Prog

/-! ## Soundness of the rule -/

namespace Store

variable {K : Type} {V : K → Type} {cmp : K → K → Ordering}
variable [Std.TransCmp cmp] [Std.LawfulEqCmp cmp]

/-- Every key of the store satisfies the relation. -/
def Holds (R : (k : K) → Option (V k) → Prop) (s : Store V cmp) : Prop :=
  ∀ k, R k (s.get? k)

variable {R : (k : K) → Option (V k) → Prop} {s : Store V cmp}

theorem Holds.insert (h : Holds R s) {k : K} {v : V k} (hv : R k (some v)) :
    Holds R (s.insert k v) := by
  intro a
  by_cases hEq : k = a
  · subst hEq
    rw [Std.ExtDTreeMap.get?_insert_self]
    exact hv
  · rw [get?_insert_ne hEq]
    exact h a

theorem Holds.erase (h : Holds R s) {k : K} (hk : R k none) : Holds R (s.erase k) := by
  intro a
  by_cases hEq : k = a
  · subst hEq
    rw [Std.ExtDTreeMap.get?_erase_self]
    exact hk
  · rw [get?_erase_ne hEq]
    exact h a

end Store

namespace Prog

variable {K : Type} {V : K → Type} {cmp : K → K → Ordering} {ε α : Type}
variable [Std.TransCmp cmp] [Std.LawfulEqCmp cmp]
variable {R : (k : K) → Option (V k) → Prop} {P E : Prop}

/-- What a safe program guarantees of its run from the store `s`. -/
structure Sound (R : (k : K) → Option (V k) → Prop) (P E : Prop) (wrote : Bool)
    (s : Store V cmp) (result : Outcome ε α × Store V cmp) : Prop where
  holds : Store.Holds R result.2
  err : ∀ e, result.1 = .err e → ¬ E → wrote = false ∧ result.2 = s
  panic : result.1 = .panic → P

/-- A safe program keeps the relation whatever its outcome, leaves the store
untouched when it fails, unless late errors are allowed, and panics only when it
may. -/
theorem Safe.sound {p : Prog K V ε α} {w : Bool} (h : p.Safe R P E w) {s : Store V cmp}
    (hs : Store.Holds R s) : Sound R P E w s (p.run s) := by
  induction p generalizing w s with
  | pure a => exact ⟨hs, by simp, by simp⟩
  | fail e =>
      refine ⟨hs, fun _ _ hE => ⟨?_, rfl⟩, by simp⟩
      cases w with
      | false => rfl
      | true => exact absurd (h rfl) hE
  | panic => exact ⟨hs, by simp, fun _ => h⟩
  | get k next ih => exact ih _ (h _ (hs k)) hs
  | put k v next ih =>
      have hNext := ih h.2 (hs.insert h.1)
      exact ⟨hNext.holds, fun e he hE => absurd (hNext.err e he hE).1 (by simp), hNext.panic⟩
  | delete k next ih =>
      have hNext := ih h.2 (hs.erase h.1)
      exact ⟨hNext.holds, fun e he hE => absurd (hNext.err e he hE).1 (by simp), hNext.panic⟩
  | scan p next ih =>
      refine ih _ (h _ fun e he => ?_) hs
      have hMem := Store.mem_scan.mp he
      exact ⟨hMem.1, hMem.2 ▸ hs e.1⟩

end Prog

end Polay.Lib
