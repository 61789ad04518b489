import Polay.Lib.Machine

/-!
# Sequences of checks

A check succeeds, reports an error or panics, and has no other effect. Checks are
made one after another and the first that does not succeed decides, so a sequence
succeeds exactly if each of its checks does.
-/

namespace Polay.Lib

open Machine

/-- A check of some value. -/
abbrev Check (ε : Type) := Outcome ε Unit

namespace Check

variable {ε : Type}

/-- One check after another: the first that does not succeed decides. -/
def and (c d : Check ε) : Check ε :=
  match c with
  | .ok () => d
  | .err e => .err e
  | .panic => .panic

/-- Succeed if a condition holds. -/
def ensure (c : Prop) [Decidable c] (e : ε) : Check ε :=
  if c then .ok () else .err e

/-- The checks of a list, in order. -/
def all : List (Check ε) → Check ε
  | [] => .ok ()
  | c :: rest => c.and (all rest)

@[simp] theorem and_eq_ok {c d : Check ε} : c.and d = .ok () ↔ c = .ok () ∧ d = .ok () := by
  cases c <;> simp [and]

@[simp] theorem ensure_eq_ok {c : Prop} [Decidable c] {e : ε} : ensure c e = .ok () ↔ c := by
  unfold ensure
  by_cases hc : c <;> simp [hc]

end Check

end Polay.Lib
