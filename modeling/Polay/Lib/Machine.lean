import Mathlib

/-!
# Machine arithmetic and the outcome of a call

Wrapping arithmetic of fixed-width integers is what Lean's `UInt64` and its
siblings compute already. This module adds the saturating and checked
operations, each with the one lemma that says what it computes on the
mathematical values, so that later proofs never unfold them. A call that can
fail or panic has an `Outcome`.
-/

namespace Polay.Lib.Machine

variable (a b : UInt64)

/-- How a call ended: with a value, with an error, or by panicking. -/
inductive Outcome (ε α : Type) where
  | ok (a : α)
  | err (e : ε)
  | panic
deriving DecidableEq

/-- The value of a call that returned one. -/
def Outcome.toOption {ε α : Type} : Outcome ε α → Option α
  | .ok a => some a
  | .err _ => none
  | .panic => none

/-- A result whose outcome is a value. -/
theorem eq_ok_of_toOption {ε α σ : Type} {p : Outcome ε α × σ} {a : α}
    (h : p.1.toOption = some a) : p = (.ok a, p.2) := by
  obtain ⟨o, t⟩ := p
  cases o with
  | ok b => rw [Option.some.inj h]
  | err e => cases h
  | panic => cases h

/-- The largest 64-bit value. -/
def u64Max : UInt64 := 0xFFFFFFFFFFFFFFFF

/-- The largest 32-bit value. -/
def u32Max : UInt32 := 0xFFFFFFFF

@[simp] theorem toNat_u64Max : u64Max.toNat = 2 ^ 64 - 1 := rfl

theorem le_u64Max : a ≤ u64Max := by
  rw [UInt64.le_iff_toNat_le, toNat_u64Max]
  have := a.toNat_lt
  omega

theorem le_u32Max (a : UInt32) : a ≤ u32Max := by
  rw [UInt32.le_iff_toNat_le]
  have := a.toNat_lt
  show a.toNat ≤ 2 ^ 32 - 1
  omega

theorem eq_zero_of_not_pos {a : UInt64} (h : ¬ 0 < a) : a = 0 := by
  have hLe := UInt64.le_iff_toNat_le.mp (UInt64.not_lt.mp h)
  exact UInt64.toNat.inj (Nat.le_zero.mp hLe)

/-! ## 64-bit operations -/

def saturatingAdd (a b : UInt64) : UInt64 :=
  if a.toNat + b.toNat < 2 ^ 64 then a + b else u64Max

def saturatingSub (a b : UInt64) : UInt64 :=
  if b ≤ a then a - b else 0

def saturatingMul (a b : UInt64) : UInt64 :=
  if a.toNat * b.toNat < 2 ^ 64 then a * b else u64Max

def checkedAdd (a b : UInt64) : Option UInt64 :=
  if a.toNat + b.toNat < 2 ^ 64 then some (a + b) else none

def checkedSub (a b : UInt64) : Option UInt64 :=
  if b ≤ a then some (a - b) else none

/-- Signed 64-bit addition, clamped to the representable range. -/
def saturatingAddSigned (a b : Int64) : Int64 :=
  Int64.ofInt (max (-2 ^ 63) (min (2 ^ 63 - 1) (a.toInt + b.toInt)))

theorem toNat_saturatingAdd :
    (saturatingAdd a b).toNat = min (a.toNat + b.toNat) (2 ^ 64 - 1) := by
  unfold saturatingAdd
  split
  · rw [UInt64.toNat_add]
    omega
  · rw [toNat_u64Max]
    omega

theorem le_saturatingAdd : a ≤ saturatingAdd a b := by
  rw [UInt64.le_iff_toNat_le, toNat_saturatingAdd]
  have hBound := a.toNat_lt
  omega

theorem saturatingAdd_zero : saturatingAdd a 0 = a := by
  apply UInt64.toNat.inj
  rw [toNat_saturatingAdd]
  have := a.toNat_lt
  show min (a.toNat + 0) (2 ^ 64 - 1) = a.toNat
  omega

theorem toNat_saturatingSub : (saturatingSub a b).toNat = a.toNat - b.toNat := by
  unfold saturatingSub
  split
  next h => exact UInt64.toNat_sub_of_le a b h
  next h =>
    rw [UInt64.le_iff_toNat_le] at h
    show 0 = a.toNat - b.toNat
    omega

theorem toNat_saturatingMul {a b : UInt64} (h : a.toNat * b.toNat < 2 ^ 64) :
    (saturatingMul a b).toNat = a.toNat * b.toNat := by
  rw [saturatingMul, if_pos h, UInt64.toNat_mul, Nat.mod_eq_of_lt h]

theorem checkedAdd_eq_some {a b c : UInt64} :
    checkedAdd a b = some c ↔ c.toNat = a.toNat + b.toNat := by
  unfold checkedAdd
  split
  next h =>
    have hSum : (a + b).toNat = a.toNat + b.toNat := by
      rw [UInt64.toNat_add]
      omega
    rw [Option.some.injEq, ← hSum, UInt64.toNat_inj]
    exact eq_comm
  next h =>
    have := c.toNat_lt
    simp only [reduceCtorEq, false_iff]
    omega

end Polay.Lib.Machine
