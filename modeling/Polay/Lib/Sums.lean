import Polay.Lib.Machine
import Mathlib.Algebra.BigOperators.Group.List.Basic

/-!
# Sums of machine words

Sums of 64-bit words along a list, in saturating and in wrapping arithmetic, against the
sum of the numbers.
-/

namespace Polay.Lib.Machine

variable {α : Type}

/-- A saturating sum. -/
theorem toNat_foldl_saturatingAdd (f : α → UInt64) (l : List α) (acc : UInt64) :
    (l.foldl (fun total a => saturatingAdd total (f a)) acc).toNat =
      min (acc.toNat + (l.map fun a => (f a).toNat).sum) (2 ^ 64 - 1) := by
  induction l generalizing acc with
  | nil =>
      have := acc.toNat_lt
      simp only [List.foldl_nil, List.map_nil, List.sum_nil]
      omega
  | cons a rest ih =>
      rw [List.foldl_cons, ih, toNat_saturatingAdd, List.map_cons, List.sum_cons]
      omega

/-- A wrapping sum that does not wrap, as a fold. -/
theorem toNat_foldl_add (f : α → UInt64) (l : List α) (acc : UInt64)
    (h : acc.toNat + (l.map fun a => (f a).toNat).sum < 2 ^ 64) :
    (l.foldl (fun total a => total + f a) acc).toNat =
      acc.toNat + (l.map fun a => (f a).toNat).sum := by
  induction l generalizing acc with
  | nil => simp
  | cons a rest ih =>
      simp only [List.map_cons, List.sum_cons] at h ⊢
      have hAdd : (acc + f a).toNat = acc.toNat + (f a).toNat := by
        rw [UInt64.toNat_add]
        omega
      rw [List.foldl_cons, ih _ (by omega), hAdd]
      omega

/-- A wrapping sum that does not wrap. -/
theorem toNat_sum {l : List UInt64} (h : (l.map UInt64.toNat).sum < 2 ^ 64) :
    l.sum.toNat = (l.map UInt64.toNat).sum := by
  induction l with
  | nil => rfl
  | cons a rest ih =>
      rw [List.map_cons, List.sum_cons] at h
      have hRest := ih (by omega)
      rw [List.sum_cons, UInt64.toNat_add, hRest, List.map_cons, List.sum_cons]
      omega

theorem sum_div_le (l : List α) (f : α → Nat) (n : Nat) :
    (l.map fun a => f a / n).sum ≤ (l.map f).sum / n := by
  induction l with
  | nil => simp
  | cons a rest ih =>
      rw [List.map_cons, List.sum_cons, List.map_cons, List.sum_cons]
      exact (Nat.add_le_add_left ih _).trans Nat.div_add_div_le_add_div

/-- Parts of an amount in proportion to weights, rounded down, are at most the amount. -/
theorem sum_mul_div_le {l : List α} {f : α → Nat} {total : Nat} (h : (l.map f).sum ≤ total)
    (amount : Nat) : (l.map fun a => amount * f a / total).sum ≤ amount := by
  calc (l.map fun a => amount * f a / total).sum
      ≤ (l.map fun a => amount * f a).sum / total := sum_div_le l _ _
    _ = amount * (l.map f).sum / total := by rw [List.sum_map_mul_left]
    _ ≤ amount := Nat.div_le_of_le_mul (by
        rw [Nat.mul_comm total]
        exact Nat.mul_le_mul_left _ h)

end Polay.Lib.Machine
