import Mathlib

/-!
# First fit

Numbered items are put into numbered slots one after the other, each into the
first slot that holds no earlier item it conflicts with. Whether conflicting
items end up in the order of their numbers depends on the depths of the items,
the lengths of the longest chains of conflicts that lead to them: an item has to
conflict with earlier items of every depth below that of an item it conflicts
with. The slots are then the depths.
-/

namespace Polay.Lib

variable (c : Nat → Nat → Prop)

/-- The first `n` items are in slots by first fit: items of one slot do not conflict, and
every item conflicts with an earlier one in each slot before its own. -/
structure FirstFit (n : Nat) (slot : Nat → Nat) : Prop where
  separate : ∀ i j, i < j → j < n → slot i = slot j → ¬ c i j
  blocked : ∀ j, j < n → ∀ b, b < slot j → ∃ i, i < j ∧ slot i = b ∧ c i j

/-- The length of the longest chain of conflicts that leads to an item. -/
noncomputable def depth (j : Nat) : Nat :=
  open Classical in
  (Finset.univ : Finset (Fin j)).sup fun i => if c i j then depth i + 1 else 0
termination_by j
decreasing_by exact i.isLt

/-- Every item conflicts with earlier ones of all depths below an item it conflicts with. -/
def Layered (n : Nat) : Prop :=
  ∀ i j, i < j → j < n → c i j → ∀ b, b < depth c i → ∃ k, k < j ∧ depth c k = b ∧ c k j

variable {c} {n : Nat} {slot : Nat → Nat}

theorem depth_lt {i j : Nat} (hij : i < j) (hc : c i j) : depth c i < depth c j := by
  rw [depth.eq_def c j]
  have hLe := Finset.le_sup (f := fun i : Fin j =>
    open Classical in if c i j then depth c i + 1 else 0) (Finset.mem_univ ⟨i, hij⟩)
  rw [if_pos hc] at hLe
  exact hLe

/-- A bound on what an item conflicts with is a bound on its depth. -/
theorem depth_le {j b : Nat} (h : ∀ i, i < j → c i j → depth c i < b) : depth c j ≤ b := by
  rw [depth.eq_def c j]
  refine Finset.sup_le fun i _ => ?_
  split
  next hc => exact h i i.isLt hc
  next => exact Nat.zero_le _

/-- An item whose conflicts are all in earlier slots, which are their depths, is in the slot of
its depth. -/
theorem FirstFit.slot_eq_depth (h : FirstFit c n slot) {j : Nat} (hj : j < n)
    (hBefore : ∀ i, i < j → slot i = depth c i) (hOrder : ∀ i, i < j → c i j → slot i < slot j) :
    slot j = depth c j := by
  apply Nat.le_antisymm
  · by_contra hNot
    obtain ⟨i, hi, hSlot, hc⟩ := h.blocked j hj (depth c j) (Nat.lt_of_not_le hNot)
    have hLt := depth_lt hi hc
    rw [← hBefore i hi, hSlot] at hLt
    exact Nat.lt_irrefl _ hLt
  · refine depth_le fun i hi hc => ?_
    rw [← hBefore i hi]
    exact hOrder i hi hc

/-- Conflicting items are in the order of their numbers exactly if they are layered. -/
theorem FirstFit.inOrder_iff (h : FirstFit c n slot) :
    (∀ i j, i < j → j < n → c i j → slot i < slot j) ↔ Layered c n := by
  constructor
  · intro hOrder
    have hSlots : ∀ j, j < n → slot j = depth c j := by
      intro j
      induction j using Nat.strong_induction_on with
      | _ j ih =>
          intro hj
          exact h.slot_eq_depth hj (fun i hi => ih i hi (by omega))
            fun i hi hc => hOrder i j hi hj hc
    intro i j hij hj hc b hb
    have hLt := hOrder i j hij hj hc
    rw [hSlots i (by omega)] at hLt
    obtain ⟨k, hk, hSlot, hck⟩ := h.blocked j hj b (by omega)
    exact ⟨k, hk, by rw [← hSlots k (by omega), hSlot], hck⟩
  · intro hLayered
    have hBoth : ∀ j, j < n → slot j = depth c j ∧ ∀ i, i < j → c i j → slot i < slot j := by
      intro j
      induction j using Nat.strong_induction_on with
      | _ j ih =>
          intro hj
          have hBefore (i : Nat) (hi : i < j) : slot i = depth c i := (ih i hi (by omega)).1
          have hOrder (i : Nat) (hi : i < j) (hc : c i j) : slot i < slot j := by
            by_contra hNot
            rcases Nat.lt_or_eq_of_le (Nat.le_of_not_lt hNot) with hLt | hEq
            · rw [hBefore i hi] at hLt
              obtain ⟨k, hk, hDepth, hck⟩ := hLayered i j hi hj hc (slot j) hLt
              exact h.separate k j hk hj ((hBefore k hk).trans hDepth) hck
            · exact h.separate i j hi hj hEq.symm hc
          exact ⟨h.slot_eq_depth hj hBefore hOrder, hOrder⟩
    exact fun i j hij hj hc => (hBoth j hj).2 i hij hc

end Polay.Lib
