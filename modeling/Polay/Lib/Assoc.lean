import Mathlib

/-!
# Association lists as maps

A list of pairs stands for a map through `List.lookup`. Filtering by the key
erases keys, and a list without repeated keys has its pairs as its lookups.
-/

namespace Polay.Lib.Assoc

variable {α β : Type} [DecidableEq α]

/-- No key occurs twice. -/
def Keyed (l : List (α × β)) : Prop := (l.map Prod.fst).Nodup

variable {l : List (α × β)} {a : α} {b : β}

theorem mem_of_lookup (h : l.lookup a = some b) : (a, b) ∈ l := by
  induction l with
  | nil => cases h
  | cons e rest ih =>
      rw [List.lookup_cons] at h
      by_cases hEq : a = e.1
      · subst hEq
        rw [beq_self_eq_true] at h
        rw [← Option.some.inj h]
        exact List.mem_cons_self
      · rw [beq_eq_false_iff_ne.mpr hEq] at h
        exact List.mem_cons_of_mem _ (ih h)

theorem lookup_of_mem (hKeyed : Keyed l) (h : (a, b) ∈ l) : l.lookup a = some b := by
  induction l with
  | nil => cases h
  | cons e rest ih =>
      obtain ⟨hNew, hRest⟩ := List.nodup_cons.mp hKeyed
      rw [List.lookup_cons]
      rcases List.mem_cons.mp h with hHead | hTail
      · subst hHead
        rw [beq_self_eq_true]
      · have hNe : a ≠ e.1 := by
          rintro rfl
          exact hNew (List.mem_map.mpr ⟨_, hTail, rfl⟩)
        rw [beq_eq_false_iff_ne.mpr hNe]
        exact ih hRest hTail

omit [DecidableEq α] in
theorem Keyed.filter (h : Keyed l) (p : α × β → Bool) : Keyed (l.filter p) :=
  h.sublist (List.Sublist.map _ List.filter_sublist)

/-- Filtering by the key restricts the map. -/
theorem lookup_filter (p : α → Bool) (l : List (α × β)) (a : α) :
    (l.filter fun e => p e.1).lookup a = if p a then l.lookup a else none := by
  induction l with
  | nil => simp
  | cons e rest ih =>
      by_cases hEq : a = e.1
      · subst hEq
        by_cases hp : p e.1 = true
        · rw [List.filter_cons_of_pos (by exact hp), List.lookup_cons, List.lookup_cons,
            beq_self_eq_true, if_pos hp]
        · rw [List.filter_cons_of_neg (by exact hp), ih, if_neg hp, if_neg hp]
      · rw [List.lookup_cons, beq_eq_false_iff_ne.mpr hEq, ← ih]
        by_cases hp : p e.1 = true
        · rw [List.filter_cons_of_pos (by exact hp), List.lookup_cons,
            beq_eq_false_iff_ne.mpr hEq]
        · rw [List.filter_cons_of_neg (by exact hp)]

end Polay.Lib.Assoc
