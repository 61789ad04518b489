import Mathlib

/-!
# Ranks in a stable sort

A stable sort by a total preorder puts `a` before `b` if `a` is strictly better, or
if they tie and `a` comes first in the list. So the first `k` of the sorted list are
the members that fewer than `k` others outrank.
-/

namespace Polay.Lib.Ranking

variable {α : Type} {l : List α} {a b : α}

/-- Two different members come one before the other. -/
theorem pair_sublist_or (ha : a ∈ l) (hb : b ∈ l) (hNe : a ≠ b) :
    [a, b].Sublist l ∨ [b, a].Sublist l := by
  induction l with
  | nil => cases ha
  | cons x rest ih =>
      rcases List.mem_cons.mp ha with rfl | ha'
      · rcases List.mem_cons.mp hb with rfl | hb'
        · exact absurd rfl hNe
        · exact .inl ((List.singleton_sublist.mpr hb').cons_cons a)
      · rcases List.mem_cons.mp hb with rfl | hb'
        · exact .inr ((List.singleton_sublist.mpr ha').cons_cons b)
        · exact (ih ha' hb').imp (List.Sublist.cons x) (List.Sublist.cons x)

/-- In a list without repeats, what comes before a member is what stands in front of it. -/
theorem pair_sublist_split_iff {l₁ l₂ : List α} (h : (l₁ ++ b :: l₂).Nodup) :
    [a, b].Sublist (l₁ ++ b :: l₂) ↔ a ∈ l₁ := by
  induction l₁ with
  | nil =>
      have hFirst : b ∉ l₂ := (List.nodup_cons.mp h).1
      refine ⟨fun hSub => ?_, fun ha => by cases ha⟩
      rcases List.cons_sublist_cons'.mp hSub with hRest | ⟨_, hRest⟩
      · exact absurd (hRest.subset (by simp)) hFirst
      · exact absurd (List.singleton_sublist.mp hRest) hFirst
  | cons x rest ih =>
      obtain ⟨hFirst, hRest⟩ := List.nodup_cons.mp h
      rw [List.cons_append, List.cons_sublist_cons', List.mem_cons, ih hRest]
      constructor
      · rintro (hMem | ⟨hEq, _⟩)
        · exact .inr hMem
        · exact .inl hEq
      · rintro (hEq | hMem)
        · exact .inr ⟨hEq, List.singleton_sublist.mpr (by simp)⟩
        · exact .inl hMem

theorem pair_sublist_asymm (h : l.Nodup) (hab : [a, b].Sublist l) : ¬ [b, a].Sublist l := by
  intro hba
  obtain ⟨l₁, l₂, rfl⟩ := List.append_of_mem (hab.subset (by simp : b ∈ [a, b]))
  have hFront : a ∈ l₁ := (pair_sublist_split_iff h).mp hab
  obtain ⟨l₃, l₄, rfl⟩ := List.append_of_mem hFront
  have hBack : b ∈ l₃ := by
    rw [List.append_assoc, List.cons_append] at h hba
    exact (pair_sublist_split_iff h).mp hba
  refine (List.nodup_append.mp h).2.2 b ?_ b List.mem_cons_self rfl
  exact List.mem_append_left _ hBack

/-- What comes before one of the first `k` is one of them. -/
theorem mem_take_of_pair {k : Nat} (h : l.Nodup) (hab : [a, b].Sublist l) (hb : b ∈ l.take k) :
    a ∈ l.take k := by
  obtain ⟨l₁, l₂, hSplit⟩ := List.append_of_mem hb
  have hl : l = l₁ ++ b :: (l₂ ++ l.drop k) := by
    rw [← List.cons_append, ← List.append_assoc, ← hSplit, List.take_append_drop]
  rw [hl] at h hab
  rw [hSplit]
  exact List.mem_append_left _ ((pair_sublist_split_iff h).mp hab)

section Sorted

variable (r : α → α → Prop) [DecidableRel r] [DecidableEq α]

/-- The better one of two, or the first in the list of two that tie. -/
def Outranks (l : List α) (a b : α) : Prop := r a b ∧ (r b a → [a, b].Sublist l)

instance (l : List α) (a b : α) : Decidable (Outranks r l a b) :=
  inferInstanceAs (Decidable (_ ∧ _))

/-- How many of the list outrank `b`. -/
def rank (l : List α) (b : α) : Nat := l.countP fun a => Outranks r l a b

variable {r} [Std.Total r] [IsTrans α r]

omit [DecidableEq α] in
/-- The order of a stable sort. -/
theorem pair_sublist_insertionSort_iff (h : l.Nodup) (ha : a ∈ l) (hb : b ∈ l) (hNe : a ≠ b) :
    [a, b].Sublist (l.insertionSort r) ↔ Outranks r l a b := by
  have hSorted := List.pairwise_insertionSort r l
  have hNodup : (l.insertionSort r).Nodup := (List.perm_insertionSort r l).nodup_iff.mpr h
  constructor
  · intro hSub
    refine ⟨List.pairwise_iff_forall_sublist.mp hSorted hSub, fun hTie => ?_⟩
    refine (pair_sublist_or ha hb hNe).resolve_right fun hSwap => ?_
    exact pair_sublist_asymm hNodup hSub (List.pair_sublist_insertionSort hTie hSwap)
  · rintro ⟨hBetter, hTie⟩
    by_cases hSame : r b a
    · exact List.pair_sublist_insertionSort hBetter (hTie hSame)
    · refine (pair_sublist_or ((List.mem_insertionSort r).mpr ha)
        ((List.mem_insertionSort r).mpr hb) hNe).resolve_right fun hSwap => ?_
      exact hSame (List.pairwise_iff_forall_sublist.mp hSorted hSwap)

omit [DecidableRel r] [DecidableEq α] [Std.Total r] [IsTrans α r] in
theorem not_outranks_self (h : l.Nodup) : ¬ Outranks r l b b := by
  rintro ⟨hRefl, hTie⟩
  exact pair_sublist_asymm h (hTie hRefl) (hTie hRefl)

/-- The first `k` of the sorted list are those that fewer than `k` outrank. -/
theorem mem_take_insertionSort_iff {k : Nat} (h : l.Nodup) (hb : b ∈ l) :
    b ∈ (l.insertionSort r).take k ↔ rank r l b < k := by
  have hPerm := List.perm_insertionSort r l
  have hNodup : (l.insertionSort r).Nodup := hPerm.nodup_iff.mpr h
  obtain ⟨l₁, l₂, hSplit⟩ := List.append_of_mem ((List.mem_insertionSort r).mpr hb)
  rw [hSplit] at hPerm hNodup
  have hMem : ∀ a, a ∈ l₁ ++ b :: l₂ → (Outranks r l a b ↔ a ∈ l₁) := by
    intro a ha
    by_cases hEq : a = b
    · subst hEq
      refine ⟨fun hSelf => absurd hSelf (not_outranks_self h), fun hFront => ?_⟩
      exact absurd rfl ((List.nodup_append.mp hNodup).2.2 a hFront a List.mem_cons_self)
    · rw [← pair_sublist_insertionSort_iff h (hPerm.mem_iff.mp ha) hb hEq, hSplit,
        pair_sublist_split_iff hNodup]
  -- Those in front of `b` outrank it, and nobody else does.
  have hFront : l₁.countP (fun a => Outranks r l a b) = l₁.length := by
    rw [List.countP_eq_length]
    intro a ha
    exact decide_eq_true ((hMem a (List.mem_append_left _ ha)).mpr ha)
  have hBack : (b :: l₂).countP (fun a => Outranks r l a b) = 0 := by
    rw [List.countP_eq_zero]
    intro a ha hOut
    have hIn := (hMem a (List.mem_append_right _ ha)).mp (of_decide_eq_true hOut)
    exact (List.nodup_append.mp hNodup).2.2 a hIn a ha rfl
  have hRank : rank r l b = l₁.length := by
    rw [rank, ← hPerm.countP_eq, List.countP_append, hFront, hBack]
    rfl
  rw [hRank, hSplit]
  constructor
  · intro hTake
    by_contra hLe
    rw [List.take_append_of_le_length (Nat.not_lt.mp hLe)] at hTake
    exact (List.nodup_append.mp hNodup).2.2 b (List.mem_of_mem_take hTake) b
      List.mem_cons_self rfl
  · intro hLt
    rw [List.take_append]
    refine List.mem_append_right _ ?_
    obtain ⟨n, hn⟩ := Nat.exists_eq_add_of_lt hLt
    have hRoom : k - l₁.length = n + 1 := by omega
    rw [hRoom]
    exact List.mem_cons_self

end Sorted

end Polay.Lib.Ranking
