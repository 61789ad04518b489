import Polay.Lib.Prog

/-!
# Totals over a store

The total of a figure over all entries of a store. Writing an entry changes the
total by the difference between the new figure and the replaced one
(`total_insert`), so conservation laws reduce to the figures at the written keys.
-/

namespace Polay.Lib.Store

variable {K : Type} {V : K → Type} {cmp : K → K → Ordering}
variable [Std.TransCmp cmp] [Std.LawfulEqCmp cmp]

/-- The total of a figure over the entries of a store. -/
def total (w : (k : K) → V k → Nat) (s : Store V cmp) : Nat :=
  (s.toList.map fun e => w e.1 e.2).sum

/-- The figure at a key; zero if there is no entry. -/
def figureAt (w : (k : K) → V k → Nat) (s : Store V cmp) (k : K) : Nat :=
  (s.get? k).elim 0 (w k)

variable (w : (k : K) → V k → Nat) {s : Store V cmp}

theorem nodup_toList (s : Store V cmp) : s.toList.Nodup := by
  refine (Std.ExtDTreeMap.distinct_keys_toList (t := s)).imp ?_
  rintro a b hNe rfl
  exact hNe Std.ReflCmp.compare_self

/-- The entries of a store are one of them and those of the store without it. -/
theorem toList_perm {k : K} {v : V k} (h : s.get? k = some v) :
    s.toList.Perm (⟨k, v⟩ :: (s.erase k).toList) := by
  have hNot : (⟨k, v⟩ : Sigma V) ∉ (s.erase k).toList := by
    rw [Std.ExtDTreeMap.mem_toList_iff_get?_eq_some, Std.ExtDTreeMap.get?_erase_self]
    simp
  rw [List.perm_ext_iff_of_nodup (nodup_toList s) ((nodup_toList _).cons hNot)]
  rintro ⟨a, u⟩
  rw [List.mem_cons, Std.ExtDTreeMap.mem_toList_iff_get?_eq_some,
    Std.ExtDTreeMap.mem_toList_iff_get?_eq_some]
  by_cases hEq : k = a
  · subst hEq
    rw [h, Std.ExtDTreeMap.get?_erase_self]
    simp [eq_comm]
  · rw [get?_erase_ne hEq]
    simp [Ne.symm hEq]

theorem total_eq_add_erase (k : K) : total w s = figureAt w s k + total w (s.erase k) := by
  unfold figureAt
  cases h : s.get? k with
  | none =>
      have hSame : s.erase k = s := by
        apply Std.ExtDTreeMap.ext_get?
        intro a
        by_cases hEq : k = a
        · subst hEq
          rw [Std.ExtDTreeMap.get?_erase_self, h]
        · exact get?_erase_ne hEq
      rw [hSame, Option.elim_none, Nat.zero_add]
  | some v =>
      unfold total
      rw [((toList_perm h).map _).sum_eq]
      rfl

/-- Writing an entry replaces its figure. -/
theorem total_insert (k : K) (v : V k) :
    total w (s.insert k v) + figureAt w s k = total w s + w k v := by
  have hErase : (s.insert k v).erase k = s.erase k := by
    apply Std.ExtDTreeMap.ext_get?
    intro a
    by_cases hEq : k = a
    · subst hEq
      rw [Std.ExtDTreeMap.get?_erase_self, Std.ExtDTreeMap.get?_erase_self]
    · rw [get?_erase_ne hEq, get?_erase_ne hEq, get?_insert_ne hEq]
  have hNew : figureAt w (s.insert k v) k = w k v := by
    unfold figureAt
    rw [Std.ExtDTreeMap.get?_insert_self]
    rfl
  have hBefore := total_eq_add_erase w (s := s) k
  have hAfter := total_eq_add_erase w (s := s.insert k v) k
  rw [hErase, hNew] at hAfter
  omega

/-- Deleting an entry takes its figure out of the total. -/
theorem total_erase (k : K) : total w (s.erase k) + figureAt w s k = total w s := by
  have hBefore := total_eq_add_erase w (s := s) k
  omega

theorem figureAt_eq_zero {k : K} (hZero : ∀ x, w k x = 0) : figureAt w s k = 0 := by
  unfold figureAt
  cases s.get? k with
  | none => rfl
  | some x => exact hZero x

/-- Writing an entry of a kind that does not count keeps the total. -/
theorem total_insert_of_zero {k : K} (hZero : ∀ x, w k x = 0) (v : V k) :
    total w (s.insert k v) = total w s := by
  have hFigure : figureAt w s k = 0 := figureAt_eq_zero w hZero
  have hInsert := total_insert w (s := s) k v
  rw [hFigure, hZero v] at hInsert
  exact hInsert

omit [Std.LawfulEqCmp cmp] in
theorem total_add (w' : (k : K) → V k → Nat) (s : Store V cmp) :
    total (fun k v => w k v + w' k v) s = total w s + total w' s :=
  List.sum_map_add

omit [Std.LawfulEqCmp cmp] in
theorem total_mul (c : Nat) (s : Store V cmp) :
    total (fun k v => c * w k v) s = c * total w s :=
  List.sum_map_mul_left _ _ _

/-! ## Totals as sums over keys -/

theorem figureAt_erase_ne {k a : K} (h : k ≠ a) : figureAt w (s.erase k) a = figureAt w s a := by
  unfold figureAt
  rw [get?_erase_ne h]

/-- The total is the sum of the figures at any keys that include those of the store. -/
theorem total_eq_sum [DecidableEq K] (F : Finset K)
    (hF : ∀ k, (s.get? k).isSome = true → k ∈ F) : total w s = ∑ k ∈ F, figureAt w s k := by
  induction F using Finset.induction generalizing s with
  | empty =>
      have hEmpty : s.toList = [] := by
        rw [List.eq_nil_iff_forall_not_mem]
        intro e he
        rw [Std.ExtDTreeMap.mem_toList_iff_get?_eq_some] at he
        exact absurd (hF e.1 (by rw [he]; rfl)) (Finset.notMem_empty _)
      rw [total, hEmpty, Finset.sum_empty]
      rfl
  | @insert a F ha ih =>
      have hErase : ∀ k, ((s.erase a).get? k).isSome = true → k ∈ F := by
        intro k hk
        by_cases hEq : a = k
        · subst hEq
          rw [Std.ExtDTreeMap.get?_erase_self] at hk
          cases hk
        · rw [get?_erase_ne hEq] at hk
          exact (Finset.mem_insert.mp (hF k hk)).resolve_left (Ne.symm hEq)
      rw [total_eq_add_erase w a, ih hErase, Finset.sum_insert ha]
      congr 1
      refine Finset.sum_congr rfl fun k hk => figureAt_erase_ne w ?_
      rintro rfl
      exact ha hk

/-- Every key of a store is among its keys. -/
theorem exists_finset [DecidableEq K] (s : Store V cmp) :
    ∃ F : Finset K, ∀ k, (s.get? k).isSome = true → k ∈ F := by
  refine ⟨(s.toList.map Sigma.fst).toFinset, fun k hk => ?_⟩
  obtain ⟨v, hv⟩ := Option.isSome_iff_exists.mp hk
  rw [List.mem_toFinset, List.mem_map]
  exact ⟨⟨k, v⟩, Std.ExtDTreeMap.mem_toList_iff_get?_eq_some.mpr hv, rfl⟩

variable {w}

/-- Smaller figures have a smaller total. -/
theorem total_le_total [DecidableEq K] {w' : (k : K) → V k → Nat} {t : Store V cmp}
    (h : ∀ k, figureAt w s k ≤ figureAt w' t k) : total w s ≤ total w' t := by
  obtain ⟨F, hF⟩ := exists_finset s
  obtain ⟨G, hG⟩ := exists_finset t
  rw [total_eq_sum w (F ∪ G) fun k hk => Finset.mem_union_left _ (hF k hk),
    total_eq_sum w' (F ∪ G) fun k hk => Finset.mem_union_right _ (hG k hk)]
  exact Finset.sum_le_sum fun k _ => h k

theorem total_congr [DecidableEq K] {w' : (k : K) → V k → Nat} {t : Store V cmp}
    (h : ∀ k, figureAt w s k = figureAt w' t k) : total w s = total w' t :=
  Nat.le_antisymm (total_le_total fun k => (h k).le) (total_le_total fun k => (h k).ge)

theorem total_eq_zero [DecidableEq K] (h : ∀ k, figureAt w s k = 0) : total w s = 0 := by
  obtain ⟨F, hF⟩ := exists_finset s
  rw [total_eq_sum w F hF]
  exact Finset.sum_eq_zero fun k _ => h k

/-- The total over the keys that count. -/
theorem total_eq_sum_map [DecidableEq K] {l : List K} (hl : l.Nodup)
    (hZero : ∀ k, k ∉ l → figureAt w s k = 0) : total w s = (l.map (figureAt w s)).sum := by
  obtain ⟨F, hF⟩ := exists_finset s
  rw [total_eq_sum w (F ∪ l.toFinset) fun k hk => Finset.mem_union_left _ (hF k hk),
    ← List.sum_toFinset _ hl]
  refine (Finset.sum_subset Finset.subset_union_right fun k _ hk => ?_).symm
  exact hZero k fun hMem => hk (List.mem_toFinset.mpr hMem)

/-- The total over keys that an injection numbers. -/
theorem total_eq_sum_keys [DecidableEq K] {ι : Type} {f : ι → K} (hf : Function.Injective f)
    (A : Finset ι) (hZero : ∀ k, (∀ a ∈ A, f a ≠ k) → figureAt w s k = 0) :
    total w s = ∑ a ∈ A, figureAt w s (f a) := by
  have hNodup : (A.toList.map f).Nodup := A.nodup_toList.map hf
  rw [total_eq_sum_map hNodup, List.map_map, Finset.sum_map_toList]
  · rfl
  · intro k hk
    refine hZero k fun a ha hEq => hk ?_
    exact List.mem_map.mpr ⟨a, Finset.mem_toList.mpr ha, hEq⟩

/-- The total of a figure that counts one key only. -/
theorem total_eq_figureAt [DecidableEq K] {k : K} (hOther : ∀ a, a ≠ k → ∀ x, w a x = 0) :
    total w s = figureAt w s k := by
  have hRest : total w (s.erase k) = 0 := by
    refine total_eq_zero fun a => ?_
    by_cases hEq : a = k
    · subst hEq
      rw [figureAt, Std.ExtDTreeMap.get?_erase_self]
      rfl
    · exact figureAt_eq_zero w (hOther a hEq)
  rw [total_eq_add_erase w k, hRest, Nat.add_zero]

/-- The figures at some keys add up to no more than the total. -/
theorem sum_figureAt_le {l : List K} (hl : l.Nodup) :
    (l.map (figureAt w s)).sum ≤ total w s := by
  induction l generalizing s with
  | nil => exact Nat.zero_le _
  | cons k l ih =>
      obtain ⟨hk, hNodup⟩ := List.nodup_cons.mp hl
      have hSame : l.map (figureAt w (s.erase k)) = l.map (figureAt w s) := by
        refine List.map_congr_left fun a ha => figureAt_erase_ne w ?_
        rintro rfl
        exact hk ha
      have hRest := ih hNodup (s := s.erase k)
      rw [hSame] at hRest
      rw [List.map_cons, List.sum_cons, total_eq_add_erase w k]
      omega

end Polay.Lib.Store
