import Polay.Execution.Records

/-!
# The unbonding queue

An entry of the queue is stored twice, under its delegator and in an index that is
sorted by completion height. `Mirrored` says that the two agree. The payout of a block
walks the index up to the first entry that is not due; since the heights are stored
big-endian, that is every entry that is due (`unbondingOf_unbonded`).

Entries of one delegator that complete at the same height are numbered. `Dense` says
that the numbers in use have no gap, so that their count is the next free number as
long as there are fewer than 256 of them (`unbondingOf_next`).
-/

namespace Polay.Execution

open Lib Lib.Machine Polay.Types State

/-- The entry of the queue under a key. -/
def unbondingOf (s : StateStore) (d : Address) (h : UInt64) (i : UInt8) :
    Option UnbondingEntry :=
  (s.get? (.unbonding d h i)).map (·.val)

/-- The entry of the maturation index under a key. -/
def indexedOf (s : StateStore) (h : UInt64) (d : Address) (i : UInt8) :
    Option UnbondingEntry :=
  (s.get? (.unbondingIndex h d i)).map (·.val)

/-- The index holds the entries of the queue. -/
def Mirrored (s : StateStore) : Prop := ∀ d h i, indexedOf s h d i = unbondingOf s d h i

/-- The numbers in use have no gaps. -/
def Dense (s : StateStore) : Prop :=
  ∀ d h i j, j.toNat ≤ i.toNat → (unbondingOf s d h i).isSome = true →
    (unbondingOf s d h j).isSome = true

variable {s t : StateStore}

theorem fields_of_indexedOf {h : UInt64} {d : Address} {i : UInt8} {e : UnbondingEntry}
    (he : indexedOf s h d i = some e) : e.completionHeight = h ∧ e.delegator = d := by
  obtain ⟨r, _, rfl⟩ := Option.map_eq_some_iff.mp he
  exact r.property

theorem unbondingOf_of_keeps {F : List Family} (hKeeps : Store.Holds (Keeps F s) t)
    (hF : Family.unbonding ∉ F) (d : Address) (h : UInt64) (i : UInt8) :
    unbondingOf t d h i = unbondingOf s d h i := by
  rw [unbondingOf, hKeeps (.unbonding d h i) hF, unbondingOf]

theorem Mirrored.of_keeps {F : List Family} (h : Mirrored s)
    (hKeeps : Store.Holds (Keeps F s) t) (hF : Family.unbonding ∉ F) : Mirrored t := by
  intro d n i
  rw [unbondingOf_of_keeps hKeeps hF, indexedOf, hKeeps (.unbondingIndex n d i) hF, ← indexedOf]
  exact h d n i

theorem Dense.congr (h : Dense s) (hSame : ∀ d n i, unbondingOf t d n i = unbondingOf s d n i) :
    Dense t := by
  intro d n i j hLe hSome
  rw [hSame] at hSome ⊢
  exact h d n i j hLe hSome

/-! ## What is due -/

section Mature

variable {i : UInt8} {H : UInt64} {l : List (Sigma Key.Value)}

/-- Keys of the index are sorted by height. -/
theorem height_le_of_cmp {h h' : UInt64} {d d' : Address} {i' : UInt8}
    (hLt : Key.cmp (.unbondingIndex h d i) (.unbondingIndex h' d' i') = .lt) : h ≤ h' := by
  have hBytes : compare (Bytes.beBytes 8 h.toNat ++ Borsh.encode (d, i))
      (Bytes.beBytes 8 h'.toNat ++ Borsh.encode (d', i')) = .lt := by
    have hCons : compare (0x0E :: (Bytes.beBytes 8 h.toNat ++ Borsh.encode (d, i)))
        (0x0E :: (Bytes.beBytes 8 h'.toNat ++ Borsh.encode (d', i')) : List UInt8) = .lt := hLt
    rwa [List.compare_cons_cons, Std.ReflOrd.compare_self] at hCons
  rw [UInt64.le_iff_toNat_le]
  exact Bytes.le_of_compare_beBytes h.toNat_lt h'.toNat_lt (by rw [hBytes]; decide)

/-- The height in a key of the index. -/
def completionOf : Key → UInt64
  | .unbondingIndex h _ _ => h
  | _ => 0

theorem index_of_startsWith {k : Key} (hk : k.startsWith unbondingIndexPrefix = true) :
    ∃ h d i, k = .unbondingIndex h d i := by
  cases k
  case unbondingIndex h d i => exact ⟨h, d, i, rfl⟩
  all_goals
    exact absurd hk (by simp [Key.startsWith, Key.bytes, Key.split, unbondingIndexPrefix])

/-- A sorted part of the index: what is due comes first. -/
theorem mem_matureOf (hIndex : ∀ e ∈ l, ∃ h d i, e.1 = .unbondingIndex h d i)
    (hSorted : l.Pairwise fun a b => completionOf a.1 ≤ completionOf b.1) {h : UInt64}
    {d : Address} {r : (Key.unbondingIndex h d i).Value} (hMem : ⟨.unbondingIndex h d i, r⟩ ∈ l)
    (hDue : h ≤ H) : (r.val, i) ∈ matureOf H l := by
  induction l with
  | nil => cases hMem
  | cons e rest ih =>
      obtain ⟨k, x⟩ := e
      obtain ⟨h', d', i', hKey⟩ := hIndex _ List.mem_cons_self
      obtain rfl : k = .unbondingIndex h' d' i' := hKey
      rw [List.pairwise_cons] at hSorted
      have hFirst : ¬ H < h' := by
        rcases List.mem_cons.mp hMem with hEq | hRest
        · have hKeys := congrArg Sigma.fst hEq
          obtain rfl : h = h' := by simpa using (Key.unbondingIndex.inj hKeys).1
          exact UInt64.not_lt.mpr hDue
        · exact UInt64.not_lt.mpr (UInt64.le_trans (hSorted.1 _ hRest) hDue)
      show _ ∈ if H < h' then [] else (x.val, i') :: matureOf H rest
      rw [if_neg hFirst]
      rcases List.mem_cons.mp hMem with hEq | hRest
      · cases hEq
        exact List.mem_cons_self
      · exact List.mem_cons_of_mem _
          (ih (fun e he => hIndex e (List.mem_cons_of_mem _ he)) hSorted.2 hRest)

theorem of_mem_matureOf {e : UnbondingEntry} (he : (e, i) ∈ matureOf H l) :
    ∃ (h : UInt64) (d : Address) (r : (Key.unbondingIndex h d i).Value),
      (⟨.unbondingIndex h d i, r⟩ : Sigma Key.Value) ∈ l ∧ h ≤ H ∧ r.val = e := by
  induction l with
  | nil => cases he
  | cons x rest ih =>
      have hRest (he : (e, i) ∈ matureOf H rest) :
          ∃ (h : UInt64) (d : Address) (r : (Key.unbondingIndex h d i).Value),
            (⟨.unbondingIndex h d i, r⟩ : Sigma Key.Value) ∈ x :: rest ∧ h ≤ H ∧ r.val = e := by
        obtain ⟨h, d, r, hMem, hDue⟩ := ih he
        exact ⟨h, d, r, List.mem_cons_of_mem _ hMem, hDue⟩
      obtain ⟨k, x⟩ := x
      cases k
      case unbondingIndex h d j =>
        have he : (e, i) ∈ if H < h then [] else (x.val, j) :: matureOf H rest := he
        split at he
        · cases he
        · rename_i hDue
          rcases List.mem_cons.mp he with hEq | he
          · cases hEq
            exact ⟨h, d, x, List.mem_cons_self, UInt64.not_lt.mp hDue, rfl⟩
          · exact hRest he
      all_goals exact hRest he

theorem sorted_scan (s : StateStore) :
    (Store.scan s (Key.startsWith unbondingIndexPrefix)).Pairwise
      fun a b => completionOf a.1 ≤ completionOf b.1 := by
  have hOrder : (Store.scan s (Key.startsWith unbondingIndexPrefix)).Pairwise
      fun a b => Key.cmp a.1 b.1 = .lt := Std.ExtDTreeMap.ordered_keys_toList.filter _
  refine hOrder.imp_of_mem fun {a b} ha hb hLt => ?_
  obtain ⟨k, x⟩ := a
  obtain ⟨k', x'⟩ := b
  obtain ⟨h, d, i, rfl⟩ := index_of_startsWith (Store.mem_scan.mp ha).1
  obtain ⟨h', d', i', rfl⟩ := index_of_startsWith (Store.mem_scan.mp hb).1
  exact height_le_of_cmp hLt

/-- The payout takes exactly the entries of the index that are due. -/
theorem mem_matureEntries {e : UnbondingEntry} :
    (e, i) ∈ matureEntries H s ↔
      e.completionHeight ≤ H ∧ indexedOf s e.completionHeight e.delegator i = some e := by
  constructor
  · intro he
    obtain ⟨h, d, r, hMem, hDue, rfl⟩ := of_mem_matureOf he
    obtain ⟨_, hGet⟩ := Store.mem_scan.mp hMem
    have hEntry : indexedOf s h d i = some r.val := by
      rw [indexedOf]
      exact congrArg _ hGet
    obtain ⟨hHeight, hDelegator⟩ := fields_of_indexedOf hEntry
    rw [hHeight, hDelegator]
    exact ⟨hDue, hEntry⟩
  · rintro ⟨hDue, hEntry⟩
    generalize e.completionHeight = h at hDue hEntry
    generalize e.delegator = d at hEntry
    obtain ⟨r, hGet, rfl⟩ := Option.map_eq_some_iff.mp hEntry
    refine mem_matureOf (fun x hx => index_of_startsWith (Store.mem_scan.mp hx).1)
      (sorted_scan s) (Store.mem_scan.mpr ⟨?_, hGet⟩) hDue
    simp [Key.startsWith, Key.bytes, Key.split, unbondingIndexPrefix]

/-- The key of an entry with its number. -/
def entryKey (e : UnbondingEntry × UInt8) : Address × UInt64 × UInt8 :=
  (e.1.delegator, e.1.completionHeight, e.2)

theorem pairwise_matureOf (h : l.Pairwise fun a b => a.1 ≠ b.1) :
    ((matureOf H l).map entryKey).Nodup := by
  induction l with
  | nil => exact List.nodup_nil
  | cons x rest ih =>
      rw [List.pairwise_cons] at h
      have hRest := ih h.2
      obtain ⟨k, x⟩ := x
      cases k
      case unbondingIndex n d i =>
        show ((if H < n then [] else (x.val, i) :: matureOf H rest).map entryKey).Nodup
        split
        · exact List.nodup_nil
        · rw [List.map_cons, List.nodup_cons]
          refine ⟨fun hMem => ?_, hRest⟩
          obtain ⟨e, he, hKey⟩ := List.mem_map.mp hMem
          obtain ⟨n', d', r, hMem, _, hVal⟩ := of_mem_matureOf he
          obtain ⟨hHeight, hDelegator⟩ := x.property
          obtain ⟨hHeight', hDelegator'⟩ := r.property
          rw [hVal] at hHeight' hDelegator'
          simp only [entryKey, Prod.mk.injEq] at hKey
          refine h.1 _ hMem ?_
          rw [Key.unbondingIndex.injEq, ← hHeight', ← hDelegator', hKey.1, hKey.2.1, hKey.2.2]
          exact ⟨hHeight.symm, hDelegator.symm, rfl⟩
      all_goals exact hRest

theorem nodup_matureEntries (H : UInt64) (s : StateStore) :
    ((matureEntries H s).map entryKey).Nodup := by
  refine pairwise_matureOf (List.Pairwise.filter _ ?_)
  refine Std.ExtDTreeMap.distinct_keys_toList.imp fun {a b} hNe hEq => hNe ?_
  rw [hEq]
  exact Std.ReflCmp.compare_self

end Mature

/-! ## Paying out -/

section Release

variable {e : UnbondingEntry × UInt8}

theorem get?_creditedStore {a : Address} {t amount : UInt64} {k : Key}
    (hk : ∀ b, k ≠ .account b) : (Executor.creditedStore s a t amount).get? k = s.get? k :=
  get?_withAccount hk

theorem unbondingOf_released (d : Address) (h : UInt64) (i : UInt8) :
    unbondingOf (released s e) d h i =
      if entryKey e = (d, h, i) then none else unbondingOf s d h i := by
  have hSame : (Executor.creditedStore s e.1.delegator 0 e.1.amount).get? (.unbonding d h i) =
      s.get? (.unbonding d h i) := get?_creditedStore (by simp)
  rw [unbondingOf, released, Store.get?_erase_ne (by simp), unbondingOf, ← hSame]
  exact Store.read_erase (Executor.creditedStore s _ 0 _) (.unbonding d h i)
    (Option.map (·.val)) (by simp [entryKey])

theorem indexedOf_released (d : Address) (h : UInt64) (i : UInt8) :
    indexedOf (released s e) h d i =
      if entryKey e = (d, h, i) then none else indexedOf s h d i := by
  have hSame : ((Executor.creditedStore s e.1.delegator 0 e.1.amount).erase
      (.unbonding e.1.delegator e.1.completionHeight e.2)).get? (.unbondingIndex h d i) =
      s.get? (.unbondingIndex h d i) :=
    (Store.get?_erase_ne (by simp)).trans (get?_creditedStore (by simp))
  rw [indexedOf, indexedOf, ← hSame]
  exact Store.read_erase ((Executor.creditedStore s _ 0 _).erase _) (.unbondingIndex h d i)
    (Option.map (·.val)) (by simp [entryKey, and_left_comm])

theorem Mirrored.released (h : Mirrored s) (e : UnbondingEntry × UInt8) :
    Mirrored (released s e) := by
  intro d n i
  rw [unbondingOf_released, indexedOf_released, h d n i]

theorem unbondingOf_foldl_released (l : List (UnbondingEntry × UInt8)) (s : StateStore)
    (d : Address) (h : UInt64) (i : UInt8) :
    unbondingOf (l.foldl released s) d h i =
      if (d, h, i) ∈ l.map entryKey then none else unbondingOf s d h i := by
  induction l generalizing s with
  | nil => simp
  | cons e l ih =>
      rw [List.foldl_cons, ih, unbondingOf_released, List.map_cons]
      by_cases hMem : (d, h, i) ∈ l.map entryKey
      · simp [hMem]
      · by_cases hEq : entryKey e = (d, h, i)
        · simp [hEq]
        · simp [hMem, hEq, Ne.symm hEq]

theorem Mirrored.unbonded (h : Mirrored s) (H : UInt64) : Mirrored (unbonded H s) := by
  unfold Polay.Execution.unbonded
  generalize matureEntries H s = l
  induction l generalizing s with
  | nil => exact h
  | cons e l ih => exact ih (h.released e)

/-- The keys of the entries that are due. -/
theorem mem_entryKeys (h : Mirrored s) {H : UInt64} {d : Address} {n : UInt64} {i : UInt8} :
    (d, n, i) ∈ (matureEntries H s).map entryKey ↔
      n ≤ H ∧ (unbondingOf s d n i).isSome = true := by
  rw [List.mem_map]
  constructor
  · rintro ⟨⟨e, j⟩, he, hKey⟩
    simp only [entryKey, Prod.mk.injEq] at hKey
    obtain ⟨rfl, rfl, rfl⟩ := hKey
    obtain ⟨hDue, hEntry⟩ := mem_matureEntries.mp he
    rw [h] at hEntry
    exact ⟨hDue, by rw [hEntry]; rfl⟩
  · rintro ⟨hDue, hSome⟩
    obtain ⟨e, he⟩ := Option.isSome_iff_exists.mp hSome
    rw [← h] at he
    obtain ⟨rfl, rfl⟩ := fields_of_indexedOf he
    exact ⟨(e, i), mem_matureEntries.mpr ⟨hDue, he⟩, rfl⟩

/-- After the payout of a height nothing is left that completes up to that height, and
everything else is. -/
theorem unbondingOf_unbonded (h : Mirrored s) (H : UInt64) (d : Address) (n : UInt64)
    (i : UInt8) :
    unbondingOf (unbonded H s) d n i = if n ≤ H then none else unbondingOf s d n i := by
  unfold unbonded
  rw [unbondingOf_foldl_released]
  have hMem : (d, n, i) ∈ (matureEntries H s).map entryKey ↔ _ := mem_entryKeys h
  by_cases hDue : n ≤ H
  · rw [if_pos hDue]
    by_cases hSome : (unbondingOf s d n i).isSome = true
    · rw [if_pos (hMem.mpr ⟨hDue, hSome⟩)]
    · rw [if_neg fun hIn => hSome (hMem.mp hIn).2]
      exact Option.not_isSome_iff_eq_none.mp hSome
  · rw [if_neg hDue, if_neg fun hIn => hDue (hMem.mp hIn).1]

theorem Dense.unbonded (h : Dense s) (hMirrored : Mirrored s) (H : UInt64) :
    Dense (unbonded H s) := by
  intro d n i j hLe hSome
  rw [unbondingOf_unbonded hMirrored] at hSome ⊢
  by_cases hDue : n ≤ H
  · rw [if_pos hDue] at hSome
    cases hSome
  · rw [if_neg hDue] at hSome ⊢
    exact h d n i j hLe hSome

end Release

/-! ## Numbering -/

section Number

/-- The number of entries of a delegator that complete at a height, as it is counted to
number the next one. -/
def pendingCount (s : StateStore) (d : Address) (h : UInt64) : Nat :=
  ((Store.scan s (Key.startsWith (unbondingPrefix d))).filterMap unbondingEntry?).countP
    fun e => e.completionHeight = h

/-- The numbers in use for a delegator and a height. -/
def numbers (s : StateStore) (d : Address) (h : UInt64) : Finset Nat :=
  (Finset.range 256).filter fun n => (unbondingOf s d h (UInt8.ofNat n)).isSome = true

/-- The number in a key of the queue, if it is of that delegator and height. -/
def numberAt (d : Address) (h : UInt64) : Key → Option Nat
  | .unbonding d' h' i => if d' = d ∧ h' = h then some i.toNat else none
  | _ => none

theorem numberAt_eq_some {d : Address} {h : UInt64} {k : Key} {n : Nat}
    (hk : numberAt d h k = some n) : ∃ i, k = .unbonding d h i ∧ i.toNat = n := by
  cases k
  case unbonding d' h' i =>
    by_cases hEq : d' = d ∧ h' = h
    · rw [numberAt, if_pos hEq] at hk
      obtain ⟨rfl, rfl⟩ := hEq
      exact ⟨i, rfl, Option.some.inj hk⟩
    · rw [numberAt, if_neg hEq] at hk
      cases hk
  all_goals cases hk

theorem startsWith_unbonding (d d' : Address) (h : UInt64) (i : UInt8) :
    Key.startsWith (unbondingPrefix d) (.unbonding d' h i) = true ↔ d' = d := by
  have hBytes : Key.startsWith (unbondingPrefix d) (.unbonding d' h i) =
      d.data.isPrefixOf (d'.data ++ Borsh.encode (Borsh.BigEndian.mk h, i)) := by
    show (0x0D :: d.data).isPrefixOf (0x0D :: (d'.data ++ _)) = _
    simp [List.isPrefixOf]
  rw [hBytes, List.isPrefixOf_iff_prefix]
  constructor
  · rintro ⟨rest, hEq⟩
    have hData := List.append_inj_left hEq (d.length_data.trans d'.length_data.symm)
    exact (Address.data_injective hData).symm
  · rintro rfl
    exact List.prefix_append _ _

/-- The count is over the keys of the delegator and the height. -/
theorem pendingCount_eq_length (s : StateStore) (d : Address) (h : UInt64) :
    pendingCount s d h = (s.toList.filterMap fun e => numberAt d h e.1).length := by
  unfold pendingCount Store.scan
  rw [List.countP_filterMap, List.countP_filter, List.length_filterMap_eq_countP]
  refine List.countP_congr fun e hMem => ?_
  clear hMem
  obtain ⟨k, x⟩ := e
  cases k
  case unbonding d' h' i =>
    have hOwn : UnbondingEntry.completionHeight x.val = h' := x.property.2
    have hStarts := startsWith_unbonding d d' h' i
    show (_ && Key.startsWith _ _) = true ↔
      (if d' = d ∧ h' = h then some i.toNat else none).isSome = true
    rw [Bool.and_eq_true, hStarts]
    simp only [Option.map_some, Option.getD_some, unbondingEntry?, decide_eq_true_eq, hOwn]
    by_cases hEq : d' = d ∧ h' = h
    · simp [hEq]
    · simp only [if_neg hEq, Option.isSome_none, Bool.false_eq_true, iff_false]
      exact fun hBoth => hEq ⟨hBoth.2, hBoth.1⟩
  all_goals simp [numberAt, unbondingEntry?]

theorem pendingCount_eq_card (s : StateStore) (d : Address) (h : UInt64) :
    pendingCount s d h = (numbers s d h).card := by
  have hNodup : (s.toList.filterMap fun e => numberAt d h e.1).Nodup := by
    refine List.pairwise_filterMap.mpr ((Std.ExtDTreeMap.distinct_keys_toList (t := s)).imp ?_)
    intro a b hNe n hn m hm hEq
    obtain ⟨i, hi, rfl⟩ := numberAt_eq_some hn
    obtain ⟨j, hj, rfl⟩ := numberAt_eq_some hm
    rw [UInt8.toNat_inj.mp hEq, ← hj] at hi
    rw [hi] at hNe
    exact hNe Std.ReflCmp.compare_self
  have hMem : (s.toList.filterMap fun e => numberAt d h e.1).toFinset = numbers s d h := by
    ext n
    rw [List.mem_toFinset, List.mem_filterMap, numbers, Finset.mem_filter, Finset.mem_range]
    constructor
    · rintro ⟨⟨k, x⟩, hMem, hn⟩
      obtain ⟨i, rfl, rfl⟩ := numberAt_eq_some hn
      rw [Std.ExtDTreeMap.mem_toList_iff_get?_eq_some] at hMem
      rw [UInt8.ofNat_toNat, unbondingOf, hMem]
      exact ⟨i.toNat_lt, rfl⟩
    · rintro ⟨hLt, hSome⟩
      obtain ⟨e, he⟩ := Option.isSome_iff_exists.mp hSome
      obtain ⟨r, hr, _⟩ := Option.map_eq_some_iff.mp he
      refine ⟨⟨_, r⟩, Std.ExtDTreeMap.mem_toList_iff_get?_eq_some.mpr hr, ?_⟩
      show (if d = d ∧ h = h then some (UInt8.ofNat n).toNat else none) = some n
      rw [if_pos ⟨rfl, rfl⟩, UInt8.toNat_ofNat_of_lt' hLt]
  rw [pendingCount_eq_length, ← hMem, List.toFinset_card_of_nodup hNodup]

/-- Numbers without gaps are those below their count. -/
theorem Dense.isSome_iff (hDense : Dense s) (d : Address) (h : UInt64) (i : UInt8) :
    (unbondingOf s d h i).isSome = true ↔ i.toNat < pendingCount s d h := by
  rw [pendingCount_eq_card]
  have hMem : ∀ j : UInt8, j.toNat ∈ numbers s d h ↔ (unbondingOf s d h j).isSome = true := by
    intro j
    rw [numbers, Finset.mem_filter, Finset.mem_range, UInt8.ofNat_toNat]
    exact ⟨fun hj => hj.2, fun hj => ⟨j.toNat_lt, hj⟩⟩
  have hSmall : ∀ n ∈ numbers s d h, n < 256 ∧ (UInt8.ofNat n).toNat = n := by
    intro n hn
    have hLt := Finset.mem_range.mp (Finset.mem_filter.mp hn).1
    exact ⟨hLt, UInt8.toNat_ofNat_of_lt' hLt⟩
  constructor
  · intro hi
    have hSub : Finset.range (i.toNat + 1) ⊆ numbers s d h := by
      intro n hn
      have hLe : n ≤ i.toNat := Nat.lt_succ_iff.mp (Finset.mem_range.mp hn)
      have hNat : (UInt8.ofNat n).toNat = n :=
        UInt8.toNat_ofNat_of_lt' (Nat.lt_of_le_of_lt hLe i.toNat_lt)
      rw [← hNat, hMem]
      exact hDense d h i _ (by rwa [hNat]) hi
    have hCard := Finset.card_le_card hSub
    rw [Finset.card_range] at hCard
    omega
  · intro hLt
    by_contra hNone
    have hSub : numbers s d h ⊆ Finset.range i.toNat := by
      intro n hn
      obtain ⟨hBound, hNat⟩ := hSmall n hn
      rw [Finset.mem_range]
      by_contra hGe
      rw [← hNat, hMem] at hn
      exact hNone (hDense d h _ i (by omega) hn)
    have hCard := Finset.card_le_card hSub
    rw [Finset.card_range] at hCard
    omega

/-- The store with an entry written to the queue and the index. -/
def withUnbonding (s : StateStore) (e : UnbondingEntry) (i : UInt8) : StateStore :=
  (s.insert (.unbonding e.delegator e.completionHeight i) ⟨e, Key.files_unbonding e i⟩).insert
    (.unbondingIndex e.completionHeight e.delegator i) ⟨e, Key.files_unbondingIndex e i⟩

variable {e : UnbondingEntry} {i : UInt8}

theorem unbondingOf_withUnbonding (s : StateStore) (e : UnbondingEntry) (i : UInt8)
    (d : Address) (h : UInt64) (j : UInt8) :
    unbondingOf (withUnbonding s e i) d h j =
      if (d, h, j) = entryKey (e, i) then some e else unbondingOf s d h j := by
  rw [unbondingOf, withUnbonding, Store.get?_insert_ne (by simp)]
  exact Store.read_insert s (.unbonding d h j) (Option.map (·.val)) (by simp [entryKey, eq_comm])
    (by rintro ⟨⟩; rfl)

theorem indexedOf_withUnbonding (s : StateStore) (e : UnbondingEntry) (i : UInt8)
    (d : Address) (h : UInt64) (j : UInt8) :
    indexedOf (withUnbonding s e i) h d j =
      if (d, h, j) = entryKey (e, i) then some e else indexedOf s h d j := by
  have hSame : (s.insert (.unbonding e.delegator e.completionHeight i)
      ⟨e, Key.files_unbonding e i⟩).get? (.unbondingIndex h d j) =
      s.get? (.unbondingIndex h d j) := Store.get?_insert_ne (by simp)
  rw [indexedOf, indexedOf, ← hSame]
  exact Store.read_insert (s.insert _ _) (.unbondingIndex h d j) (Option.map (·.val))
    (by simp [entryKey, eq_comm, and_left_comm]) (by rintro ⟨⟩; rfl)

theorem Mirrored.withUnbonding (h : Mirrored s) (e : UnbondingEntry) (i : UInt8) :
    Mirrored (withUnbonding s e i) := by
  intro d n j
  rw [unbondingOf_withUnbonding, indexedOf_withUnbonding, h d n j]

/-- Writing the next entry leaves no gap: its number is the count, or the numbers have
all been used. -/
theorem Dense.withUnbonding (hDense : Dense s) (e : UnbondingEntry) :
    Dense (withUnbonding s e
      (UInt8.ofNat (pendingCount s e.delegator e.completionHeight))) := by
  intro d h i j hLe hSome
  have hNat : (UInt8.ofNat (pendingCount s e.delegator e.completionHeight)).toNat =
      pendingCount s e.delegator e.completionHeight % 256 := UInt8.toNat_ofNat
  rw [unbondingOf_withUnbonding] at hSome ⊢
  split
  · rfl
  · rename_i hOther
    split at hSome
    · rename_i hKey
      simp only [entryKey, Prod.mk.injEq] at hKey hOther
      obtain ⟨rfl, rfl, rfl⟩ := hKey
      rw [hDense.isSome_iff]
      have hNe : j.toNat ≠ (UInt8.ofNat (pendingCount s e.delegator e.completionHeight)).toNat :=
        fun hEq => hOther ⟨rfl, rfl, UInt8.toNat_inj.mp hEq⟩
      omega
    · exact hDense d h i j hLe hSome

end Number

end Polay.Execution
