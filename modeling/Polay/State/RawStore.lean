import Polay.Lib.Assoc
import Polay.State.MerkleProofs

/-!
# The store as bytes

Snapshots copy the stored bytes and do not look into them, and a peer may send
bytes that are no record at all. Here the store is a sorted map from byte strings
to byte strings. The chain state is one of these maps (`image`), and its commitment
is that of the map (`commitment_image`).
-/

namespace Polay.State

open Lib Lib.Assoc Polay.Types

/-- A key with its value, as bytes. -/
abbrev RawEntry := List UInt8 × List UInt8

/-- A store of bytes, sorted by key. -/
abbrev RawStore := Store (fun _ : List UInt8 => List UInt8) (compare : List UInt8 → _ → Ordering)

namespace RawStore

def getRaw (s : RawStore) (key : List UInt8) : Option (List UInt8) := s.get? key

def putRaw (s : RawStore) (key value : List UInt8) : RawStore := s.insert key value

/-- The pairs whose key starts with the given bytes, in byte order. -/
def prefixScan (s : RawStore) (start : List UInt8) : List RawEntry :=
  (Store.scan s fun k => start.isPrefixOf k).map fun e => (e.1, e.2)

/-- Write pairs one after another. -/
def putAll (s : RawStore) (entries : List RawEntry) : RawStore :=
  entries.foldl (fun s e => s.putRaw e.1 e.2) s

variable {s t : RawStore} {entries entries' : List RawEntry} {key value : List UInt8}

theorem ext_getRaw (h : ∀ key, s.getRaw key = t.getRaw key) : s = t :=
  Std.ExtDTreeMap.ext_get? h

theorem getRaw_empty (key : List UInt8) : getRaw ∅ key = none := Std.ExtDTreeMap.get?_empty

theorem mem_prefixScan {start : List UInt8} {e : RawEntry} :
    e ∈ s.prefixScan start ↔ start.isPrefixOf e.1 = true ∧ s.getRaw e.1 = some e.2 := by
  unfold prefixScan
  rw [List.mem_map]
  constructor
  · rintro ⟨x, hx, rfl⟩
    exact Store.mem_scan.mp hx
  · intro h
    exact ⟨⟨e.1, e.2⟩, Store.mem_scan.mpr h, rfl⟩

theorem keyed_prefixScan (s : RawStore) (start : List UInt8) : Keyed (s.prefixScan start) := by
  have hDistinct := Std.ExtDTreeMap.distinct_keys_toList (t := s)
  unfold Keyed prefixScan Store.scan
  rw [List.map_map]
  refine List.pairwise_map.mpr ((hDistinct.sublist List.filter_sublist).imp ?_)
  intro a b hNe hEq
  exact hNe (by rw [show a.1 = b.1 from hEq]; exact Std.ReflCmp.compare_self)

/-! ## Writing pairs -/

theorem putAll_append (s : RawStore) (entries entries' : List RawEntry) :
    s.putAll (entries ++ entries') = (s.putAll entries).putAll entries' :=
  List.foldl_append

theorem getRaw_putRaw (s : RawStore) (key value k : List UInt8) :
    (s.putRaw key value).getRaw k = if k = key then some value else s.getRaw k := by
  unfold getRaw putRaw
  by_cases hEq : k = key
  · subst hEq
    rw [Std.ExtDTreeMap.get?_insert_self, if_pos rfl]
  · rw [Store.get?_insert_ne (Ne.symm hEq), if_neg hEq]

/-- The last pair of a key counts. -/
theorem getRaw_putAll (s : RawStore) (entries : List RawEntry) (key : List UInt8) :
    (s.putAll entries).getRaw key = (entries.reverse.lookup key).or (s.getRaw key) := by
  induction entries using List.reverseRecOn with
  | nil => rfl
  | append_singleton rest e ih =>
      rw [putAll_append, List.reverse_append]
      show ((s.putAll rest).putRaw e.1 e.2).getRaw key =
        (((e.1, e.2) :: rest.reverse).lookup key).or _
      rw [getRaw_putRaw, List.lookup_cons]
      by_cases hEq : key = e.1
      · rw [if_pos hEq, hEq]
        simp
      · rw [if_neg hEq, ih, beq_false_of_ne hEq]

theorem getRaw_putAll_of_not_mem (h : key ∉ entries.map Prod.fst) :
    (s.putAll entries).getRaw key = s.getRaw key := by
  induction entries generalizing s with
  | nil => rfl
  | cons e rest ih =>
      rw [List.map_cons, List.mem_cons, not_or] at h
      show ((s.putRaw e.1 e.2).putAll rest).getRaw key = _
      rw [ih h.2, getRaw_putRaw, if_neg h.1]

/-- Pairs with different keys are all held afterwards. -/
theorem getRaw_putAll_of_mem (hKeyed : Keyed entries) (h : (key, value) ∈ entries) :
    (s.putAll entries).getRaw key = some value := by
  induction entries generalizing s with
  | nil => cases h
  | cons e rest ih =>
      obtain ⟨hNew, hRest⟩ := List.nodup_cons.mp hKeyed
      show ((s.putRaw e.1 e.2).putAll rest).getRaw key = _
      rcases List.mem_cons.mp h with rfl | hMem
      · rw [getRaw_putAll_of_not_mem hNew, getRaw_putRaw, if_pos rfl]
      · exact ih hRest hMem

/-- What a store holds is written over another one. -/
theorem getRaw_putAll_scan (t : RawStore) (h : entries.Perm (s.prefixScan [])) :
    (t.putAll entries).getRaw key = (s.getRaw key).or (t.getRaw key) := by
  have hKeyed : Keyed entries :=
    (h.map Prod.fst).nodup_iff.mpr (keyed_prefixScan s [])
  cases hKey : s.getRaw key with
  | some value =>
      have hMem : (key, value) ∈ entries := h.mem_iff.mpr (mem_prefixScan.mpr ⟨rfl, hKey⟩)
      exact getRaw_putAll_of_mem hKeyed hMem
  | none =>
      refine getRaw_putAll_of_not_mem fun hMem => ?_
      obtain ⟨e, he, rfl⟩ := List.mem_map.mp hMem
      rw [(mem_prefixScan.mp (h.mem_iff.mp he)).2] at hKey
      cases hKey

/-- The result is the first store exactly if the second had no other keys. -/
theorem putAll_scan_eq_iff (h : entries.Perm (s.prefixScan [])) :
    t.putAll entries = s ↔
      ∀ key, (t.getRaw key).isSome = true → (s.getRaw key).isSome = true := by
  constructor
  · intro hEq key hKey
    have hRead : (t.putAll entries).getRaw key = (s.getRaw key).or (t.getRaw key) :=
      getRaw_putAll_scan t h
    rw [hEq] at hRead
    cases hOwn : s.getRaw key with
    | some value => rfl
    | none =>
        rw [hOwn, Option.none_or] at hRead
        rw [← hRead] at hKey
        exact hKey
  · intro hKeys
    refine ext_getRaw fun key => ?_
    rw [getRaw_putAll_scan t h]
    cases hOwn : s.getRaw key with
    | some value => rfl
    | none =>
        cases hOther : t.getRaw key with
        | none => rfl
        | some value =>
            have hSome := hKeys key (by rw [hOther]; rfl)
            rw [hOwn] at hSome
            cases hSome

/-! ## The commitment -/

variable (sha256 : List UInt8 → Hash)

/-- The pairs that the commitment covers. -/
def committed (s : RawStore) : List RawEntry :=
  statePrefixes.flatMap fun start => s.prefixScan [start]

/-- The commitment over all state entries. -/
def computeStateRoot (s : RawStore) : StateCommitment :=
  let tree := statePrefixes.foldl (fun tree start => (s.prefixScan [start]).foldl
    (fun tree e => tree.insert sha256 e.1 e.2) tree) MerkleTree.new
  { root := tree.root sha256, entryCount := UInt64.ofNat tree.leaves.length }

theorem computeStateRoot_eq (s : RawStore) :
    s.computeStateRoot sha256 =
      { root := treeRoot sha256 (s.committed.map fun e => sha256 (e.1 ++ e.2))
        entryCount := UInt64.ofNat s.committed.length } := by
  have hTree : statePrefixes.foldl (fun tree start => (s.prefixScan [start]).foldl
      (fun tree e => tree.insert sha256 e.1 e.2) tree) MerkleTree.new =
      MerkleTree.built sha256 s.committed := by
    unfold MerkleTree.built committed
    rw [List.foldl_flatMap]
  unfold computeStateRoot
  rw [hTree]
  dsimp only
  rw [MerkleTree.root, MerkleTree.leaves_built, List.length_map]

/-- The root is that of the covered keys of some contents, in any order. -/
def RootOf (contents : List UInt8 → Option (List UInt8)) (root : Hash) : Prop :=
  ∃ entries : List RawEntry, entries.Nodup ∧
    (∀ e, e ∈ entries ↔ contents e.1 = some e.2 ∧
      ∃ start ∈ statePrefixes, [start].isPrefixOf e.1 = true) ∧
    root = treeRoot sha256 (entries.map fun e => sha256 (e.1 ++ e.2))

theorem mem_committed {e : RawEntry} :
    e ∈ s.committed ↔ s.getRaw e.1 = some e.2 ∧
      ∃ start ∈ statePrefixes, [start].isPrefixOf e.1 = true := by
  unfold committed
  rw [List.mem_flatMap]
  constructor
  · rintro ⟨start, hStart, hMem⟩
    exact ⟨(mem_prefixScan.mp hMem).2, start, hStart, (mem_prefixScan.mp hMem).1⟩
  · rintro ⟨hGet, start, hStart, hPrefix⟩
    exact ⟨start, hStart, mem_prefixScan.mpr ⟨hPrefix, hGet⟩⟩

theorem nodup_committed (s : RawStore) : s.committed.Nodup := by
  refine List.nodup_flatMap.mpr ⟨fun start _ => ?_, ?_⟩
  · exact (keyed_prefixScan s [start]).of_map
  · have hDistinct : statePrefixes.Nodup := by decide
    refine hDistinct.imp fun hNe e he he' => hNe ?_
    have hHead := (mem_prefixScan.mp he).1
    have hHead' := (mem_prefixScan.mp he').1
    cases hKey : e.1 with
    | nil => simp [hKey] at hHead
    | cons b rest =>
        rw [hKey] at hHead hHead'
        simp only [List.isPrefixOf, Bool.and_true, beq_iff_eq] at hHead hHead'
        rw [hHead, hHead']

/-- The computed root is the root of what the store holds. -/
theorem rootOf_iff {root : Hash} :
    RootOf sha256 s.getRaw root ↔ (s.computeStateRoot sha256).root = root := by
  rw [computeStateRoot_eq]
  constructor
  · rintro ⟨entries, hNodup, hMem, rfl⟩
    have hPerm : s.committed.Perm entries :=
      (List.perm_ext_iff_of_nodup s.nodup_committed hNodup).mpr fun e =>
        mem_committed.trans (hMem e).symm
    show treeRoot sha256 _ = _
    rw [treeRoot, MerkleTree.sortedLeaves_congr (hPerm.map _), ← treeRoot]
  · intro hRoot
    exact ⟨s.committed, s.nodup_committed, fun e => mem_committed, hRoot.symm⟩

/-- The stored bytes of the chain state. -/
def image (s : StateStore) : RawStore :=
  putAll ∅ (s.toList.map fun e => (e.1.bytes, e.1.recordBytes e.2.val))

theorem getRaw_image (s : StateStore) (value : List UInt8) :
    (image s).getRaw key = some value ↔
      ∃ (k : Key) (v : k.Value),
        s.get? k = some v ∧ key = k.bytes ∧ value = k.recordBytes v.val := by
  have hKeyed : Keyed (s.toList.map fun e => (e.1.bytes, e.1.recordBytes e.2.val)) := by
    unfold Keyed
    rw [List.map_map]
    refine List.pairwise_map.mpr ((Std.ExtDTreeMap.distinct_keys_toList (t := s)).imp ?_)
    intro a b hNe hEq
    exact hNe (by rw [Key.bytes_injective hEq]; exact Std.ReflCmp.compare_self)
  constructor
  · intro h
    by_cases hMem : key ∈ (s.toList.map fun e => (e.1.bytes, e.1.recordBytes e.2.val)).map Prod.fst
    · obtain ⟨e, he, rfl⟩ := List.mem_map.mp hMem
      rw [image, getRaw_putAll_of_mem hKeyed he] at h
      obtain ⟨x, hx, rfl⟩ := List.mem_map.mp he
      exact ⟨x.1, x.2, Std.ExtDTreeMap.mem_toList_iff_get?_eq_some.mp hx, rfl,
        (Option.some.inj h).symm⟩
    · rw [image, getRaw_putAll_of_not_mem hMem, getRaw_empty] at h
      cases h
  · rintro ⟨k, v, hGet, rfl, rfl⟩
    refine getRaw_putAll_of_mem hKeyed (List.mem_map.mpr ⟨⟨k, v⟩, ?_, rfl⟩)
    exact Std.ExtDTreeMap.mem_toList_iff_get?_eq_some.mpr hGet

/-- A scan of the bytes finds the records that a scan of the chain state finds. -/
theorem prefixScan_image (s : StateStore) (start : List UInt8) :
    ((image s).prefixScan start).Perm
      ((Store.scan s (Key.startsWith start)).map fun e =>
        (e.1.bytes, e.1.recordBytes e.2.val)) := by
  have hDistinct := Std.ExtDTreeMap.distinct_keys_toList (t := s)
  refine (List.perm_ext_iff_of_nodup (List.Nodup.of_map _ (keyed_prefixScan _ _)) ?_).mpr ?_
  · refine List.pairwise_map.mpr ((hDistinct.sublist List.filter_sublist).imp ?_)
    intro a b hNe hEq
    have hKey : a.1 = b.1 := Key.bytes_injective (congrArg Prod.fst hEq)
    exact hNe (by rw [hKey]; exact Std.ReflCmp.compare_self)
  · intro e
    rw [mem_prefixScan, getRaw_image, List.mem_map]
    constructor
    · rintro ⟨hStart, k, v, hGet, hKey, hValue⟩
      rw [hKey] at hStart
      exact ⟨⟨k, v⟩, Store.mem_scan.mpr ⟨hStart, hGet⟩, Prod.ext hKey.symm hValue.symm⟩
    · rintro ⟨x, hx, rfl⟩
      obtain ⟨hStart, hGet⟩ := Store.mem_scan.mp hx
      exact ⟨hStart, x.1, x.2, hGet, rfl, rfl⟩

/-- The commitment to the chain state is the commitment to its bytes. -/
theorem commitment_image {ε : Type} (s : StateStore) :
    (State.computeStateRoot sha256 : Exec ε StateCommitment).run s =
      (.ok ((image s).computeStateRoot sha256), s) := by
  have hPerm : (committed (image s)).Perm
      ((committedEntries s).map fun e => (e.1.bytes, e.1.recordBytes e.2.val)) := by
    unfold committed committedEntries
    rw [List.map_flatMap]
    exact List.Perm.flatMap_left _ fun start _ => prefixScan_image s [start]
  have hLeaves := hPerm.map fun e => sha256 (e.1 ++ e.2)
  rw [List.map_map] at hLeaves
  rw [run_computeStateRoot, computeStateRoot_eq, hPerm.length_eq, List.length_map, treeRoot,
    MerkleTree.sortedLeaves_congr hLeaves, ← treeRoot, stateRoot, leafInputs, List.map_map]
  rfl

end RawStore

end Polay.State
