import Polay.State.RawStore

/-!
# Snapshots

A snapshot splits the pairs of a store, in the order of their keys, into chunks of
bounded size, and announces the hash of each chunk. A chunk is checked against its
hash and applied by writing its pairs.
-/

namespace Polay.State

open Lib Lib.Assoc Lib.Bytes Lib.Merkle Polay.Types

/-- The target size of a chunk in bytes. -/
def chunkSize : Nat := 1024 * 1024

structure StateSnapshot where
  height : UInt64
  stateRoot : Hash
  totalChunks : UInt32
  chunkHashes : List Hash
deriving DecidableEq

structure SnapshotChunk where
  height : UInt64
  chunkIndex : UInt32
  totalChunks : UInt32
  entries : List RawEntry
  chunkHash : Hash
deriving DecidableEq

namespace SnapshotCreator

variable (sha256 : List UInt8 → Hash)

/-- The bytes of a key and its value with their lengths. -/
def entryMessage (e : RawEntry) : List UInt8 :=
  leBytes 8 e.1.length ++ (e.1 ++ (leBytes 8 e.2.length ++ e.2))

/-- The message of a chunk. -/
def chunkMessage (entries : List RawEntry) : List UInt8 :=
  leBytes 8 entries.length ++ entries.flatMap entryMessage

def hashChunk (entries : List RawEntry) : Hash := sha256 (chunkMessage entries)

/-- The bytes of keys and values in some pairs. -/
def byteSize (entries : List RawEntry) : Nat :=
  (entries.map fun e => e.1.length + e.2.length).sum

/-- The loop that fills chunks: `current` is the chunk being filled, `size` its bytes. -/
def fillChunks : List RawEntry → Nat → List RawEntry → List (List RawEntry)
  | current, _, [] => if current = [] then [] else [current]
  | current, size, e :: rest =>
      let entrySize := e.1.length + e.2.length
      if chunkSize < size + entrySize ∧ current ≠ [] then
        current :: fillChunks [e] entrySize rest
      else fillChunks (current ++ [e]) (size + entrySize) rest

/-- Split pairs into chunks. There is always one, even if it is empty. -/
def splitIntoChunks (entries : List RawEntry) : List (List RawEntry) :=
  if entries = [] then [[]] else fillChunks [] 0 entries

/-- The snapshot of a store, and its chunks in order. -/
def createSnapshot (store : RawStore) (height : UInt64) (stateRoot : Hash) :
    StateSnapshot × List SnapshotChunk :=
  let rawChunks := splitIntoChunks (store.prefixScan [])
  let totalChunks := UInt32.ofNat rawChunks.length
  let chunks := rawChunks.mapIdx fun idx entries =>
    { height, chunkIndex := UInt32.ofNat idx, totalChunks, entries
      chunkHash := hashChunk sha256 entries }
  ({ height, stateRoot, totalChunks, chunkHashes := rawChunks.map (hashChunk sha256) }, chunks)

end SnapshotCreator

namespace SnapshotRestorer

variable (sha256 : List UInt8 → Hash)

/-- Check a chunk against the announced hashes. -/
def verifyChunk (snapshot : StateSnapshot) (chunk : SnapshotChunk) : Bool :=
  let computed := SnapshotCreator.hashChunk sha256 chunk.entries
  match snapshot.chunkHashes[chunk.chunkIndex.toNat]? with
  | none => false
  | some announced => decide (computed = chunk.chunkHash) && decide (announced = computed)

def applyChunk (store : RawStore) (chunk : SnapshotChunk) : RawStore := store.putAll chunk.entries

/-- Check the root of a restored store. -/
def verifyRestoredState (store : RawStore) (expectedRoot : Hash) : Bool :=
  decide ((store.computeStateRoot sha256).root = expectedRoot)

/-- Apply chunks one after another. -/
def applyChunks (store : RawStore) (chunks : List SnapshotChunk) : RawStore :=
  chunks.foldl applyChunk store

theorem applyChunks_eq (store : RawStore) (chunks : List SnapshotChunk) :
    applyChunks store chunks = store.putAll (chunks.flatMap SnapshotChunk.entries) := by
  induction chunks generalizing store with
  | nil => rfl
  | cons c rest ih =>
      rw [List.flatMap_cons, RawStore.putAll_append]
      exact ih (applyChunk store c)

end SnapshotRestorer

namespace SnapshotCreator

open SnapshotRestorer

variable {sha256 : List UInt8 → Hash}

/-! ## The split -/

variable (entries : List RawEntry)

/-- The chunks are the pairs in their order. -/
theorem flatten_fillChunks (current : List RawEntry) (size : Nat) (entries : List RawEntry) :
    (fillChunks current size entries).flatten = current ++ entries := by
  induction entries generalizing current size with
  | nil =>
      unfold fillChunks
      by_cases hEmpty : current = []
      · rw [if_pos hEmpty, hEmpty]
        rfl
      · rw [if_neg hEmpty, List.flatten_singleton, List.append_nil]
  | cons e rest ih =>
      unfold fillChunks
      dsimp only
      split
      · rw [List.flatten_cons, ih, List.singleton_append]
      · rw [ih, List.append_assoc, List.singleton_append]

theorem flatten_splitIntoChunks : (splitIntoChunks entries).flatten = entries := by
  unfold splitIntoChunks
  by_cases hEmpty : entries = []
  · rw [if_pos hEmpty, hEmpty]
    rfl
  · rw [if_neg hEmpty, flatten_fillChunks, List.nil_append]

/-- A chunk is within the size or holds one pair. -/
def WithinSize (entries : List RawEntry) : Prop :=
  byteSize entries ≤ chunkSize ∨ entries.length = 1

theorem byteSize_concat (e : RawEntry) :
    byteSize (entries ++ [e]) = byteSize entries + (e.1.length + e.2.length) := by
  simp [byteSize]

theorem withinSize_fillChunks {current : List RawEntry} (hCurrent : WithinSize current)
    (entries : List RawEntry) :
    ∀ chunk ∈ fillChunks current (byteSize current) entries, WithinSize chunk := by
  induction entries generalizing current with
  | nil =>
      intro chunk hChunk
      unfold fillChunks at hChunk
      split at hChunk
      · cases hChunk
      · rw [List.mem_singleton.mp hChunk]
        exact hCurrent
  | cons e rest ih =>
      intro chunk hChunk
      unfold fillChunks at hChunk
      dsimp only at hChunk
      split at hChunk
      next =>
        rcases List.mem_cons.mp hChunk with rfl | hMem
        · exact hCurrent
        · have hSize : e.1.length + e.2.length = byteSize [e] := by simp [byteSize]
          rw [hSize] at hMem
          exact ih (.inr rfl) chunk hMem
      next hRoom =>
        rw [← byteSize_concat] at hChunk
        refine ih ?_ chunk hChunk
        -- Either the pair fits, or it is the first one.
        by_cases hEmpty : current = []
        · subst hEmpty
          exact .inr rfl
        · have hFits : ¬ chunkSize < byteSize current + (e.1.length + e.2.length) :=
            fun hOver => hRoom ⟨hOver, hEmpty⟩
          left
          rw [byteSize_concat]
          omega

theorem withinSize_splitIntoChunks : ∀ chunk ∈ splitIntoChunks entries, WithinSize chunk := by
  have hNil : WithinSize [] := .inl (Nat.zero_le _)
  unfold splitIntoChunks
  split
  · intro chunk hChunk
    rw [List.mem_singleton.mp hChunk]
    exact hNil
  · exact withinSize_fillChunks hNil entries

/-! ## The message of a chunk -/

/-- The numbers of pairs and bytes are machine words. -/
structure Fits (entries : List RawEntry) : Prop where
  count : entries.length < 256 ^ 8
  keys : ∀ e ∈ entries, e.1.length < 256 ^ 8
  values : ∀ e ∈ entries, e.2.length < 256 ^ 8

/-- Bytes behind their length. -/
theorem lengthPrefixed_append_inj {a b r s : List UInt8} (ha : a.length < 256 ^ 8)
    (hb : b.length < 256 ^ 8)
    (h : leBytes 8 a.length ++ (a ++ r) = leBytes 8 b.length ++ (b ++ s)) : a = b ∧ r = s := by
  obtain ⟨hLength, hRest⟩ := leBytes_append_inj ha hb h
  exact List.append_inj hRest hLength

theorem entryMessage_append_inj {e e' : RawEntry} {r s : List UInt8}
    (hKey : e.1.length < 256 ^ 8) (hValue : e.2.length < 256 ^ 8)
    (hKey' : e'.1.length < 256 ^ 8) (hValue' : e'.2.length < 256 ^ 8)
    (h : entryMessage e ++ r = entryMessage e' ++ s) : e = e' ∧ r = s := by
  unfold entryMessage at h
  simp only [List.append_assoc] at h
  obtain ⟨hFirst, hRest⟩ := lengthPrefixed_append_inj hKey hKey' h
  obtain ⟨hSecond, hTail⟩ := lengthPrefixed_append_inj hValue hValue' hRest
  exact ⟨Prod.ext hFirst hSecond, hTail⟩

/-- The message determines the pairs. -/
theorem chunkMessage_inj {l l' : List RawEntry} (hl : Fits l) (hl' : Fits l')
    (h : chunkMessage l = chunkMessage l') : l = l' := by
  obtain ⟨hLength, hRest⟩ := leBytes_append_inj hl.count hl'.count h
  have hKeys := hl.keys
  have hValues := hl.values
  have hKeys' := hl'.keys
  have hValues' := hl'.values
  clear h hl hl'
  induction l generalizing l' with
  | nil => exact (List.length_eq_zero_iff.mp hLength.symm).symm
  | cons e rest ih =>
      cases l' with
      | nil => cases hLength
      | cons e' rest' =>
          rw [List.flatMap_cons, List.flatMap_cons] at hRest
          obtain ⟨hEntry, hTail⟩ := entryMessage_append_inj (hKeys e (by simp))
            (hValues e (by simp)) (hKeys' e' (by simp)) (hValues' e' (by simp)) hRest
          rw [hEntry, ih (Nat.succ.inj hLength) hTail
            (fun x hx => hKeys x (List.mem_cons_of_mem _ hx))
            (fun x hx => hValues x (List.mem_cons_of_mem _ hx))
            (fun x hx => hKeys' x (List.mem_cons_of_mem _ hx))
            (fun x hx => hValues' x (List.mem_cons_of_mem _ hx))]

/-! ## Round trip -/

theorem verifyChunk_eq_true {snapshot : StateSnapshot} {chunk : SnapshotChunk} :
    verifyChunk sha256 snapshot chunk = true ↔
      hashChunk sha256 chunk.entries = chunk.chunkHash ∧
        snapshot.chunkHashes[chunk.chunkIndex.toNat]? =
          some (hashChunk sha256 chunk.entries) := by
  unfold verifyChunk
  cases snapshot.chunkHashes[chunk.chunkIndex.toNat]? with
  | none => simp
  | some announced => simp

variable (sha256) in
/-- The chunk at an index of a snapshot. -/
theorem getElem?_chunks (store : RawStore) (height : UInt64) (root : Hash) (i : Nat) :
    (createSnapshot sha256 store height root).2[i]? =
      (splitIntoChunks (store.prefixScan []))[i]?.map fun entries =>
        { height, chunkIndex := UInt32.ofNat i
          totalChunks := UInt32.ofNat (splitIntoChunks (store.prefixScan [])).length
          entries, chunkHash := hashChunk sha256 entries } := by
  unfold createSnapshot
  rw [List.getElem?_mapIdx]

variable (sha256) in
theorem length_chunks (store : RawStore) (height : UInt64) (root : Hash) :
    (createSnapshot sha256 store height root).2.length =
      (splitIntoChunks (store.prefixScan [])).length := by
  unfold createSnapshot
  rw [List.length_mapIdx]

variable (sha256) in
/-- The chunks of a snapshot hold the pairs of the store. -/
theorem entries_chunks (store : RawStore) (height : UInt64) (root : Hash) :
    (createSnapshot sha256 store height root).2.flatMap SnapshotChunk.entries =
      store.prefixScan [] := by
  have hMap : (createSnapshot sha256 store height root).2.map SnapshotChunk.entries =
      splitIntoChunks (store.prefixScan []) := by
    apply List.ext_getElem?
    intro i
    rw [List.getElem?_map, getElem?_chunks, Option.map_map]
    exact Option.map_id'
  rw [List.flatMap_def, hMap, flatten_splitIntoChunks]

/-- With fewer than `2 ^ 32` chunks, each has its own index. -/
theorem verifyChunk_chunks {store : RawStore} {height : UInt64} {root : Hash} {i : Nat}
    {chunk : SnapshotChunk}
    (hCount : (createSnapshot sha256 store height root).2.length < 2 ^ 32)
    (h : (createSnapshot sha256 store height root).2[i]? = some chunk) :
    chunk.chunkIndex.toNat = i ∧
      verifyChunk sha256 (createSnapshot sha256 store height root).1 chunk = true := by
  have hLt : i < (createSnapshot sha256 store height root).2.length :=
    (List.getElem?_eq_some_iff.mp h).1
  rw [getElem?_chunks] at h
  obtain ⟨entries, hEntries, rfl⟩ := Option.map_eq_some_iff.mp h
  have hIndex : (UInt32.ofNat i).toNat = i := by
    rw [UInt32.toNat_ofNat']
    exact Nat.mod_eq_of_lt (hLt.trans hCount)
  refine ⟨hIndex, verifyChunk_eq_true.mpr ⟨rfl, ?_⟩⟩
  show ((splitIntoChunks (store.prefixScan [])).map (hashChunk sha256))[(UInt32.ofNat i).toNat]? = _
  rw [hIndex, List.getElem?_map, hEntries]
  rfl

/-- The chunks of a snapshot, applied to an empty store in any order, restore the store. Each
passes the check and is within the size, and without a collision a chunk that passes the check
has the pairs of the original one. -/
theorem snapshot_roundTrip (sha256 : List UInt8 → Hash) (store : RawStore) (height : UInt64)
    (root : Hash) (hCount : (createSnapshot sha256 store height root).2.length < 2 ^ 32) :
    (∀ chunks, chunks.Perm (createSnapshot sha256 store height root).2 →
      applyChunks ∅ chunks = store) ∧
    (∀ chunk ∈ (createSnapshot sha256 store height root).2,
      verifyChunk sha256 (createSnapshot sha256 store height root).1 chunk = true ∧
      WithinSize chunk.entries) ∧
    ∀ chunk, verifyChunk sha256 (createSnapshot sha256 store height root).1 chunk = true →
      ∃ original,
        (createSnapshot sha256 store height root).2[chunk.chunkIndex.toNat]? = some original ∧
        (Fits chunk.entries → Fits original.entries →
          NoCollision sha256 [chunkMessage chunk.entries, chunkMessage original.entries] →
          chunk.entries = original.entries) := by
  refine ⟨fun chunks hPerm => ?_, fun chunk hChunk => ⟨?_, ?_⟩, fun chunk hVerify => ?_⟩
  · have hEntries := List.Perm.flatMap_right SnapshotChunk.entries hPerm
    rw [entries_chunks] at hEntries
    rw [applyChunks_eq, RawStore.putAll_scan_eq_iff hEntries]
    intro key hKey
    rw [RawStore.getRaw_empty] at hKey
    cases hKey
  · obtain ⟨i, hi⟩ := List.mem_iff_getElem?.mp hChunk
    exact (verifyChunk_chunks hCount hi).2
  · obtain ⟨i, hi⟩ := List.mem_iff_getElem?.mp hChunk
    rw [getElem?_chunks] at hi
    obtain ⟨entries, hEntries, rfl⟩ := Option.map_eq_some_iff.mp hi
    exact withinSize_splitIntoChunks _ entries (List.mem_of_getElem? hEntries)
  · have hHash := (verifyChunk_eq_true.mp hVerify).2
    have hAnnounced : ((splitIntoChunks (store.prefixScan [])).map
        (hashChunk sha256))[chunk.chunkIndex.toNat]? =
        some (hashChunk sha256 chunk.entries) := hHash
    rw [List.getElem?_map] at hAnnounced
    obtain ⟨entries, hEntries, hEq⟩ := Option.map_eq_some_iff.mp hAnnounced
    refine ⟨_, by rw [getElem?_chunks, hEntries]; rfl, fun hFits hFits' hFree => ?_⟩
    exact chunkMessage_inj hFits hFits' (hFree _ (by simp) _ (by simp) hEq.symm)

/-- A store with two pairs. -/
def twoPairs : RawStore := RawStore.putAll ∅ [([1], [10]), ([2], [20])]

theorem snapshot_roundTrip_two :
    applyChunks ∅ (createSnapshot Crypto.checksum twoPairs 5 Hash.zero).2 = twoPairs :=
  (snapshot_roundTrip Crypto.checksum twoPairs 5 Hash.zero (by decide +kernel)).1 _ (.refl _)

end SnapshotCreator

end Polay.State
