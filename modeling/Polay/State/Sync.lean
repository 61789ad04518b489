import Polay.Lib.Trace
import Polay.State.Snapshot

/-!
# State sync

The manager of a state sync is fed with the metadata and the chunks of a snapshot,
which come from peers, and then writes the chunks into the store. The root is
checked after the writing, and nothing is ever deleted.
-/

namespace Polay.State

open Lib Lib.Machine Lib.Trace Polay.Types
open SnapshotCreator SnapshotRestorer

/-- What the caller of the manager is to do. -/
inductive SyncAction where
  | requestSnapshot (height : UInt64)
  | requestChunk (height : UInt64) (index : UInt32)
  | applyChunks
  | syncComplete
  | syncFailed (message : String)
deriving DecidableEq

inductive SyncPhase where
  | idle
  | requestingSnapshot
  | downloadingChunks
  | verifying
  | complete
  | failed (message : String)
deriving DecidableEq

structure StateSyncManager where
  state : SyncPhase
  store : RawStore
  snapshot : Option StateSnapshot
  chunks : List (Option SnapshotChunk)
  received : List Bool

namespace StateSyncManager

variable (sha256 : List UInt8 → Hash)

def new (store : RawStore) : StateSyncManager := ⟨.idle, store, none, [], []⟩

def startSync (m : StateSyncManager) (targetHeight : UInt64) : SyncAction × StateSyncManager :=
  (.requestSnapshot targetHeight, { m with state := .requestingSnapshot })

def onSnapshotMetadata (m : StateSyncManager) (snapshot : StateSnapshot) :
    List SyncAction × StateSyncManager :=
  let total := snapshot.totalChunks.toNat
  ((List.range total).map fun i => .requestChunk snapshot.height (UInt32.ofNat i),
    { m with
      received := List.replicate total false
      chunks := List.replicate total none
      snapshot := some snapshot
      state := .downloadingChunks })

/-- End with a message. -/
def fail (m : StateSyncManager) (message : String) : StateSyncManager :=
  { m with state := .failed message }

def onChunkReceived (m : StateSyncManager) (chunk : SnapshotChunk) :
    List SyncAction × StateSyncManager :=
  if m.state ≠ .downloadingChunks then ([], m)
  else
    match m.snapshot with
    | none => ([], m)
    | some snapshot =>
        let idx := chunk.chunkIndex.toNat
        if m.received.length ≤ idx then
          let msg := s!"chunk index {idx} out of range"
          ([.syncFailed msg], m.fail msg)
        else if verifyChunk sha256 snapshot chunk = false then
          let msg := s!"chunk {idx} failed verification"
          ([.syncFailed msg], m.fail msg)
        else
          let stored := { m with
            received := m.received.set idx true
            chunks := m.chunks.set idx (some chunk) }
          if stored.received.all id then ([.applyChunks], { stored with state := .verifying })
          else ([], stored)

/-- Write the chunks into the store and check the root. Reading the metadata panics if there are
none. -/
def applyAllChunks (m : StateSyncManager) : Outcome Empty SyncAction × StateSyncManager :=
  if m.state ≠ .verifying then
    let msg := "apply_all_chunks called in wrong state"
    (.ok (.syncFailed msg), m.fail msg)
  else
    let written := { m with store := SnapshotRestorer.applyChunks m.store (m.chunks.filterMap id) }
    match m.snapshot with
    | none => (.panic, written)
    | some snapshot =>
        if verifyRestoredState sha256 written.store snapshot.stateRoot then
          (.ok .syncComplete, { written with state := .complete })
        else
          let msg := "restored state root does not match snapshot"
          (.ok (.syncFailed msg), written.fail msg)

end StateSyncManager

open StateSyncManager

/-! ## Runs -/

/-- A call of the manager. -/
inductive SyncCall where
  | startSync (targetHeight : UInt64)
  | onSnapshotMetadata (snapshot : StateSnapshot)
  | onChunkReceived (chunk : SnapshotChunk)
  | applyAllChunks

/-- A manager, and the store as it was before the sync started. -/
structure SyncSession where
  manager : StateSyncManager
  before : RawStore

namespace SyncSession

variable (sha256 : List UInt8 → Hash)

/-- The session after a call. A sync starts with `startSync`. -/
def next (session : SyncSession) : SyncCall → SyncSession
  | .startSync height => ⟨(session.manager.startSync height).2, session.manager.store⟩
  | .onSnapshotMetadata snapshot =>
      { session with manager := (session.manager.onSnapshotMetadata snapshot).2 }
  | .onChunkReceived chunk =>
      { session with manager := (session.manager.onChunkReceived sha256 chunk).2 }
  | .applyAllChunks => { session with manager := (session.manager.applyAllChunks sha256).2 }

def start (store : RawStore) : SyncSession := ⟨StateSyncManager.new store, store⟩

/-- A failed sync has left the store as it was. -/
def Untouched (session : SyncSession) : Prop :=
  ∀ message, session.manager.state = .failed message → session.manager.store = session.before

/-- The manager refuses a chunk: it is not one of the snapshot's. -/
def Refused (m : StateSyncManager) (chunk : SnapshotChunk) : Prop :=
  m.state = .downloadingChunks ∧ ∃ snapshot, m.snapshot = some snapshot ∧
    (m.received.length ≤ chunk.chunkIndex.toNat ∨ verifyChunk sha256 snapshot chunk = false)

/-- The pairs of the received chunks. -/
def receivedPairs (m : StateSyncManager) : List RawEntry :=
  (m.chunks.filterMap id).flatMap SnapshotChunk.entries

/-- The value of a key when pairs come over a store: that of the last pair of the key,
or else the one in the store. -/
def valueOver (store : RawStore) (pairs : List RawEntry) (key : List UInt8) :
    Option (List UInt8) :=
  (pairs.reverse.lookup key).or (store.getRaw key)

/-- The last pair of every key is held before, and the other keys have not changed since. -/
def HeldBefore (before store : RawStore) (pairs : List RawEntry) : Prop :=
  ∀ key, match pairs.reverse.lookup key with
    | some value => before.getRaw key = some value
    | none => store.getRaw key = before.getRaw key

/-- The received pairs have the announced root or were held before the sync, and a call
that fails without writing finds the store from before the sync. -/
def Harmless (session : SyncSession) : SyncCall → Prop
  | .startSync _ | .onSnapshotMetadata _ => True
  | .onChunkReceived chunk =>
      Refused sha256 session.manager chunk → session.manager.store = session.before
  | .applyAllChunks =>
      let m := session.manager
      if m.state = .verifying then
        ∀ snapshot, m.snapshot = some snapshot →
          RawStore.RootOf sha256 (valueOver m.store (receivedPairs m)) snapshot.stateRoot ∨
            HeldBefore session.before m.store (receivedPairs m)
      else m.store = session.before

variable {sha256}

variable (sha256) in
theorem store_onChunkReceived (m : StateSyncManager) (chunk : SnapshotChunk) :
    (m.onChunkReceived sha256 chunk).2.store = m.store := by
  unfold onChunkReceived
  split
  · rfl
  · split
    · rfl
    · dsimp only
      split
      · rfl
      · split
        · rfl
        · split <;> rfl

variable (sha256) in
/-- A chunk fails the sync exactly if it is refused, or the sync had failed before. -/
theorem failed_onChunkReceived_iff (m : StateSyncManager) (chunk : SnapshotChunk) :
    (∃ message, (m.onChunkReceived sha256 chunk).2.state = .failed message) ↔
      Refused sha256 m chunk ∨ ∃ message, m.state = .failed message := by
  unfold onChunkReceived Refused
  by_cases hState : m.state = .downloadingChunks
  swap
  · rw [if_pos hState]
    exact ⟨.inr, fun h => h.resolve_left fun hRefused => hState hRefused.1⟩
  rw [if_neg (not_not.mpr hState)]
  have hNot : ¬ ∃ message, m.state = .failed message := by
    rintro ⟨message, hFailed⟩
    rw [hState] at hFailed
    cases hFailed
  cases hSnapshot : m.snapshot with
  | none => simp [hState]
  | some snapshot =>
      dsimp only
      by_cases hRange : m.received.length ≤ chunk.chunkIndex.toNat
      · rw [if_pos hRange]
        exact ⟨fun _ => .inl ⟨hState, snapshot, rfl, .inl hRange⟩, fun _ => ⟨_, rfl⟩⟩
      rw [if_neg hRange]
      by_cases hVerify : verifyChunk sha256 snapshot chunk = false
      · rw [if_pos hVerify]
        exact ⟨fun _ => .inl ⟨hState, snapshot, rfl, .inr hVerify⟩, fun _ => ⟨_, rfl⟩⟩
      rw [if_neg hVerify]
      refine ⟨fun h => ?_, fun h => ?_⟩
      · obtain ⟨message, hFailed⟩ := h
        split at hFailed
        · cases hFailed
        · exact absurd ⟨message, hFailed⟩ hNot
      · rcases h with ⟨_, snapshot', hEq, hBad⟩ | hFailed
        · rw [← Option.some.inj hEq] at hBad
          exact (hBad.elim hRange hVerify).elim
        · exact absurd hFailed hNot

theorem getRaw_putAll_eq_valueOver (store : RawStore) (pairs : List RawEntry) :
    (store.putAll pairs).getRaw = valueOver store pairs :=
  funext fun key => RawStore.getRaw_putAll store pairs key

/-- The root check compares the announced root with that of the pairs over the store. -/
theorem rootOf_received_iff {store : RawStore} {pairs : List RawEntry} {root : Hash} :
    RawStore.RootOf sha256 (valueOver store pairs) root ↔
      ((store.putAll pairs).computeStateRoot sha256).root = root := by
  rw [← getRaw_putAll_eq_valueOver, RawStore.rootOf_iff]

/-- Writing pairs gives back the store from before exactly if they were held there. -/
theorem heldBefore_iff {before store : RawStore} {pairs : List RawEntry} :
    HeldBefore before store pairs ↔ store.putAll pairs = before := by
  have hKey : ∀ key, ((store.putAll pairs).getRaw key = before.getRaw key) ↔
      match pairs.reverse.lookup key with
      | some value => before.getRaw key = some value
      | none => store.getRaw key = before.getRaw key := by
    intro key
    rw [RawStore.getRaw_putAll]
    cases pairs.reverse.lookup key with
    | some value => exact eq_comm
    | none => exact Iff.rfl
  constructor
  · intro hHeld
    exact RawStore.ext_getRaw fun key => (hKey key).mpr (hHeld key)
  · rintro rfl key
    exact (hKey key).mp rfl

section Apply

variable (sha256) {m : StateSyncManager}

theorem applyAllChunks_of_not_verifying (hState : m.state ≠ .verifying) :
    (m.applyAllChunks sha256).2 = m.fail "apply_all_chunks called in wrong state" := by
  unfold StateSyncManager.applyAllChunks
  rw [if_pos hState]

/-- The received pairs are written before anything is checked. -/
theorem store_applyAllChunks (hState : m.state = .verifying) :
    (m.applyAllChunks sha256).2.store = m.store.putAll (receivedPairs m) := by
  unfold StateSyncManager.applyAllChunks
  rw [if_neg (not_not.mpr hState), applyChunks_eq]
  dsimp only
  split
  · rfl
  · split <;> rfl

/-- The sync fails exactly if the received pairs do not have the announced root. -/
theorem failed_applyAllChunks_iff (hState : m.state = .verifying) :
    (∃ message, (m.applyAllChunks sha256).2.state = .failed message) ↔
      ∃ snapshot, m.snapshot = some snapshot ∧
        ¬ RawStore.RootOf sha256 (valueOver m.store (receivedPairs m)) snapshot.stateRoot := by
  unfold StateSyncManager.applyAllChunks
  rw [if_neg (not_not.mpr hState), applyChunks_eq]
  cases m.snapshot with
  | none => simp [hState]
  | some snapshot =>
      simp only [Option.some.injEq, exists_eq_left', rootOf_received_iff, verifyRestoredState,
        receivedPairs, decide_eq_true_eq]
      by_cases hRoot : ((m.store.putAll ((m.chunks.filterMap id).flatMap
          SnapshotChunk.entries)).computeStateRoot sha256).root = snapshot.stateRoot
      · rw [if_pos hRoot]
        exact iff_of_false nofun (not_not.mpr hRoot)
      · rw [if_neg hRoot]
        exact iff_of_true ⟨_, rfl⟩ hRoot

end Apply

/-- One call keeps the property exactly if it is harmless. -/
theorem untouched_next_iff {session : SyncSession} (h : session.Untouched) (c : SyncCall) :
    (session.next sha256 c).Untouched ↔ session.Harmless sha256 c := by
  cases c with
  | startSync | onSnapshotMetadata =>
      refine ⟨fun _ => trivial, fun _ message hFailed => ?_⟩
      cases hFailed
  | onChunkReceived chunk =>
      have hStore := store_onChunkReceived sha256 session.manager chunk
      have hFailed := failed_onChunkReceived_iff sha256 session.manager chunk
      constructor
      · intro hNext hRefused
        obtain ⟨message, hMessage⟩ := hFailed.mpr (.inl hRefused)
        exact hStore.symm.trans (hNext message hMessage)
      · intro hHarmless message hMessage
        refine hStore.trans ?_
        rcases hFailed.mp ⟨message, hMessage⟩ with hRefused | ⟨old, hOld⟩
        · exact hHarmless hRefused
        · exact h old hOld
  | applyAllChunks =>
      show (∀ message, (session.manager.applyAllChunks sha256).2.state = _ →
        (session.manager.applyAllChunks sha256).2.store = _) ↔ _
      unfold Harmless
      dsimp only
      split
      next hState =>
        have hStore := store_applyAllChunks sha256 hState
        have hFailed := failed_applyAllChunks_iff sha256 hState
        constructor
        · intro hAll snapshot hSnapshot
          by_contra! hNot
          obtain ⟨message, hMessage⟩ := hFailed.mpr ⟨snapshot, hSnapshot, hNot.1⟩
          exact hNot.2 (heldBefore_iff.mpr (hStore.symm.trans (hAll message hMessage)))
        · intro hHarmless message hMessage
          obtain ⟨snapshot, hSnapshot, hRoot⟩ := hFailed.mp ⟨message, hMessage⟩
          have hHeld := (hHarmless snapshot hSnapshot).resolve_left hRoot
          exact hStore.trans (heldBefore_iff.mp hHeld)
      next hState =>
        rw [applyAllChunks_of_not_verifying sha256 hState]
        exact ⟨fun hAll => hAll _ rfl, fun hStore _ _ => hStore⟩

/-- Through any calls, a failed sync leaves the store as it was before the sync started exactly
if every failing call is harmless. -/
theorem sync_failed_iff (sha256 : List UInt8 → Hash) (store : RawStore) (calls : List SyncCall) :
    (∀ l, l <+: calls → (after (next sha256) (start store) l).Untouched) ↔
      Along (next sha256) (Harmless sha256) (start store) calls := by
  have hStart : (start store).Untouched := by
    intro message hFailed
    cases hFailed
  exact throughout_iff_along (I := fun _ => True) (Q := Untouched) (fun _ _ _ => trivial)
    (fun _ c _ h => untouched_next_iff h c) trivial hStart

/-- Metadata of one chunk with a pair, and a root that is not the root of the pair. -/
def forgedSnapshot : StateSnapshot where
  height := 5
  stateRoot := Hash.zero
  totalChunks := 1
  chunkHashes := [hashChunk Crypto.checksum [([1], [10])]]

/-- The chunk of the metadata. -/
def forgedChunk : SnapshotChunk where
  height := 5
  chunkIndex := 0
  totalChunks := 1
  entries := [([1], [10])]
  chunkHash := hashChunk Crypto.checksum [([1], [10])]

/-- A sync from a peer that sends them. -/
def forgedSync : List SyncCall :=
  [.startSync 5, .onSnapshotMetadata forgedSnapshot, .onChunkReceived forgedChunk, .applyAllChunks]

/-- The sync fails, and the store keeps the pair. -/
theorem forged_pair_stays :
    (after (next Crypto.checksum) (start ∅) forgedSync).manager.state =
        .failed "restored state root does not match snapshot" ∧
      (after (next Crypto.checksum) (start ∅) forgedSync).before.getRaw [1] = none ∧
      (after (next Crypto.checksum) (start ∅) forgedSync).manager.store.getRaw [1] = some [10] := by
  refine ⟨?_, ?_, ?_⟩ <;> decide +kernel

end SyncSession

/-! ## Syncing with a snapshot -/

namespace StateSyncManager

variable {sha256 : List UInt8 → Hash}

/-- A manager that was given the metadata of a snapshot and then chunks. -/
def fed (sha256 : List UInt8 → Hash) (target : RawStore) (height : UInt64)
    (snapshot : StateSnapshot) (chunks : List SnapshotChunk) : StateSyncManager :=
  chunks.foldl (fun m c => (m.onChunkReceived sha256 c).2)
    (((new target).startSync height).2.onSnapshotMetadata snapshot).2

/-- Every slot is empty or holds the original chunk, and the flags say which. -/
structure Receiving (target : RawStore) (snapshot : StateSnapshot)
    (originals : List SnapshotChunk) (m : StateSyncManager) : Prop where
  store_eq : m.store = target
  snapshot_eq : m.snapshot = some snapshot
  length_eq : m.chunks.length = originals.length
  flags : m.received = m.chunks.map Option.isSome
  original : ∀ (i : Nat) (c : SnapshotChunk), m.chunks[i]? = some (some c) → originals[i]? = some c
  full : m.state = .verifying → ∀ slot ∈ m.chunks, slot.isSome = true

variable {target source : RawStore} {height : UInt64} {snapshot : StateSnapshot}
variable {originals : List SnapshotChunk} {m : StateSyncManager}

theorem Receiving.onChunkReceived {chunk : SnapshotChunk}
    (h : Receiving target snapshot originals m)
    (hChunk : originals[chunk.chunkIndex.toNat]? = some chunk) :
    Receiving target snapshot originals (m.onChunkReceived sha256 chunk).2 := by
  unfold StateSyncManager.onChunkReceived
  by_cases hState : m.state = .downloadingChunks
  swap
  · rw [if_pos hState]
    exact h
  rw [if_neg (not_not.mpr hState), h.snapshot_eq]
  dsimp only
  have hFailed : ∀ message, Receiving target snapshot originals (m.fail message) := fun message =>
    ⟨h.store_eq, h.snapshot_eq, h.length_eq, h.flags, h.original, fun hState => by cases hState⟩
  have hLength : (m.chunks.set chunk.chunkIndex.toNat (some chunk)).length =
      originals.length := by
    rw [List.length_set, h.length_eq]
  have hFlags : m.received.set chunk.chunkIndex.toNat true =
      (m.chunks.set chunk.chunkIndex.toNat (some chunk)).map Option.isSome := by
    rw [List.map_set, h.flags]
    rfl
  have hOriginal : ∀ (i : Nat) (c : SnapshotChunk),
      (m.chunks.set chunk.chunkIndex.toNat (some chunk))[i]? = some (some c) →
      originals[i]? = some c := by
    intro i c hc
    rw [List.getElem?_set] at hc
    split at hc
    next hEq =>
      split at hc
      · rw [← hEq, ← Option.some.inj (Option.some.inj hc)]
        exact hChunk
      · cases hc
    next => exact h.original i c hc
  split
  · exact hFailed _
  split
  · exact hFailed _
  split
  next hAll =>
    refine ⟨h.store_eq, rfl, hLength, hFlags, hOriginal, fun _ slot hSlot => ?_⟩
    rw [hFlags] at hAll
    exact List.all_eq_true.mp hAll _ (List.mem_map_of_mem hSlot)
  next =>
    refine ⟨h.store_eq, rfl, hLength, hFlags, hOriginal, fun hVerifying => ?_⟩
    rw [hState] at hVerifying
    cases hVerifying

theorem receiving_fed (hTotal : snapshot.totalChunks.toNat = originals.length)
    (hOwn : ∀ c ∈ originals, originals[c.chunkIndex.toNat]? = some c)
    {chunks : List SnapshotChunk} (hChunks : ∀ c ∈ chunks, c ∈ originals) :
    Receiving target snapshot originals (fed sha256 target height snapshot chunks) := by
  have hFold : ∀ m, Receiving target snapshot originals m →
      Receiving target snapshot originals
        (chunks.foldl (fun m c => (m.onChunkReceived sha256 c).2) m) := by
    induction chunks with
    | nil => exact fun m hm => hm
    | cons c rest ih =>
        intro m hm
        refine ih (fun x hx => hChunks x (List.mem_cons_of_mem _ hx)) _ ?_
        exact hm.onChunkReceived (hOwn c (hChunks c List.mem_cons_self))
  refine hFold _ ⟨rfl, rfl, ?_, ?_, fun i c hc => ?_, fun hState => by cases hState⟩
  · exact List.length_replicate.trans hTotal
  · show List.replicate _ false = (List.replicate _ (none : Option SnapshotChunk)).map _
    rw [List.map_replicate]
    rfl
  · -- Nothing has been received yet.
    have hNone := List.eq_of_mem_replicate (List.mem_of_getElem? hc)
    cases hNone

/-- A manager that is ready to write has the original chunks in order. -/
theorem Receiving.chunks_eq (h : Receiving target snapshot originals m)
    (hState : m.state = .verifying) : m.chunks.filterMap id = originals := by
  have hSlots : m.chunks = originals.map some := by
    apply List.ext_getElem?
    intro i
    rw [List.getElem?_map]
    by_cases hi : i < m.chunks.length
    · have hSlot : m.chunks[i]? = some m.chunks[i] := List.getElem?_eq_getElem hi
      obtain ⟨c, hc⟩ :=
        Option.isSome_iff_exists.mp (h.full hState _ (List.getElem_mem hi))
      rw [hc] at hSlot
      rw [hSlot, h.original i c hSlot]
      rfl
    · rw [List.getElem?_eq_none (Nat.not_lt.mp hi),
        List.getElem?_eq_none (h.length_eq ▸ Nat.not_lt.mp hi)]
      rfl
  rw [hSlots, List.filterMap_map]
  exact List.filterMap_some

/-- A sync that completes wrote the chunks it had. -/
theorem applyAllChunks_of_complete
    (h : (m.applyAllChunks sha256).1 = .ok .syncComplete) :
    m.state = .verifying ∧ (m.applyAllChunks sha256).2.store =
      m.store.putAll ((m.chunks.filterMap id).flatMap SnapshotChunk.entries) := by
  unfold applyAllChunks at h ⊢
  by_cases hState : m.state = .verifying
  swap
  · rw [if_pos hState] at h
    cases h
  refine ⟨hState, ?_⟩
  rw [if_neg (not_not.mpr hState), ← applyChunks_eq]
  dsimp only
  split
  · rfl
  · split <;> rfl

/-- The snapshot of a store with its root. -/
def snapshotOf (sha256 : List UInt8 → Hash) (store : RawStore) (height : UInt64) :
    StateSnapshot × List SnapshotChunk :=
  createSnapshot sha256 store height (store.computeStateRoot sha256).root

/-- A target that was fed with the metadata and chunks of a snapshot of a source, in any order,
and completed, holds what the source held exactly if every key of the target was one of the
source. -/
theorem sync_complete_iff (sha256 : List UInt8 → Hash) (source target : RawStore)
    (height targetHeight : UInt64) {chunks : List SnapshotChunk}
    (hCount : (snapshotOf sha256 source height).2.length < 2 ^ 32)
    (hChunks : ∀ c ∈ chunks, c ∈ (snapshotOf sha256 source height).2)
    (hComplete : ((fed sha256 target targetHeight (snapshotOf sha256 source height).1
      chunks).applyAllChunks sha256).1 = .ok .syncComplete) :
    ((fed sha256 target targetHeight (snapshotOf sha256 source height).1
      chunks).applyAllChunks sha256).2.store = source ↔
      ∀ key, (target.getRaw key).isSome = true → (source.getRaw key).isSome = true := by
  have hTotal : (snapshotOf sha256 source height).1.totalChunks.toNat =
      (snapshotOf sha256 source height).2.length := by
    rw [snapshotOf, length_chunks] at hCount ⊢
    exact UInt32.toNat_ofNat'.trans (Nat.mod_eq_of_lt hCount)
  have hOwn : ∀ c ∈ (snapshotOf sha256 source height).2,
      (snapshotOf sha256 source height).2[c.chunkIndex.toNat]? = some c := by
    intro c hc
    obtain ⟨i, hi⟩ := List.mem_iff_getElem?.mp hc
    rw [(verifyChunk_chunks hCount hi).1]
    exact hi
  have hFed : Receiving target _ _ (fed sha256 target targetHeight _ chunks) :=
    receiving_fed hTotal hOwn hChunks
  obtain ⟨hState, hStore⟩ := applyAllChunks_of_complete hComplete
  rw [hStore, hFed.chunks_eq hState, hFed.store_eq, snapshotOf, entries_chunks,
    RawStore.putAll_scan_eq_iff (.refl _)]

theorem sync_complete_iff_two :
    ((fed Crypto.checksum ∅ 5 (snapshotOf Crypto.checksum twoPairs 5).1
      (snapshotOf Crypto.checksum twoPairs 5).2).applyAllChunks Crypto.checksum).2.store =
        twoPairs := by
  refine (sync_complete_iff Crypto.checksum twoPairs ∅ 5 5 (by decide +kernel)
    (fun c hc => hc) (by decide +kernel)).mpr fun key hKey => ?_
  rw [RawStore.getRaw_empty] at hKey
  cases hKey

/-- A target with another key than the source, in a family that the root does not cover. -/
def staleTarget : RawStore := RawStore.putAll ∅ [([0x18], [1])]

/-- The target after a sync from the source. -/
def staleSync : Outcome Empty SyncAction × StateSyncManager :=
  (fed Crypto.checksum staleTarget 5 (snapshotOf Crypto.checksum twoPairs 5).1
    (snapshotOf Crypto.checksum twoPairs 5).2).applyAllChunks Crypto.checksum

/-- The sync completes, and the key stays. -/
theorem stale_key_stays :
    staleSync.1 = .ok .syncComplete ∧ staleSync.2.store.getRaw [0x18] = some [1] ∧
      twoPairs.getRaw [0x18] = none := by
  refine ⟨?_, ?_, ?_⟩ <;> decide +kernel

end StateSyncManager

end Polay.State
