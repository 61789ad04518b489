import Polay.Lib.Overlay
import Polay.State.RawStore

/-!
# Overlays over byte stores

The executor gives a transaction an overlay: writes are kept on top of a base
store, deletions as tombstones, and reads look through. A base store is anything
that stands for a sorted map of bytes (`SortedStore`): the in-memory store, and an
overlay again. Calls on an overlay answer what they answer on a copy of its base,
and flushing makes the base that copy.
-/

namespace Polay.State

open Lib

/-- A store whose answers are those of a sorted map, its contents. -/
class SortedStore (σ : Type) where
  getRaw : σ → List UInt8 → Option (List UInt8)
  putRaw : σ → List UInt8 → List UInt8 → σ
  delete : σ → List UInt8 → σ
  prefixScan : σ → List UInt8 → List RawEntry
  contents : σ → RawStore
  getRaw_eq : ∀ s key, getRaw s key = (contents s).getRaw key
  contents_putRaw : ∀ s key value, contents (putRaw s key value) = (contents s).putRaw key value
  contents_delete : ∀ s key, contents (delete s key) = (contents s).erase key
  prefixScan_eq : ∀ s start, prefixScan s start = (contents s).prefixScan start

/-! ## The in-memory store -/

namespace MemoryStore

/-- The entries from the given bytes on, as long as they start with them. -/
def prefixScan (s : RawStore) (start : List UInt8) : List RawEntry :=
  ((s.toList.filter fun e => (compare e.1 start).isGE).takeWhile fun e =>
    start.isPrefixOf e.1).map fun e => (e.1, e.2)

theorem isGE_of_isPrefix {start key : List UInt8} (h : start <+: key) :
    (compare key start).isGE = true := by
  induction start generalizing key with
  | nil => cases key <;> rfl
  | cons b start ih =>
      obtain ⟨rest, rfl⟩ := h
      rw [List.cons_append, List.compare_cons_cons, Std.ReflOrd.compare_self]
      exact ih (List.prefix_append _ _)

/-- Keys that start with the given bytes come before the other keys from there on. -/
theorem isPrefix_of_between {start key key' : List UInt8} (hFrom : (compare key start).isGE = true)
    (hLt : compare key key' = .lt) (h : start <+: key') : start <+: key := by
  induction start generalizing key key' with
  | nil => exact List.nil_prefix
  | cons b start ih =>
      obtain ⟨rest, rfl⟩ := h
      cases key with
      | nil => cases hFrom
      | cons c key =>
          rw [List.compare_cons_cons] at hFrom
          rw [List.cons_append, List.compare_cons_cons] at hLt
          have hEq : compare c b = .eq := by
            cases hByte : compare c b with
            | lt => rw [hByte] at hFrom; cases hFrom
            | eq => rfl
            | gt => rw [hByte] at hLt; cases hLt
          rw [hEq] at hFrom hLt
          rw [Std.LawfulEqOrd.eq_of_compare hEq]
          exact List.cons_prefix_cons.mpr ⟨rfl, ih hFrom hLt (List.prefix_append _ _)⟩

theorem takeWhile_eq_filter {α : Type} {q : α → Bool} {l : List α}
    (h : l.Pairwise fun a b => q b = true → q a = true) : l.takeWhile q = l.filter q := by
  induction l with
  | nil => rfl
  | cons a rest ih =>
      obtain ⟨hFirst, hRest⟩ := List.pairwise_cons.mp h
      by_cases hq : q a = true
      · rw [List.takeWhile_cons_of_pos hq, List.filter_cons_of_pos hq, ih hRest]
      · rw [List.takeWhile_cons_of_neg hq, List.filter_cons_of_neg hq]
        refine (List.filter_eq_nil_iff.mpr fun b hb hTrue => ?_).symm
        exact hq (hFirst b hb hTrue)

/-- Stopping at the first other key misses nothing. -/
theorem prefixScan_eq (s : RawStore) (start : List UInt8) :
    prefixScan s start = s.prefixScan start := by
  have hSorted : (s.toList.filter fun e => (compare e.1 start).isGE).Pairwise fun a b =>
      start.isPrefixOf b.1 = true → start.isPrefixOf a.1 = true := by
    rw [List.pairwise_filter]
    refine (Std.ExtDTreeMap.ordered_keys_toList (t := s)).imp fun hLt hFrom _ h => ?_
    rw [List.isPrefixOf_iff_prefix] at h ⊢
    exact isPrefix_of_between hFrom hLt h
  unfold prefixScan RawStore.prefixScan Store.scan
  rw [takeWhile_eq_filter hSorted, List.filter_filter]
  congr 1
  refine List.filter_congr fun e _ => ?_
  show (start.isPrefixOf e.1 && (compare e.1 start).isGE) = start.isPrefixOf e.1
  cases hStart : start.isPrefixOf e.1 with
  | false => rfl
  | true => exact isGE_of_isPrefix (List.isPrefixOf_iff_prefix.mp hStart)

instance : SortedStore RawStore where
  getRaw := RawStore.getRaw
  putRaw := RawStore.putRaw
  delete s key := s.erase key
  prefixScan := prefixScan
  contents s := s
  getRaw_eq _ _ := rfl
  contents_putRaw _ _ _ := rfl
  contents_delete _ _ := rfl
  prefixScan_eq := prefixScan_eq

end MemoryStore

/-! ## Overlays -/

/-- A base store with pending writes on top; a deletion is a tombstone. -/
structure OverlayStore (σ : Type) where
  base : σ
  overlay : Store (fun _ : List UInt8 => Option (List UInt8)) (compare : List UInt8 → _ → Ordering)

namespace OverlayStore

variable {σ : Type} [SortedStore σ]

def new (base : σ) : OverlayStore σ := ⟨base, ∅⟩

/-- The pending writes in key order. -/
def drainWrites (o : OverlayStore σ) : List (Sigma fun _ : List UInt8 => Option (List UInt8)) :=
  o.overlay.toList

/-- Apply writes to a store. -/
def applyWrites (s : σ) (writes : List (Sigma fun _ : List UInt8 => Option (List UInt8))) : σ :=
  writes.foldl (fun s e => match e.2 with
    | some data => SortedStore.putRaw s e.1 data
    | none => SortedStore.delete s e.1) s

/-- Write everything into the base. -/
def flush (o : OverlayStore σ) : Nat × σ := (o.drainWrites.length, applyWrites o.base o.drainWrites)

def getRaw (o : OverlayStore σ) (key : List UInt8) : Option (List UInt8) :=
  match o.overlay.get? key with
  | some entry => entry
  | none => SortedStore.getRaw o.base key

def putRaw (o : OverlayStore σ) (key value : List UInt8) : OverlayStore σ :=
  { o with overlay := o.overlay.insert key (some value) }

def delete (o : OverlayStore σ) (key : List UInt8) : OverlayStore σ :=
  { o with overlay := o.overlay.insert key none }

/-- The scan of the base with the pending writes applied to it. -/
def prefixScan (o : OverlayStore σ) (start : List UInt8) : List RawEntry :=
  let results := RawStore.putAll ∅ (SortedStore.prefixScan o.base start)
  let writes := o.drainWrites.filter fun e => start.isPrefixOf e.1
  ((applyWrites results writes).toList).map fun e => (e.1, e.2)

/-- The overlay over the contents of its base. -/
def lifted (o : OverlayStore σ) :
    Overlay (fun _ : List UInt8 => List UInt8) (compare : List UInt8 → _ → Ordering) :=
  ⟨SortedStore.contents o.base, o.overlay⟩

theorem contents_applyWrites (s : σ)
    (writes : List (Sigma fun _ : List UInt8 => Option (List UInt8))) :
    SortedStore.contents (applyWrites s writes) =
      Overlay.flushTo (SortedStore.contents s) writes := by
  induction writes generalizing s with
  | nil => rfl
  | cons e rest ih =>
      obtain ⟨key, value⟩ := e
      cases value with
      | some data =>
          refine (ih (SortedStore.putRaw s key data)).trans ?_
          rw [SortedStore.contents_putRaw]
          rfl
      | none =>
          refine (ih (SortedStore.delete s key)).trans ?_
          rw [SortedStore.contents_delete]
          rfl

theorem getRaw_eq (o : OverlayStore σ) (key : List UInt8) :
    o.getRaw key = RawStore.getRaw o.lifted.view key := by
  have hView : RawStore.getRaw o.lifted.view key =
      (o.overlay.get? key).getD ((SortedStore.contents o.base).getRaw key) :=
    Overlay.get?_view o.lifted key
  rw [hView, getRaw, SortedStore.getRaw_eq]
  cases o.overlay.get? key <;> rfl

theorem prefixScan_eq (o : OverlayStore σ) (start : List UInt8) :
    o.prefixScan start = RawStore.prefixScan o.lifted.view start := by
  have hBase : RawStore.putAll ∅ (SortedStore.prefixScan o.base start) =
      (Store.scan (SortedStore.contents o.base) fun k => start.isPrefixOf k).foldl
        (fun m e => m.insert e.1 e.2) ∅ := by
    rw [SortedStore.prefixScan_eq, RawStore.prefixScan, RawStore.putAll, List.foldl_map]
    rfl
  unfold RawStore.prefixScan prefixScan
  rw [← Overlay.scan_eq_view, hBase]
  exact congrArg (fun m : RawStore => m.toList.map fun e => (e.1, e.2))
    (contents_applyWrites (σ := RawStore) _ _)

/-- An overlay is a sorted store again. -/
instance : SortedStore (OverlayStore σ) where
  getRaw := getRaw
  putRaw := putRaw
  delete := delete
  prefixScan := prefixScan
  contents o := o.lifted.view
  getRaw_eq := getRaw_eq
  contents_putRaw o key value := Overlay.view_write o.lifted key (some value)
  contents_delete o key := Overlay.view_write o.lifted key none
  prefixScan_eq := prefixScan_eq

end OverlayStore

/-! ## Sequences of calls -/

/-- A call of a store. -/
inductive StoreCall where
  | getRaw (key : List UInt8)
  | putRaw (key value : List UInt8)
  | delete (key : List UInt8)
  | prefixScan (start : List UInt8)

/-- What a call returns. -/
inductive StoreAnswer where
  | value (v : Option (List UInt8))
  | done
  | entries (l : List RawEntry)
deriving DecidableEq

section Calls

variable {σ : Type} [SortedStore σ]

def StoreCall.perform (s : σ) : StoreCall → StoreAnswer × σ
  | .getRaw key => (.value (SortedStore.getRaw s key), s)
  | .putRaw key value => (.done, SortedStore.putRaw s key value)
  | .delete key => (.done, SortedStore.delete s key)
  | .prefixScan start => (.entries (SortedStore.prefixScan s start), s)

/-- The answers to a sequence of calls, and the store after it. -/
def performAll (s : σ) : List StoreCall → List StoreAnswer × σ
  | [] => ([], s)
  | c :: rest =>
      let (answer, s) := c.perform s
      let (answers, s) := performAll s rest
      (answer :: answers, s)

/-- A call does on a store what it does on its contents. -/
theorem perform_contents (s : σ) (c : StoreCall) :
    c.perform (SortedStore.contents s) =
      ((c.perform s).1, SortedStore.contents (c.perform s).2) := by
  cases c with
  | getRaw key =>
      show (StoreAnswer.value ((SortedStore.contents s).getRaw key), _) = _
      rw [← SortedStore.getRaw_eq]
      rfl
  | putRaw key value =>
      show (StoreAnswer.done, (SortedStore.contents s).putRaw key value) = _
      rw [← SortedStore.contents_putRaw]
      rfl
  | delete key =>
      show (StoreAnswer.done, (SortedStore.contents s).erase key) = _
      rw [← SortedStore.contents_delete]
      rfl
  | prefixScan start =>
      show (StoreAnswer.entries (MemoryStore.prefixScan (SortedStore.contents s) start), _) = _
      rw [MemoryStore.prefixScan_eq, ← SortedStore.prefixScan_eq]
      rfl

theorem performAll_contents (s : σ) (calls : List StoreCall) :
    performAll (SortedStore.contents s) calls =
      ((performAll s calls).1, SortedStore.contents (performAll s calls).2) := by
  induction calls generalizing s with
  | nil => rfl
  | cons c rest ih =>
      show ((c.perform (SortedStore.contents s)).1 ::
          (performAll (c.perform (SortedStore.contents s)).2 rest).1,
        (performAll (c.perform (SortedStore.contents s)).2 rest).2) = _
      rw [perform_contents, ih]
      rfl

theorem OverlayStore.base_performAll (o : OverlayStore σ) (calls : List StoreCall) :
    (performAll o calls).2.base = o.base := by
  induction calls generalizing o with
  | nil => rfl
  | cons c rest ih =>
      refine (ih (c.perform o).2).trans ?_
      cases c <;> rfl

/-- Calls on an overlay answer what they answer on a copy of the base and leave the base as it is,
and flushing, or applying the drained writes, makes the base that copy. The base may be an overlay
itself. -/
theorem overlay_like_copy (base : σ) (calls : List StoreCall) :
    let run := performAll (OverlayStore.new base) calls
    let copy := performAll (SortedStore.contents base) calls
    run.1 = copy.1 ∧ run.2.base = base ∧ SortedStore.contents run.2.flush.2 = copy.2 ∧
      SortedStore.contents (OverlayStore.applyWrites base run.2.drainWrites) = copy.2 := by
  intro run copy
  have hNew : SortedStore.contents (OverlayStore.new base) = SortedStore.contents base :=
    Overlay.view_new _
  have hRun := performAll_contents (OverlayStore.new base) calls
  rw [hNew] at hRun
  have hBase : run.2.base = base := OverlayStore.base_performAll (OverlayStore.new base) calls
  have hFlush : SortedStore.contents run.2.flush.2 = copy.2 :=
    (OverlayStore.contents_applyWrites run.2.base run.2.drainWrites).trans
      (congrArg Prod.snd hRun).symm
  refine ⟨(congrArg Prod.fst hRun).symm, hBase, hFlush, ?_⟩
  rw [← hFlush, OverlayStore.flush, hBase]

end Calls

end Polay.State
