import Polay.Lib.Footprint

/-!
# Write overlays

An overlay collects writes on top of a base store without touching it: reads
look at the pending writes first, a deletion is kept as a tombstone, and a scan
merges both levels. Draining an overlay gives its pending writes, which can be
flushed into a store later.

A program run on an overlay computes what it computes on the store the overlay
stands for (`view`), and its pending writes are exactly the keys it writes. So
flushing them into any store copies the program's writes and nothing else
(`get?_flush_run`).
-/

namespace Polay.Lib

open Lib.Machine

/-- A store with writes on top that have not reached it. -/
structure Overlay {K : Type} (V : K → Type) (cmp : K → K → Ordering) where
  base : Store V cmp
  pending : Store (fun k => Option (V k)) cmp

namespace Overlay

variable {K : Type} {V : K → Type} {cmp : K → K → Ordering} {ε α : Type}
variable [Std.TransCmp cmp] [Std.LawfulEqCmp cmp]
variable (p : Prog K V ε α) (o : Overlay V cmp) (s : Store V cmp) (q : K → Bool) (k : K)

def new (base : Store V cmp) : Overlay V cmp := ⟨base, ∅⟩

/-- Apply one pending write to a store. -/
def writeEntry (s : Store V cmp) (e : Sigma fun k => Option (V k)) : Store V cmp :=
  match e.2 with
  | some v => s.insert e.1 v
  | none => s.erase e.1

/-- Apply pending writes to a store, in the order given. -/
def flushTo (s : Store V cmp) (l : List (Sigma fun k => Option (V k))) : Store V cmp :=
  l.foldl writeEntry s

/-- All pending writes in key order. -/
def drainWrites (o : Overlay V cmp) : List (Sigma fun k => Option (V k)) := o.pending.toList

/-- The pending write of a key if there is one, otherwise the base record. -/
def get (o : Overlay V cmp) (k : K) : Option (V k) :=
  match o.pending.get? k with
  | some entry => entry
  | none => o.base.get? k

/-- The entries a scan sees: those of the base with the pending ones on top. -/
def scan (o : Overlay V cmp) (q : K → Bool) : List (Sigma V) :=
  let results : Store V cmp := (o.base.scan q).foldl (fun m e => m.insert e.1 e.2) ∅
  (flushTo results (o.drainWrites.filter fun e => q e.1)).toList

def backend : Prog.Backend K V (Overlay V cmp) where
  get o k := o.get k
  put o k v := { o with pending := o.pending.insert k (some v) }
  delete o k := { o with pending := o.pending.insert k none }
  scan o q := o.scan q

/-! ## Flushing -/

theorem get?_writeEntry_self (w : Option (V k)) : (writeEntry s ⟨k, w⟩).get? k = w := by
  cases w with
  | none => exact Std.ExtDTreeMap.get?_erase_self
  | some v => exact Std.ExtDTreeMap.get?_insert_self

theorem get?_writeEntry_ne {s : Store V cmp} {e : Sigma fun k => Option (V k)} {a : K}
    (h : e.1 ≠ a) : (writeEntry s e).get? a = s.get? a := by
  obtain ⟨k, w⟩ := e
  cases w with
  | none => exact Store.get?_erase_ne h
  | some v => exact Store.get?_insert_ne h

theorem get?_flushTo_of_not_mem {s : Store V cmp} {l : List (Sigma fun k => Option (V k))}
    {a : K} (h : ∀ e ∈ l, e.1 ≠ a) : (flushTo s l).get? a = s.get? a := by
  induction l generalizing s with
  | nil => rfl
  | cons e l ih =>
      show (flushTo (writeEntry s e) l).get? a = _
      rw [ih fun e' he' => h e' (List.mem_cons_of_mem _ he')]
      exact get?_writeEntry_ne (h e (List.mem_cons_self ..))

theorem get?_flushTo_of_mem {s : Store V cmp} {l : List (Sigma fun k => Option (V k))}
    (hDistinct : l.Pairwise fun e e' => e.1 ≠ e'.1) {k : K} {w : Option (V k)}
    (h : ⟨k, w⟩ ∈ l) : (flushTo s l).get? k = w := by
  induction l generalizing s with
  | nil => exact absurd h List.not_mem_nil
  | cons e l ih =>
      obtain ⟨hHead, hTail⟩ := List.pairwise_cons.mp hDistinct
      show (flushTo (writeEntry s e) l).get? k = w
      cases List.mem_cons.mp h with
      | inl hEq =>
          subst hEq
          rw [get?_flushTo_of_not_mem fun e' he' => (hHead e' he').symm]
          exact get?_writeEntry_self s k w
      | inr hMem => exact ih hTail hMem

theorem pairwise_toList (m : Store V cmp) : m.toList.Pairwise fun e e' => e.1 ≠ e'.1 := by
  refine (Std.ExtDTreeMap.distinct_keys_toList (t := m)).imp ?_
  intro e e' h hEq
  exact h (by rw [hEq]; exact Std.ReflCmp.compare_self)

/-- Flushing a part of the pending writes that is chosen by key. -/
theorem get?_flushTo_filter (m : Store (fun k => Option (V k)) cmp) (q : K → Bool) (k : K) :
    (flushTo s (m.toList.filter fun e => q e.1)).get? k =
      if q k = true then (m.get? k).getD (s.get? k) else s.get? k := by
  by_cases hq : q k = true
  · rw [if_pos hq]
    cases hk : m.get? k with
    | none =>
        refine get?_flushTo_of_not_mem fun e he hEq => ?_
        subst hEq
        have hMem := Std.ExtDTreeMap.mem_toList_iff_get?_eq_some.mp (List.mem_filter.mp he).1
        rw [hk] at hMem
        cases hMem
    | some w =>
        refine get?_flushTo_of_mem ((pairwise_toList m).filter _) (List.mem_filter.mpr ⟨?_, hq⟩)
        exact Std.ExtDTreeMap.mem_toList_iff_get?_eq_some.mpr hk
  · rw [if_neg hq]
    refine get?_flushTo_of_not_mem fun e he hEq => hq ?_
    rw [← hEq]
    exact (List.mem_filter.mp he).2

/-- Flushing all pending writes. -/
theorem get?_flushTo (m : Store (fun k => Option (V k)) cmp) (k : K) :
    (flushTo s m.toList).get? k = (m.get? k).getD (s.get? k) := by
  have h := get?_flushTo_filter s m (fun _ => true) k
  rwa [List.filter_true, if_pos rfl] at h

/-! ## The store an overlay stands for -/

/-- The base with every pending write applied. -/
def view (o : Overlay V cmp) : Store V cmp := flushTo o.base o.drainWrites

theorem get?_view : o.view.get? k = (o.pending.get? k).getD (o.base.get? k) :=
  get?_flushTo o.base o.pending k

theorem view_new : (new s).view = s := by
  apply Std.ExtDTreeMap.ext_get?
  intro k
  rw [get?_view]
  simp [new]

theorem get_eq_view : o.get k = o.view.get? k := by
  rw [get?_view, get]
  cases o.pending.get? k <;> rfl

theorem view_write (w : Option (V k)) :
    view { o with pending := o.pending.insert k w } = writeEntry o.view ⟨k, w⟩ := by
  apply Std.ExtDTreeMap.ext_get?
  intro a
  rw [get?_view]
  show ((o.pending.insert k w).get? a).getD _ = _
  by_cases hEq : k = a
  · subst hEq
    rw [Std.ExtDTreeMap.get?_insert_self, get?_writeEntry_self]
    rfl
  · rw [Store.get?_insert_ne hEq, get?_writeEntry_ne hEq, get?_view]

/-- The base entries a scan starts from, as pending writes. -/
theorem scanned_eq :
    (s.scan q).foldl (fun m e => m.insert e.1 e.2) (∅ : Store V cmp) =
      s.filter fun k _ => q k := by
  have hFlush : (s.scan q).foldl (fun m e => m.insert e.1 e.2) (∅ : Store V cmp) =
      flushTo ∅ ((s.scan q).map fun e => ⟨e.1, some e.2⟩) := by
    rw [flushTo, List.foldl_map]
    rfl
  apply Std.ExtDTreeMap.ext_get?
  intro k
  rw [hFlush, Std.ExtDTreeMap.get?_filter]
  by_cases hk : ∃ v, (⟨k, v⟩ : Sigma V) ∈ s.scan q
  · obtain ⟨v, hv⟩ := hk
    obtain ⟨hq, hGet⟩ := Store.mem_scan.mp hv
    have hDistinct : ((s.scan q).map fun e =>
        (⟨e.1, some e.2⟩ : Sigma fun k => Option (V k))).Pairwise fun e e' => e.1 ≠ e'.1 :=
      List.pairwise_map.mpr ((pairwise_toList s).filter _)
    rw [get?_flushTo_of_mem hDistinct (List.mem_map.mpr ⟨⟨k, v⟩, hv, rfl⟩)]
    simp [hGet, hq, Option.filter]
  · rw [get?_flushTo_of_not_mem]
    · cases hGet : s.get? k with
      | none => simp
      | some v =>
          have hq : ¬ q k = true := fun hq => hk ⟨v, Store.mem_scan.mpr ⟨hq, hGet⟩⟩
          simp [hq]
    · intro e he hEq
      obtain ⟨⟨k', v⟩, hv, rfl⟩ := List.mem_map.mp he
      subst hEq
      exact hk ⟨v, hv⟩

theorem scan_eq_view : o.scan q = Store.scan o.view q := by
  have hMaps : flushTo (o.base.filter fun k _ => q k)
      (o.drainWrites.filter fun e => q e.1) = o.view.filter fun k _ => q k := by
    apply Std.ExtDTreeMap.ext_get?
    intro k
    rw [drainWrites, get?_flushTo_filter, Std.ExtDTreeMap.get?_filter,
      Std.ExtDTreeMap.get?_filter, get?_view]
    have hFilter : ∀ r : Option (V k),
        (r.filter fun _ => q k) = if q k = true then r else none := by
      intro r
      cases r <;> simp [Option.filter]
    rw [hFilter, hFilter]
    by_cases hq : q k = true
    · rw [if_pos hq, if_pos hq, if_pos hq]
    · rw [if_neg hq, if_neg hq, if_neg hq]
  have hList := congrArg Std.ExtDTreeMap.toList hMaps
  rw [Std.ExtDTreeMap.toList_filter] at hList
  show (flushTo ((o.base.scan q).foldl (fun m e => m.insert e.1 e.2) ∅) _).toList = _
  rw [scanned_eq]
  exact hList

/-- A program on an overlay computes what it computes on the store the overlay
stands for. -/
theorem run_view : p.run o.view = ((p.runOn backend o).1, (p.runOn backend o).2.view) :=
  Prog.runOn_simulates view get_eq_view (fun o k v => view_write o k (some v))
    (fun o k => view_write o k none) scan_eq_view p o

/-! ## What a run leaves pending -/

theorem isSome_insert {m : Store (fun k => Option (V k)) cmp} {k a : K} {w : Option (V k)} :
    ((m.insert k w).get? a).isSome = true ↔ a = k ∨ (m.get? a).isSome = true := by
  by_cases hEq : k = a
  · subst hEq
    simp [Std.ExtDTreeMap.get?_insert_self]
  · rw [Store.get?_insert_ne hEq]
    simp [Ne.symm hEq]

/-- The keys with a pending write after a run are those that had one before and
those the run writes. -/
theorem isSome_pending_runOn (a : K) :
    ((p.runOn backend o).2.pending.get? a).isSome = true ↔
      (o.pending.get? a).isSome = true ∨ p.Writes o.view a := by
  induction p generalizing o with
  | pure | fail | panic => exact (or_false _).to_iff.symm
  | get k next ih =>
      show _ ↔ _ ∨ (next (o.view.get? k)).Writes o.view a
      rw [← get_eq_view]
      exact ih _ o
  | put k v next ih =>
      refine (ih { o with pending := o.pending.insert k (some v) }).trans ?_
      rw [view_write, isSome_insert, or_assoc, or_left_comm]
      rfl
  | delete k next ih =>
      refine (ih { o with pending := o.pending.insert k none }).trans ?_
      rw [view_write, isSome_insert, or_assoc, or_left_comm]
      rfl
  | scan q next ih =>
      show _ ↔ _ ∨ (next (Store.scan o.view q)).Writes o.view a
      rw [← scan_eq_view]
      exact ih _ o

/-- Flushing what a run on a fresh overlay left pending copies the keys the run
writes, and no others, from the store the run leaves. -/
theorem get?_flush_run (base t : Store V cmp) (k : K) :
    (p.Writes base k → (flushTo t (p.runOn backend (new base)).2.drainWrites).get? k =
      (p.run base).2.get? k) ∧
    (¬ p.Writes base k → (flushTo t (p.runOn backend (new base)).2.drainWrites).get? k =
      t.get? k) := by
  have hPending := isSome_pending_runOn p (new base) k
  have hRun := congrArg Prod.snd (run_view p (new base))
  rw [view_new] at hPending hRun
  have hNew : ((new base).pending.get? k).isSome = false := by simp [new]
  rw [hNew] at hPending
  rw [drainWrites, get?_flushTo, hRun]
  show _ ∧ _
  rw [get?_view]
  cases hk : (p.runOn backend (new base)).2.pending.get? k with
  | none =>
      refine ⟨fun hw => ?_, fun _ => rfl⟩
      rw [hk] at hPending
      simp [hw] at hPending
  | some w =>
      refine ⟨fun _ => rfl, fun hw => ?_⟩
      rw [hk] at hPending
      simp [hw] at hPending

end Overlay

end Polay.Lib
