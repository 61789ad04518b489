import Polay.Lib.Prog

/-!
# Footprints

The footprint of a program run is the keys it reads (`Reads`) and the keys it
writes (`Writes`). A run only depends on what it reads: on a store that agrees
there it ends the same way and writes the same keys with the same records
(`run_local`), and it leaves every key it does not write alone.
-/

namespace Polay.Lib

open Lib.Machine

namespace Prog

variable {K : Type} {V : K → Type} {cmp : K → K → Ordering} {ε α : Type}
variable [Std.TransCmp cmp] [Std.LawfulEqCmp cmp]

/-! ## Footprints -/

variable {t s : Store V cmp} {p : Prog K V ε α}

/-- The keys a run reads, those a scan asks for included. -/
def Reads : Prog K V ε α → Store V cmp → K → Prop
  | .pure _, _, _ => False
  | .fail _, _, _ => False
  | .panic, _, _ => False
  | .get k next, s, a => a = k ∨ (next (s.get? k)).Reads s a
  | .put k v next, s, a => next.Reads (s.insert k v) a
  | .delete k next, s, a => next.Reads (s.erase k) a
  | .scan q next, s, a => q a = true ∨ (next (s.scan q)).Reads s a

/-- The keys a run writes or deletes. -/
def Writes : Prog K V ε α → Store V cmp → K → Prop
  | .pure _, _, _ => False
  | .fail _, _, _ => False
  | .panic, _, _ => False
  | .get k next, s, a => (next (s.get? k)).Writes s a
  | .put k v next, s, a => a = k ∨ next.Writes (s.insert k v) a
  | .delete k next, s, a => a = k ∨ next.Writes (s.erase k) a
  | .scan q next, s, a => (next (s.scan q)).Writes s a

theorem get?_run_of_not_writes {a : K} (h : ¬ p.Writes s a) : (p.run s).2.get? a = s.get? a := by
  induction p generalizing s with
  | pure _ => rfl
  | fail _ => rfl
  | panic => rfl
  | get k next ih => exact ih _ h
  | put k v next ih =>
      obtain ⟨hk, hNext⟩ := not_or.mp h
      exact (ih hNext).trans (Store.get?_insert_ne (Ne.symm hk))
  | delete k next ih =>
      obtain ⟨hk, hNext⟩ := not_or.mp h
      exact (ih hNext).trans (Store.get?_erase_ne (Ne.symm hk))
  | scan q next ih => exact ih _ h

/-- What a run does on a store that agrees with `s` where it reads. -/
structure SameRun (p : Prog K V ε α) (s t : Store V cmp) : Prop where
  outcome : (p.run t).1 = (p.run s).1
  writes : ∀ a, p.Writes t a ↔ p.Writes s a
  values : ∀ a, p.Writes s a → (p.run t).2.get? a = (p.run s).2.get? a

/-- Agreement survives writing the same record to both stores. -/
theorem agree_insert {P : K → Prop} {k : K} {v : V k} (h : ∀ a, P a → t.get? a = s.get? a) :
    ∀ a, P a → (t.insert k v).get? a = (s.insert k v).get? a := by
  intro a ha
  by_cases hEq : k = a
  · subst hEq
    rw [Std.ExtDTreeMap.get?_insert_self, Std.ExtDTreeMap.get?_insert_self]
  · rw [Store.get?_insert_ne hEq, Store.get?_insert_ne hEq, h a ha]

theorem agree_erase {P : K → Prop} {k : K} (h : ∀ a, P a → t.get? a = s.get? a) :
    ∀ a, P a → (t.erase k).get? a = (s.erase k).get? a := by
  intro a ha
  by_cases hEq : k = a
  · subst hEq
    rw [Std.ExtDTreeMap.get?_erase_self, Std.ExtDTreeMap.get?_erase_self]
  · rw [Store.get?_erase_ne hEq, Store.get?_erase_ne hEq, h a ha]

/-- A step that writes key `k` to both stores, followed by the same run. -/
theorem SameRun.after_write {k a : K} (h : SameRun p s t) (hk : t.get? k = s.get? k)
    (ha : a = k ∨ p.Writes s a) : (p.run t).2.get? a = (p.run s).2.get? a := by
  by_cases hWrites : p.Writes s a
  · exact h.values a hWrites
  · obtain rfl : a = k := ha.resolve_right hWrites
    rw [get?_run_of_not_writes hWrites,
      get?_run_of_not_writes fun hw => hWrites ((h.writes a).mp hw), hk]

/-- A run only depends on what it reads. -/
theorem run_local (h : ∀ a, p.Reads s a → t.get? a = s.get? a) : SameRun p s t := by
  induction p generalizing s t with
  | pure | fail | panic => exact ⟨rfl, fun _ => Iff.rfl, fun _ hw => hw.elim⟩
  | get k next ih =>
      have hNext := ih (s.get? k) fun a ha => h a (.inr ha)
      have hk : t.get? k = s.get? k := h k (.inl rfl)
      refine ⟨?_, fun a => ?_, fun a ha => ?_⟩
      · show ((next (t.get? k)).run t).1 = ((next (s.get? k)).run s).1
        rw [hk, hNext.outcome]
      · show (next (t.get? k)).Writes t a ↔ (next (s.get? k)).Writes s a
        rw [hk, hNext.writes]
      · show ((next (t.get? k)).run t).2.get? a = ((next (s.get? k)).run s).2.get? a
        rw [hk, hNext.values a ha]
  | put k v next ih =>
      have hNext : SameRun next (s.insert k v) (t.insert k v) := ih (agree_insert h)
      refine ⟨hNext.outcome, fun a => or_congr_right (hNext.writes a), fun a ha => ?_⟩
      refine hNext.after_write (k := k) ?_ ha
      rw [Std.ExtDTreeMap.get?_insert_self, Std.ExtDTreeMap.get?_insert_self]
  | delete k next ih =>
      have hNext : SameRun next (s.erase k) (t.erase k) := ih (agree_erase h)
      refine ⟨hNext.outcome, fun a => or_congr_right (hNext.writes a), fun a ha => ?_⟩
      refine hNext.after_write (k := k) ?_ ha
      rw [Std.ExtDTreeMap.get?_erase_self, Std.ExtDTreeMap.get?_erase_self]
  | scan q next ih =>
      have hNext := ih (s.scan q) fun a ha => h a (.inr ha)
      have hScan : t.scan q = s.scan q := Store.scan_congr fun a ha => h a (.inl ha)
      refine ⟨?_, fun a => ?_, fun a ha => ?_⟩
      · show ((next (t.scan q)).run t).1 = ((next (s.scan q)).run s).1
        rw [hScan, hNext.outcome]
      · show (next (t.scan q)).Writes t a ↔ (next (s.scan q)).Writes s a
        rw [hScan, hNext.writes]
      · show ((next (t.scan q)).run t).2.get? a = ((next (s.scan q)).run s).2.get? a
        rw [hScan, hNext.values a ha]

end Prog

end Polay.Lib
