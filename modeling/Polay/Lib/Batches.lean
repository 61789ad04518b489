import Polay.Lib.Overlay

/-!
# Batches and serializability

A list of programs run one after another passes through the stores `seq`. When
they are run in batches instead, each program of a batch on an overlay of the
store that the earlier batches left, the outcomes and the final store are the
same if programs that the batches do not keep in order are independent
(`runBatches_serial`). The argument follows single keys: `settled D n k` is what
key `k` holds when only the programs in `D` have run, namely what its last
writer in `D` left there.
-/

namespace Polay.Lib

open Lib.Machine

namespace Serial

variable {K : Type} {V : K → Type} {cmp : K → K → Ordering} {ε α : Type}
variable [Std.TransCmp cmp] [Std.LawfulEqCmp cmp]
variable (p : Nat → Prog K V ε α) (seq : Nat → Store V cmp)

/-- Two programs of the serial run that touch nothing of each other's. -/
structure Independent (i j : Nat) : Prop where
  write_read : ∀ k, (p i).Writes (seq i) k → ¬ (p j).Reads (seq j) k
  write_write : ∀ k, (p i).Writes (seq i) k → ¬ (p j).Writes (seq j) k
  read_write : ∀ k, (p i).Reads (seq i) k → ¬ (p j).Writes (seq j) k

open Classical in
/-- What a key holds when only the programs in `D` among the first `n` have run. -/
noncomputable def settled (D : Nat → Prop) : Nat → (k : K) → Option (V k)
  | 0, k => (seq 0).get? k
  | i + 1, k =>
      if D i ∧ (p i).Writes (seq i) k then (seq (i + 1)).get? k else settled D i k

variable {p seq} {n : Nat}

/-- The stores are those of the serial run of the first `n` programs. -/
def IsSerial (p : Nat → Prog K V ε α) (seq : Nat → Store V cmp) (n : Nat) : Prop :=
  ∀ i, i < n → seq (i + 1) = ((p i).run (seq i)).2

theorem settled_congr {D D' : Nat → Prop} {k : K}
    (h : ∀ i, i < n → (p i).Writes (seq i) k → (D i ↔ D' i)) :
    settled p seq D n k = settled p seq D' n k := by
  induction n with
  | zero => rfl
  | succ n ih =>
      have hRest := ih fun i hi => h i (by omega)
      unfold settled
      by_cases hw : (p n).Writes (seq n) k
      · have hIff := h n (by omega) hw
        by_cases hD : D n
        · rw [if_pos ⟨hD, hw⟩, if_pos ⟨hIff.mp hD, hw⟩]
        · rw [if_neg fun hAnd => hD hAnd.1, if_neg fun hAnd => hD (hIff.mpr hAnd.1), hRest]
      · rw [if_neg fun hAnd => hw hAnd.2, if_neg fun hAnd => hw hAnd.2, hRest]

/-- When the first `j` programs have run, every key holds what the serial run
has there. -/
theorem settled_lt (hSerial : IsSerial p seq n) {j : Nat} (hj : j ≤ n) (k : K) :
    settled p seq (· < j) n k = (seq j).get? k := by
  have hAll : ∀ m, m ≤ n → settled p seq (fun _ => True) m k = (seq m).get? k := by
    intro m
    induction m with
    | zero => intro _; rfl
    | succ m ih =>
        intro hm
        unfold settled
        by_cases hw : (p m).Writes (seq m) k
        · rw [if_pos ⟨trivial, hw⟩]
        · rw [if_neg fun h => hw h.2, ih (by omega), hSerial m (by omega)]
          exact (Prog.get?_run_of_not_writes hw).symm
  have hUp : ∀ m, j ≤ m → m ≤ n → settled p seq (· < j) m k = settled p seq (· < j) j k := by
    intro m hjm
    induction m, hjm using Nat.le_induction with
    | base => intro _; rfl
    | succ m hm ih =>
        intro hmn
        rw [settled, if_neg fun h => absurd h.1 (by omega)]
        exact ih (by omega)
  calc settled p seq (· < j) n k
      = settled p seq (· < j) j k := hUp n hj (Nat.le_refl n)
    _ = settled p seq (fun _ => True) j k := settled_congr fun i hi _ => by simp [hi]
    _ = (seq j).get? k := hAll j hj

section Batches

variable {batch : Nat → Nat} {j m : Nat}

/-- Programs whose order the batches do not keep are independent. -/
def Respects (p : Nat → Prog K V ε α) (seq : Nat → Store V cmp) (n : Nat)
    (batch : Nat → Nat) : Prop :=
  ∀ i j, i < j → j < n → batch j ≤ batch i → Independent p seq i j

/-- A program reads what it reads in the serial run from the store that the
earlier batches leave. -/
theorem reads_settled (hSerial : IsSerial p seq n) (hRespects : Respects p seq n batch)
    (hj : j < n) {k : K} (hk : (p j).Reads (seq j) k) :
    settled p seq (batch · < batch j) n k = (seq j).get? k := by
  rw [← settled_lt hSerial (by omega : j ≤ n) k]
  refine settled_congr fun i hi hw => ?_
  constructor
  · intro hBatch
    by_contra hNot
    have hLt : j < i := by
      have hNe : i ≠ j := fun hEq => absurd hBatch (by rw [hEq]; omega)
      omega
    exact (hRespects j i hLt hi (by omega)).read_write k hk hw
  · intro hLt
    by_contra hNot
    exact (hRespects i j hLt hj (by omega)).write_read k hw hk

/-- A key that a program of the batch writes holds what the program left there. -/
theorem settled_of_writes (hSerial : IsSerial p seq n) (hRespects : Respects p seq n batch)
    (hj : j < n) {k : K} (hk : (p j).Writes (seq j) k) :
    settled p seq (batch · < batch j + 1) n k = (seq (j + 1)).get? k := by
  rw [← settled_lt hSerial (by omega : j + 1 ≤ n) k]
  refine settled_congr fun i hi hw => ?_
  constructor
  · intro hBatch
    by_contra hNot
    exact (hRespects j i (by omega) hi (by omega)).write_write k hk hw
  · intro hLt
    by_contra hNot
    have hNe : i ≠ j := fun hEq => hNot (by rw [hEq]; omega)
    exact (hRespects i j (by omega) hj (by omega)).write_write k hw hk

/-- A key that no program of the batch writes keeps its record. -/
theorem settled_of_not_writes {k : K}
    (h : ∀ i, i < n → batch i = m → ¬ (p i).Writes (seq i) k) :
    settled p seq (batch · < m + 1) n k = settled p seq (batch · < m) n k := by
  refine settled_congr fun i hi hw => ?_
  have hNe : batch i ≠ m := fun hEq => h i hi hEq hw
  omega

end Batches

/-! ## Running in batches -/

/-- Flush into a store what the programs of a list write, each on its own overlay
of `base`. -/
def flushRuns (p : Nat → Prog K V ε α) (base : Store V cmp) (u : Store V cmp) (l : List Nat) :
    Store V cmp :=
  l.foldl (fun u i =>
    Overlay.flushTo u ((p i).runOn Overlay.backend (Overlay.new base)).2.drainWrites) u

/-- Run the programs of a batch, each on its own overlay of the store, and flush
their writes in the order of the batch. -/
def runBatch (p : Nat → Prog K V ε α) (s : Store V cmp) (l : List Nat) :
    List (Nat × Outcome ε α) × Store V cmp :=
  (l.map fun i => (i, ((p i).runOn Overlay.backend (Overlay.new s)).1), flushRuns p s s l)

/-- The batches hold the first `n` numbers, each in the batch that `batch` names. -/
structure Partition (n : Nat) (batch : Nat → Nat) (batches : List (List Nat)) : Prop where
  mem : ∀ m l, batches[m]? = some l → ∀ i, i ∈ l ↔ i < n ∧ batch i = m
  lt : ∀ i, i < n → batch i < batches.length

section RunBatch

variable {batch : Nat → Nat} {m : Nat} {t : Store V cmp}

/-- A program of a batch does on the store before the batch what it does in the
serial run. -/
theorem sameRun_of_settled (hSerial : IsSerial p seq n) (hRespects : Respects p seq n batch)
    {i : Nat} (hi : i < n) (ht : ∀ k, t.get? k = settled p seq (batch · < batch i) n k) :
    Prog.SameRun (p i) (seq i) t := by
  apply Prog.run_local
  intro k hk
  rw [ht k, reads_settled hSerial hRespects hi hk]

theorem get?_flushRuns {l : List Nat} {u : Store V cmp} {k : K} {w : Option (V k)}
    (h : ∀ i ∈ l, (p i).Writes t k → ((p i).run t).2.get? k = w) (hu : u.get? k = w) :
    (flushRuns p t u l).get? k = w := by
  induction l generalizing u with
  | nil => exact hu
  | cons i l ih =>
      refine ih (fun j hj => h j (List.mem_cons_of_mem i hj)) ?_
      obtain ⟨hWrites, hNot⟩ := Overlay.get?_flush_run (p i) t u k
      by_cases hw : (p i).Writes t k
      · rw [hWrites hw]
        exact h i (List.mem_cons_self ..) hw
      · rw [hNot hw]
        exact hu

/-- A batch that holds a writer of a key leaves what the writers leave. -/
theorem get?_flushRuns_of_mem {l : List Nat} {u : Store V cmp} {k : K} {w : Option (V k)}
    (h : ∀ i ∈ l, (p i).Writes t k → ((p i).run t).2.get? k = w) {j : Nat} (hj : j ∈ l)
    (hw : (p j).Writes t k) : (flushRuns p t u l).get? k = w := by
  induction l generalizing u with
  | nil => exact absurd hj List.not_mem_nil
  | cons i l ih =>
      have hTail : ∀ j ∈ l, (p j).Writes t k → ((p j).run t).2.get? k = w :=
        fun j hj => h j (List.mem_cons_of_mem i hj)
      cases List.mem_cons.mp hj with
      | inl hEq =>
          subst hEq
          rw [flushRuns, List.foldl_cons]
          refine get?_flushRuns hTail ?_
          rw [(Overlay.get?_flush_run (p j) t u k).1 hw]
          exact h j (List.mem_cons_self ..) hw
      | inr hMem => exact ih hTail hMem

/-- One batch: the outcomes are those of the serial run, and every key holds what
its last writer among the programs of this batch and the earlier ones left. -/
theorem runBatch_step (hSerial : IsSerial p seq n) (hRespects : Respects p seq n batch)
    {l : List Nat} (hMem : ∀ i, i ∈ l ↔ i < n ∧ batch i = m)
    (ht : ∀ k, t.get? k = settled p seq (batch · < m) n k) :
    (runBatch p t l).1 = l.map (fun i => (i, ((p i).run (seq i)).1)) ∧
      ∀ k, (runBatch p t l).2.get? k = settled p seq (batch · < m + 1) n k := by
  have hSame : ∀ i ∈ l, Prog.SameRun (p i) (seq i) t := by
    intro i hi
    obtain ⟨hLt, hBatch⟩ := (hMem i).mp hi
    exact sameRun_of_settled hSerial hRespects hLt (by rw [hBatch]; exact ht)
  constructor
  · refine List.map_congr_left fun i hi => ?_
    have hView := congrArg Prod.fst (Overlay.run_view (p i) (Overlay.new t))
    rw [Overlay.view_new] at hView
    rw [← hView, (hSame i hi).outcome]
  · intro k
    have hWritten : ∀ i ∈ l, (p i).Writes t k →
        ((p i).run t).2.get? k = settled p seq (batch · < m + 1) n k := by
      intro i hi hw
      obtain ⟨hLt, hBatch⟩ := (hMem i).mp hi
      have hw' := ((hSame i hi).writes k).mp hw
      rw [(hSame i hi).values k hw', ← hSerial i hLt, ← hBatch,
        settled_of_writes hSerial hRespects hLt hw']
    by_cases hSome : ∃ j ∈ l, (p j).Writes t k
    · obtain ⟨j, hj, hw⟩ := hSome
      exact get?_flushRuns_of_mem hWritten hj hw
    · refine get?_flushRuns hWritten ?_
      rw [ht k, settled_of_not_writes]
      intro i hi hBatch hw
      have hil := (hMem i).mpr ⟨hi, hBatch⟩
      exact hSome ⟨i, hil, ((hSame i hil).writes k).mpr hw⟩

/-- Run batches one after another and collect the outcomes. -/
def runBatches (p : Nat → Prog K V ε α) :
    Store V cmp → List (List Nat) → List (Nat × Outcome ε α) × Store V cmp
  | s, [] => ([], s)
  | s, l :: rest =>
      let r := runBatch p s l
      let r' := runBatches p r.2 rest
      (r.1 ++ r'.1, r'.2)

theorem runBatches_settled (hSerial : IsSerial p seq n) (hRespects : Respects p seq n batch)
    {batches : List (List Nat)}
    (hMem : ∀ j l, batches[j]? = some l → ∀ i, i ∈ l ↔ i < n ∧ batch i = m + j)
    (ht : ∀ k, t.get? k = settled p seq (batch · < m) n k) :
    (runBatches p t batches).1 = batches.flatten.map (fun i => (i, ((p i).run (seq i)).1)) ∧
      ∀ k, (runBatches p t batches).2.get? k =
        settled p seq (batch · < m + batches.length) n k := by
  induction batches generalizing t m with
  | nil => exact ⟨rfl, ht⟩
  | cons l rest ih =>
      obtain ⟨hOut, hStore⟩ := runBatch_step hSerial hRespects (hMem 0 l rfl) ht
      obtain ⟨hOuts, hFinal⟩ := ih (m := m + 1) (fun j l' hl' i => by
        rw [hMem (j + 1) l' hl' i, Nat.add_assoc, Nat.add_comm 1 j]) hStore
      constructor
      · show (runBatch p t l).1 ++ (runBatches p (runBatch p t l).2 rest).1 = _
        rw [hOut, hOuts, List.flatten_cons, List.map_append]
      · intro k
        show (runBatches p (runBatch p t l).2 rest).2.get? k = _
        rw [hFinal k, List.length_cons, Nat.add_assoc, Nat.add_comm 1]

/-- Running in batches that keep the order of dependent programs is running
serially: every program ends as in the serial run and the final store is the
same. -/
theorem runBatches_serial (hSerial : IsSerial p seq n) (hRespects : Respects p seq n batch)
    {batches : List (List Nat)} (hPartition : Partition n batch batches) :
    runBatches p (seq 0) batches =
      (batches.flatten.map fun i => (i, ((p i).run (seq i)).1), seq n) := by
  have hZero : ∀ k, (seq 0).get? k = settled p seq (batch · < 0) n k := by
    intro k
    rw [← settled_lt hSerial (Nat.zero_le n) k]
    exact settled_congr fun i _ _ => by omega
  obtain ⟨hOut, hStore⟩ := runBatches_settled (m := 0) hSerial hRespects
    (fun j l hl i => by rw [Nat.zero_add]; exact hPartition.mem j l hl i) hZero
  refine Prod.ext hOut (Std.ExtDTreeMap.ext_get? fun k => ?_)
  rw [hStore k, ← settled_lt hSerial (Nat.le_refl n) k]
  refine settled_congr fun i hi _ => ?_
  have := hPartition.lt i hi
  omega

end RunBatch

end Serial

end Polay.Lib
