import Polay.Execution.Parallel
import Polay.Lib.FirstFit

/-!
# The order of conflicting transactions

The scheduler places transactions by first fit, so that a transaction may come
into a batch before that of an earlier transaction it conflicts with. Batches keep
the order of the block exactly if every transaction conflicts with earlier ones of
all depths below a transaction it conflicts with; a chain of three transactions in
which only neighbours conflict is in order, one that closes on a later batch is
not.
-/

namespace Polay.Execution

open Lib Polay.Types State

section Order

variable {sha256 : List UInt8 → Hash} {txs : List SignedTransaction}
variable {idx : Nat} {tx : SignedTransaction} {slots : List (ExecutionBatch × List AccessSet)}

theorem conflictsWith_comm (a b : AccessSet) : a.conflictsWith b = b.conflictsWith a := by
  have hIff : a.conflictsWith b = true ↔ b.conflictsWith a = true := by
    simp only [AccessSet.conflictsWith, Bool.if_true_left, Bool.or_eq_true, decide_eq_true_eq,
      List.any_eq_true, List.contains_iff_mem]
    constructor
    · rintro (⟨k, hk, hk'⟩ | ⟨k, hk, hk'⟩ | ⟨k, hk, hk'⟩)
      · exact .inl ⟨k, hk', hk⟩
      · exact .inr (.inr ⟨k, hk', hk⟩)
      · exact .inr (.inl ⟨k, hk', hk⟩)
    · rintro (⟨k, hk, hk'⟩ | ⟨k, hk, hk'⟩ | ⟨k, hk, hk'⟩)
      · exact .inl ⟨k, hk', hk⟩
      · exact .inr (.inr ⟨k, hk', hk⟩)
      · exact .inr (.inl ⟨k, hk', hk⟩)
  exact Bool.eq_iff_iff.mpr hIff

/-- The transactions at two positions are predicted to conflict. -/
def ConflictAt (sha256 : List UInt8 → Hash) (txs : List SignedTransaction) (i j : Nat) : Prop :=
  ∃ a b, txs[i]? = some a ∧ txs[j]? = some b ∧
    (predictAccessSet sha256 a).conflictsWith (predictAccessSet sha256 b) = true

/-- Conflicting transactions are in batches in the order of the block. -/
def OrderKept (sha256 : List UInt8 → Hash) (txs : List SignedTransaction) : Prop :=
  ∀ i j, i < j → ConflictAt sha256 txs i j →
    ParallelExecutor.batchIndex (scheduleParallel sha256 txs) i <
      ParallelExecutor.batchIndex (scheduleParallel sha256 txs) j

/-! ## Why a transaction is not in an earlier batch -/

/-- Every transaction of the upper batch conflicts with an earlier one of the lower batch. -/
def Blocks (sha256 : List UInt8 → Hash) (lower upper : ExecutionBatch × List AccessSet) : Prop :=
  ∀ e ∈ upper.1.transactions, ∃ f ∈ lower.1.transactions, f.1 < e.1 ∧
    (predictAccessSet sha256 f.2).conflictsWith (predictAccessSet sha256 e.2) = true

/-- A transaction of a batch after a placement is the new one or was there. -/
theorem mem_place {access : AccessSet} {slot : ExecutionBatch × List AccessSet}
    (h : slot ∈ place idx tx access slots) {e : Nat × SignedTransaction}
    (he : e ∈ slot.1.transactions) : e = (idx, tx) ∨ ∃ old ∈ slots, e ∈ old.1.transactions := by
  induction slots with
  | nil =>
      obtain rfl := List.mem_singleton.mp h
      exact .inl (List.mem_singleton.mp he)
  | cons first rest ih =>
      obtain ⟨batch, sets⟩ := first
      rw [place] at h
      split at h
      · rcases List.mem_cons.mp h with rfl | hMem
        · exact .inr ⟨_, List.mem_cons_self, he⟩
        · rcases ih hMem with hNew | ⟨old, hOld, hMem⟩
          · exact .inl hNew
          · exact .inr ⟨old, List.mem_cons_of_mem _ hOld, hMem⟩
      · rcases List.mem_cons.mp h with rfl | hMem
        · rcases List.mem_append.mp he with hOld | hNew
          · exact .inr ⟨_, List.mem_cons_self, hOld⟩
          · exact .inl (List.mem_singleton.mp hNew)
        · exact .inr ⟨slot, List.mem_cons_of_mem _ hMem, he⟩

theorem blocks_place (hSets : ∀ slot ∈ slots, Compatible sha256 slot)
    (hBelow : ∀ slot ∈ slots, ∀ e ∈ slot.1.transactions, e.1 < idx)
    (h : slots.Pairwise (Blocks sha256)) :
    (place idx tx (predictAccessSet sha256 tx) slots).Pairwise (Blocks sha256) := by
  induction slots with
  | nil => exact List.pairwise_singleton _ _
  | cons first rest ih =>
      obtain ⟨batch, sets⟩ := first
      obtain ⟨hFirst, hRest⟩ := List.pairwise_cons.mp h
      rw [place]
      split
      next hConflict =>
        refine List.pairwise_cons.mpr ⟨fun slot hSlot e he => ?_,
          ih (fun s hs => hSets s (List.mem_cons_of_mem _ hs))
            (fun s hs => hBelow s (List.mem_cons_of_mem _ hs)) hRest⟩
        rcases mem_place hSlot he with rfl | ⟨old, hOld, hMem⟩
        · -- the new transaction was turned away by a member of the first batch
          obtain ⟨access, hAccess, hHit⟩ := List.any_eq_true.mp hConflict
          have hEq : sets = batch.transactions.map fun e => predictAccessSet sha256 e.2 :=
            (hSets _ List.mem_cons_self).1
          rw [hEq] at hAccess
          obtain ⟨f, hf, rfl⟩ := List.mem_map.mp hAccess
          exact ⟨f, hf, hBelow _ List.mem_cons_self f hf, hHit⟩
        · exact hFirst old hOld e hMem
      next =>
        refine List.pairwise_cons.mpr ⟨fun slot hSlot e he => ?_, hRest⟩
        obtain ⟨f, hf, hLt, hHit⟩ := hFirst slot hSlot e he
        exact ⟨f, List.mem_append_left _ hf, hLt, hHit⟩

/-- A batch with transactions in the order of the block, from before the given position. -/
structure Filled (n : Nat) (slot : ExecutionBatch × List AccessSet) : Prop where
  nonempty : slot.1.transactions ≠ []
  increasing : slot.1.transactions.Pairwise fun a b => a.1 < b.1
  below : ∀ e ∈ slot.1.transactions, e.1 < n

theorem filled_place {access : AccessSet} (h : ∀ slot ∈ slots, Filled idx slot) :
    ∀ slot ∈ place idx tx access slots, Filled (idx + 1) slot := by
  have hOld (slot) (hSlot : slot ∈ slots) : Filled (idx + 1) slot :=
    ⟨(h slot hSlot).nonempty, (h slot hSlot).increasing,
      fun e he => Nat.lt_succ_of_lt ((h slot hSlot).below e he)⟩
  induction slots with
  | nil =>
      intro slot hSlot
      obtain rfl := List.mem_singleton.mp hSlot
      refine ⟨List.cons_ne_nil _ _, List.pairwise_singleton _ _, fun e he => ?_⟩
      rw [List.mem_singleton.mp he]
      exact Nat.lt_succ_self idx
  | cons first rest ih =>
      have hRest (slot) (hSlot : slot ∈ rest) := hOld slot (List.mem_cons_of_mem _ hSlot)
      intro slot hSlot
      rw [place] at hSlot
      split at hSlot
      · rcases List.mem_cons.mp hSlot with rfl | hMem
        · exact hOld _ List.mem_cons_self
        · exact ih (fun slot hs => h slot (List.mem_cons_of_mem _ hs)) hRest slot hMem
      · rcases List.mem_cons.mp hSlot with rfl | hMem
        · -- the new transaction comes after all others of its batch
          have hFirst := h first List.mem_cons_self
          refine ⟨List.append_ne_nil_of_right_ne_nil _ (List.cons_ne_nil _ _),
            List.pairwise_append.mpr ⟨hFirst.increasing, List.pairwise_singleton _ _,
              fun a ha b hb => ?_⟩, fun e he => ?_⟩
          · rw [List.mem_singleton.mp hb]
            exact hFirst.below a ha
          · rcases List.mem_append.mp he with hMem | hNew
            · exact Nat.lt_succ_of_lt (hFirst.below e hMem)
            · rw [List.mem_singleton.mp hNew]
              exact Nat.lt_succ_self idx
        · exact hRest slot hMem

/-- Batches are filled and block each other in every schedule. -/
theorem blocks_placeAll {l : List (SignedTransaction × Nat)} {n : Nat}
    (hNumbers : l.map Prod.snd = List.range' n l.length)
    (hSets : ∀ slot ∈ slots, Compatible sha256 slot) (hFilled : ∀ slot ∈ slots, Filled n slot)
    (h : slots.Pairwise (Blocks sha256)) :
    (∀ slot ∈ placeAll sha256 slots l, Filled (n + l.length) slot) ∧
      (placeAll sha256 slots l).Pairwise (Blocks sha256) := by
  induction l generalizing n slots with
  | nil => exact ⟨hFilled, h⟩
  | cons e l ih =>
      rw [List.map_cons, List.length_cons, List.range'_succ, List.cons.injEq] at hNumbers
      obtain ⟨rfl, hNumbers⟩ := hNumbers
      rw [List.length_cons, Nat.add_comm l.length, ← Nat.add_assoc]
      exact ih hNumbers (compatible_place sha256 hSets) (filled_place hFilled)
        (blocks_place hSets (fun slot hSlot => (hFilled slot hSlot).below) h)

theorem blocks_schedule (sha256 : List UInt8 → Hash) (txs : List SignedTransaction) :
    (∀ slot ∈ placeAll sha256 [] txs.zipIdx, Filled (0 + txs.zipIdx.length) slot) ∧
      (placeAll sha256 [] txs.zipIdx).Pairwise (Blocks sha256) := by
  refine blocks_placeAll ?_ (fun _ hNil => absurd hNil List.not_mem_nil)
    (fun _ hNil => absurd hNil List.not_mem_nil) List.Pairwise.nil
  rw [List.zipIdx_map_snd, List.length_zipIdx]

/-- The batches hold every transaction once, in the order of the block and without conflicts; none
is empty, and every transaction conflicts with an earlier one in each batch before its own. -/
theorem scheduleParallel_partition (sha256 : List UInt8 → Hash) (txs : List SignedTransaction) :
    ((scheduleParallel sha256 txs).flatMap ExecutionBatch.transactions).Perm
        (txs.zipIdx.map Prod.swap) ∧
      (∀ batch ∈ scheduleParallel sha256 txs, batch.transactions ≠ [] ∧
        batch.transactions.Pairwise fun a b => a.1 < b.1 ∧
          (predictAccessSet sha256 a.2).conflictsWith (predictAccessSet sha256 b.2) = false) ∧
      (scheduleParallel sha256 txs).Pairwise fun lower upper =>
        ∀ e ∈ upper.transactions, ∃ f ∈ lower.transactions, f.1 < e.1 ∧
          (predictAccessSet sha256 f.2).conflictsWith (predictAccessSet sha256 e.2) = true := by
  obtain ⟨hFilled, hBlocks⟩ := blocks_schedule sha256 txs
  refine ⟨scheduled_perm sha256 txs, fun batch hBatch => ?_, List.pairwise_map.mpr hBlocks⟩
  have hFree := scheduled_no_conflict sha256 txs hBatch
  obtain ⟨slot, hSlot, rfl⟩ := List.mem_map.mp hBatch
  exact ⟨(hFilled slot hSlot).nonempty, (hFilled slot hSlot).increasing.and hFree⟩

/-! ## The schedule is first fit -/

/-- Which batch holds a transaction. -/
theorem mem_schedule_iff {m i : Nat} {batch : ExecutionBatch}
    (hBatch : (scheduleParallel sha256 txs)[m]? = some batch) :
    (i, tx) ∈ batch.transactions ↔
      txs[i]? = some tx ∧ ParallelExecutor.batchIndex (scheduleParallel sha256 txs) i = m := by
  have hPartition := ParallelExecutor.partition_schedule sha256 txs
  have hDrawn := ParallelExecutor.drawnFrom_schedule sha256 txs (List.mem_of_getElem? hBatch)
  have hMem := hPartition.mem m (ParallelExecutor.positions batch)
    (by rw [List.getElem?_map, hBatch]; rfl) i
  constructor
  · intro hTx
    exact ⟨hDrawn _ hTx, (hMem.mp (List.mem_map_of_mem hTx)).2⟩
  · rintro ⟨hTx, hIndex⟩
    have hLt : i < txs.length := (List.getElem?_eq_some_iff.mp hTx).1
    obtain ⟨⟨i', tx'⟩, he, hi⟩ := List.mem_map.mp (hMem.mpr ⟨hLt, hIndex⟩)
    obtain rfl : i' = i := hi
    have hSame : txs[i']? = some tx' := hDrawn _ he
    rw [hTx] at hSame
    obtain rfl := Option.some.inj hSame
    exact he

theorem exists_batch (sha256 : List UInt8 → Hash) {i : Nat} (hi : i < txs.length) :
    ∃ batch, (scheduleParallel sha256 txs)[
      ParallelExecutor.batchIndex (scheduleParallel sha256 txs) i]? = some batch := by
  have hLt := (ParallelExecutor.partition_schedule sha256 txs).lt i hi
  rw [List.length_map] at hLt
  exact ⟨_, List.getElem?_eq_getElem hLt⟩

theorem firstFit_schedule (txs : List SignedTransaction) :
    FirstFit (ConflictAt sha256 txs) txs.length
      (ParallelExecutor.batchIndex (scheduleParallel sha256 txs)) where
  separate i j hij hj hSame hConflict := by
    obtain ⟨a, b, ha, hb, hHit⟩ := hConflict
    obtain ⟨batch, hBatch⟩ := exists_batch sha256 hj
    have hFirst := (mem_schedule_iff hBatch).mpr ⟨ha, hSame⟩
    have hSecond := (mem_schedule_iff hBatch).mpr ⟨hb, rfl⟩
    have hNone := scheduled_no_conflict sha256 txs (List.mem_of_getElem? hBatch)
    have hSymm : Std.Symm fun a b : Nat × SignedTransaction =>
        (predictAccessSet sha256 a.2).conflictsWith (predictAccessSet sha256 b.2) = false :=
      ⟨fun a b h => by rwa [conflictsWith_comm]⟩
    have hNe : (i, a) ≠ (j, b) := fun hEq => Nat.ne_of_lt hij (congrArg Prod.fst hEq)
    have hFalse := hNone.forall hFirst hSecond hNe
    rw [hHit] at hFalse
    cases hFalse
  blocked j hj m hm := by
    obtain ⟨upper, hUpper⟩ := exists_batch sha256 hj
    have hTx : txs[j]? = some txs[j] := List.getElem?_eq_getElem hj
    have hMem := (mem_schedule_iff hUpper).mpr ⟨hTx, rfl⟩
    -- the batches below are there as well, and each of them blocks
    rw [scheduleParallel, List.getElem?_map, Option.map_eq_some_iff] at hUpper
    obtain ⟨slot, hSlot, rfl⟩ := hUpper
    obtain ⟨hLt, rfl⟩ := List.getElem?_eq_some_iff.mp hSlot
    have hm' : m < (placeAll sha256 [] txs.zipIdx).length := Nat.lt_trans hm hLt
    have hBlocks := List.pairwise_iff_getElem.mp (blocks_schedule sha256 txs).2 m _ hm' hLt hm
    obtain ⟨⟨i, a⟩, hLower, hij, hHit⟩ := hBlocks (j, txs[j]) hMem
    have hBatch : (scheduleParallel sha256 txs)[m]? =
        some ((placeAll sha256 [] txs.zipIdx)[m].1) := by
      rw [scheduleParallel, List.getElem?_map, List.getElem?_eq_getElem hm']
      rfl
    obtain ⟨ha, hIndex⟩ := (mem_schedule_iff hBatch).mp hLower
    exact ⟨i, hij, hIndex, a, txs[j], ha, hTx, hHit⟩

/-- **When the schedule keeps the order.** -/
theorem orderKept_iff_layered (sha256 : List UInt8 → Hash) (txs : List SignedTransaction) :
    OrderKept sha256 txs ↔ Layered (ConflictAt sha256 txs) txs.length := by
  rw [← (firstFit_schedule txs).inOrder_iff]
  constructor
  · exact fun h i j hij _ hc => h i j hij hc
  · intro h i j hij hc
    obtain ⟨_, b, _, hb, _⟩ := id hc
    exact h i j hij (List.getElem?_eq_some_iff.mp hb).1 hc

/-- The second payment waits for the first one, and the third one, which conflicts with the
second only, is put in front of it. -/
theorem payment_overtakes :
    let pay (a b : UInt8) := ParallelExecutor.payment (Address.ofByte a) (Address.ofByte b)
    let txs := [pay 1 2, pay 2 3, pay 4 3]
    let batch := ParallelExecutor.batchIndex (scheduleParallel (fun _ => Hash.zero) txs)
    ConflictAt (fun _ => Hash.zero) txs 1 2 ∧ batch 1 = 1 ∧ batch 2 = 0 ∧
      ¬ OrderKept (fun _ => Hash.zero) txs := by
  intro pay txs batch
  have hConflict : ConflictAt (fun _ => Hash.zero) txs 1 2 := ⟨_, _, rfl, rfl, by decide +kernel⟩
  have hSecond : batch 1 = 1 := by decide +kernel
  have hThird : batch 2 = 0 := by decide +kernel
  refine ⟨hConflict, hSecond, hThird, fun hKept => ?_⟩
  have hLt : batch 1 < batch 2 := hKept 1 2 (by omega) hConflict
  omega

end Order

end Polay.Execution
