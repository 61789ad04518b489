import Polay.Lib.Batches
import Polay.Execution.Receipts
import Polay.Execution.Scheduler

/-!
# Parallel execution

The parallel engine schedules a block's transactions into batches and runs each
transaction of a batch on its own overlay of the store that the earlier batches
left. After a batch the pending writes are flushed one overlay after another, and
at the end the receipts are sorted back into block order.

Unlike the sequential loop it pays out no matured unbondings, has no block gas
limit and catches no panics, and the schedule need not keep the order of
transactions that touch the same keys. `parallel_eq_sequential` says that it
agrees with the sequential loop where none of these differences shows: a run of
the batches is then a run in block order, by the serializability theorem of the
library.
-/

namespace Polay.Execution

open Lib Lib.Machine Polay.Types State

/-- The parallel engine wraps a sequential executor. -/
structure ParallelExecutor where
  executor : Executor

namespace ParallelExecutor

variable (sha256 : List UInt8 → Hash) (pe : ParallelExecutor)

/-- The receipt of a transaction of a batch; a panic leaves none. -/
def receiptOf (tx : SignedTransaction) (height : UInt64) :
    Outcome ExecutionError ExecutionResult → Option TransactionReceipt
  | .ok execResult => some execResult.receipt
  | .err e => some (Executor.rejection tx height e.text)
  | .panic => none

/-- Run the transactions of a batch, each on its own overlay of the store, and
flush their writes. A panic of one of them is passed on before anything is
flushed. -/
def executeBatchParallel (batch : ExecutionBatch) (store : StateStore) (height : UInt64)
    (blockProposer : Address) : Option (List (Nat × TransactionReceipt)) × StateStore :=
  let run (tx : SignedTransaction) :=
    (pe.executor.executeTransaction sha256 tx height blockProposer).runOn Overlay.backend
      (Overlay.new store)
  match batch.transactions.mapM fun e => (receiptOf e.2 height (run e.2).1).map (e.1, ·) with
  | none => (none, store)
  | some results =>
      (some results,
        batch.transactions.foldl (fun s e => Overlay.flushTo s (run e.2).2.drainWrites) store)

/-- Run the batches one after another. -/
def executeBatches (height : UInt64) (blockProposer : Address) :
    List ExecutionBatch → StateStore → Option (List (Nat × TransactionReceipt)) × StateStore
  | [], store => (some [], store)
  | batch :: rest, store =>
      match pe.executeBatchParallel sha256 batch store height blockProposer with
      | (none, store) => (none, store)
      | (some batchResults, store) =>
          match executeBatches height blockProposer rest store with
          | (none, store) => (none, store)
          | (some allResults, store) => (some (batchResults ++ allResults), store)

/-- Execute the transactions of a block in parallel: the receipts in block order and
the figures of the schedule, or nothing if a transaction panics. -/
def executeBlockParallel (transactions : List SignedTransaction) (store : StateStore)
    (height : UInt64) (blockProposer : Address) :
    Option (List TransactionReceipt × ScheduleStats) × StateStore :=
  let batches := scheduleParallel sha256 transactions
  match pe.executeBatches sha256 height blockProposer batches store with
  | (none, store) => (none, store)
  | (some allResults, store) =>
      (some ((allResults.insertionSort fun a b => a.1 ≤ b.1).map Prod.snd,
        scheduleStats batches), store)

/-! ## Batches as runs of numbered programs -/

/-- The program of the transaction at a position of the block. -/
def program (txs : List SignedTransaction) (height : UInt64) (proposer : Address) (i : Nat) :
    Handler ExecutionResult :=
  match txs[i]? with
  | some tx => pe.executor.executeTransaction sha256 tx height proposer
  | none => .panic

/-- The receipt of the transaction at a position, from how it ended. -/
def receiptAt (txs : List SignedTransaction) (height : UInt64)
    (e : Nat × Outcome ExecutionError ExecutionResult) : Option TransactionReceipt :=
  txs[e.1]?.bind fun tx => receiptOf tx height e.2

/-- The positions of a batch. -/
def positions (batch : ExecutionBatch) : List Nat := batch.transactions.map Prod.fst

/-- The transactions of a batch are those of the block at their positions. -/
def DrawnFrom (txs : List SignedTransaction) (batch : ExecutionBatch) : Prop :=
  ∀ e ∈ batch.transactions, txs[e.1]? = some e.2

section Numbered

variable {txs : List SignedTransaction} (height : UInt64) (proposer : Address)

theorem mapM_eq_map {α β : Type} {f : α → Option β} {g : α → β} {l : List α}
    (h : ∀ a ∈ l, f a = some (g a)) : l.mapM f = some (l.map g) := by
  induction l with
  | nil => rfl
  | cons a l ih =>
      rw [List.mapM_cons, h a (List.mem_cons_self ..),
        ih fun b hb => h b (List.mem_cons_of_mem a hb)]
      rfl

theorem program_eq {i : Nat} {tx : SignedTransaction} (h : txs[i]? = some tx) :
    pe.program sha256 txs height proposer i =
      pe.executor.executeTransaction sha256 tx height proposer := by
  unfold program
  rw [h]

/-- A batch in which nothing panics is a batch of the library. -/
theorem executeBatchParallel_eq {batch : ExecutionBatch} (hDrawn : DrawnFrom txs batch)
    {s : StateStore} {receipt : Nat → TransactionReceipt}
    (h : ∀ e ∈ (Serial.runBatch (pe.program sha256 txs height proposer) s (positions batch)).1,
      receiptAt txs height e = some (receipt e.1)) :
    pe.executeBatchParallel sha256 batch s height proposer =
      (some ((positions batch).map fun i => (i, receipt i)),
        (Serial.runBatch (pe.program sha256 txs height proposer) s (positions batch)).2) := by
  have hReceipts : (batch.transactions.mapM fun e => (receiptOf e.2 height
      ((pe.executor.executeTransaction sha256 e.2 height proposer).runOn Overlay.backend
        (Overlay.new s)).1).map (e.1, ·)) =
      some (batch.transactions.map fun e => (e.1, receipt e.1)) := by
    refine mapM_eq_map fun e he => ?_
    have hAt := h _ (List.mem_map.mpr ⟨e.1, List.mem_map.mpr ⟨e, he, rfl⟩, rfl⟩)
    rw [receiptAt, hDrawn e he, pe.program_eq sha256 height proposer (hDrawn e he)] at hAt
    rw [show receiptOf e.2 height _ = some (receipt e.1) from hAt]
    rfl
  have hStores : ∀ (l : List (Nat × SignedTransaction)) (u : StateStore),
      (∀ e ∈ l, txs[e.1]? = some e.2) →
      l.foldl (fun u e => Overlay.flushTo u
        ((pe.executor.executeTransaction sha256 e.2 height proposer).runOn Overlay.backend
          (Overlay.new s)).2.drainWrites) u =
        Serial.flushRuns (pe.program sha256 txs height proposer) s u (l.map Prod.fst) := by
    intro l
    induction l with
    | nil => intro u _; rfl
    | cons e l ih =>
        intro u hl
        rw [List.foldl_cons, ih _ fun e' he' => hl e' (List.mem_cons_of_mem _ he'), List.map_cons,
          Serial.flushRuns, Serial.flushRuns, List.foldl_cons,
          pe.program_eq sha256 height proposer (hl e (List.mem_cons_self ..))]
  unfold executeBatchParallel
  simp only [hReceipts]
  rw [hStores _ _ hDrawn, positions, List.map_map]
  rfl

/-- Batches in which nothing panics are batches of the library. -/
theorem executeBatches_eq {batches : List ExecutionBatch}
    (hDrawn : ∀ batch ∈ batches, DrawnFrom txs batch) {s : StateStore}
    {receipt : Nat → TransactionReceipt}
    (h : ∀ e ∈ (Serial.runBatches (pe.program sha256 txs height proposer) s
      (batches.map positions)).1, receiptAt txs height e = some (receipt e.1)) :
    pe.executeBatches sha256 height proposer batches s =
      (some ((batches.map positions).flatten.map fun i => (i, receipt i)),
        (Serial.runBatches (pe.program sha256 txs height proposer) s
          (batches.map positions)).2) := by
  induction batches generalizing s with
  | nil => rfl
  | cons batch rest ih =>
      have hBatch := pe.executeBatchParallel_eq sha256 height proposer
        (hDrawn batch (List.mem_cons_self ..)) (s := s) fun e he => h e (List.mem_append_left _ he)
      have hRest := ih (fun b hb => hDrawn b (List.mem_cons_of_mem _ hb))
        fun e he => h e (List.mem_append_right _ he)
      rw [executeBatches, hBatch]
      show (match pe.executeBatches sha256 height proposer rest _ with
        | (none, store) => (none, store)
        | (some allResults, store) => _) = _
      rw [hRest, List.map_cons, List.flatten_cons, List.map_append]
      rfl

end Numbered

/-! ## The schedule as a partition -/

/-- The batch of the schedule that a transaction was put into. -/
def batchIndex (batches : List ExecutionBatch) (i : Nat) : Nat :=
  batches.findIdx fun batch => (positions batch).contains i

section Schedule

variable (txs : List SignedTransaction)

theorem drawnFrom_schedule {batch : ExecutionBatch} (h : batch ∈ scheduleParallel sha256 txs) :
    DrawnFrom txs batch := by
  intro e he
  have hMem := (scheduled_perm sha256 txs).mem_iff.mp (List.mem_flatMap.mpr ⟨batch, h, he⟩)
  obtain ⟨⟨tx, i⟩, hZip, rfl⟩ := List.mem_map.mp hMem
  exact List.mem_zipIdx_iff_getElem?.mp hZip

theorem positions_perm :
    ((scheduleParallel sha256 txs).map positions).flatten.Perm (List.range txs.length) := by
  have hPerm := (scheduled_perm sha256 txs).map Prod.fst
  rw [List.map_flatMap, List.map_map] at hPerm
  have hRange : txs.zipIdx.map (Prod.fst ∘ Prod.swap) = List.range txs.length := by
    show txs.zipIdx.map Prod.snd = _
    rw [List.zipIdx_map_snd, List.range_eq_range']
  rw [hRange] at hPerm
  exact hPerm

/-- The schedule puts every transaction into exactly one batch. -/
theorem partition_schedule :
    Serial.Partition txs.length (batchIndex (scheduleParallel sha256 txs))
      ((scheduleParallel sha256 txs).map positions) := by
  have hPerm := positions_perm sha256 txs
  have hNodup : ((scheduleParallel sha256 txs).map positions).flatten.Nodup :=
    hPerm.nodup_iff.mpr List.nodup_range
  generalize scheduleParallel sha256 txs = batches at hPerm hNodup ⊢
  have hLt : ∀ i, i < txs.length → batchIndex batches i < batches.length := by
    intro i hi
    have hMem := hPerm.mem_iff.mpr (List.mem_range.mpr hi)
    obtain ⟨l, hl, hil⟩ := List.mem_flatten.mp hMem
    obtain ⟨batch, hBatch, rfl⟩ := List.mem_map.mp hl
    exact List.findIdx_lt_length_of_exists ⟨batch, hBatch, by simpa using hil⟩
  refine ⟨fun m l hl i => ?_, fun i hi => by rw [List.length_map]; exact hLt i hi⟩
  obtain ⟨batch, hBatch, rfl⟩ := Option.map_eq_some_iff.mp (List.getElem?_map .. ▸ hl)
  obtain ⟨hm, hEq⟩ := List.getElem?_eq_some_iff.mp hBatch
  constructor
  · intro hi
    refine ⟨List.mem_range.mp (hPerm.mem_iff.mp (List.mem_flatten.mpr
      ⟨_, List.mem_of_getElem? hl, hi⟩)), ?_⟩
    refine (List.findIdx_eq hm).mpr ⟨by rw [hEq]; simpa using hi, fun j hj => ?_⟩
    -- An earlier batch that held the position would repeat it.
    by_contra hNot
    have hEarlier : i ∈ positions batches[j] := by simpa using hNot
    have hDisjoint := List.pairwise_iff_getElem.mp
      (List.pairwise_map.mp (List.nodup_flatten.mp hNodup).2) j m (by omega) hm hj
    rw [hEq] at hDisjoint
    exact hDisjoint hEarlier hi
  · intro h
    obtain ⟨_, rfl⟩ := h
    have hFound : (positions batches[batchIndex batches i]).contains i = true :=
      List.findIdx_getElem (w := hm)
    rw [hEq] at hFound
    simpa using hFound

end Schedule

/-! ## Agreement with the sequential loop -/

/-- Both engines return the same receipts in the same order and leave the same
store. -/
def Agrees (txs : List SignedTransaction) (height : UInt64) (proposer : Address)
    (s : StateStore) : Prop :=
  ∃ receipts stats final,
    pe.executeBlockParallel sha256 txs s height proposer = (some (receipts, stats), final) ∧
      (pe.executor.executeBlock sha256 txs height proposer).run s = (.ok receipts, final)

/-- None of the differences between the engines shows on a block: no unbonding
matures, no transaction meets the gas limit or panics at its turn in block order,
and transactions whose order the schedule does not keep are independent. -/
structure Serializable (txs : List SignedTransaction) (height : UInt64) (proposer : Address)
    (s : StateStore) : Prop where
  noMature : matureEntries height s = []
  underLimit : ∀ i tx, txs[i]? = some tx →
    ¬ pe.executor.OverLimit (pe.executor.gasBefore sha256 txs height proposer s i) tx
  noPanic : ∀ i tx, txs[i]? = some tx →
    pe.executor.Charges tx (pe.executor.storeBefore sha256 txs height proposer s i) →
      ¬ pe.executor.Panics tx proposer (pe.executor.storeBefore sha256 txs height proposer s i)
  respects : Serial.Respects (pe.program sha256 txs height proposer)
    (pe.executor.storeBefore sha256 txs height proposer s) txs.length
    (batchIndex (scheduleParallel sha256 txs))

section Agreement

variable {txs : List SignedTransaction} {height : UInt64} {proposer : Address} {s : StateStore}
variable {tx : SignedTransaction}

theorem not_panic_of_not_panics
    (h : pe.executor.Charges tx s → ¬ pe.executor.Panics tx proposer s) :
    ((pe.executor.executeTransaction sha256 tx height proposer).run s).1 ≠ .panic := by
  have hRun := pe.executor.executeTransaction_run sha256 tx height proposer s
  generalize (pe.executor.executeTransaction sha256 tx height proposer).run s = result at hRun
  intro hPanic
  cases hRun with
  | rejected | failed => cases hPanic
  | panicked fees s₁ s₂ hCharges hFee hCollected hAction =>
      refine h hCharges ((pe.executor.action_panics_iff sha256 height hCharges hCollected).mp ?_)
      rw [hAction]
  | succeeded =>
      cases hPanic

theorem receiptOf_eq_booked {gas : UInt64} {outcome : Outcome ExecutionError ExecutionResult}
    (h : outcome ≠ .panic) :
    receiptOf tx height outcome = some (Executor.booked tx height gas outcome).2 := by
  cases outcome with
  | ok | err => rfl
  | panic => exact absurd rfl h

/-- The turn of a transaction in block order, if it is under the gas limit. -/
theorem turn_of_underLimit {i : Nat} (hTx : txs[i]? = some tx)
    (hGas : ¬ pe.executor.OverLimit (pe.executor.gasBefore sha256 txs height proposer s i) tx) :
    let run := (pe.executor.executeTransaction sha256 tx height proposer).run
      (pe.executor.storeBefore sha256 txs height proposer s i)
    pe.executor.storeBefore sha256 txs height proposer s (i + 1) = run.2 ∧
      (pe.executor.receiptsOf sha256 txs height proposer s)[i]? =
        some (Executor.booked tx height 0 run.1).2 := by
  intro run
  obtain ⟨receipt, hReceipt, hStep⟩ := pe.executor.isStep_at sha256 height proposer s hTx
  unfold Executor.IsStep Executor.next at hStep
  rw [if_neg hGas] at hStep
  obtain ⟨hBooked, hAfter⟩ := hStep
  refine ⟨hAfter, hReceipt.trans (congrArg some (hBooked.trans ?_))⟩
  show (Executor.booked tx height _ run.1).2 = (Executor.booked tx height 0 run.1).2
  cases run.1 <;> rfl

theorem sorted_receipts {l : List Nat} {n : Nat} (h : l.Perm (List.range n))
    (receipt : Nat → TransactionReceipt) :
    (((l.map fun i => (i, receipt i)).insertionSort fun a b => a.1 ≤ b.1).map Prod.snd) =
      (List.range n).map receipt := by
  have hSort : (l.map fun i => (i, receipt i)).insertionSort (fun a b => a.1 ≤ b.1) =
      (l.insertionSort (· ≤ ·)).map fun i => (i, receipt i) :=
    (List.map_insertionSort (· ≤ ·) _ (fun i => (i, receipt i)) l fun _ _ _ _ => Iff.rfl).symm
  have hRange : l.insertionSort (· ≤ ·) = List.range n :=
    List.Perm.eq_of_pairwise' (l.pairwise_insertionSort (· ≤ ·)) List.pairwise_le_range
      ((l.perm_insertionSort (· ≤ ·)).trans h)
  rw [hSort, hRange, List.map_map]
  rfl

/-- The receipt at a position of the block, in block order. -/
def receiptInOrder (txs : List SignedTransaction) (height : UInt64) (proposer : Address)
    (s : StateStore) (i : Nat) : TransactionReceipt :=
  (pe.executor.receiptsOf sha256 txs height proposer s)[i]?.getD
    (TransactionReceipt.failure Hash.zero 0 0 0 Address.zero "")

theorem map_receiptInOrder :
    (List.range txs.length).map (pe.receiptInOrder sha256 txs height proposer s) =
      pe.executor.receiptsOf sha256 txs height proposer s := by
  have hLength := pe.executor.length_receiptsOf sha256 txs height proposer s
  apply List.ext_getElem?
  intro i
  rw [List.getElem?_map]
  by_cases hi : i < txs.length
  · rw [List.getElem?_range hi, Option.map_some, receiptInOrder,
      List.getElem?_eq_getElem (by omega)]
    rfl
  · rw [List.getElem?_eq_none (by simpa using hi), List.getElem?_eq_none (by omega)]
    rfl

/-- Each transaction's turn in block order is a run of its program, and ends with
its receipt. -/
theorem Serializable.turn (h : pe.Serializable sha256 txs height proposer s) {i : Nat}
    (hi : i < txs.length) :
    let run := (pe.program sha256 txs height proposer i).run
      (pe.executor.storeBefore sha256 txs height proposer s i)
    pe.executor.storeBefore sha256 txs height proposer s (i + 1) = run.2 ∧
      receiptAt txs height (i, run.1) =
        some (pe.receiptInOrder sha256 txs height proposer s i) := by
  have hTx : txs[i]? = some txs[i] := List.getElem?_eq_getElem hi
  obtain ⟨hNext, hReceipt⟩ := pe.turn_of_underLimit sha256 hTx (h.underLimit i _ hTx)
  rw [pe.program_eq sha256 height proposer hTx]
  refine ⟨hNext, ?_⟩
  show txs[i]?.bind _ = _
  rw [receiptInOrder, hReceipt, hTx]
  exact receiptOf_eq_booked (pe.not_panic_of_not_panics sha256 (h.noPanic i _ hTx))

theorem Serializable.storeBefore_zero (h : pe.Serializable sha256 txs height proposer s) :
    pe.executor.storeBefore sha256 txs height proposer s 0 = s := by
  rw [Executor.storeBefore, List.take_zero, Executor.run_executeBlock]
  show (matureEntries height s).foldl released s = s
  rw [h.noMature]
  rfl

/-- The parallel engine agrees with the sequential loop on every block on which
none of their differences shows. -/
theorem parallel_eq_sequential (h : pe.Serializable sha256 txs height proposer s) :
    pe.Agrees sha256 txs height proposer s := by
  have hSerial : Serial.IsSerial (pe.program sha256 txs height proposer)
      (pe.executor.storeBefore sha256 txs height proposer s) txs.length :=
    fun _ hi => (h.turn sha256 pe hi).1
  have hRuns := Serial.runBatches_serial hSerial h.respects (partition_schedule sha256 txs)
  rw [h.storeBefore_zero] at hRuns
  have hBatches : pe.executeBatches sha256 height proposer (scheduleParallel sha256 txs) s =
      (some (((scheduleParallel sha256 txs).map positions).flatten.map fun i =>
        (i, pe.receiptInOrder sha256 txs height proposer s i)),
        pe.executor.storeBefore sha256 txs height proposer s txs.length) := by
    rw [pe.executeBatches_eq sha256 height proposer fun _ hb => drawnFrom_schedule sha256 txs hb,
      hRuns]
    rw [hRuns]
    intro e he
    obtain ⟨i, hi, rfl⟩ := List.mem_map.mp he
    exact (h.turn sha256 pe (List.mem_range.mp ((positions_perm sha256 txs).mem_iff.mp hi))).2
  refine ⟨pe.executor.receiptsOf sha256 txs height proposer s,
    scheduleStats (scheduleParallel sha256 txs),
    pe.executor.storeBefore sha256 txs height proposer s txs.length, ?_, ?_⟩
  · rw [executeBlockParallel, hBatches, ← map_receiptInOrder,
      ← sorted_receipts (positions_perm sha256 txs)]
  · rw [Executor.storeBefore, List.take_length, Executor.receiptsOf, Executor.run_executeBlock]
    rfl

end Agreement

/-! ## Two players -/

/-- Two players with the same balance. -/
def twoPlayers : StateStore :=
  withAccount (withAccount ∅ (AccountState.withBalance (Address.ofByte 1) 1000000 0))
    (AccountState.withBalance (Address.ofByte 3) 1000000 0)

/-- A transfer of 100 between two players. -/
def payment (signer toAddr : Address) : SignedTransaction where
  transaction :=
    { chainId := "polay-devnet-1", nonce := 0, signer
      action := .transfer toAddr 100, maxFee := 100000, timestamp := 0
      session := none, sponsor := none }
  signature := Signature.zero
  txHash := Hash.zero
  signerPubkey := []

theorem parallel_eq_sequential_payments :
    Agrees (fun _ => Hash.zero) ⟨Executor.devnet⟩
      [payment (Address.ofByte 1) (Address.ofByte 2),
        payment (Address.ofByte 1) (Address.ofByte 4)] 1 (Address.ofByte 9) twoPlayers := by
  refine parallel_eq_sequential _ _ ⟨by decide +kernel, ?_, ?_, ?_⟩
  · intro i tx hTx
    match i, hTx with
    | 0, rfl => decide +kernel
    | 1, rfl => decide +kernel
  · intro i tx hTx _
    match i, hTx with
    | 0, rfl => exact id
    | 1, rfl => exact id
  · -- One signer, so the second payment is in the later batch.
    intro i j hij hj hBatch
    obtain ⟨rfl, rfl⟩ : i = 0 ∧ j = 1 := by
      have : j < 2 := hj
      omega
    exact absurd hBatch (by decide +kernel)

/-- Two payments between different players fall into one batch. Run in parallel,
the second flush overwrites the proposer's account of the first, and one share of
the fees is lost. -/
theorem payments_lose_share :
    let txs := [payment (Address.ofByte 1) (Address.ofByte 2),
      payment (Address.ofByte 3) (Address.ofByte 4)]
    let pe : ParallelExecutor := ⟨Executor.devnet⟩
    let parallel := pe.executeBlockParallel (fun _ => Hash.zero) txs twoPlayers 1
      (Address.ofByte 9)
    let sequential := (Executor.devnet.executeBlock (fun _ => Hash.zero) txs 1
      (Address.ofByte 9)).run twoPlayers
    (accountOf parallel.2 (Address.ofByte 9)).map (·.balance) = some 8362 ∧
      (accountOf sequential.2 (Address.ofByte 9)).map (·.balance) = some 16724 ∧
      ¬ pe.Agrees (fun _ => Hash.zero) txs 1 (Address.ofByte 9) twoPlayers := by
  intro txs pe parallel sequential
  have hParallel : (accountOf parallel.2 (Address.ofByte 9)).map (·.balance) = some 8362 := by
    decide +kernel
  have hSequential :
      (accountOf sequential.2 (Address.ofByte 9)).map (·.balance) = some 16724 := by
    decide +kernel
  refine ⟨hParallel, hSequential, ?_⟩
  rintro ⟨receipts, stats, final, hPar, hSeq⟩
  rw [show parallel = _ from hPar] at hParallel
  rw [show sequential = _ from hSeq, hParallel] at hSequential
  exact absurd hSequential (by decide)

end ParallelExecutor

end Polay.Execution
