import Polay.Execution.Calls
import Polay.Lib.Sums

/-!
# Receipts and gas of a block

A block has one receipt for each of its transactions, in order. The loop passes
over a transaction exactly if its gas and the gas on the receipts before it exceed
the limit of the block, so that the receipts never add up to more than the limit.
Transactions that were passed over or rejected have no gas on their receipt.
-/

namespace Polay.Execution

open Lib Lib.Machine Polay.Types State

namespace Executor

variable {sha256 : List UInt8 → Hash} {ex : Executor} {txs : List SignedTransaction}
variable {height : UInt64} {proposer : Address} {s : StateStore}

theorem steps_take (gas : UInt64) (s : StateStore) (txs : List SignedTransaction) (i : Nat) :
    (ex.steps sha256 height proposer gas s txs).take i =
      ex.steps sha256 height proposer gas s (txs.take i) := by
  induction txs generalizing gas s i with
  | nil => simp [steps]
  | cons tx rest ih =>
      cases i with
      | zero => rfl
      | succ => rw [List.take_succ_cons, steps, List.take_succ_cons, ih, steps]

theorem receiptsOf_take (i : Nat) : (ex.receiptsOf sha256 txs height proposer s).take i =
    ex.receiptsOf sha256 (txs.take i) height proposer s := by
  unfold receiptsOf
  rw [run_executeBlock, run_executeBlock]
  show ((ex.steps sha256 height proposer 0 _ txs).map _).take i = List.map _ _
  rw [← List.map_take, steps_take]
  rfl

/-- The gas on the receipts before a position. -/
def gasUsedBefore (sha256 : List UInt8 → Hash) (ex : Executor) (txs : List SignedTransaction)
    (height : UInt64) (proposer : Address) (s : StateStore) (i : Nat) : Nat :=
  (((ex.receiptsOf sha256 txs height proposer s).take i).map fun r => r.gasUsed.toNat).sum

theorem toNat_gasBefore (i : Nat) :
    (ex.gasBefore sha256 txs height proposer s i).toNat =
      min (gasUsedBefore sha256 ex txs height proposer s i) (2 ^ 64 - 1) := by
  rw [gasBefore, toNat_foldl_saturatingAdd, gasUsedBefore, receiptsOf_take, UInt64.toNat_zero,
    Nat.zero_add]

/-- The sums of the loop fit into 64 bits. -/
def GasFits (sha256 : List UInt8 → Hash) (ex : Executor) (txs : List SignedTransaction)
    (height : UInt64) (proposer : Address) (s : StateStore) : Prop :=
  ∀ i tx, txs[i]? = some tx → gasUsedBefore sha256 ex txs height proposer s i +
    (ex.estimateGas tx.transaction).toNat < 2 ^ 64

/-- The gas of a transaction does not fit into what is left of the limit. -/
def Exceeds (sha256 : List UInt8 → Hash) (ex : Executor) (txs : List SignedTransaction)
    (height : UInt64) (proposer : Address) (s : StateStore) (i : Nat) (tx : SignedTransaction) :
    Prop :=
  ex.chainConfig.maxBlockGas.toNat <
    gasUsedBefore sha256 ex txs height proposer s i + (ex.estimateGas tx.transaction).toNat

theorem overLimit_iff (hFits : GasFits sha256 ex txs height proposer s) {i : Nat}
    {tx : SignedTransaction} (hTx : txs[i]? = some tx) :
    ex.OverLimit (ex.gasBefore sha256 txs height proposer s i) tx ↔
      Exceeds sha256 ex txs height proposer s i tx := by
  have hLt := hFits i tx hTx
  rw [OverLimit, UInt64.lt_iff_toNat_lt, toNat_saturatingAdd, toNat_gasBefore, Exceeds]
  omega

/-! ## The receipt of a turn -/

/-- What is on the receipt of a transaction that has its turn. -/
theorem booked_receipt (sha256 : List UInt8 → Hash) (ex : Executor) (tx : SignedTransaction)
    (height gas : UInt64) (proposer : Address) (s : StateStore) :
    let r := (booked tx height gas ((ex.executeTransaction sha256 tx height proposer).run s).1).2
    r.txHash = tx.txHash ∧ r.blockHeight = height ∧
      r.gasUsed.toNat ≤ (ex.estimateGas tx.transaction).toNat := by
  intro r
  have hRun := ex.executeTransaction_run sha256 tx height proposer s
  revert r
  generalize (ex.executeTransaction sha256 tx height proposer).run s = result at hRun
  cases hRun with
  | rejected | panicked => exact ⟨rfl, rfl, Nat.zero_le _⟩
  | failed => exact ⟨rfl, rfl, Nat.le_refl _⟩
  | succeeded =>
      exact ⟨rfl, rfl, Nat.le_refl _⟩

/-- The transaction is passed over: its receipt says so, and the store stays. -/
structure PassedOver (sha256 : List UInt8 → Hash) (ex : Executor) (txs : List SignedTransaction)
    (height : UInt64) (proposer : Address) (s : StateStore) (i : Nat) (tx : SignedTransaction)
    (r : TransactionReceipt) : Prop where
  receipt : r = rejection tx height "block gas limit exceeded"
  store : ex.storeBefore sha256 txs height proposer s (i + 1) =
    ex.storeBefore sha256 txs height proposer s i

/-- The transaction is executed on the store the earlier ones left; the receipt is its own, or
that of a rejection. -/
structure HasTurn (sha256 : List UInt8 → Hash) (ex : Executor) (txs : List SignedTransaction)
    (height : UInt64) (proposer : Address) (s : StateStore) (i : Nat) (tx : SignedTransaction)
    (r : TransactionReceipt) : Prop where
  receipt : r = (booked tx height 0 ((ex.executeTransaction sha256 tx height proposer).run
    (ex.storeBefore sha256 txs height proposer s i)).1).2
  store : ex.storeBefore sha256 txs height proposer s (i + 1) =
    ((ex.executeTransaction sha256 tx height proposer).run
      (ex.storeBefore sha256 txs height proposer s i)).2

theorem booked_snd (gas gas' : UInt64) (tx : SignedTransaction)
    (o : Outcome ExecutionError ExecutionResult) :
    (booked tx height gas o).2 = (booked tx height gas' o).2 := by
  cases o <;> rfl

/-- The turn of the loop at a position. -/
theorem turn_at (hFits : GasFits sha256 ex txs height proposer s) {i : Nat}
    {tx : SignedTransaction} (hTx : txs[i]? = some tx) :
    ∃ r, (ex.receiptsOf sha256 txs height proposer s)[i]? = some r ∧
      (Exceeds sha256 ex txs height proposer s i tx →
        PassedOver sha256 ex txs height proposer s i tx r) ∧
      (¬ Exceeds sha256 ex txs height proposer s i tx →
        HasTurn sha256 ex txs height proposer s i tx r) := by
  obtain ⟨r, hr, hReceipt, hStore⟩ := ex.isStep_at sha256 height proposer s hTx
  have hOver := overLimit_iff hFits hTx
  unfold next at hReceipt hStore
  refine ⟨r, hr, fun hExceeds => ?_, fun hNot => ?_⟩
  · have hOver := hOver.mpr hExceeds
    rw [if_pos hOver] at hReceipt hStore
    exact ⟨hReceipt, hStore⟩
  · have hUnder : ¬ ex.OverLimit _ tx := fun h => hNot (hOver.mp h)
    rw [if_neg hUnder] at hReceipt hStore
    exact ⟨hReceipt.trans (booked_snd _ _ tx _), hStore⟩

theorem gasUsedBefore_succ {i : Nat} {r : TransactionReceipt}
    (hr : (ex.receiptsOf sha256 txs height proposer s)[i]? = some r) :
    gasUsedBefore sha256 ex txs height proposer s (i + 1) =
      gasUsedBefore sha256 ex txs height proposer s i + r.gasUsed.toNat := by
  unfold gasUsedBefore
  rw [List.take_add_one, hr, Option.toList_some, List.map_append, List.sum_append]
  simp

/-- The receipts up to any position stay within the limit. -/
theorem gasUsedBefore_le (hFits : GasFits sha256 ex txs height proposer s) (i : Nat) :
    gasUsedBefore sha256 ex txs height proposer s i ≤ ex.chainConfig.maxBlockGas.toNat := by
  induction i with
  | zero => exact Nat.zero_le _
  | succ i ih =>
      cases hTx : txs[i]? with
      | none =>
          have hLength := ex.length_receiptsOf sha256 txs height proposer s
          have hEnd : txs.length ≤ i := List.getElem?_eq_none_iff.mp hTx
          unfold gasUsedBefore at ih ⊢
          rw [List.take_of_length_le (by omega)] at ih ⊢
          exact ih
      | some tx =>
          obtain ⟨r, hr, hPassed, hTurn⟩ := turn_at hFits hTx
          rw [gasUsedBefore_succ hr]
          by_cases hExceeds : Exceeds sha256 ex txs height proposer s i tx
          · rw [(hPassed hExceeds).receipt]
            exact ih
          · have hGas := (booked_receipt sha256 ex tx height 0 proposer
              (ex.storeBefore sha256 txs height proposer s i)).2.2
            rw [← (hTurn hExceeds).receipt] at hGas
            unfold Exceeds at hExceeds
            omega

/-- **Receipts and gas of a block.** There is one receipt for each transaction, in order, with
its hash and the height of the block; together they use at most the gas limit; and a
transaction is passed over exactly if its gas and the gas used before it exceed the limit. -/
theorem receipts_within_limit (hFits : GasFits sha256 ex txs height proposer s) :
    ∃ receipts, ((ex.executeBlock sha256 txs height proposer).run s).1 = .ok receipts ∧
      receipts.length = txs.length ∧
      (receipts.map fun r => r.gasUsed.toNat).sum ≤ ex.chainConfig.maxBlockGas.toNat ∧
      ∀ i tx, txs[i]? = some tx → ∃ r, receipts[i]? = some r ∧ r.txHash = tx.txHash ∧
        r.blockHeight = height ∧
        (Exceeds sha256 ex txs height proposer s i tx →
          PassedOver sha256 ex txs height proposer s i tx r) ∧
        (¬ Exceeds sha256 ex txs height proposer s i tx →
          HasTurn sha256 ex txs height proposer s i tx r) := by
  have hLength := ex.length_receiptsOf sha256 txs height proposer s
  refine ⟨ex.receiptsOf sha256 txs height proposer s, ?_, hLength, ?_, fun i tx hTx => ?_⟩
  · rw [receiptsOf, run_executeBlock]
    rfl
  · have hLe := gasUsedBefore_le hFits txs.length
    rwa [gasUsedBefore, List.take_of_length_le (by omega)] at hLe
  · obtain ⟨r, hr, hPassed, hTurn⟩ := turn_at hFits hTx
    refine ⟨r, hr, ?_, ?_, hPassed, hTurn⟩
    all_goals by_cases hExceeds : Exceeds sha256 ex txs height proposer s i tx
    · rw [(hPassed hExceeds).receipt]
      rfl
    · rw [(hTurn hExceeds).receipt]
      exact (booked_receipt sha256 ex tx height 0 proposer _).1
    · rw [(hPassed hExceeds).receipt]
      rfl
    · rw [(hTurn hExceeds).receipt]
      exact (booked_receipt sha256 ex tx height 0 proposer _).2.1

/-- A network whose blocks have gas for one transfer. -/
def oneTransfer : Executor := ⟨{ ChainConfig.default with maxBlockGas := 30000 }, by decide⟩

/-- The second of two transfers is passed over. -/
theorem receipts_within_limit_oneTransfer :
    let tx (n : UInt64) := (traderCall n (.transfer (Address.ofByte 2) 5)).tx
    ∃ receipts, ((oneTransfer.executeBlock (fun _ => Hash.zero) [tx 0, tx 1] 1
        Address.zero).run traderStore).1 = .ok receipts ∧
      (receipts.map fun r => r.gasUsed.toNat).sum ≤ 30000 ∧
      receipts[1]? = some (rejection (tx 1) 1 "block gas limit exceeded") := by
  intro tx
  have hFits : GasFits (fun _ => Hash.zero) oneTransfer [tx 0, tx 1] 1 Address.zero
      traderStore := by
    intro i t ht
    match i, ht with
    | 0, rfl => decide +kernel
    | 1, rfl => decide +kernel
  obtain ⟨receipts, hRun, _, hSum, hEach⟩ := receipts_within_limit hFits
  obtain ⟨r, hr, _, _, hPassed, _⟩ := hEach 1 (tx 1) rfl
  refine ⟨receipts, hRun, hSum, ?_⟩
  have hExceeds : Exceeds (fun _ => Hash.zero) oneTransfer [tx 0, tx 1] 1 Address.zero
      traderStore 1 (tx 1) := by
    unfold Exceeds
    decide +kernel
  rw [hr, (hPassed hExceeds).receipt]

end Executor

end Polay.Execution
