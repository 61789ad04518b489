import Polay.Execution.Maturity
import Polay.Execution.Parallel
import Polay.Mempool.Pool
import Polay.Validator.Admission

/-!
# Block production

The producer takes the pending transactions with the highest fees, executes them
on its store and assembles the block. The validator loop hands it the state root
it computed beforehand, so the header carries the root of the store before the
block, where validation expects the root after it. A produced block is accepted
exactly if these are the same, that is, if the block changes no committed record:
no transaction pays a fee, and every matured unbonding pays out nothing.
-/

namespace Polay.Validator

open Lib Lib.Machine Polay.Types State Crypto Execution
open BlockValidator

/-- Assemble a block; `none` is the panic on a header that does not serialize. -/
def proposeBlock (crypto : Primitives) (height : UInt64) (parentHash stateRoot : Hash)
    (transactions : List SignedTransaction) (chainId : String) (proposer : Address)
    (timestamp : UInt64) : Option Block :=
  let header : BlockHeader :=
    { height, timestamp, parentHash, stateRoot
      transactionsRoot := merkleRoot crypto.sha256 (transactions.map SignedTransaction.txHash)
      proposer, chainId, hash := Hash.zero }
  (hashBlockHeader crypto.sha256 header).map fun hash => ⟨{ header with hash }, transactions⟩

/-- The producer: the chain configuration and the address of its key. -/
structure BlockProducer where
  chainConfig : ChainConfig
  address : Address

namespace BlockProducer

variable (bp : BlockProducer) (crypto : Primitives)

/-- Execute the pending transactions with the configured engine; no receipts if it
panics. -/
def executePending (height : UInt64) (pending : List SignedTransaction) (executor : Executor)
    (s : StateStore) : Option (List TransactionReceipt) × StateStore :=
  if bp.chainConfig.parallelExecution = true then
    match Executor.new bp.chainConfig with
    | none => (none, s)
    | some inner =>
        let result := ParallelExecutor.executeBlockParallel crypto.sha256 ⟨inner⟩ pending s height
          bp.address
        (result.1.map Prod.fst, result.2)
  else
    let result := (executor.executeBlock crypto.sha256 pending height bp.address).run s
    (result.1.toOption, result.2)

/-- Produce a block with its receipts; `timestamp` is the time of the call. -/
def produceBlock (height : UInt64) (parentHash stateRoot : Hash) (pool : Mempool)
    (executor : Executor) (chainId : String) (timestamp : UInt64) (s : StateStore) :
    Option (Block × List TransactionReceipt) × StateStore :=
  let pending := pool.getPendingForBlock bp.chainConfig.maxBlockTransactions
  match bp.executePending crypto height pending executor s with
  | (none, s) => (none, s)
  | (some receipts, s) =>
      ((proposeBlock crypto height parentHash stateRoot pending chainId bp.address
        timestamp).map fun block => (block, receipts), s)

end BlockProducer

/-! ## Payouts that change no account -/

variable (l : List (UnbondingEntry × UInt8)) (s : StateStore)

/-- No account is lost or poorer. -/
def Grown (s t : StateStore) : Prop :=
  ∀ a x, accountOf s a = some x → ∃ y, accountOf t a = some y ∧ x.balance ≤ y.balance

theorem Grown.trans {s t u : StateStore} (h : Grown s t) (h' : Grown t u) : Grown s u := by
  intro a x hx
  obtain ⟨y, hy, hxy⟩ := h a x hx
  obtain ⟨z, hz, hyz⟩ := h' a y hy
  exact ⟨z, hz, UInt64.le_trans hxy hyz⟩

theorem grown_released (e : UnbondingEntry × UInt8) : Grown s (released s e) := by
  intro a x hx
  rw [accountOf_released, Executor.accountOf_creditedStore]
  by_cases hEq : a = e.1.delegator
  · subst hEq
    rw [if_pos rfl, hx]
    exact ⟨_, rfl, le_saturatingAdd _ _⟩
  · rw [if_neg hEq]
    exact ⟨x, hx, UInt64.le_refl _⟩

theorem grown_foldl_released : Grown s (l.foldl released s) := by
  induction l generalizing s with
  | nil => exact fun a x hx => ⟨x, hx, UInt64.le_refl _⟩
  | cons e l ih => exact (grown_released s e).trans (ih _)

/-- The payout adds nothing: the account exists, and is full or gets nothing. -/
def PaysNothing (s : StateStore) (e : UnbondingEntry × UInt8) : Prop :=
  ∃ x, accountOf s e.1.delegator = some x ∧ (e.1.amount = 0 ∨ x.balance = u64Max)

theorem saturatingAdd_eq_self {a b : UInt64} :
    saturatingAdd a b = a ↔ b = 0 ∨ a = u64Max := by
  rw [← UInt64.toNat_inj, ← UInt64.toNat_inj, ← UInt64.toNat_inj, toNat_saturatingAdd,
    toNat_u64Max]
  have hBound := a.toNat_lt
  have hZero : (0 : UInt64).toNat = 0 := rfl
  omega

theorem accountOf_released_of_paysNothing {s : StateStore} {e : UnbondingEntry × UInt8}
    (h : PaysNothing s e) (a : Address) : accountOf (released s e) a = accountOf s a := by
  obtain ⟨x, hx, hNothing⟩ := h
  rw [accountOf_released, Executor.accountOf_creditedStore]
  by_cases hEq : a = e.1.delegator
  · subst hEq
    rw [if_pos rfl, hx]
    show some { x with balance := saturatingAdd x.balance e.1.amount } = some x
    rw [saturatingAdd_eq_self.mpr hNothing]
  · rw [if_neg hEq]

/-- If the accounts are what they were after all payouts, no payout added anything. -/
theorem accountOf_foldl_released_iff :
    (∀ a, accountOf (l.foldl released s) a = accountOf s a) ↔ ∀ e ∈ l, PaysNothing s e := by
  induction l generalizing s with
  | nil => simp
  | cons e l ih =>
      have hCongr : PaysNothing s e →
          ((∀ e' ∈ l, PaysNothing (released s e) e') ↔ ∀ e' ∈ l, PaysNothing s e') := by
        intro he
        unfold PaysNothing
        simp only [accountOf_released_of_paysNothing he]
      rw [List.forall_mem_cons]
      constructor
      · intro h
        -- The account of the first payout ends where it began, having only grown.
        have hFirst : PaysNothing s e := by
          have hCredit := Executor.accountOf_creditedStore s e.1.delegator 0 e.1.amount
            e.1.delegator
          rw [if_pos rfl, ← accountOf_released] at hCredit
          obtain ⟨y, hy, hLe⟩ := grown_foldl_released l (released s e) _ _ hCredit
          have hBack : accountOf s e.1.delegator = some y := (h _).symm.trans hy
          rw [hBack] at hLe
          have hLe' : saturatingAdd y.balance e.1.amount ≤ y.balance := hLe
          exact ⟨y, hBack, saturatingAdd_eq_self.mp
            (UInt64.le_antisymm hLe' (le_saturatingAdd _ _))⟩
        have hRest : ∀ a, accountOf (l.foldl released (released s e)) a =
            accountOf (released s e) a := by
          intro a
          rw [accountOf_released_of_paysNothing hFirst]
          exact h a
        exact ⟨hFirst, (hCongr hFirst).mp ((ih _).mp hRest)⟩
      · rintro ⟨hFirst, hRest⟩ a
        show accountOf (l.foldl released (released s e)) a = _
        rw [(ih _).mpr ((hCongr hFirst).mpr hRest), accountOf_released_of_paysNothing hFirst]

theorem get?_account_eq_iff {s t : StateStore} {a : Address} :
    s.get? (.account a) = t.get? (.account a) ↔ accountOf s a = accountOf t a := by
  unfold accountOf
  constructor
  · intro h
    rw [h]
  · intro h
    exact Option.map_injective Subtype.val_injective h

/-- Payouts touch no committed record other than accounts. -/
theorem get?_foldl_released {k : Key} (hKey : k.split.1 ∈ statePrefixes)
    (hAccount : ∀ a, k ≠ .account a) : (l.foldl released s).get? k = s.get? k := by
  induction l generalizing s with
  | nil => rfl
  | cons e l ih =>
      show (l.foldl released (released s e)).get? k = _
      rw [ih]
      unfold released Executor.creditedStore
      have hEntry : ∀ d h i, k ≠ .unbonding d h i := by
        rintro d h i rfl
        simp [Key.split, statePrefixes] at hKey
      have hIndex : ∀ h d i, k ≠ .unbondingIndex h d i := by
        rintro h d i rfl
        simp [Key.split, statePrefixes] at hKey
      rw [Store.get?_erase_ne (hIndex _ _ _).symm, Store.get?_erase_ne (hEntry _ _ _).symm,
        get?_withAccount hAccount]

/-! ## When a produced block is accepted -/

/-- Executing the block changes no account: no transaction is charged after the
payouts of the block, and these pay nothing. -/
structure Neutral (ex : Executor) (txs : List SignedTransaction) (height : UInt64)
    (s : StateStore) : Prop where
  uncharged : ∀ tx ∈ txs, ex.OverLimit 0 tx ∨ ¬ ex.Charges tx (unbonded height s)
  unpaid : ∀ e ∈ matureEntries height s, PaysNothing s e

variable {crypto : Primitives}

/-- A block keeps the state root exactly if it is neutral. -/
theorem stateRoot_blockStore_iff {ex : Executor} {txs : List SignedTransaction}
    {height : UInt64} {proposer : Address} {s : StateStore} (hLength : txs.length < 2 ^ 64)
    (hFree : CollisionFree crypto.sha256 (ex.blockStore crypto.sha256 txs height proposer s) s) :
    stateRoot crypto.sha256 (ex.blockStore crypto.sha256 txs height proposer s) =
        stateRoot crypto.sha256 s ↔
      Neutral ex txs height s := by
  have hUncharged := ex.none_charged_iff crypto.sha256 height proposer 0 (unbonded height s) txs
  constructor
  · intro hRoot
    have hAccounts : ∀ a, accountOf (ex.blockStore crypto.sha256 txs height proposer s) a =
        accountOf s a := fun a =>
      get?_account_eq_iff.mp (get?_account_of_root_eq crypto.sha256 hFree hRoot a)
    have hNone : ∀ st ∈ ex.steps crypto.sha256 height proposer 0 (unbonded height s) txs,
        ¬ ex.Charged st := by
      intro st hMem hCharged
      apply ex.nonceOf_storeAfter_ne crypto.sha256 hLength hMem hCharged
      rw [nonceOf_unbonded]
      unfold nonceOf
      rw [← hAccounts]
      rfl
    have hStore : ex.blockStore crypto.sha256 txs height proposer s = unbonded height s :=
      ex.storeAfter_eq_of_none_charged crypto.sha256 hNone
    rw [hStore] at hAccounts
    exact ⟨hUncharged.mp hNone, (accountOf_foldl_released_iff _ s).mp hAccounts⟩
  · intro hNeutral
    have hStore : ex.blockStore crypto.sha256 txs height proposer s = unbonded height s :=
      ex.storeAfter_eq_of_none_charged crypto.sha256 (hUncharged.mpr hNeutral.uncharged)
    have hAccounts := (accountOf_foldl_released_iff _ s).mpr hNeutral.unpaid
    rw [hStore]
    apply stateRoot_congr
    intro k hKey
    by_cases hAccount : ∃ a, k = .account a
    · obtain ⟨a, rfl⟩ := hAccount
      exact get?_account_eq_iff.mpr (hAccounts a)
    · exact get?_foldl_released _ s hKey fun a ha => hAccount ⟨a, ha⟩

/-- A produced block has the fields the light checks ask for. -/
theorem validateBlockLight_proposeBlock (bv : BlockValidator) {height timestamp : UInt64}
    {parentHash root : Hash} {txs : List SignedTransaction} {proposer : Address} {block : Block}
    (h : proposeBlock crypto height parentHash root txs bv.chainConfig.chainId proposer timestamp =
      some block)
    (hCount : txs.length ≤ bv.chainConfig.maxBlockTransactions.toNat) :
    bv.validateBlockLight crypto block height parentHash = .ok () ∧
      block.transactions = txs ∧ block.header.height = height ∧
      block.header.proposer = proposer ∧ block.header.stateRoot = root := by
  obtain ⟨hash, hHash, rfl⟩ := Option.map_eq_some_iff.mp h
  refine ⟨?_, rfl, rfl, rfl, rfl⟩
  simp only [validateBlockLight, validateChainId, validateHeight, validateParentHash,
    validateTxCount, Check.and_eq_ok, Check.ensure_eq_ok, validateBlockHash_eq_ok,
    validateTransactionsRoot_eq_ok, true_and]
  refine ⟨Nat.not_lt.mpr hCount, hHash, ?_⟩
  unfold transactionsRoot
  by_cases hNil : txs.map SignedTransaction.txHash = []
  · rw [if_pos hNil, hNil]
    rfl
  · rw [if_neg hNil]

/-- A block that was produced on a store, with that store's root, is accepted on a
copy of it exactly if it is neutral there. -/
theorem produced_accepted_iff {bp : BlockProducer} {ex : Executor} {height timestamp : UInt64}
    {parentHash : Hash} {pool : Mempool} {s : StateStore} {block : Block}
    {receipts : List TransactionReceipt} (hConfig : ex.chainConfig = bp.chainConfig)
    (hProduced : (bp.produceBlock crypto (height + 1) parentHash (stateRoot crypto.sha256 s) pool
      ex bp.chainConfig.chainId timestamp s).1 = some (block, receipts))
    (hChecks : validateAllTransactions crypto block.transactions = .ok ())
    (hFree : CollisionFree crypto.sha256
      (ex.blockStore crypto.sha256 block.transactions (height + 1) bp.address s) s) :
    ((BlockValidator.validateProposedBlock ⟨bp.chainConfig⟩ crypto block (height + 1)
      parentHash).run s).1 = .ok () ↔
      Neutral ex block.transactions (height + 1) s := by
  have hPropose : proposeBlock crypto (height + 1) parentHash (stateRoot crypto.sha256 s)
      (pool.getPendingForBlock bp.chainConfig.maxBlockTransactions) bp.chainConfig.chainId
      bp.address timestamp = some block := by
    unfold BlockProducer.produceBlock at hProduced
    simp only at hProduced
    split at hProduced
    next => cases hProduced
    next =>
      obtain ⟨b, hb, hEq⟩ := Option.map_eq_some_iff.mp hProduced
      rw [hb, (Prod.mk.inj hEq).1]
  have hCount : (pool.getPendingForBlock bp.chainConfig.maxBlockTransactions).length ≤
      bp.chainConfig.maxBlockTransactions.toNat := List.length_take_le _ _
  obtain ⟨hLight, hTxs, hHeight, hProposer, hRoot⟩ :=
    validateBlockLight_proposeBlock ⟨bp.chainConfig⟩ hPropose hCount
  have hLength : block.transactions.length < 2 ^ 64 := by
    rw [hTxs]
    exact Nat.lt_of_le_of_lt hCount (UInt64.toNat_lt _)
  rw [validateProposedBlock_eq_ok, validateExecutionAndStateRoot_eq_ok _ _ hConfig, hHeight,
    hProposer, hRoot, stateRoot_blockStore_iff hLength hFree]
  exact ⟨fun h => h.2.2, fun h => ⟨hLight, hChecks, h⟩⟩

/-! ## A produced payment -/

def devnetProducer : BlockProducer := ⟨ChainConfig.default, Address.ofByte 9⟩

/-- A mempool that holds one transaction. -/
def poolOf (tx : SignedTransaction) : Mempool :=
  (Mempool.new MempoolConfig.default).added tx

/-- The first block the producer makes of a pending transaction. -/
def producedBlock (tx : SignedTransaction) : Option Block :=
  (devnetProducer.produceBlock .sample (0 + 1) Hash.zero (stateRoot checksum fundedStore)
    (poolOf tx) Executor.devnet ChainConfig.default.chainId 0 fundedStore).1.map Prod.fst

theorem not_charges_of_absent {ex : Executor} {tx : SignedTransaction} {s : StateStore}
    (h : accountOf s tx.signer = none) : ¬ ex.Charges tx s := by
  intro hCharges
  have hExists := hCharges.2.1
  rw [h] at hExists
  cases hExists

/-- A payment of a key without an account is never charged, so its block is accepted. -/
theorem produced_accepted_iff_unfunded :
    (producedBlock (samplePayment 3 0)).map (fun block =>
      ((devnetValidator.validateProposedBlock .sample block (0 + 1) Hash.zero).run
        fundedStore).1) = some (.ok ()) := by
  have hTxs : (producedBlock (samplePayment 3 0)).map Block.transactions =
      some [samplePayment 3 0] := by
    decide +kernel
  unfold producedBlock at hTxs ⊢
  cases hProduced : (devnetProducer.produceBlock .sample (0 + 1) Hash.zero
      (stateRoot checksum fundedStore) (poolOf (samplePayment 3 0)) Executor.devnet
      ChainConfig.default.chainId 0 fundedStore).1 with
  | none =>
      rw [hProduced] at hTxs
      cases hTxs
  | some result =>
      obtain ⟨block, receipts⟩ := result
      rw [hProduced] at hTxs
      have hBlock : block.transactions = [samplePayment 3 0] := Option.some.inj hTxs
      refine congrArg some ((produced_accepted_iff rfl hProduced ?_
        ?_).mpr ?_)
      · rw [hBlock]
        decide +kernel
      · rw [hBlock]
        exact ⟨by decide +kernel, by decide +kernel⟩
      · rw [hBlock]
        have hMature : matureEntries (0 + 1) fundedStore = [] := by decide +kernel
        have hAbsent : accountOf (unbonded (0 + 1) fundedStore) (samplePayment 3 0).signer =
            none := by
          decide +kernel
        refine ⟨?_, ?_⟩
        · intro tx hTx
          rw [List.mem_singleton.mp hTx]
          exact .inr (not_charges_of_absent hAbsent)
        · rw [hMature]
          exact fun e he => absurd he List.not_mem_nil

/-- The block of a funded payment is refused for its state root. -/
theorem produced_payment_refused :
    (producedBlock (samplePayment 1 0)).map (fun block =>
      (decide (validateAllTransactions .sample block.transactions = .ok ()),
        decide (((devnetValidator.validateProposedBlock .sample block (0 + 1) Hash.zero).run
          fundedStore).1 = .ok ()),
        decide (((devnetValidator.validateExecutionAndStateRoot .sample block).run
          fundedStore).1 = .ok ()))) = some (true, false, false) := by
  decide +kernel

end Polay.Validator
