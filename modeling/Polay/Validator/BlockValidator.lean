import Polay.Crypto.Hash
import Polay.Execution.Blocks
import Polay.Lib.Check
import Polay.State.Merkle

/-!
# Block validation

The checks a validator makes before it votes on a proposed block, in the order
of the source: chain id, height, parent hash, number of transactions, header
hash, transactions root, every transaction on its own, and last the execution of
the block and the resulting state root. The light validation stops before the
transactions.

The execution runs on the store it is given, which keeps its effects.
-/

namespace Polay.Validator

open Lib Lib.Machine Lib.Bytes Polay.Types State Crypto
open Execution

/-- The errors of block validation. -/
inductive BlockValidationError where
  | invalidBlockHash (expected got : String)
  | invalidParentHash (expected got : String)
  | invalidTransactionsRoot (expected got : String)
  | invalidStateRoot (expected got : String)
  | invalidTransaction (index : Nat) (reason : String)
  | heightMismatch (expected got : UInt64)
  | chainIdMismatch (expected got : String)
  | tooManyTransactions (count max : Nat)
deriving DecidableEq

/-- The block validator holds the chain configuration. -/
structure BlockValidator where
  chainConfig : ChainConfig

namespace BlockValidator

variable (bv : BlockValidator) (crypto : Primitives)

/-! ## The checks -/

variable {i : Nat} {block : Block}

def validateChainId (chainId : String) : Check BlockValidationError :=
  Check.ensure (chainId = bv.chainConfig.chainId)
    (.chainIdMismatch bv.chainConfig.chainId chainId)

def validateHeight (got expected : UInt64) : Check BlockValidationError :=
  Check.ensure (got = expected) (.heightMismatch expected got)

def validateParentHash (got expected : Hash) : Check BlockValidationError :=
  Check.ensure (got = expected) (.invalidParentHash expected.toHex got.toHex)

def validateTxCount (count : Nat) : Check BlockValidationError :=
  Check.ensure (¬ bv.chainConfig.maxBlockTransactions.toNat < count)
    (.tooManyTransactions count bv.chainConfig.maxBlockTransactions.toNat)

/-- The header carries its own hash. -/
def validateBlockHash (block : Block) : Check BlockValidationError :=
  match hashBlockHeader crypto.sha256 block.header with
  | none => .panic
  | some computed =>
      Check.ensure (computed = block.header.hash)
        (.invalidBlockHash computed.toHex block.header.hash.toHex)

/-- The root over the transaction hashes of a block. -/
def transactionsRoot (txs : List SignedTransaction) : Hash :=
  let txHashes := txs.map SignedTransaction.txHash
  if txHashes = [] then Hash.zero else merkleRoot crypto.sha256 txHashes

def validateTransactionsRoot (block : Block) : Check BlockValidationError :=
  let computedRoot := transactionsRoot crypto block.transactions
  Check.ensure (computedRoot = block.header.transactionsRoot)
    (.invalidTransactionsRoot computedRoot.toHex block.header.transactionsRoot.toHex)

/-- The signature of a transaction verifies under its public key. -/
def validateSignature (i : Nat) (tx : SignedTransaction) (signingBytes : List UInt8)
    (pubkey : FixedBytes 32) : Check BlockValidationError :=
  match crypto.verify pubkey signingBytes tx.signature with
  | .ok () => .ok ()
  | .error e => .err (.invalidTransaction i s!"invalid signature: invalid signature: {e}")

/-- The public key of a transaction is one, belongs to the signer and signed it. -/
def validatePubkey (i : Nat) (tx : SignedTransaction) (signingBytes : List UInt8) :
    Check BlockValidationError :=
  let length := tx.signerPubkey.length
  match FixedBytes.ofList 32 tx.signerPubkey with
  | none =>
      .err (.invalidTransaction i
        s!"invalid signer_pubkey length: expected 32, got {length}")
  | some pubkey =>
      Check.and (Check.ensure (crypto.fromBytes pubkey = .ok ())
        (.invalidTransaction i "invalid public key"))
      (Check.and (Check.ensure (address crypto.sha256 pubkey = tx.transaction.signer)
        (.invalidTransaction i "signer address doesn't match pubkey"))
      (validateSignature crypto i tx signingBytes pubkey))

/-- One transaction: its hash, its key and its signature. -/
def validateTransaction (i : Nat) (tx : SignedTransaction) : Check BlockValidationError :=
  -- The source serializes the transaction a second time for the signature. The bytes are
  -- the same, and where they do not exist the first serialization has panicked.
  match tx.transaction.signingBytes with
  | none => .panic
  | some signingBytes =>
      let computedHash := crypto.sha256 (signingBytes ++ tx.signature.data)
      let computed := computedHash.toHex
      let claimed := tx.txHash.toHex
      Check.and (Check.ensure (computedHash = tx.txHash)
        (.invalidTransaction i s!"tx_hash mismatch: expected {computed}, got {claimed}"))
      (validatePubkey crypto i tx signingBytes)

/-- Every transaction of a list, counting from `i`. -/
def validateTransactionsFrom : Nat → List SignedTransaction → Check BlockValidationError
  | _, [] => .ok ()
  | i, tx :: rest =>
      Check.and (validateTransaction crypto i tx) (validateTransactionsFrom (i + 1) rest)

def validateAllTransactions (txs : List SignedTransaction) : Check BlockValidationError :=
  validateTransactionsFrom crypto 0 txs

/-- The cheap checks, without the transactions. -/
def validateBlockLight (block : Block) (expectedHeight : UInt64) (expectedParentHash : Hash) :
    Check BlockValidationError :=
  Check.and (bv.validateChainId block.header.chainId)
  (Check.and (validateHeight block.header.height expectedHeight)
  (Check.and (validateParentHash block.header.parentHash expectedParentHash)
  (Check.and (bv.validateTxCount block.transactions.length)
  (Check.and (validateBlockHash crypto block)
    (validateTransactionsRoot crypto block)))))

/-! ## Full validation -/

/-- A check as a program that leaves the store alone. -/
def toExec : Check BlockValidationError → Exec BlockValidationError Unit
  | .ok () => .pure ()
  | .err e => .fail e
  | .panic => .panic

/-- Execute the block on the store and compare the state root. -/
def validateExecutionAndStateRoot (block : Block) : Exec BlockValidationError Unit := do
  let executor ← Prog.unwrap (Executor.new bv.chainConfig)
  let _ : Except ExecutionError (List TransactionReceipt) ←
    (executor.executeBlock crypto.sha256 block.transactions block.header.height
      block.header.proposer).attempt
  let commitment ← computeStateRoot crypto.sha256
  Prog.ensure (commitment.root = block.header.stateRoot)
    (.invalidStateRoot block.header.stateRoot.toHex commitment.root.toHex)

/-- The full validation of a proposed block. -/
def validateProposedBlock (block : Block) (expectedHeight : UInt64)
    (expectedParentHash : Hash) : Exec BlockValidationError Unit := do
  toExec (bv.validateBlockLight crypto block expectedHeight expectedParentHash)
  toExec (validateAllTransactions crypto block.transactions)
  bv.validateExecutionAndStateRoot crypto block

/-! ## What the checks establish -/

/-- A transaction that passes its checks: it has the hash of its bytes, and a key
that belongs to its signer verifies its signature. -/
structure Authentic (tx : SignedTransaction) (signingBytes : List UInt8)
    (pubkey : FixedBytes 32) : Prop where
  serialized : tx.transaction.signingBytes = some signingBytes
  hashed : crypto.sha256 (signingBytes ++ tx.signature.data) = tx.txHash
  keyBytes : pubkey.data = tx.signerPubkey
  isKey : crypto.fromBytes pubkey = .ok ()
  ownKey : address crypto.sha256 pubkey = tx.transaction.signer
  signed : crypto.verify pubkey signingBytes tx.signature = .ok ()

theorem validateSignature_eq_ok {tx : SignedTransaction} {signingBytes : List UInt8}
    {pubkey : FixedBytes 32} : validateSignature crypto i tx signingBytes pubkey = .ok () ↔
      crypto.verify pubkey signingBytes tx.signature = .ok () := by
  unfold validateSignature
  cases crypto.verify pubkey signingBytes tx.signature <;> simp

theorem validateTransaction_eq_ok {tx : SignedTransaction} :
    validateTransaction crypto i tx = .ok () ↔
      ∃ signingBytes pubkey, Authentic crypto tx signingBytes pubkey := by
  unfold validateTransaction
  constructor
  · intro h
    split at h
    next => cases h
    next signingBytes hBytes =>
      obtain ⟨hHash, hKey⟩ := Check.and_eq_ok.mp h
      unfold validatePubkey at hKey
      split at hKey
      next => cases hKey
      next pubkey hPubkey =>
        obtain ⟨hIsKey, hRest⟩ := Check.and_eq_ok.mp hKey
        obtain ⟨hOwn, hSigned⟩ := Check.and_eq_ok.mp hRest
        have hData : pubkey.data = tx.signerPubkey := by
          unfold FixedBytes.ofList at hPubkey
          split at hPubkey
          next => cases hPubkey; rfl
          next => cases hPubkey
        exact ⟨signingBytes, pubkey, hBytes, Check.ensure_eq_ok.mp hHash, hData,
          Check.ensure_eq_ok.mp hIsKey, Check.ensure_eq_ok.mp hOwn,
          (validateSignature_eq_ok crypto).mp hSigned⟩
  · rintro ⟨signingBytes, pubkey, h⟩
    have hPubkey : FixedBytes.ofList 32 tx.signerPubkey = some pubkey := by
      rw [← h.keyBytes, FixedBytes.ofList_data]
    simp only [h.serialized, validatePubkey, hPubkey, Check.and_eq_ok, Check.ensure_eq_ok]
    exact ⟨h.hashed, h.isKey, h.ownKey, (validateSignature_eq_ok crypto).mpr h.signed⟩

theorem validateTransactionsFrom_eq_ok {txs : List SignedTransaction} :
    validateTransactionsFrom crypto i txs = .ok () ↔
      ∀ tx ∈ txs, ∃ signingBytes pubkey, Authentic crypto tx signingBytes pubkey := by
  induction txs generalizing i with
  | nil => simp [validateTransactionsFrom]
  | cons tx txs ih =>
      simp only [validateTransactionsFrom, Check.and_eq_ok, validateTransaction_eq_ok, ih,
        List.mem_cons, forall_eq_or_imp]

/-- The transactions of a block pass exactly if each is authentic. -/
theorem validateAllTransactions_eq_ok {txs : List SignedTransaction} :
    validateAllTransactions crypto txs = .ok () ↔
      ∀ tx ∈ txs, ∃ signingBytes pubkey, Authentic crypto tx signingBytes pubkey :=
  validateTransactionsFrom_eq_ok crypto

theorem validateBlockHash_eq_ok :
    validateBlockHash crypto block = .ok () ↔
      hashBlockHeader crypto.sha256 block.header = some block.header.hash := by
  unfold validateBlockHash
  cases hashBlockHeader crypto.sha256 block.header <;> simp

theorem validateTransactionsRoot_eq_ok :
    validateTransactionsRoot crypto block = .ok () ↔
      transactionsRoot crypto block.transactions = block.header.transactionsRoot :=
  Check.ensure_eq_ok

theorem run_toExec_bind {α : Type} (c : Check BlockValidationError)
    (next : Unit → Exec BlockValidationError α) (s : StateStore) :
    ((toExec c).bind next).run s =
      match c with
      | .ok () => (next ()).run s
      | .err e => (.err e, s)
      | .panic => (.panic, s) := by
  cases c <;> rfl

/-- A proposed block is accepted exactly if the light checks, its transactions and
its execution pass. -/
theorem validateProposedBlock_eq_ok {height : UInt64} {parent : Hash} {s : StateStore} :
    ((bv.validateProposedBlock crypto block height parent).run s).1 = .ok () ↔
      bv.validateBlockLight crypto block height parent = .ok () ∧
      validateAllTransactions crypto block.transactions = .ok () ∧
      ((bv.validateExecutionAndStateRoot crypto block).run s).1 = .ok () := by
  unfold validateProposedBlock
  simp only [Prog.bind_eq, run_toExec_bind]
  cases bv.validateBlockLight crypto block height parent with
  | ok u => cases validateAllTransactions crypto block.transactions <;> simp
  | err e => simp
  | panic => simp

/-- Execution passes exactly if the header has the state root the block leads to. -/
theorem validateExecutionAndStateRoot_eq_ok {ex : Executor} {s : StateStore}
    (hConfig : ex.chainConfig = bv.chainConfig) :
    ((bv.validateExecutionAndStateRoot crypto block).run s).1 = .ok () ↔
      stateRoot crypto.sha256 (ex.blockStore crypto.sha256 block.transactions
        block.header.height block.header.proposer s) = block.header.stateRoot := by
  have hNew : Executor.new bv.chainConfig = some ex := by
    rw [← hConfig, Executor.new_chainConfig]
  unfold validateExecutionAndStateRoot
  rw [hNew]
  show (((ex.executeBlock crypto.sha256 block.transactions block.header.height
    block.header.proposer).attempt.bind _).run s).1 = _ ↔ _
  rw [Prog.run_bind, Prog.run_attempt, Executor.run_executeBlock]
  show (((computeStateRoot crypto.sha256 : Exec BlockValidationError _).bind _).run _).1 = _ ↔ _
  rw [Prog.run_bind, run_computeStateRoot]
  show ((Prog.ensure _ _ : Exec BlockValidationError Unit).run _).1 = _ ↔ _
  unfold Prog.ensure
  split
  next h => exact iff_of_true rfl h
  next h => exact iff_of_false (by simp) h

end BlockValidator

end Polay.Validator
