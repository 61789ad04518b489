import Polay.Execution.Runs
import Polay.Execution.Validation
import Polay.Validator.BlockBinding

/-!
# Block validation against stateless validation

Block validation and stateless validation check a transaction independently. Both
recompute the same hash and verify the same signature, but block validation looks
at nothing else, and it expects the key of the signer where stateless validation
expects the key of the session. The rest of stateless validation is what a
transaction of an accepted block has to satisfy on its own.
-/

namespace Polay.Validator

open Lib Lib.Machine Lib.Bytes Polay.Types State Crypto
open Execution BlockValidator

/-- What stateless validation checks and block validation does not. -/
structure Covered (config : ChainConfig) (tx : SignedTransaction) : Prop where
  chainId : tx.transaction.chainId = config.chainId
  signer : tx.transaction.signer ≠ Address.zero
  maxFee : tx.transaction.maxFee ≠ 0
  sponsor : Validation.validateSponsor tx.transaction = .ok ()
  size : InputValidation.validateTxSize tx config.maxTransactionSizeBytes = .ok ()
  session : ∀ a, tx.transaction.session = some a → a = tx.transaction.signer
  input : InputValidation.validateTransactionInput tx.transaction config = .ok ()

variable {crypto : Primitives}

/-- An accepted block has passed the checks of its transactions. -/
theorem authentic_of_accepted {bv : BlockValidator} {block : Block} {height : UInt64}
    {parent : Hash} {s : StateStore}
    (h : ((bv.validateProposedBlock crypto block height parent).run s).1 = .ok ()) :
    ∀ tx ∈ block.transactions, ∃ signingBytes pubkey,
      Authentic crypto tx signingBytes pubkey := by
  obtain ⟨_, hAll, _⟩ := (validateProposedBlock_eq_ok bv crypto).mp h
  exact (validateAllTransactions_eq_ok crypto).mp hAll

/-- For an authentic transaction, the key belongs to the expected holder exactly if
there is no session of another address. -/
theorem validateIdentity_of_authentic {tx : SignedTransaction} {signingBytes : List UInt8}
    {pubkey : FixedBytes 32} (h : Authentic crypto tx signingBytes pubkey) :
    Validation.validateIdentity crypto tx = .ok () ↔
      ∀ a, tx.transaction.session = some a → a = tx.transaction.signer := by
  have hKey : FixedBytes.ofList 32 tx.signerPubkey = some pubkey := by
    rw [← h.keyBytes, FixedBytes.ofList_data]
  rw [Validation.validateIdentity_eq_ok]
  constructor
  · rintro ⟨bytes, key, hId⟩ a ha
    have hSame : key = pubkey := Option.some.inj (hId.keyBytes.symm.trans hKey)
    have hOwn := hId.ownKey
    rw [hSame, h.ownKey, Validation.expectedKeyHolder, ha] at hOwn
    exact hOwn.symm
  · intro hSession
    refine ⟨signingBytes, pubkey, h.serialized, h.hashed, hKey, h.isKey, ?_, h.signed⟩
    rw [h.ownKey, Validation.expectedKeyHolder]
    cases hs : tx.transaction.session with
    | none => rfl
    | some a => exact (hSession a hs).symm

/-- The transactions of an accepted block pass stateless validation exactly if they
satisfy what block validation leaves out. -/
theorem accepted_stateless_iff {bv : BlockValidator} {block : Block} {height : UInt64}
    {parent : Hash} {s : StateStore}
    (h : ((bv.validateProposedBlock crypto block height parent).run s).1 = .ok ()) :
    (∀ tx ∈ block.transactions, Validation.validateStatelessWithConfig crypto tx
      bv.chainConfig.chainId (some bv.chainConfig) = .ok ()) ↔
    ∀ tx ∈ block.transactions, Covered bv.chainConfig tx := by
  have hAuthentic := authentic_of_accepted h
  constructor
  · intro hPass tx hTx
    obtain ⟨signingBytes, pubkey, hTxAuth⟩ := hAuthentic tx hTx
    obtain ⟨hChain, hSigner, hFee, hSponsor, hSize, hId, hInput⟩ :=
      (Validation.validateStatelessWithConfig_eq_ok crypto).mp (hPass tx hTx)
    exact ⟨hChain, hSigner, hFee, hSponsor, hSize,
      (validateIdentity_of_authentic hTxAuth).mp hId, hInput⟩
  · intro hCovered tx hTx
    obtain ⟨signingBytes, pubkey, hTxAuth⟩ := hAuthentic tx hTx
    have hTxCovered := hCovered tx hTx
    exact (Validation.validateStatelessWithConfig_eq_ok crypto).mpr
      ⟨hTxCovered.chainId, hTxCovered.signer, hTxCovered.maxFee, hTxCovered.sponsor,
        hTxCovered.size, (validateIdentity_of_authentic hTxAuth).mpr hTxCovered.session,
        hTxCovered.input⟩

/-! ## A transaction of another chain -/

/-- The account of the first sample key, with funds. -/
def fundedStore : StateStore :=
  withAccount ∅
    { AccountState.new (address checksum (FixedBytes.fill 32 1)) 0 with balance := 1000000 }

/-- A first block of the given transactions with the state root of its execution. -/
def sampleProposal (txs : List SignedTransaction) (s : StateStore) : Block :=
  let executed :=
    ((Executor.devnet.executeBlock checksum txs 1 Address.zero).run s).2
  let header : BlockHeader :=
    { (sampleBlock txs).header with stateRoot := stateRoot checksum executed, hash := Hash.zero }
  ⟨{ header with hash := (hashBlockHeader checksum header).getD Hash.zero }, txs⟩

/-- A payment that was signed for another chain. -/
def foreignPayment : SignedTransaction :=
  sampleSigned (FixedBytes.fill 32 1)
    { (samplePayment 1 0).transaction with chainId := "another-chain" }

def devnetValidator : BlockValidator := ⟨ChainConfig.default⟩

theorem accepted_stateless_iff_payment :
    Validation.validateStatelessWithConfig .sample (samplePayment 1 0)
      ChainConfig.default.chainId (some ChainConfig.default) = .ok () := by
  have hAccepted : ((devnetValidator.validateProposedBlock .sample
      (sampleProposal [samplePayment 1 0] fundedStore) 1 Hash.zero).run fundedStore).1 =
        .ok () := by
    decide +kernel
  have hCovered : ∀ tx ∈ (sampleProposal [samplePayment 1 0] fundedStore).transactions,
      Covered ChainConfig.default tx := by
    intro tx hTx
    have hEq : tx = samplePayment 1 0 := List.mem_singleton.mp hTx
    subst hEq
    exact ⟨by decide +kernel, by decide +kernel, by decide +kernel, by decide +kernel,
      by decide +kernel, (fun a ha => nomatch ha), by decide +kernel⟩
  exact (accepted_stateless_iff hAccepted).mpr hCovered _ (List.mem_singleton_self _)

/-- A block with a payment signed for another chain is accepted, and validation
executes the payment. -/
theorem foreignPayment_accepted :
    ((devnetValidator.validateProposedBlock .sample
      (sampleProposal [foreignPayment] fundedStore) 1 Hash.zero).run fundedStore).1 = .ok () ∧
    Validation.validateStatelessWithConfig .sample foreignPayment ChainConfig.default.chainId
      (some ChainConfig.default) = .err (.invalidChainId "polay-devnet-1" "another-chain") ∧
    ((accountOf ((devnetValidator.validateProposedBlock .sample
      (sampleProposal [foreignPayment] fundedStore) 1 Hash.zero).run fundedStore).2
        (Address.ofByte 2)).map (·.balance)) = some 5 := by
  refine ⟨?_, ?_, ?_⟩ <;> decide +kernel

end Polay.Validator
