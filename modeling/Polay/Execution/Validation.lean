import Polay.Crypto.Hash
import Polay.Execution.InputValidation

/-!
# Stateless validation

The checks of a signed transaction that need no state: chain id, signer, fee and
sponsor, size, hash, key, signature and the fields of the action. The key belongs
to the session of a session-signed transaction and to the signer otherwise.
-/

namespace Polay.Execution.Validation

open Lib Lib.Machine Lib.Bytes Polay.Types Crypto InputValidation

variable (crypto : Primitives)
variable {tx : SignedTransaction}

/-- A sponsor is neither the zero address nor the signer. -/
def validateSponsor (tx : Transaction) : TxCheck :=
  match tx.sponsor with
  | none => .ok ()
  | some sponsor =>
      Check.and (Check.ensure (sponsor ≠ Address.zero) .zeroAddressSponsor)
        (Check.ensure (sponsor ≠ tx.signer) .sponsorIsSigner)

/-- Whose key must have signed a transaction. -/
def expectedKeyHolder (tx : Transaction) : Address := tx.session.getD tx.signer

/-- The text of the error for a key of the wrong address. -/
def keyMismatch (tx : Transaction) (derived : Address) : String :=
  let got := derived.toHex
  match tx.session with
  | some session =>
      let expected := session.toHex
      s!"session pubkey derives address {got}, but transaction.session is {expected}"
  | none =>
      let expected := tx.signer.toHex
      s!"pubkey derives address {got}, but transaction signer is {expected}"

/-- The signature of a transaction verifies under its key. -/
def validateSignature (tx : SignedTransaction) (signingBytes : List UInt8)
    (pubkey : FixedBytes 32) : TxCheck :=
  match crypto.verify pubkey signingBytes tx.signature with
  | .ok () => .ok ()
  | .error e =>
      .err (.invalidSignature s!"Ed25519 verification failed: invalid signature: {e}")

/-- The key of a transaction is one, belongs to the signer or session, and signed it. -/
def validateKey (tx : SignedTransaction) (signingBytes : List UInt8) : TxCheck :=
  let length := tx.signerPubkey.length
  match FixedBytes.ofList 32 tx.signerPubkey with
  | none => .err (.invalidSignerPubkey s!"expected 32 bytes, got {length}")
  | some pubkey =>
      match crypto.fromBytes pubkey with
      | .error e =>
          .err (.invalidSignerPubkey s!"invalid Ed25519 public key: invalid public key: {e}")
      | .ok () =>
          let derived := address crypto.sha256 pubkey
          Check.and (Check.ensure (derived = expectedKeyHolder tx.transaction)
            (.invalidSignerPubkey (keyMismatch tx.transaction derived)))
          (validateSignature crypto tx signingBytes pubkey)

/-- The hash, the key and the signature of a transaction. -/
def validateIdentity (tx : SignedTransaction) : TxCheck :=
  -- Serialized once: the second serialization of the source gives the same bytes.
  match tx.transaction.signingBytes with
  | none => .panic
  | some signingBytes =>
      Check.and (Check.ensure (crypto.sha256 (signingBytes ++ tx.signature.data) = tx.txHash)
        .invalidTxHash)
      (validateKey crypto tx signingBytes)

/-- Run a check of the configuration, if there is one. -/
def withConfig (config : Option ChainConfig) (check : ChainConfig → TxCheck) : TxCheck :=
  match config with
  | some cfg => check cfg
  | none => .ok ()

def validateStatelessWithConfig (tx : SignedTransaction) (chainId : String)
    (config : Option ChainConfig) : TxCheck :=
  let inner := tx.transaction
  Check.all [
    Check.ensure (inner.chainId = chainId) (.invalidChainId chainId inner.chainId),
    Check.ensure (inner.signer ≠ Address.zero) .zeroAddressSigner,
    Check.ensure (inner.maxFee ≠ 0) .feeTooLow,
    validateSponsor inner,
    withConfig config fun cfg => validateTxSize tx cfg.maxTransactionSizeBytes,
    validateIdentity crypto tx,
    withConfig config fun cfg => validateTransactionInput inner cfg]

/-- Stateless validation without the checks that need a configuration. -/
def validateStateless (tx : SignedTransaction) (chainId : String) : TxCheck :=
  validateStatelessWithConfig crypto tx chainId none

/-! ## What the checks establish -/

/-- A transaction whose hash, key and signature pass: a key of the expected address
signed it, and it carries the hash of its bytes. -/
structure Identified (tx : SignedTransaction) (signingBytes : List UInt8)
    (pubkey : FixedBytes 32) : Prop where
  serialized : tx.transaction.signingBytes = some signingBytes
  hashed : crypto.sha256 (signingBytes ++ tx.signature.data) = tx.txHash
  keyBytes : FixedBytes.ofList 32 tx.signerPubkey = some pubkey
  isKey : crypto.fromBytes pubkey = .ok ()
  ownKey : address crypto.sha256 pubkey = expectedKeyHolder tx.transaction
  signed : crypto.verify pubkey signingBytes tx.signature = .ok ()

theorem validateSignature_eq_ok {signingBytes : List UInt8} {pubkey : FixedBytes 32} :
    validateSignature crypto tx signingBytes pubkey = .ok () ↔
      crypto.verify pubkey signingBytes tx.signature = .ok () := by
  unfold validateSignature
  cases crypto.verify pubkey signingBytes tx.signature <;> simp

theorem validateIdentity_eq_ok :
    validateIdentity crypto tx = .ok () ↔
      ∃ signingBytes pubkey, Identified crypto tx signingBytes pubkey := by
  unfold validateIdentity
  constructor
  · intro h
    split at h
    next => cases h
    next signingBytes hBytes =>
      obtain ⟨hHash, hKey⟩ := Check.and_eq_ok.mp h
      unfold validateKey at hKey
      split at hKey
      next => cases hKey
      next pubkey hPubkey =>
        split at hKey
        next => cases hKey
        next hIsKey =>
          obtain ⟨hOwn, hSigned⟩ := Check.and_eq_ok.mp hKey
          exact ⟨signingBytes, pubkey, hBytes, Check.ensure_eq_ok.mp hHash, hPubkey, hIsKey,
            Check.ensure_eq_ok.mp hOwn, (validateSignature_eq_ok crypto).mp hSigned⟩
  · rintro ⟨signingBytes, pubkey, h⟩
    simp only [h.serialized, validateKey, h.keyBytes, h.isKey, Check.and_eq_ok,
      Check.ensure_eq_ok]
    exact ⟨h.hashed, h.ownKey, (validateSignature_eq_ok crypto).mpr h.signed⟩

/-- Stateless validation with a configuration passes exactly if each check does. -/
theorem validateStatelessWithConfig_eq_ok {chainId : String} {cfg : ChainConfig} :
    validateStatelessWithConfig crypto tx chainId (some cfg) = .ok () ↔
      tx.transaction.chainId = chainId ∧ tx.transaction.signer ≠ Address.zero ∧
      tx.transaction.maxFee ≠ 0 ∧ validateSponsor tx.transaction = .ok () ∧
      validateTxSize tx cfg.maxTransactionSizeBytes = .ok () ∧
      validateIdentity crypto tx = .ok () ∧
      validateTransactionInput tx.transaction cfg = .ok () := by
  simp only [validateStatelessWithConfig, Check.all, withConfig, Check.and_eq_ok,
    Check.ensure_eq_ok, and_true]

end Polay.Execution.Validation
