import Polay.Mempool.Pool
import Polay.Validator.Admission

/-!
# Agreement of the mempool with block validation

The mempool and the signing function identify a transaction by the hash of its
bytes under a domain tag. Block validation and stateless validation identify it by
the hash of its bytes followed by the signature. These are different messages, so a
transaction that one side admits carries a hash the other side refuses, unless the
hash function collides on the two messages.
-/

namespace Polay.Validator

open Lib Lib.Machine Lib.Bytes Polay.Types Crypto
open Execution BlockValidator

variable (crypto : Primitives)

/-- Both ways of identifying a transaction give the same hash. -/
def SameDigest (tx : SignedTransaction) : Prop :=
  ∃ bytes, tx.transaction.signingBytes = some bytes ∧
    hashTransaction crypto.sha256 bytes = crypto.sha256 (bytes ++ tx.signature.data)

/-- A transaction that a mempool with signature verification accepts passes block
validation, and a session-signed transaction that passes stateless validation is
refused by neither for its hash, key or signature. -/
structure AdmissionAgrees (tx : SignedTransaction) (chainId : String) : Prop where
  mempool : ∀ pool : Mempool, pool.config.verifySignature = true →
    (pool.insert crypto tx).1 = .ok () → validateAllTransactions crypto [tx] = .ok ()
  session : tx.transaction.session.isSome = true →
    Validation.validateStateless crypto tx chainId = .ok () →
      Mempool.checkSignature crypto tx = .ok () ∧
        validateAllTransactions crypto [tx] = .ok ()

/-- A transaction whose signature check in the mempool passes. -/
structure Admitted (tx : SignedTransaction) (bytes : List UInt8) (pubkey : FixedBytes 32) :
    Prop where
  serialized : tx.transaction.signingBytes = some bytes
  hashed : hashTransaction crypto.sha256 bytes = tx.txHash
  keyBytes : FixedBytes.ofList 32 tx.signerPubkey = some pubkey
  isKey : crypto.fromBytes pubkey = .ok ()
  ownKey : address crypto.sha256 pubkey = tx.transaction.signer
  signed : crypto.verify pubkey bytes tx.signature = .ok ()

variable {crypto}
variable {tx : SignedTransaction}

theorem checkSignature_eq_ok :
    Mempool.checkSignature crypto tx = .ok () ↔
      ∃ bytes pubkey, Admitted crypto tx bytes pubkey := by
  unfold Mempool.checkSignature
  constructor
  · intro h
    split at h
    next => cases h
    next pubkey hPubkey =>
      split at h
      next => cases h
      next hIsKey =>
        unfold Mempool.verifyTransactionWithKey at h
        obtain ⟨hOwn, hRest⟩ := Check.and_eq_ok.mp h
        split at hRest
        next => cases hRest
        next bytes hBytes =>
          obtain ⟨hHash, hSigned⟩ := Check.and_eq_ok.mp hRest
          refine ⟨bytes, pubkey, hBytes, Check.ensure_eq_ok.mp hHash, hPubkey, hIsKey,
            Check.ensure_eq_ok.mp hOwn, ?_⟩
          split at hSigned
          next hVerify => exact hVerify
          next => cases hSigned
  · rintro ⟨bytes, pubkey, h⟩
    have hBytes : Borsh.toVec tx.transaction = some bytes := h.serialized
    simp only [h.keyBytes, h.isKey, Mempool.verifyTransactionWithKey, hBytes, h.signed,
      Check.and_eq_ok, Check.ensure_eq_ok, and_true]
    exact ⟨h.ownKey, h.hashed⟩

/-! ## Insertion -/

/-- A pool that verifies signatures accepts only what passes the signature check. -/
theorem checkSignature_of_insert {pool : Mempool} (hVerify : pool.config.verifySignature = true)
    (h : (pool.insert crypto tx).1 = .ok ()) : Mempool.checkSignature crypto tx = .ok () := by
  unfold Mempool.insert at h
  split at h
  next =>
    split at h
    next => cases h
    next roomy hRoomy =>
      split at h
      next hAdmissible =>
        unfold Mempool.checkAdmissible at hAdmissible
        rw [Mempool.config_withRoom hRoomy, if_pos hVerify] at hAdmissible
        simp only [Check.all, Check.and_eq_ok, and_true] at hAdmissible
        exact hAdmissible.2.2.2
      next hRefused => exact absurd h hRefused
  next hRefused => exact absurd h hRefused

/-- An empty pool whose only condition on a transaction is the signature check. -/
def permissivePool : Mempool :=
  Mempool.new
    { maxSize := 1, maxPerAccount := 1, minFee := 0, verifySignature := true, chainId := ""
      maxNonceGap := 0, txTtlSecs := 0 }

theorem insert_permissivePool (h : Mempool.checkSignature crypto tx = .ok ()) :
    (permissivePool.insert crypto tx).1 = .ok () := by
  have hNew : permissivePool.checkNew tx = .ok () := by
    simp [Mempool.checkNew, permissivePool, Mempool.new, Check.all]
  have hRoom : permissivePool.withRoom tx = some permissivePool := rfl
  have hAdmissible : permissivePool.checkAdmissible crypto tx = .ok () := by
    simp only [Mempool.checkAdmissible, Check.all, Check.and_eq_ok, Check.ensure_eq_ok, and_true]
    refine ⟨rfl, ?_, rfl, h⟩
    show ¬ tx.transaction.maxFee < 0
    exact UInt64.not_lt.mpr UInt64.zero_le
  unfold Mempool.insert
  simp only [hNew, hRoom, hAdmissible]

/-! ## The two digests -/

theorem validateAllTransactions_singleton :
    validateAllTransactions crypto [tx] = .ok () ↔
      ∃ bytes pubkey, Authentic crypto tx bytes pubkey := by
  rw [validateAllTransactions_eq_ok]
  simp only [List.mem_singleton, forall_eq]

/-- What the mempool admits passes block validation exactly if the digests agree. -/
theorem Admitted.authentic_iff {bytes : List UInt8} {pubkey : FixedBytes 32}
    (h : Admitted crypto tx bytes pubkey) :
    validateAllTransactions crypto [tx] = .ok () ↔ SameDigest crypto tx := by
  rw [validateAllTransactions_singleton]
  constructor
  · rintro ⟨bytes', pubkey', hAuth⟩
    have hBytes : bytes' = bytes := Option.some.inj (hAuth.serialized.symm.trans h.serialized)
    refine ⟨bytes, h.serialized, ?_⟩
    rw [h.hashed, ← hAuth.hashed, hBytes]
  · rintro ⟨bytes', hBytes', hDigest⟩
    have hBytes : bytes' = bytes := Option.some.inj (hBytes'.symm.trans h.serialized)
    rw [hBytes] at hDigest
    have hData : pubkey.data = tx.signerPubkey := by
      have hKey := h.keyBytes
      unfold FixedBytes.ofList at hKey
      split at hKey
      next => cases hKey; rfl
      next => cases hKey
    exact ⟨bytes, pubkey, h.serialized, hDigest.symm.trans h.hashed, hData, h.isKey, h.ownKey,
      h.signed⟩

theorem validateIdentity_of_stateless {chainId : String}
    (h : Validation.validateStateless crypto tx chainId = .ok ()) :
    Validation.validateIdentity crypto tx = .ok () := by
  unfold Validation.validateStateless Validation.validateStatelessWithConfig at h
  simp only [Check.all, Check.and_eq_ok] at h
  obtain ⟨_, _, _, _, _, hIdentity, _⟩ := h
  exact hIdentity

/-- A session-signed transaction that passes stateless validation is admitted by the
mempool exactly if the digests agree and the session is the signer's own address. -/
theorem session_admitted_iff {bytes : List UInt8} {pubkey : FixedBytes 32} {session : Address}
    (h : Validation.Identified crypto tx bytes pubkey)
    (hSession : tx.transaction.session = some session) :
    Mempool.checkSignature crypto tx = .ok () ↔
      SameDigest crypto tx ∧ session = tx.transaction.signer := by
  have hHolder : address crypto.sha256 pubkey = session := by
    rw [h.ownKey, Validation.expectedKeyHolder, hSession]
    rfl
  rw [checkSignature_eq_ok]
  constructor
  · rintro ⟨bytes', pubkey', hAdmitted⟩
    have hBytes : bytes' = bytes :=
      Option.some.inj (hAdmitted.serialized.symm.trans h.serialized)
    have hKey : pubkey' = pubkey := Option.some.inj (hAdmitted.keyBytes.symm.trans h.keyBytes)
    refine ⟨⟨bytes, h.serialized, ?_⟩, ?_⟩
    · rw [h.hashed, ← hAdmitted.hashed, hBytes]
    · rw [← hHolder, ← hAdmitted.ownKey, hKey]
  · rintro ⟨⟨bytes', hBytes', hDigest⟩, hOwn⟩
    have hBytes : bytes' = bytes := Option.some.inj (hBytes'.symm.trans h.serialized)
    rw [hBytes] at hDigest
    exact ⟨bytes, pubkey, h.serialized, hDigest.trans h.hashed, h.keyBytes, h.isKey,
      hHolder.trans hOwn, h.signed⟩

/-- Admission agrees exactly if every admitted transaction has one digest both ways,
and a session is the signer's own address. -/
theorem admissionAgrees_iff (tx : SignedTransaction) (chainId : String) :
    AdmissionAgrees crypto tx chainId ↔
      (Mempool.checkSignature crypto tx = .ok () → SameDigest crypto tx) ∧
      ∀ session, tx.transaction.session = some session →
        Validation.validateStateless crypto tx chainId = .ok () →
          SameDigest crypto tx ∧ session = tx.transaction.signer := by
  have hMempool : Mempool.checkSignature crypto tx = .ok () →
      (validateAllTransactions crypto [tx] = .ok () ↔ SameDigest crypto tx) := by
    intro hCheck
    obtain ⟨bytes, pubkey, hAdmitted⟩ := checkSignature_eq_ok.mp hCheck
    exact hAdmitted.authentic_iff
  have hIdentified : ∀ {session}, tx.transaction.session = some session →
      Validation.validateStateless crypto tx chainId = .ok () →
      (Mempool.checkSignature crypto tx = .ok () ↔
        SameDigest crypto tx ∧ session = tx.transaction.signer) := by
    intro session hSession hStateless
    obtain ⟨bytes, pubkey, hId⟩ := (Validation.validateIdentity_eq_ok crypto).mp
      (validateIdentity_of_stateless hStateless)
    exact session_admitted_iff hId hSession
  constructor
  · intro hAgrees
    refine ⟨?_, ?_⟩
    · intro hCheck
      exact (hMempool hCheck).mp
        (hAgrees.mempool permissivePool rfl (insert_permissivePool hCheck))
    intro session hSession hStateless
    have hBoth := hAgrees.session (by rw [hSession]; rfl) hStateless
    exact (hIdentified hSession hStateless).mp hBoth.1
  · rintro ⟨hDigest, hOwn⟩
    refine ⟨?_, ?_⟩
    · intro pool hVerify hInsert
      have hCheck := checkSignature_of_insert hVerify hInsert
      exact (hMempool hCheck).mpr (hDigest hCheck)
    intro hSome hStateless
    obtain ⟨session, hSession⟩ := Option.isSome_iff_exists.mp hSome
    have hCheck := (hIdentified hSession hStateless).mpr (hOwn session hSession hStateless)
    exact ⟨hCheck, (hMempool hCheck).mpr (hDigest hCheck)⟩

/-! ## A transaction signed with its own key -/

variable (crypto) in
/-- Sign a transaction: `sign` is the signing function of the key. -/
def signTransaction (publicKey : FixedBytes 32) (sign : List UInt8 → Signature)
    (tx : Transaction) : Option SignedTransaction :=
  (Borsh.toVec tx).map fun payload =>
    { transaction := tx
      signature := sign payload
      txHash := hashTransaction crypto.sha256 payload
      signerPubkey := publicKey.data }

/-- The sample payment, signed as a wallet signs it. -/
def walletPayment : Option SignedTransaction :=
  signTransaction .sample (FixedBytes.fill 32 1) (checksumSignature (FixedBytes.fill 32 1))
    (samplePayment 1 0).transaction

/-- A payment signed with the signer's own key enters the mempool, and block
validation refuses it for its hash. -/
theorem walletPayment_refused :
    walletPayment.map (fun tx =>
      ((Mempool.new MempoolConfig.default).insert .sample tx).1) = some (.ok ()) ∧
    walletPayment.map (fun tx => decide (validateAllTransactions .sample [tx] = .ok ())) =
      some false := by
  constructor <;> decide +kernel

end Polay.Validator
