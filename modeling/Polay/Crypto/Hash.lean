import Polay.Lib.Merkle
import Polay.Types.Transaction

/-!
# Hashes and signatures

SHA-256 and the Ed25519 operations come from outside the repository and are
parameters. Everything computed from them is here: the domain-separated hash of
a block header, the Merkle root over transaction hashes, the address of a public
key and the hash that identifies a signed transaction.

A header or transaction that does not serialize makes its hash panic, which is
`none` here.
-/

namespace Polay.Crypto

open Lib Lib.Bytes Polay.Types

/-- The cryptographic functions of the libraries: the hash function, which byte
strings are public keys, and signature verification, with the texts of their errors. -/
structure Primitives where
  sha256 : List UInt8 → Hash
  fromBytes : FixedBytes 32 → Except String Unit
  verify : FixedBytes 32 → List UInt8 → Signature → Except String Unit

section Hashes

variable (sha256 : List UInt8 → Hash)

def domainBlock : List UInt8 := Borsh.utf8 "POLAY-BLK:"

def domainMerkle : List UInt8 := Borsh.utf8 "POLAY-MKL:"

def domainTx : List UInt8 := Borsh.utf8 "POLAY-TX:"

/-- The hash of the bytes of an unsigned transaction. -/
def hashTransaction (bytes : List UInt8) : Hash := sha256 (domainTx ++ bytes)

/-- The hash of a block header, which does not depend on its hash field. -/
def hashBlockHeader (header : BlockHeader) : Option Hash :=
  header.hashInputBytes.map fun bytes => sha256 (domainBlock ++ bytes)

/-- The message of an inner node of the tree over transaction hashes. -/
def merklePair (left right : Hash) : List UInt8 := domainMerkle ++ (left.data ++ right.data)

/-- The Merkle root of a list of hashes. The last hash of an odd layer is promoted. -/
def merkleRoot (hashes : List Hash) : Hash :=
  (Merkle.root (fun a b => sha256 (merklePair a b)) id hashes).getD Hash.zero

/-- The address of a public key: the hash of its bytes. -/
def address (publicKey : FixedBytes 32) : Address := ⟨(sha256 publicKey.data).toFixedBytes⟩

/-- What the identifying hash of a signed transaction is computed over. -/
def txHashInput (tx : SignedTransaction) : Option (List UInt8) :=
  tx.transaction.signingBytes.map fun bytes => bytes ++ tx.signature.data

end Hashes

/-- The bytes that identify a signed transaction determine the transaction and its
signature. -/
theorem txHashInput_inj {tx tx' : SignedTransaction} {input : List UInt8}
    (h : txHashInput tx = some input) (h' : txHashInput tx' = some input) :
    tx.transaction = tx'.transaction ∧ tx.signature = tx'.signature := by
  obtain ⟨bytes, hBytes, rfl⟩ := Option.map_eq_some_iff.mp h
  obtain ⟨bytes', hBytes', hEq⟩ := Option.map_eq_some_iff.mp h'
  obtain ⟨hf, rfl⟩ := Borsh.toVec_eq_some.mp hBytes
  obtain ⟨hf', rfl⟩ := Borsh.toVec_eq_some.mp hBytes'
  obtain ⟨hTx, hSig⟩ := Borsh.encode_append_inj hf hf' hEq.symm
  exact ⟨hTx, congrArg Signature.mk (FixedBytes.ext_data hSig)⟩

theorem merklePair_inj (a b c d : Hash) (h : merklePair a b = merklePair c d) :
    a = c ∧ b = d := by
  have hPair := List.append_cancel_left h
  obtain ⟨hl, hr⟩ := List.append_inj hPair (by rw [a.length_data, c.length_data])
  exact ⟨Hash.data_injective hl, Hash.data_injective hr⟩

/-- No transaction is hashed to the message of an inner node: the domain tag, read
as the length of a chain id, exceeds the whole message. -/
theorem txHashInput_ne_merklePair {tx : SignedTransaction} {input : List UInt8}
    (h : txHashInput tx = some input) (a b : Hash) : input ≠ merklePair a b := by
  intro hEq
  obtain ⟨bytes, hBytes, rfl⟩ := Option.map_eq_some_iff.mp h
  obtain ⟨hFits, rfl⟩ := Borsh.toVec_eq_some.mp hBytes
  have hLength : (Borsh.utf8 tx.transaction.chainId).length < 2 ^ 32 := by
    have hParts : (Borsh.fits tx.transaction.chainId && _) = true := hFits
    exact of_decide_eq_true (Bool.and_eq_true_iff.mp hParts).1
  have hHead : ∃ rest, Borsh.encode tx.transaction ++ tx.signature.data =
      leBytes 4 (Borsh.utf8 tx.transaction.chainId).length ++
        (Borsh.utf8 tx.transaction.chainId ++ rest) := by
    refine ⟨Borsh.encode (tx.transaction.nonce, tx.transaction.signer, tx.transaction.action,
      tx.transaction.maxFee, tx.transaction.timestamp, tx.transaction.session,
      tx.transaction.sponsor) ++ tx.signature.data, ?_⟩
    show (leBytes 4 _ ++ Borsh.utf8 tx.transaction.chainId ++ _) ++ _ = _
    simp only [List.append_assoc]
  obtain ⟨rest, hRest⟩ := hHead
  rw [hRest] at hEq
  have hTag : leBytes 4 (Borsh.utf8 tx.transaction.chainId).length = [80, 79, 76, 65] := by
    have hTake := congrArg (List.take 4) hEq
    rw [List.take_left' (length_leBytes 4 _)] at hTake
    rw [hTake]
    rfl
  have hValue : (Borsh.utf8 tx.transaction.chainId).length = 1095520080 := by
    rw [← leValue_leBytes 4 _ hLength, hTag]
    rfl
  have hTotal := congrArg List.length hEq
  simp only [List.length_append, length_leBytes, merklePair, a.length_data, b.length_data]
    at hTotal
  have hDomain : domainMerkle.length = 10 := by decide
  omega

/-- The bytes a header is hashed over determine it up to its hash field. -/
theorem hashInputBytes_inj {header header' : BlockHeader} {bytes : List UInt8}
    (h : header.hashInputBytes = some bytes) (h' : header'.hashInputBytes = some bytes)
    (hHash : header.hash = header'.hash) : header = header' := by
  obtain ⟨hf, rfl⟩ := Borsh.toVec_eq_some.mp h
  obtain ⟨hf', hEq⟩ := Borsh.toVec_eq_some.mp h'
  have hZeroed := Borsh.encode_inj hf' hf hEq
  cases header
  cases header'
  simp_all

/-! ## Functions to evaluate with -/

/-- A checksum of 32 bytes. -/
def checksum (l : List UInt8) : Hash :=
  ⟨leBytes 32 (l.foldl (fun acc b => (acc * 257 + b.toNat + 1) % 2 ^ 256) 1),
    length_leBytes 32 _⟩

/-- A keyed checksum in the place of a signature. -/
def checksumSignature (publicKey : FixedBytes 32) (message : List UInt8) : Signature :=
  let sum := (checksum (publicKey.data ++ message)).data
  ⟨leBytes 64 (leValue sum), length_leBytes 64 _⟩

/-- Functions that can be evaluated, to run the checks on concrete blocks. -/
def Primitives.sample : Primitives where
  sha256 := checksum
  fromBytes _ := .ok ()
  verify publicKey message signature :=
    if signature = checksumSignature publicKey message then .ok () else .error "mismatch"

/-- A transaction signed with the sample functions, for the address of the key. -/
def sampleSigned (publicKey : FixedBytes 32) (tx : Transaction) : SignedTransaction :=
  let own := { tx with signer := address checksum publicKey }
  let bytes := Borsh.encode own
  let signature := checksumSignature publicKey bytes
  { transaction := own
    signature := signature
    txHash := checksum (bytes ++ signature.data)
    signerPubkey := publicKey.data }

end Polay.Crypto
