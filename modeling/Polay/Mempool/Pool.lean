import Polay.Crypto.Hash
import Polay.Lib.Check

/-!
# The mempool

Pending transactions by hash, with an index from each sender to its nonces, and
the hashes seen recently. The source's hash maps have no fixed order; here the
order of a list stands for the order in which they are walked.

Insertion makes its checks in order. Room in a full pool is made before the later
checks, so a transaction that is refused by one of them has still evicted another.
-/

namespace Polay

open Lib Lib.Machine Lib.Bytes Polay.Types Crypto

inductive MempoolError where
  | transactionAlreadyExists
  | mempoolFull
  | feeTooLow (minimum got : UInt64)
  | invalidSignature (reason : String)
  | nonceGapTooLarge (maxGap gap : UInt64)
  | chainIdMismatch (expected got : String)
  | duplicateTransaction
deriving DecidableEq

structure MempoolConfig where
  maxSize : UInt64
  maxPerAccount : UInt64
  minFee : UInt64
  verifySignature : Bool
  chainId : String
  maxNonceGap : UInt64
  txTtlSecs : UInt64
deriving DecidableEq

def MempoolConfig.default : MempoolConfig where
  maxSize := 10000
  maxPerAccount := 100
  minFee := 1000
  verifySignature := true
  chainId := ""
  maxNonceGap := 16
  txTtlSecs := 300

/-- The pool. The nonces of a sender are in ascending order. -/
structure Mempool where
  pending : List (Hash × SignedTransaction)
  bySender : List (Address × List (UInt64 × Hash))
  recentlySeen : List Hash
  config : MempoolConfig

namespace Mempool

def new (config : MempoolConfig) : Mempool := ⟨[], [], [], config⟩

/-- File a hash under a nonce, in the place of the one filed there before. -/
def insertNonce (nonce : UInt64) (hash : Hash) : List (UInt64 × Hash) → List (UInt64 × Hash)
  | [] => [(nonce, hash)]
  | e :: rest =>
      if nonce < e.1 then (nonce, hash) :: e :: rest
      else if nonce = e.1 then (nonce, hash) :: rest
      else e :: insertNonce nonce hash rest

/-- The queue of a sender, if it has one. -/
def queueOf (pool : Mempool) (sender : Address) : Option (List (UInt64 × Hash)) :=
  pool.bySender.lookup sender

/-- Replace the queue of a sender; an empty queue is dropped. -/
def setQueue (pool : Mempool) (sender : Address) (queue : List (UInt64 × Hash)) : Mempool :=
  let others := pool.bySender.filter (·.1 ≠ sender)
  { pool with bySender := if queue = [] then others else (sender, queue) :: others }

def remove (pool : Mempool) (txHash : Hash) : Mempool :=
  match pool.pending.lookup txHash with
  | none => pool
  | some tx =>
      let removed := { pool with pending := pool.pending.filter (·.1 ≠ txHash) }
      match pool.queueOf tx.signer with
      | none => removed
      | some queue => removed.setQueue tx.signer (queue.filter (·.1 ≠ tx.nonce))

def removeBatch (pool : Mempool) (txHashes : List Hash) : Mempool := txHashes.foldl remove pool

/-- Evict the transactions that are older than the limit at the time `now`; the result is
their number and the pool they leave. -/
def evictExpired (pool : Mempool) (now : UInt64) : UInt64 × Mempool :=
  if pool.config.txTtlSecs = 0 then (0, pool)
  else
    let cutoff := saturatingSub now pool.config.txTtlSecs
    let expired :=
      (pool.pending.filter fun e => decide (e.2.transaction.timestamp < cutoff)).map Prod.fst
    (UInt64.ofNat expired.length, pool.removeBatch expired)

/-- Remove the transactions of a sender whose nonces are below a bound. -/
def pruneBelowNonce (pool : Mempool) (sender : Address) (minNonce : UInt64) : Mempool :=
  match pool.queueOf sender with
  | none => pool
  | some queue =>
      let hashesToRemove := (queue.filter fun e => decide (e.1 < minNonce)).map Prod.snd
      let pruned := { pool with
        pending := pool.pending.filter fun e => decide (e.1 ∉ hashesToRemove) }
      pruned.setQueue sender (queue.filter fun e => decide (¬ e.1 < minNonce))

def clear (pool : Mempool) : Mempool := ⟨[], [], [], pool.config⟩

def markSeen (pool : Mempool) (txHash : Hash) : Mempool :=
  { pool with recentlySeen := txHash :: pool.recentlySeen.filter (· ≠ txHash) }

def markSeenBatch (pool : Mempool) (txHashes : List Hash) : Mempool := txHashes.foldl markSeen pool

def clearRecentlySeen (pool : Mempool) : Mempool := { pool with recentlySeen := [] }

/-- The first pending transaction with the lowest fee below the largest one. -/
def lowestFee : UInt64 × Option Hash → List (Hash × SignedTransaction) → UInt64 × Option Hash
  | best, [] => best
  | best, e :: rest =>
      let fee := e.2.transaction.maxFee
      lowestFee (if fee < best.1 then (fee, some e.1) else best) rest

/-- Make room for a transaction with a higher fee than the lowest one. -/
def tryEvictLowestFee (pool : Mempool) (newTx : SignedTransaction) : Option Mempool :=
  match lowestFee (u64Max, none) pool.pending with
  | (fee, some hash) =>
      if fee < newTx.transaction.maxFee then some (pool.remove hash) else none
  | (_, none) => none

def checkNonceGap (pool : Mempool) (sender : Address) (nonce : UInt64) : Check MempoolError :=
  match pool.queueOf sender with
  | some ((lowestNonce, _) :: _) =>
      let gap := saturatingSub nonce lowestNonce
      Check.ensure (¬ pool.config.maxNonceGap < gap)
        (.nonceGapTooLarge pool.config.maxNonceGap gap)
  | _ => .ok ()

/-- The limit on the pending transactions of a sender. -/
def checkPerAccount (pool : Mempool) (sender : Address) : Check MempoolError :=
  match pool.queueOf sender with
  | some queue => Check.ensure (¬ pool.config.maxPerAccount.toNat ≤ queue.length) .mempoolFull
  | none => .ok ()

/-- The pending transactions with the highest fees, highest first. -/
def getPendingForBlock (pool : Mempool) (maxTxs : UInt64) : List SignedTransaction :=
  ((pool.pending.map Prod.snd).insertionSort fun a b =>
    b.transaction.maxFee ≤ a.transaction.maxFee).take maxTxs.toNat

section Insert

variable (crypto : Primitives)

/-- A key that belongs to the signer signed the transaction, which carries the hash
of its own bytes. -/
def verifyTransactionWithKey (tx : SignedTransaction) (pubkey : FixedBytes 32) :
    Check MempoolError :=
  let failed (text : String) : MempoolError :=
    .invalidSignature s!"signature verification failed: {text}"
  let derived := address crypto.sha256 pubkey
  let got := derived.toHex
  let expected := tx.transaction.signer.toHex
  Check.and (Check.ensure (derived = tx.transaction.signer)
    (failed (s!"invalid public key: public key derives address {got}, " ++
      s!"but transaction signer is {expected}")))
  (match Borsh.toVec tx.transaction with
    -- The text of a serialization error is the serialization library's own.
    | none => .err (failed "hash error")
    | some bytes =>
        let hash := hashTransaction crypto.sha256 bytes
        let computed := hash.toHex
        let stored := tx.txHash.toHex
        Check.and (Check.ensure (hash = tx.txHash)
          (failed (s!"hash error: transaction hash mismatch: expected {computed}, " ++
            s!"stored {stored}")))
        (match crypto.verify pubkey bytes tx.signature with
          | .ok () => .ok ()
          | .error e => .err (failed s!"invalid signature: {e}")))

/-- The signature check of an insertion. -/
def checkSignature (tx : SignedTransaction) : Check MempoolError :=
  let length := tx.signerPubkey.length
  match FixedBytes.ofList 32 tx.signerPubkey with
  | none => .err (.invalidSignature s!"signer_pubkey must be 32 bytes, got {length}")
  | some pubkey =>
      match crypto.fromBytes pubkey with
      | .error e => .err (.invalidSignature s!"invalid public key: invalid public key: {e}")
      | .ok () => verifyTransactionWithKey crypto tx pubkey

/-- The checks before room is made. -/
def checkNew (pool : Mempool) (tx : SignedTransaction) : Check MempoolError :=
  let expected := pool.config.chainId
  Check.all [
    Check.ensure ((pool.pending.lookup tx.txHash).isNone = true) .transactionAlreadyExists,
    Check.ensure (tx.txHash ∉ pool.recentlySeen) .duplicateTransaction,
    Check.ensure (expected = "" ∨ tx.transaction.chainId = expected)
      (.chainIdMismatch expected tx.transaction.chainId)]

/-- The checks after room is made. -/
def checkAdmissible (pool : Mempool) (tx : SignedTransaction) : Check MempoolError :=
  Check.all [
    pool.checkPerAccount tx.signer,
    Check.ensure (¬ tx.transaction.maxFee < pool.config.minFee)
      (.feeTooLow pool.config.minFee tx.transaction.maxFee),
    pool.checkNonceGap tx.signer tx.nonce,
    if pool.config.verifySignature = true then checkSignature crypto tx else .ok ()]

/-- The pool with room for a transaction, if it has room or can make some. -/
def withRoom (pool : Mempool) (tx : SignedTransaction) : Option Mempool :=
  if pool.pending.length < pool.config.maxSize.toNat then some pool
  else pool.tryEvictLowestFee tx

/-- The pool with a transaction added to both of its maps. -/
def added (pool : Mempool) (tx : SignedTransaction) : Mempool :=
  let queue := (pool.queueOf tx.signer).getD []
  let filed := { pool with
    pending := (tx.txHash, tx) :: pool.pending.filter (·.1 ≠ tx.txHash) }
  filed.setQueue tx.signer (insertNonce tx.nonce tx.txHash queue)

/-- Insert a transaction: the result, and the pool it leaves. -/
def insert (pool : Mempool) (tx : SignedTransaction) : Check MempoolError × Mempool :=
  match pool.checkNew tx with
  | .ok () =>
      match pool.withRoom tx with
      | none => (.err .mempoolFull, pool)
      | some roomy =>
          match roomy.checkAdmissible crypto tx with
          | .ok () => (.ok (), roomy.added tx)
          | refused => (refused, roomy)
  | refused => (refused, pool)

end Insert

/-! ## What making room and inserting can do -/

theorem config_remove (pool : Mempool) (txHash : Hash) :
    (pool.remove txHash).config = pool.config := by
  unfold remove
  split
  next => rfl
  next =>
    split
    next => rfl
    next => rfl

theorem withRoom_cases {pool roomy : Mempool} {tx : SignedTransaction}
    (h : pool.withRoom tx = some roomy) : roomy = pool ∨ ∃ x, roomy = pool.remove x := by
  unfold withRoom at h
  split at h
  · exact .inl (Option.some.inj h).symm
  · unfold tryEvictLowestFee at h
    split at h
    · split at h
      · exact .inr ⟨_, (Option.some.inj h).symm⟩
      · cases h
    · cases h

theorem config_withRoom {pool roomy : Mempool} {tx : SignedTransaction}
    (h : pool.withRoom tx = some roomy) : roomy.config = pool.config := by
  rcases withRoom_cases h with rfl | ⟨x, rfl⟩
  · rfl
  · exact config_remove pool x

/-- An insertion changes nothing, only makes room, or adds the transaction. -/
theorem insert_cases (crypto : Primitives) (pool : Mempool) (tx : SignedTransaction) :
    (pool.insert crypto tx).2 = pool ∨ ∃ roomy, pool.withRoom tx = some roomy ∧
      ((pool.insert crypto tx).2 = roomy ∨
        (pool.checkNew tx = .ok () ∧ roomy.checkAdmissible crypto tx = .ok () ∧
          (pool.insert crypto tx).2 = roomy.added tx)) := by
  unfold insert
  split
  next hNew =>
    split
    next => exact .inl rfl
    next roomy hRoom =>
      refine .inr ⟨roomy, hRoom, ?_⟩
      split
      next hAdmissible => exact .inr ⟨hNew, hAdmissible, rfl⟩
      next => exact .inl rfl
  next => exact .inl rfl

end Mempool

end Polay
