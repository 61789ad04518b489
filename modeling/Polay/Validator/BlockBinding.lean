import Polay.Validator.BlockValidator

/-!
# The block hash determines the block

The header hash covers the header, the header carries the root of the Merkle
tree over the transaction hashes, each transaction hash covers the transaction
with its signature, and the signer's address covers the public key. So two blocks
that pass these checks and have the same hash are the same block.

The argument needs that the hash function has no collision among the messages
that are hashed for the two blocks, and that none of them is hashed to the root
of the empty block.
-/

namespace Polay.Validator

open Lib Lib.Bytes Polay.Types Crypto BlockValidator

variable (crypto : Primitives)

/-- The block passes the hash, the transactions root and the transaction checks. -/
structure Intact (block : Block) : Prop where
  blockHash : validateBlockHash crypto block = .ok ()
  root : validateTransactionsRoot crypto block = .ok ()
  transactions : validateAllTransactions crypto block.transactions = .ok ()

/-! ## What is hashed for a block -/

/-- The messages whose hashes are the transaction hashes. -/
def txInputs (txs : List SignedTransaction) : List (List UInt8) := txs.filterMap txHashInput

/-- The tree whose hash the transactions root is. -/
def transactionsTree (txs : List SignedTransaction) : Option (Merkle.Tree (List UInt8)) :=
  Merkle.root .node id ((txInputs txs).map .leaf)

/-- Every message hashed for the transactions root. -/
def treeMessages (txs : List SignedTransaction) : List (List UInt8) :=
  match transactionsTree txs with
  | some t => t.messages crypto.sha256 merklePair
  | none => []

/-- The message hashed for the header. -/
def headerMessage (header : BlockHeader) : List (List UInt8) :=
  (header.hashInputBytes.map (domainBlock ++ ·)).toList

/-- Every message that is hashed to check a block. -/
def hashedMessages (block : Block) : List (List UInt8) :=
  headerMessage block.header ++ (treeMessages crypto block.transactions ++
    block.transactions.map SignedTransaction.signerPubkey)

/-! ## The transactions root -/

variable {crypto}
variable {txs : List SignedTransaction}

theorem Authentic.txHashInput {tx : SignedTransaction} {signingBytes : List UInt8}
    {pubkey : FixedBytes 32} (h : Authentic crypto tx signingBytes pubkey) :
    txHashInput tx = some (signingBytes ++ tx.signature.data) := by
  unfold Crypto.txHashInput
  rw [h.serialized]
  rfl

/-- Authentic transactions carry the hashes of their messages. -/
theorem map_txHash_eq
    (h : ∀ tx ∈ txs, ∃ signingBytes pubkey, Authentic crypto tx signingBytes pubkey) :
    txs.map SignedTransaction.txHash = (txInputs txs).map crypto.sha256 := by
  induction txs with
  | nil => rfl
  | cons tx txs ih =>
      obtain ⟨signingBytes, pubkey, hTx⟩ := h tx List.mem_cons_self
      have hRest := ih fun t ht => h t (List.mem_cons_of_mem tx ht)
      unfold txInputs at hRest ⊢
      rw [List.filterMap_cons_some (Authentic.txHashInput hTx), List.map_cons, List.map_cons,
        hRest, hTx.hashed]

theorem transactionsRoot_eq_tree
    (h : ∀ tx ∈ txs, ∃ signingBytes pubkey, Authentic crypto tx signingBytes pubkey) :
    transactionsRoot crypto txs =
      ((transactionsTree txs).map (Merkle.Tree.hash crypto.sha256 merklePair)).getD Hash.zero := by
  have hMap : (transactionsTree txs).map (Merkle.Tree.hash crypto.sha256 merklePair) =
      Merkle.root (fun a b => crypto.sha256 (merklePair a b)) id
        (((txInputs txs).map Merkle.Tree.leaf).map
          (Merkle.Tree.hash crypto.sha256 merklePair)) := by
    apply Merkle.map_root
    · intro a b
      rfl
    · intro a
      rfl
  have hHashes : ((txInputs txs).map Merkle.Tree.leaf).map
      (Merkle.Tree.hash crypto.sha256 merklePair) = txs.map SignedTransaction.txHash := by
    rw [List.map_map, map_txHash_eq h]
    rfl
  rw [hMap, hHashes]
  -- The source treats the empty block apart, with the root it would have anyway.
  unfold transactionsRoot merkleRoot
  by_cases hNil : txs.map SignedTransaction.txHash = []
  · rw [if_pos hNil, hNil]
    rfl
  · rw [if_neg hNil]

theorem txInputs_of_none (h : transactionsTree txs = none) : txInputs txs = [] := by
  by_contra hNe
  have hLeaves : (txInputs txs).map Merkle.Tree.leaf ≠ [] := fun hNil =>
    hNe (List.map_eq_nil_iff.mp hNil)
  have hSome := Merkle.root_isSome Merkle.Tree.node id hLeaves
  rw [show Merkle.root _ _ _ = none from h] at hSome
  cases hSome

theorem ne_merklePair_of_mem_txInputs {m : List UInt8} (h : m ∈ txInputs txs) (a b : Hash) :
    m ≠ merklePair a b := by
  obtain ⟨tx, _, hInput⟩ := List.mem_filterMap.mp h
  exact txHashInput_ne_merklePair hInput a b

/-- Without collisions, the transactions root determines the list of messages. -/
theorem txInputs_eq_of_root_eq {txs' : List SignedTransaction}
    (h : ∀ tx ∈ txs, ∃ signingBytes pubkey, Authentic crypto tx signingBytes pubkey)
    (h' : ∀ tx ∈ txs', ∃ signingBytes pubkey, Authentic crypto tx signingBytes pubkey)
    (hDistinct : Merkle.NoCollision crypto.sha256
      (treeMessages crypto txs ++ treeMessages crypto txs'))
    (hNonzero : ∀ m ∈ treeMessages crypto txs ++ treeMessages crypto txs',
      crypto.sha256 m ≠ Hash.zero)
    (hRoot : transactionsRoot crypto txs = transactionsRoot crypto txs') :
    txInputs txs = txInputs txs' := by
  rw [transactionsRoot_eq_tree h, transactionsRoot_eq_tree h'] at hRoot
  unfold treeMessages at hDistinct hNonzero
  cases hs : transactionsTree txs with
  | none =>
      cases ht : transactionsTree txs' with
      | none => rw [txInputs_of_none hs, txInputs_of_none ht]
      | some t' =>
          rw [hs, ht] at hRoot hNonzero
          obtain ⟨m, hm, hHash⟩ := t'.hash_mem_messages crypto.sha256 merklePair
          exact absurd (hHash.symm.trans hRoot.symm) (hNonzero m (List.mem_append_right _ hm))
  | some t =>
      cases ht : transactionsTree txs' with
      | none =>
          rw [hs, ht] at hRoot hNonzero
          obtain ⟨m, hm, hHash⟩ := t.hash_mem_messages crypto.sha256 merklePair
          exact absurd (hHash.symm.trans hRoot) (hNonzero m (List.mem_append_left _ hm))
      | some t' =>
          rw [hs, ht] at hRoot hDistinct
          have hLeaves := Merkle.leaves_root_id hs
          have hLeaves' := Merkle.leaves_root_id ht
          have hEq : t = t' := by
            refine Merkle.Tree.hash_inj merklePair_inj hDistinct ?_ hRoot
            intro m hm
            rw [hLeaves, hLeaves'] at hm
            cases List.mem_append.mp hm with
            | inl hl => exact ne_merklePair_of_mem_txInputs hl
            | inr hr => exact ne_merklePair_of_mem_txInputs hr
          rw [← hLeaves, ← hLeaves', hEq]

/-! ## From messages to transactions -/

/-- Authentic transactions with the same message are the same, if their keys do not
collide. -/
theorem Authentic.eq {tx tx' : SignedTransaction} {signingBytes signingBytes' : List UInt8}
    {pubkey pubkey' : FixedBytes 32} (h : Authentic crypto tx signingBytes pubkey)
    (h' : Authentic crypto tx' signingBytes' pubkey')
    (hKeys : crypto.sha256 tx.signerPubkey = crypto.sha256 tx'.signerPubkey →
      tx.signerPubkey = tx'.signerPubkey)
    (hInput : Crypto.txHashInput tx = Crypto.txHashInput tx') : tx = tx' := by
  have hTxInput := Authentic.txHashInput h
  obtain ⟨hTx, hSig⟩ := txHashInput_inj hTxInput (hInput ▸ hTxInput)
  have hHash : tx.txHash = tx'.txHash := by
    have hBytes : signingBytes ++ tx.signature.data = signingBytes' ++ tx'.signature.data :=
      Option.some.inj (hTxInput.symm.trans (hInput.trans (Authentic.txHashInput h')))
    rw [← h.hashed, ← h'.hashed, hBytes]
  have hAddress : address crypto.sha256 pubkey = address crypto.sha256 pubkey' := by
    rw [h.ownKey, h'.ownKey, hTx]
  have hKey : tx.signerPubkey = tx'.signerPubkey := by
    apply hKeys
    rw [← h.keyBytes, ← h'.keyBytes]
    exact congrArg Hash.mk (Address.mk.inj hAddress)
  cases tx
  cases tx'
  simp_all

theorem transactions_eq_of_txInputs_eq {txs' : List SignedTransaction}
    (h : ∀ tx ∈ txs, ∃ signingBytes pubkey, Authentic crypto tx signingBytes pubkey)
    (h' : ∀ tx ∈ txs', ∃ signingBytes pubkey, Authentic crypto tx signingBytes pubkey)
    (hKeys : ∀ tx ∈ txs, ∀ tx' ∈ txs',
      crypto.sha256 tx.signerPubkey = crypto.sha256 tx'.signerPubkey →
      tx.signerPubkey = tx'.signerPubkey)
    (hInputs : txInputs txs = txInputs txs') : txs = txs' := by
  induction txs generalizing txs' with
  | nil =>
      cases txs' with
      | nil => rfl
      | cons tx' txs' =>
          obtain ⟨signingBytes, pubkey, hTx'⟩ := h' tx' List.mem_cons_self
          unfold txInputs at hInputs
          rw [List.filterMap_cons_some (Authentic.txHashInput hTx')] at hInputs
          cases hInputs
  | cons tx txs ih =>
      obtain ⟨signingBytes, pubkey, hTx⟩ := h tx List.mem_cons_self
      unfold txInputs at hInputs
      rw [List.filterMap_cons_some (Authentic.txHashInput hTx)] at hInputs
      cases txs' with
      | nil => cases hInputs
      | cons tx' txs' =>
          obtain ⟨signingBytes', pubkey', hTx'⟩ := h' tx' List.mem_cons_self
          rw [List.filterMap_cons_some (Authentic.txHashInput hTx')] at hInputs
          obtain ⟨hHead, hTail⟩ := List.cons.inj hInputs
          have hInput : Crypto.txHashInput tx = Crypto.txHashInput tx' := by
            rw [Authentic.txHashInput hTx, Authentic.txHashInput hTx', hHead]
          have hEq := Authentic.eq hTx hTx'
            (hKeys tx List.mem_cons_self tx' List.mem_cons_self) hInput
          have hRest := ih (fun t ht => h t (List.mem_cons_of_mem tx ht))
            (fun t ht => h' t (List.mem_cons_of_mem tx' ht))
            (fun t ht t' ht' =>
              hKeys t (List.mem_cons_of_mem tx ht) t' (List.mem_cons_of_mem tx' ht')) hTail
          rw [hEq, hRest]

/-! ## The header -/

theorem header_eq_of_hash_eq {block block' : Block} (h : Intact crypto block)
    (h' : Intact crypto block')
    (hDistinct : Merkle.NoCollision crypto.sha256
      (headerMessage block.header ++ headerMessage block'.header))
    (hHash : block.header.hash = block'.header.hash) : block.header = block'.header := by
  obtain ⟨bytes, hBytes, hSum⟩ :=
    Option.map_eq_some_iff.mp ((validateBlockHash_eq_ok crypto).mp h.blockHash)
  obtain ⟨bytes', hBytes', hSum'⟩ :=
    Option.map_eq_some_iff.mp ((validateBlockHash_eq_ok crypto).mp h'.blockHash)
  have hMessage : domainBlock ++ bytes = domainBlock ++ bytes' := by
    refine hDistinct _ ?_ _ ?_ (hSum.trans (hHash.trans hSum'.symm))
    · simp [headerMessage, hBytes]
    · simp [headerMessage, hBytes']
  rw [← List.append_cancel_left hMessage] at hBytes'
  exact hashInputBytes_inj hBytes hBytes' hHash

/-- Two blocks that pass the checks and have the same hash are equal. -/
theorem block_eq_of_hash_eq {block block' : Block} (h : Intact crypto block)
    (h' : Intact crypto block')
    (hDistinct : Merkle.NoCollision crypto.sha256
      (hashedMessages crypto block ++ hashedMessages crypto block'))
    (hNonzero : ∀ m ∈ hashedMessages crypto block ++ hashedMessages crypto block',
      crypto.sha256 m ≠ Hash.zero)
    (hHash : block.header.hash = block'.header.hash) : block = block' := by
  have hHeader : block.header = block'.header := by
    refine header_eq_of_hash_eq h h' (hDistinct.mono ?_) hHash
    intro m hm
    cases List.mem_append.mp hm <;> simp [hashedMessages, *]
  have hTree : treeMessages crypto block.transactions ++
      treeMessages crypto block'.transactions ⊆
        hashedMessages crypto block ++ hashedMessages crypto block' := by
    intro m hm
    cases List.mem_append.mp hm <;> simp [hashedMessages, *]
  have hAuthentic := (validateAllTransactions_eq_ok crypto).mp h.transactions
  have hAuthentic' := (validateAllTransactions_eq_ok crypto).mp h'.transactions
  have hRoot : transactionsRoot crypto block.transactions =
      transactionsRoot crypto block'.transactions := by
    rw [(validateTransactionsRoot_eq_ok crypto).mp h.root,
      (validateTransactionsRoot_eq_ok crypto).mp h'.root, hHeader]
  have hInputs := txInputs_eq_of_root_eq hAuthentic hAuthentic' (hDistinct.mono hTree)
    (fun m hm => hNonzero m (hTree hm)) hRoot
  have hTransactions : block.transactions = block'.transactions := by
    refine transactions_eq_of_txInputs_eq hAuthentic hAuthentic' ?_ hInputs
    intro tx hTx tx' hTx'
    refine hDistinct _ ?_ _ ?_
    · have hKey := List.mem_map_of_mem (f := SignedTransaction.signerPubkey) hTx
      simp only [hashedMessages, List.mem_append, hKey, or_true, true_or]
    · have hKey := List.mem_map_of_mem (f := SignedTransaction.signerPubkey) hTx'
      simp only [hashedMessages, List.mem_append, hKey, or_true]
  cases block
  cases block'
  simp_all

/-- A payment signed with the sample functions. -/
def samplePayment (key : UInt8) (nonce : UInt64) : SignedTransaction :=
  sampleSigned (FixedBytes.fill 32 key)
    { chainId := "polay-devnet-1", nonce := nonce, signer := Address.zero
      action := .transfer (Address.ofByte 2) 5, maxFee := 100000, timestamp := 0
      session := none, sponsor := none }

/-- A block of the given transactions, with its root and its hash. -/
def sampleBlock (txs : List SignedTransaction) : Block :=
  let header : BlockHeader :=
    { height := 1, timestamp := 0, parentHash := Hash.zero, stateRoot := Hash.zero
      transactionsRoot := transactionsRoot .sample txs, proposer := Address.zero
      chainId := "polay-devnet-1", hash := Hash.zero }
  ⟨{ header with hash := (hashBlockHeader checksum header).getD Hash.zero }, txs⟩

/-- Three payments, so that the tree has a promoted leaf. -/
def threePayments : Block :=
  sampleBlock [samplePayment 1 0, samplePayment 1 1, samplePayment 3 0]

theorem block_eq_of_hash_eq_threePayments :
    Intact .sample threePayments ∧ threePayments.transactions.length = 3 ∧
      threePayments = sampleBlock threePayments.transactions := by
  have hIntact : Intact .sample threePayments :=
    ⟨by decide +kernel, by decide +kernel, by decide +kernel⟩
  have hIntact' : Intact .sample (sampleBlock threePayments.transactions) :=
    ⟨by decide +kernel, by decide +kernel, by decide +kernel⟩
  exact ⟨hIntact, by decide +kernel,
    block_eq_of_hash_eq hIntact hIntact' (by decide +kernel) (by decide +kernel)
      (by decide +kernel)⟩

end Polay.Validator
