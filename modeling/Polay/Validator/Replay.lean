import Polay.Execution.Blocks
import Polay.Validator.Admission

/-!
# Replay of transactions

A run executes a list of blocks, each of which block validation has accepted. The
nonce of an account counts the charged turns of its transactions, but neither
block validation nor execution compares it with the nonce of a transaction. Where
every charged transaction does carry its signer's nonce, a second success of the
same transaction would need the nonce to come back, which it does not within
`2 ^ 64` turns.
-/

namespace Polay.Validator

open Lib Polay.Types State Crypto Execution BlockValidator
open Executor (BlockStep)

variable (crypto : Primitives) (ex : Executor)

/-- The turns of the blocks of a run, in order. -/
def chainSteps : StateStore → List Block → List BlockStep
  | _, [] => []
  | s, block :: rest =>
      ex.blockSteps crypto.sha256 block.transactions block.header.height block.header.proposer s ++
        chainSteps (ex.blockStore crypto.sha256 block.transactions block.header.height
          block.header.proposer s) rest

/-- Every block of the run is accepted by block validation, on the store before it. -/
def AllAccepted (bv : BlockValidator) : StateStore → List Block → Prop
  | _, [] => True
  | s, block :: rest =>
      (∃ height parent, ((bv.validateProposedBlock crypto block height parent).run s).1 = .ok ()) ∧
        AllAccepted bv (ex.blockStore crypto.sha256 block.transactions block.header.height
          block.header.proposer s) rest

/-- The transaction carries the nonce of its signer. -/
def CarriesNonce (st : BlockStep) : Prop := st.tx.nonce = nonceOf st.before st.tx.signer

/-- No transaction hash succeeds twice, and every success carried its signer's nonce. -/
structure TakesEffectOnce (l : List BlockStep) : Prop where
  once : l.Pairwise fun st st' => st.receipt.success = true → st'.receipt.success = true →
    st.tx.txHash ≠ st'.tx.txHash
  nonce : ∀ st ∈ l, st.receipt.success = true → CarriesNonce st

/-! ## Turns of a run -/

variable {crypto ex}
variable {l : List BlockStep} {s : StateStore} {st : BlockStep}

theorem isStep_of_mem_chainSteps {blocks : List Block} (h : st ∈ chainSteps crypto ex s blocks) :
    ∃ height proposer, ex.IsStep crypto.sha256 height proposer st := by
  induction blocks generalizing s with
  | nil => exact absurd h List.not_mem_nil
  | cons block rest ih =>
      cases List.mem_append.mp h with
      | inl hBlock => exact ⟨_, _, ex.isStep_of_mem_steps crypto.sha256 hBlock⟩
      | inr hRest => exact ih hRest

theorem tx_of_mem_steps {height : UInt64} {proposer : Address} {gas : UInt64}
    {txs : List SignedTransaction} (h : st ∈ ex.steps crypto.sha256 height proposer gas s txs) :
    st.tx ∈ txs := by
  induction txs generalizing gas s with
  | nil => exact absurd h List.not_mem_nil
  | cons tx rest ih =>
      cases List.mem_cons.mp h with
      | inl hEq =>
          subst hEq
          exact List.mem_cons_self
      | inr hMem => exact List.mem_cons_of_mem tx (ih hMem)

theorem authentic_of_mem_chainSteps {bv : BlockValidator} {blocks : List Block}
    (hAccepted : AllAccepted crypto ex bv s blocks) (h : st ∈ chainSteps crypto ex s blocks) :
    ∃ signingBytes pubkey, Authentic crypto st.tx signingBytes pubkey := by
  induction blocks generalizing s with
  | nil => exact absurd h List.not_mem_nil
  | cons block rest ih =>
      obtain ⟨⟨height, parent, hBlock⟩, hRest⟩ := hAccepted
      cases List.mem_append.mp h with
      | inl hMem => exact authentic_of_accepted hBlock st.tx (tx_of_mem_steps hMem)
      | inr hMem => exact ih hRest hMem

/-- The turns of a run hand the nonces on, across the payouts between blocks. -/
theorem linked_chainSteps (s : StateStore) (blocks : List Block) :
    Executor.Linked (nonceOf s) (chainSteps crypto ex s blocks) := by
  induction blocks generalizing s with
  | nil => trivial
  | cons block rest ih =>
      have hBlock := ex.linked_steps crypto.sha256 block.header.height block.header.proposer 0
        (unbonded block.header.height s) block.transactions
      rw [nonceOf_unbonded] at hBlock
      refine Executor.Linked.append hBlock ?_
      have hLast := Executor.lastNonces_eq (unbonded block.header.height s)
        (ex.blockSteps crypto.sha256 block.transactions block.header.height
          block.header.proposer s)
      rw [nonceOf_unbonded] at hLast
      show Executor.Linked (Executor.lastNonces (nonceOf s)
        (ex.blockSteps crypto.sha256 block.transactions block.header.height
          block.header.proposer s)) _
      rw [hLast]
      exact ih _

/-! ## Two successes of one signer -/

/-- Between a charged turn and a later turn, the nonce of the signer has moved. -/
theorem nonceOf_ne_of_charged {N : Address → UInt64} {m : List BlockStep} {st' : BlockStep}
    (hLinked : Executor.Linked N (st :: (l ++ st' :: m)))
    (hSteps : ∀ x ∈ st :: l, ∃ height proposer, ex.IsStep crypto.sha256 height proposer x)
    (hLength : (st :: l).length < 2 ^ 64) (hCharged : ex.Charged st) :
    nonceOf st'.before st.tx.signer ≠ nonceOf st.before st.tx.signer := by
  obtain ⟨hLeft, hRight⟩ := Executor.Linked.of_append (l := st :: l) hLinked
  have hBefore : nonceOf st.before = N := hLinked.1
  have hCount := hLeft.nonceOf_last crypto.sha256 ex hSteps st.tx.signer
  have hPos : 0 < ex.chargedCount (st :: l) st.tx.signer :=
    List.countP_pos_iff.mpr ⟨st, List.mem_cons_self, by simp [hCharged]⟩
  have hLe := ex.chargedCount_le (st :: l) st.tx.signer
  intro hEq
  rw [hRight.1, hCount, hBefore] at hEq
  have hZero : UInt64.ofNat (ex.chargedCount (st :: l) st.tx.signer) = 0 := by
    have hSub := congrArg (· - N st.tx.signer) hEq
    simpa [UInt64.add_comm] using hSub
  have hNat := congrArg UInt64.toNat hZero
  rw [UInt64.toNat_ofNat_of_lt' (Nat.lt_of_le_of_lt hLe hLength)] at hNat
  have hNone : ex.chargedCount (st :: l) st.tx.signer = 0 := hNat
  omega

/-- The messages that the transaction hashes of a run are computed over. -/
def runInputs (l : List BlockStep) : List (List UInt8) :=
  l.filterMap fun st => txHashInput st.tx

theorem transaction_eq_of_txHash_eq
    (hAuthentic : ∀ st ∈ l, ∃ signingBytes pubkey, Authentic crypto st.tx signingBytes pubkey)
    (hDistinct : Merkle.NoCollision crypto.sha256 (runInputs l)) {st' : BlockStep} (hMem : st ∈ l)
    (hMem' : st' ∈ l) (hHash : st.tx.txHash = st'.tx.txHash) :
    st.tx.transaction = st'.tx.transaction := by
  obtain ⟨bytes, key, hTx⟩ := hAuthentic st hMem
  obtain ⟨bytes', key', hTx'⟩ := hAuthentic st' hMem'
  have hInput := Authentic.txHashInput hTx
  have hInput' := Authentic.txHashInput hTx'
  have hSame := hDistinct _ (List.mem_filterMap.mpr ⟨st, hMem, hInput⟩) _
    (List.mem_filterMap.mpr ⟨st', hMem', hInput'⟩)
    (hTx.hashed.trans (hHash.trans hTx'.hashed.symm))
  rw [← hSame] at hInput'
  exact (txHashInput_inj hInput hInput').1

/-- The argument for any linked list of turns, by induction on the list. -/
theorem takesEffectOnce_of_linked {N : Address → UInt64} (hLinked : Executor.Linked N l)
    (hSteps : ∀ st ∈ l, ∃ height proposer, ex.IsStep crypto.sha256 height proposer st)
    (hSame : ∀ st ∈ l, ∀ st' ∈ l, st.tx.txHash = st'.tx.txHash →
      st.tx.transaction = st'.tx.transaction)
    (hNonce : ∀ st ∈ l, ex.Charged st → CarriesNonce st) (hLength : l.length < 2 ^ 64) :
    TakesEffectOnce l := by
  have hSuccess : ∀ st ∈ l, st.receipt.success = true → ex.Charged st := by
    intro st hMem hOk
    obtain ⟨height, proposer, hStep⟩ := hSteps st hMem
    exact hStep.charged_of_success hOk
  refine ⟨?_, fun st hMem hOk => hNonce st hMem (hSuccess st hMem hOk)⟩
  induction l generalizing N with
  | nil => exact List.Pairwise.nil
  | cons st l ih =>
      refine List.Pairwise.cons ?_ ?_
      · intro st' hMem' hOk hOk' hHash
        have hMem : st ∈ st :: l := List.mem_cons_self
        have hLater : st' ∈ st :: l := List.mem_cons_of_mem st hMem'
        have hTx := hSame st hMem st' hLater hHash
        have hCharged := hSuccess st hMem hOk
        obtain ⟨before, after, hSplit⟩ := List.append_of_mem hMem'
        subst hSplit
        have hLen : (st :: before).length < 2 ^ 64 := by
          simp only [List.length_cons, List.length_append] at hLength ⊢
          omega
        have hBetween : ∀ x ∈ st :: before,
            ∃ height proposer, ex.IsStep crypto.sha256 height proposer x := by
          intro x hx
          apply hSteps x
          rcases List.mem_cons.mp hx with rfl | hx
          · exact List.mem_cons_self
          · exact List.mem_cons_of_mem _ (List.mem_append_left _ hx)
        apply nonceOf_ne_of_charged hLinked hBetween hLen hCharged
        -- Both turns carry the nonce of the one transaction.
        have hFirst : st.tx.nonce = _ := hNonce st hMem hCharged
        have hSecond : st'.tx.nonce = _ := hNonce st' hLater (hSuccess st' hLater hOk')
        have hSigner : st'.tx.signer = st.tx.signer := congrArg Transaction.signer hTx.symm
        have hEqual : st'.tx.nonce = st.tx.nonce := congrArg Transaction.nonce hTx.symm
        rw [← hSigner, ← hSecond, hEqual, hFirst, hSigner]
      · have hSub : ∀ x ∈ l, x ∈ st :: l := fun x hx => List.mem_cons_of_mem st hx
        have hShort : l.length < 2 ^ 64 := by
          simp only [List.length_cons] at hLength
          omega
        exact ih hLinked.2 (fun x hx => hSteps x (hSub x hx))
          (fun x hx y hy => hSame x (hSub x hx) y (hSub y hy))
          (fun x hx => hNonce x (hSub x hx)) hShort
          (fun x hx => hSuccess x (hSub x hx))

/-- In a run of accepted blocks in which every charged transaction carries its
signer's nonce, transactions take effect at most once. -/
theorem takesEffectOnce_of_carriesNonce {bv : BlockValidator} {s : StateStore}
    {blocks : List Block} (hAccepted : AllAccepted crypto ex bv s blocks)
    (hDistinct : Merkle.NoCollision crypto.sha256 (runInputs (chainSteps crypto ex s blocks)))
    (hLength : (chainSteps crypto ex s blocks).length < 2 ^ 64)
    (hNonce : ∀ st ∈ chainSteps crypto ex s blocks, ex.Charged st → CarriesNonce st) :
    TakesEffectOnce (chainSteps crypto ex s blocks) := by
  have hAuthentic : ∀ st ∈ chainSteps crypto ex s blocks, ∃ signingBytes pubkey,
      Authentic crypto st.tx signingBytes pubkey :=
    fun st hMem => authentic_of_mem_chainSteps hAccepted hMem
  exact takesEffectOnce_of_linked (linked_chainSteps s blocks)
    (fun st hMem => isStep_of_mem_chainSteps hMem)
    (fun st hMem st' hMem' => transaction_eq_of_txHash_eq hAuthentic hDistinct hMem hMem')
    hNonce hLength

/-! ## The same payment twice -/

instance (st : BlockStep) : Decidable (CarriesNonce st) := inferInstanceAs (Decidable (_ = _))

/-- The store after a first block with the sample payment. -/
def paidStore : StateStore :=
  Executor.devnet.blockStore checksum [samplePayment 1 0] 1 Address.zero fundedStore

/-- A second block of one transaction, with the state root of its execution. -/
def secondProposal (tx : SignedTransaction) : Block :=
  let first := (sampleProposal [samplePayment 1 0] fundedStore).header
  let executed := ((Executor.devnet.executeBlock checksum [tx] 2 Address.zero).run paidStore).2
  let header : BlockHeader :=
    { first with
      height := 2
      parentHash := first.hash
      stateRoot := stateRoot checksum executed
      transactionsRoot := transactionsRoot .sample [tx]
      hash := Hash.zero }
  ⟨{ header with hash := (hashBlockHeader checksum header).getD Hash.zero }, [tx]⟩

/-- A first block with the sample payment, then a second block. -/
def twoBlocks (tx : SignedTransaction) : List Block :=
  [sampleProposal [samplePayment 1 0] fundedStore, secondProposal tx]

theorem takesEffectOnce_of_carriesNonce_payments :
    TakesEffectOnce (chainSteps .sample Executor.devnet fundedStore
      (twoBlocks (samplePayment 1 1))) := by
  have hAccepted : AllAccepted .sample Executor.devnet devnetValidator fundedStore
      (twoBlocks (samplePayment 1 1)) :=
    ⟨⟨1, Hash.zero, by decide +kernel⟩,
      ⟨2, (sampleProposal [samplePayment 1 0] fundedStore).header.hash, by decide +kernel⟩,
      trivial⟩
  have hCarries : ∀ st ∈ chainSteps .sample Executor.devnet fundedStore
      (twoBlocks (samplePayment 1 1)), CarriesNonce st := by
    decide +kernel
  exact takesEffectOnce_of_carriesNonce hAccepted (by decide +kernel) (by decide +kernel)
    fun st hMem _ => hCarries st hMem

/-- The same signed payment is accepted in two consecutive blocks and succeeds in
both; the second time its nonce is no longer the signer's. -/
theorem payment_succeeds_twice :
    AllAccepted .sample Executor.devnet devnetValidator fundedStore
      (twoBlocks (samplePayment 1 0)) ∧
    (chainSteps .sample Executor.devnet fundedStore (twoBlocks (samplePayment 1 0))).map
      (fun st => (st.receipt.txHash, st.receipt.success, decide (CarriesNonce st))) =
      [((samplePayment 1 0).txHash, true, true), ((samplePayment 1 0).txHash, true, false)] :=
  ⟨⟨⟨1, Hash.zero, by decide +kernel⟩,
    ⟨2, (sampleProposal [samplePayment 1 0] fundedStore).header.hash, by decide +kernel⟩,
    trivial⟩, by decide +kernel⟩

end Polay.Validator
