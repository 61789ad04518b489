import Polay.Execution.Runs

/-!
# Runs of a block

A block first pays out matured unbondings and then runs its loop. Neither part
can fail, so what a block does is a function of the store: `unbonded` is the
store after the first part and `steps` lists the turns of the loop, each with
the store before and after it. `run_executeBlock` connects both to the program.

A turn is `Charged` when the gas limit leaves room for its transaction and the
fee stage goes through. A turn that is not charged leaves the store alone; a
charged one counts one nonce. So the nonces of a store count the charged turns
of its past (`Linked.nonceOf_last`).
-/

namespace Polay.Execution

open Lib Lib.Machine Polay.Types State

/-! ## Matured unbondings -/

/-- The matured entries of the unbonding queue. -/
def matureEntries (height : UInt64) (s : StateStore) : List (UnbondingEntry × UInt8) :=
  matureOf height (Store.scan s (Key.startsWith unbondingIndexPrefix))

/-- The store after one matured entry was paid out. -/
def released (s : StateStore) (e : UnbondingEntry × UInt8) : StateStore :=
  ((Executor.creditedStore s e.1.delegator 0 e.1.amount).erase
    (.unbonding e.1.delegator e.1.completionHeight e.2)).erase
    (.unbondingIndex e.1.completionHeight e.1.delegator e.2)

/-- The store after every matured entry was paid out. -/
def unbonded (height : UInt64) (s : StateStore) : StateStore :=
  (matureEntries height s).foldl released s

theorem run_each_releaseUnbonding (l : List (UnbondingEntry × UInt8)) (s : StateStore) :
    (Prog.each Staking.releaseUnbonding l).run s = (.ok (), l.foldl released s) := by
  induction l generalizing s with
  | nil => rfl
  | cons e l ih =>
      show ((Staking.releaseUnbonding e).bind _).run s = _
      rw [Prog.run_bind]
      exact ih (released s e)

theorem run_processMatureUnbondings (height : UInt64) (s : StateStore) :
    (Staking.processMatureUnbondings height).run s =
      (.ok ((matureEntries height s).map fun e =>
        Event.unbondingCompleted e.1.delegator e.1.validator e.1.amount),
        unbonded height s) := by
  show ((Prog.each Staking.releaseUnbonding (matureEntries height s)).bind _).run s = _
  rw [Prog.run_bind, run_each_releaseUnbonding]
  rfl

theorem nonceOf_unbonded (height : UInt64) (s : StateStore) :
    nonceOf (unbonded height s) = nonceOf s := by
  have hRun := nonceOf_run (processMatureUnbondings_safe height) (s := s)
  rwa [run_processMatureUnbondings] at hRun

theorem ListingsBacked.unbonded {s : StateStore} (h : ListingsBacked s) (height : UInt64) :
    ListingsBacked (unbonded height s) := by
  have hRun := listingsBacked_run h (fun _ => id) (processMatureUnbondings_safe height)
  rwa [run_processMatureUnbondings] at hRun

namespace Executor

variable (sha256 : List UInt8 → Hash) (ex : Executor)

/-! ## Transactions that are not rejected -/

section Transaction

variable {sha256 ex} {tx : SignedTransaction} {height : UInt64} {proposer : Address}
variable {s : StateStore} {result : Outcome ExecutionError ExecutionResult × StateStore}

/-- A rejected transaction leaves the store as it was. -/
theorem TxRun.store_eq (h : TxRun sha256 ex tx height proposer s result)
    (hCharges : ¬ ex.Charges tx s) : result.2 = s := by
  cases h with
  | rejected e _ => rfl
  | failed _ _ _ _ hc | panicked _ _ _ hc | succeeded _ _ _ _ _ _ _ hc => exact absurd hc hCharges

/-- Any other transaction counts one nonce of its signer, whatever its action does. -/
theorem TxRun.nonceOf_eq (h : TxRun sha256 ex tx height proposer s result)
    (hCharges : ex.Charges tx s) :
    nonceOf result.2 = Function.update (nonceOf s) tx.signer (nonceOf s tx.signer + 1) := by
  have hKeep : ∀ s₁ : StateStore, nonceOf ((ex.action sha256 tx height).run s₁).2 = nonceOf s₁ :=
    ex.nonceOf_dispatchAction sha256 _ _ _ _
  cases h with
  | rejected e hc => exact absurd hCharges hc
  | failed _ s₁ _ _ _ _ hCollected hAction | panicked _ s₁ _ _ _ hCollected hAction =>
      have hAct := hKeep s₁
      rw [hAction] at hAct
      exact hAct.trans hCollected.nonce
  | succeeded fees s₁ s₂ s₃ events changes spent _ _ hCollected hAction hSession =>
      have hAct := hKeep s₁
      rw [hAction] at hAct
      have hSpent := nonceOf_run (spendSession_safe tx.signer tx.transaction.session
        (ex.actualFee tx.transaction)) (s := s₂)
      rw [hSession] at hSpent
      exact hSpent.trans (hAct.trans hCollected.nonce)

/-- The fee stage touches no listing and no asset class. -/
theorem Collected.listingsBacked {s₁ : StateStore} (h : ex.Collected tx proposer s s₁)
    (hs : ListingsBacked s) : ListingsBacked s₁ :=
  hs.congr (fun _ => h.other _ (by simp) (by simp)) fun _ => h.other _ (by simp) (by simp)

theorem TxRun.listingsBacked (h : TxRun sha256 ex tx height proposer s result)
    (hs : ListingsBacked s) : ListingsBacked result.2 := by
  have hKeep : ∀ s₁ : StateStore, ListingsBacked s₁ →
      ListingsBacked ((ex.action sha256 tx height).run s₁).2 :=
    fun s₁ h₁ => ex.listingsBacked_dispatchAction sha256 _ _ _ _ h₁
  cases h with
  | rejected e _ => exact hs
  | failed _ s₁ _ _ _ _ hCollected hAction | panicked _ s₁ _ _ _ hCollected hAction =>
      have hAct := hKeep s₁ (hCollected.listingsBacked hs)
      rwa [hAction] at hAct
  | succeeded fees s₁ s₂ s₃ events changes spent _ _ hCollected hAction hSession =>
      have hAct := hKeep s₁ (hCollected.listingsBacked hs)
      rw [hAction] at hAct
      have hSpent := listingsBacked_run hAct (fun _ => id) (spendSession_safe tx.signer
        tx.transaction.session (ex.actualFee tx.transaction))
      rwa [hSession] at hSpent

end Transaction

/-! ## The block loop -/

/-- The block gas limit leaves no room for the transaction. -/
def OverLimit (gas : UInt64) (tx : SignedTransaction) : Prop :=
  ex.chainConfig.maxBlockGas < saturatingAdd gas (ex.estimateGas tx.transaction)

instance (gas : UInt64) (tx : SignedTransaction) : Decidable (ex.OverLimit gas tx) :=
  inferInstanceAs (Decidable (_ < _))

/-- The gas counter and the receipt of a transaction, from how it ended. -/
def booked (tx : SignedTransaction) (height gas : UInt64) :
    Outcome ExecutionError ExecutionResult → UInt64 × TransactionReceipt
  | .ok result => (saturatingAdd gas result.receipt.gasUsed, result.receipt)
  | .err e => (gas, rejection tx height e.text)
  | .panic => (gas, rejection tx height "transaction execution panicked")

/-- What one turn of the loop returns and leaves. -/
def next (height : UInt64) (proposer : Address) (gas : UInt64) (s : StateStore)
    (tx : SignedTransaction) : (UInt64 × TransactionReceipt) × StateStore :=
  if ex.OverLimit gas tx then ((gas, rejection tx height "block gas limit exceeded"), s)
  else
    let result := (ex.executeTransaction sha256 tx height proposer).run s
    (booked tx height gas result.1, result.2)

theorem run_executeNext (height : UInt64) (proposer : Address) (gas : UInt64)
    (tx : SignedTransaction) (s : StateStore) :
    (ex.executeNext sha256 height proposer gas tx).run s =
      (.ok (ex.next sha256 height proposer gas s tx).1,
        (ex.next sha256 height proposer gas s tx).2) := by
  unfold executeNext next
  by_cases hGas : ex.OverLimit gas tx
  · rw [if_pos hGas, if_pos (show _ < _ from hGas)]
    rfl
  · rw [if_neg hGas, if_neg (show ¬ _ < _ from hGas), Prog.bind_eq, Prog.run_bind,
      Prog.run_attempt, executeTransactionSafe, Prog.bind_eq, Prog.run_bind, Prog.run_reify]
    cases (ex.executeTransaction sha256 tx height proposer).run s with
    | mk outcome s' => cases outcome <;> rfl

/-- One turn of the loop. -/
structure BlockStep where
  gas : UInt64
  before : StateStore
  tx : SignedTransaction
  receipt : TransactionReceipt
  after : StateStore

/-- The turns of the loop. -/
def steps (height : UInt64) (proposer : Address) :
    UInt64 → StateStore → List SignedTransaction → List BlockStep
  | _, _, [] => []
  | gas, s, tx :: rest =>
      let r := ex.next sha256 height proposer gas s tx
      ⟨gas, s, tx, r.1.2, r.2⟩ :: steps height proposer r.1.1 r.2 rest

/-- The store the last turn leaves. -/
def storeAfter (s : StateStore) (l : List BlockStep) : StateStore :=
  l.foldl (fun _ st => st.after) s

theorem run_executeAll (height : UInt64) (proposer : Address) (gas : UInt64)
    (txs : List SignedTransaction) (s : StateStore) :
    (ex.executeAll sha256 height proposer gas txs).run s =
      (.ok ((ex.steps sha256 height proposer gas s txs).map BlockStep.receipt),
        storeAfter s (ex.steps sha256 height proposer gas s txs)) := by
  induction txs generalizing gas s with
  | nil => rfl
  | cons tx rest ih =>
      show ((ex.executeNext sha256 height proposer gas tx).bind _).run s = _
      rw [Prog.run_bind, run_executeNext]
      show ((ex.executeAll sha256 height proposer _ rest).bind _).run _ = _
      rw [Prog.run_bind, ih]
      rfl

/-- The turns of a block's loop, from the store before the block. -/
def blockSteps (txs : List SignedTransaction) (height : UInt64) (proposer : Address)
    (s : StateStore) : List BlockStep :=
  ex.steps sha256 height proposer 0 (unbonded height s) txs

/-- The store a block leaves. -/
def blockStore (txs : List SignedTransaction) (height : UInt64) (proposer : Address)
    (s : StateStore) : StateStore :=
  storeAfter (unbonded height s) (ex.blockSteps sha256 txs height proposer s)

theorem run_executeBlock (txs : List SignedTransaction) (height : UInt64) (proposer : Address)
    (s : StateStore) :
    (ex.executeBlock sha256 txs height proposer).run s =
      (.ok ((ex.blockSteps sha256 txs height proposer s).map BlockStep.receipt),
        ex.blockStore sha256 txs height proposer s) := by
  show ((Staking.processMatureUnbondings height).attempt.bind _).run s = _
  rw [Prog.run_bind, Prog.run_attempt, run_processMatureUnbondings]
  exact ex.run_executeAll sha256 height proposer 0 txs _

/-! ## Turns -/

/-- The transaction has its turn and its fee is collected. -/
def Charged (st : BlockStep) : Prop := ¬ ex.OverLimit st.gas st.tx ∧ ex.Charges st.tx st.before

/-- The turn is one the loop takes. -/
def IsStep (height : UInt64) (proposer : Address) (st : BlockStep) : Prop :=
  st.receipt = (ex.next sha256 height proposer st.gas st.before st.tx).1.2 ∧
    st.after = (ex.next sha256 height proposer st.gas st.before st.tx).2

theorem isStep_of_mem_steps {height : UInt64} {proposer : Address} {gas : UInt64}
    {s : StateStore} {txs : List SignedTransaction} {st : BlockStep}
    (h : st ∈ ex.steps sha256 height proposer gas s txs) :
    ex.IsStep sha256 height proposer st := by
  induction txs generalizing gas s with
  | nil => exact absurd h List.not_mem_nil
  | cons tx rest ih =>
      cases List.mem_cons.mp h with
      | inl hEq =>
          subst hEq
          exact ⟨rfl, rfl⟩
      | inr hMem => exact ih hMem

section Step

variable {sha256 ex} {height : UInt64} {proposer : Address} {st : BlockStep}

theorem IsStep.after_eq (h : ex.IsStep sha256 height proposer st) (hNot : ¬ ex.Charged st) :
    st.after = st.before := by
  rw [h.2, next]
  by_cases hGas : ex.OverLimit st.gas st.tx
  · rw [if_pos hGas]
  · rw [if_neg hGas]
    exact (ex.executeTransaction_run sha256 st.tx height proposer st.before).store_eq
      fun hCharges => hNot ⟨hGas, hCharges⟩

theorem IsStep.after_charged (h : ex.IsStep sha256 height proposer st)
    (hCharged : ex.Charged st) :
    st.after = ((ex.executeTransaction sha256 st.tx height proposer).run st.before).2 ∧
      st.receipt = (booked st.tx height st.gas
        ((ex.executeTransaction sha256 st.tx height proposer).run st.before).1).2 := by
  rw [h.1, h.2, next, if_neg hCharged.1]
  exact ⟨rfl, rfl⟩

theorem IsStep.nonceOf_after (h : ex.IsStep sha256 height proposer st)
    (hCharged : ex.Charged st) :
    nonceOf st.after =
      Function.update (nonceOf st.before) st.tx.signer (nonceOf st.before st.tx.signer + 1) := by
  rw [(h.after_charged hCharged).1]
  exact (ex.executeTransaction_run sha256 st.tx height proposer st.before).nonceOf_eq hCharged.2

/-- Only a charged turn has a receipt with success. -/
theorem IsStep.charged_of_success (h : ex.IsStep sha256 height proposer st)
    (hSuccess : st.receipt.success = true) : ex.Charged st := by
  rw [h.1, next] at hSuccess
  by_cases hGas : ex.OverLimit st.gas st.tx
  · rw [if_pos hGas] at hSuccess
    cases hSuccess
  · refine ⟨hGas, ?_⟩
    rw [if_neg hGas] at hSuccess
    have hRun := ex.executeTransaction_run sha256 st.tx height proposer st.before
    generalize (ex.executeTransaction sha256 st.tx height proposer).run st.before = result
      at hRun hSuccess
    cases hRun with
    | rejected e hCharges => cases hSuccess
    | failed fees s₁ e s₂ hCharges => exact hCharges
    | panicked fees s₁ s₂ hCharges => exact hCharges
    | succeeded fees s₁ s₂ s₃ events changes spent hCharges => exact hCharges

theorem IsStep.listingsBacked (h : ex.IsStep sha256 height proposer st)
    (hs : ListingsBacked st.before) : ListingsBacked st.after := by
  by_cases hCharged : ex.Charged st
  · rw [(h.after_charged hCharged).1]
    exact (ex.executeTransaction_run sha256 st.tx height proposer st.before).listingsBacked hs
  · rwa [h.after_eq hCharged]

end Step

variable {N : Address → UInt64} {tx : SignedTransaction} {s : StateStore} (height : UInt64)
variable (proposer : Address) (gas : UInt64) {txs : List SignedTransaction}

theorem listingsBacked_storeAfter {height : UInt64} {proposer : Address} {gas : UInt64}
    (hs : ListingsBacked s) :
    ListingsBacked (storeAfter s (ex.steps sha256 height proposer gas s txs)) := by
  induction txs generalizing gas s with
  | nil => exact hs
  | cons tx rest ih =>
      have hStep : ex.IsStep sha256 height proposer
          ⟨gas, s, tx, (ex.next sha256 height proposer gas s tx).1.2,
            (ex.next sha256 height proposer gas s tx).2⟩ := ⟨rfl, rfl⟩
      exact ih (hStep.listingsBacked hs)

theorem listingsBacked_blockStore (hs : ListingsBacked s) (txs : List SignedTransaction)
    (height : UInt64) (proposer : Address) :
    ListingsBacked (ex.blockStore sha256 txs height proposer s) :=
  ex.listingsBacked_storeAfter sha256 (hs.unbonded height)

/-- A loop without a charged turn leaves the store as it was. -/
theorem storeAfter_eq_of_none_charged {height : UInt64} {proposer : Address} {gas : UInt64}
    (h : ∀ st ∈ ex.steps sha256 height proposer gas s txs, ¬ ex.Charged st) :
    storeAfter s (ex.steps sha256 height proposer gas s txs) = s := by
  induction txs generalizing gas s with
  | nil => rfl
  | cons tx rest ih =>
      have hStep : ex.IsStep sha256 height proposer
          ⟨gas, s, tx, (ex.next sha256 height proposer gas s tx).1.2,
            (ex.next sha256 height proposer gas s tx).2⟩ := ⟨rfl, rfl⟩
      have hSame : (ex.next sha256 height proposer gas s tx).2 = s :=
        hStep.after_eq (h _ (List.mem_cons_self ..))
      have hRest := ih fun st hst => h st (List.mem_cons_of_mem _ hst)
      show storeAfter (ex.next sha256 height proposer gas s tx).2 _ = s
      exact hRest.trans hSame

theorem next_of_not_charged {gas : UInt64} (h : ex.OverLimit gas tx ∨ ¬ ex.Charges tx s) :
    (ex.next sha256 height proposer gas s tx).1.1 = gas ∧
      (ex.next sha256 height proposer gas s tx).2 = s := by
  unfold next
  by_cases hGas : ex.OverLimit gas tx
  · rw [if_pos hGas]
    exact ⟨rfl, rfl⟩
  · rw [if_neg hGas]
    have hNot := h.resolve_left hGas
    have hRun := ex.executeTransaction_run sha256 tx height proposer s
    generalize (ex.executeTransaction sha256 tx height proposer).run s = result at hRun
    cases hRun with
    | rejected e _ => exact ⟨rfl, rfl⟩
    | failed _ _ _ _ hCharges | panicked _ _ _ hCharges | succeeded _ _ _ _ _ _ _ hCharges =>
        exact absurd hCharges hNot

/-- No turn is charged exactly if no transaction would be as the first one. -/
theorem none_charged_iff (s : StateStore) (txs : List SignedTransaction) :
    (∀ st ∈ ex.steps sha256 height proposer gas s txs, ¬ ex.Charged st) ↔
      ∀ tx ∈ txs, ex.OverLimit gas tx ∨ ¬ ex.Charges tx s := by
  induction txs with
  | nil => simp [steps]
  | cons tx rest ih =>
      have hHead : ∀ receipt after, ¬ ex.Charged ⟨gas, s, tx, receipt, after⟩ ↔
          (ex.OverLimit gas tx ∨ ¬ ex.Charges tx s) := by
        intro receipt after
        unfold Charged
        rw [not_and_or, not_not]
      simp only [steps, List.forall_mem_cons, hHead]
      refine and_congr_right fun hFirst => ?_
      obtain ⟨hGas, hStore⟩ := ex.next_of_not_charged sha256 height proposer hFirst
      rw [hGas, hStore]
      exact ih

/-! ## Counting nonces -/

/-- A list of turns in which each starts with the nonces the last one left. -/
def Linked (N : Address → UInt64) : List BlockStep → Prop
  | [] => True
  | st :: l => nonceOf st.before = N ∧ Linked (nonceOf st.after) l

theorem linked_steps (s : StateStore) (txs : List SignedTransaction) :
    Linked (nonceOf s) (ex.steps sha256 height proposer gas s txs) := by
  induction txs generalizing gas s with
  | nil => trivial
  | cons tx rest ih => exact ⟨rfl, ih _ _⟩

/-- The nonces the last turn leaves. -/
def lastNonces (N : Address → UInt64) (l : List BlockStep) : Address → UInt64 :=
  l.foldl (fun _ st => nonceOf st.after) N

theorem lastNonces_eq (s : StateStore) (l : List BlockStep) :
    lastNonces (nonceOf s) l = nonceOf (storeAfter s l) := by
  induction l generalizing s with
  | nil => rfl
  | cons st l ih => exact ih st.after

theorem Linked.append {l m : List BlockStep} (hl : Linked N l) (hm : Linked (lastNonces N l) m) :
    Linked N (l ++ m) := by
  induction l generalizing N with
  | nil => exact hm
  | cons st l ih => exact ⟨hl.1, ih hl.2 hm⟩

theorem Linked.of_append {l m : List BlockStep} (h : Linked N (l ++ m)) :
    Linked N l ∧ Linked (lastNonces N l) m := by
  induction l generalizing N with
  | nil => exact ⟨trivial, h⟩
  | cons st l ih =>
      obtain ⟨hLeft, hRight⟩ := ih h.2
      exact ⟨⟨h.1, hLeft⟩, hRight⟩

open Classical in
/-- The number of charged turns of an address. -/
noncomputable def chargedCount (l : List BlockStep) (a : Address) : Nat :=
  l.countP fun st => decide (ex.Charged st ∧ st.tx.signer = a)

/-- The nonce of an address counts its charged turns. -/
theorem Linked.nonceOf_last {l : List BlockStep} (h : Linked N l)
    (hSteps : ∀ st ∈ l, ∃ height proposer, ex.IsStep sha256 height proposer st) (a : Address) :
    lastNonces N l a = N a + UInt64.ofNat (ex.chargedCount l a) := by
  induction l generalizing N with
  | nil => simp [lastNonces, chargedCount]
  | cons st l ih =>
      obtain ⟨hBefore, hLinked⟩ := h
      obtain ⟨height, proposer, hStep⟩ := hSteps st (List.mem_cons_self ..)
      have hRest := ih hLinked fun st' h' => hSteps st' (List.mem_cons_of_mem _ h')
      show lastNonces (nonceOf st.after) l a = _
      rw [hRest]
      by_cases hCharged : ex.Charged st
      · rw [hStep.nonceOf_after hCharged, hBefore]
        by_cases ha : st.tx.signer = a
        · have hCount : ex.chargedCount (st :: l) a = ex.chargedCount l a + 1 := by
            simp [chargedCount, hCharged, ha]
          rw [hCount, ← ha, Function.update_self, UInt64.ofNat_add, UInt64.add_assoc,
            UInt64.add_comm 1]
          rfl
        · have hCount : ex.chargedCount (st :: l) a = ex.chargedCount l a := by
            simp [chargedCount, ha]
          rw [hCount, Function.update_of_ne (Ne.symm ha)]
      · have hCount : ex.chargedCount (st :: l) a = ex.chargedCount l a := by
          simp [chargedCount, hCharged]
        rw [hCount, hStep.after_eq hCharged, hBefore]

theorem chargedCount_le (l : List BlockStep) (a : Address) :
    ex.chargedCount l a ≤ l.length := List.countP_le_length

theorem length_steps (s : StateStore) (txs : List SignedTransaction) :
    (ex.steps sha256 height proposer gas s txs).length = txs.length := by
  induction txs generalizing gas s with
  | nil => rfl
  | cons tx rest ih =>
      show (ex.steps sha256 height proposer _ _ rest).length + 1 = rest.length + 1
      rw [ih]

/-- A block of fewer than `2 ^ 64` transactions that charges one of them changes
the nonce of its signer. -/
theorem nonceOf_storeAfter_ne {height : UInt64} {proposer : Address} {gas : UInt64}
    (hLen : txs.length < 2 ^ 64) {st : BlockStep}
    (hMem : st ∈ ex.steps sha256 height proposer gas s txs) (hCharged : ex.Charged st) :
    nonceOf (storeAfter s (ex.steps sha256 height proposer gas s txs)) st.tx.signer ≠
      nonceOf s st.tx.signer := by
  have hCount := (ex.linked_steps sha256 height proposer gas s txs).nonceOf_last sha256 ex
    (fun st' h' => ⟨height, proposer, ex.isStep_of_mem_steps sha256 h'⟩) st.tx.signer
  rw [lastNonces_eq] at hCount
  rw [hCount]
  have hPos : 0 < ex.chargedCount (ex.steps sha256 height proposer gas s txs) st.tx.signer :=
    List.countP_pos_iff.mpr ⟨st, hMem, by simp [hCharged]⟩
  have hLe := ex.chargedCount_le (ex.steps sha256 height proposer gas s txs) st.tx.signer
  rw [length_steps] at hLe
  intro hEq
  have hZero : UInt64.ofNat
      (ex.chargedCount (ex.steps sha256 height proposer gas s txs) st.tx.signer) = 0 := by
    have hSub := congrArg (· - nonceOf s st.tx.signer) hEq
    simpa [UInt64.add_comm] using hSub
  have hNat := congrArg UInt64.toNat hZero
  rw [UInt64.toNat_ofNat_of_lt' (Nat.lt_of_le_of_lt hLe hLen)] at hNat
  exact absurd hNat (Nat.ne_of_gt hPos)

/-! ## The turn at a position -/

/-- The receipts of a block. -/
def receiptsOf (txs : List SignedTransaction) (height : UInt64) (proposer : Address)
    (s : StateStore) : List TransactionReceipt :=
  ((ex.executeBlock sha256 txs height proposer).run s).1.toOption.getD []

/-- The store before the transaction at a position: the one the block's earlier
transactions leave. -/
def storeBefore (txs : List SignedTransaction) (height : UInt64) (proposer : Address)
    (s : StateStore) (i : Nat) : StateStore :=
  ((ex.executeBlock sha256 (txs.take i) height proposer).run s).2

/-- The gas counter before the transaction at a position. -/
def gasBefore (txs : List SignedTransaction) (height : UInt64) (proposer : Address)
    (s : StateStore) (i : Nat) : UInt64 :=
  (ex.receiptsOf sha256 (txs.take i) height proposer s).foldl
    (fun gas r => saturatingAdd gas r.gasUsed) 0

theorem next_gas (s : StateStore) (tx : SignedTransaction) :
    (ex.next sha256 height proposer gas s tx).1.1 =
      saturatingAdd gas (ex.next sha256 height proposer gas s tx).1.2.gasUsed := by
  unfold next
  by_cases hGas : ex.OverLimit gas tx
  · rw [if_pos hGas]
    exact (saturatingAdd_zero gas).symm
  · rw [if_neg hGas]
    cases (ex.executeTransaction sha256 tx height proposer).run s with
    | mk outcome s' =>
        cases outcome with
        | ok result => rfl
        | err | panic => exact (saturatingAdd_zero gas).symm

/-- The turn at a position starts where the earlier ones end. -/
theorem steps_getElem? (s : StateStore) {i : Nat} (h : txs[i]? = some tx) :
    ∃ st, (ex.steps sha256 height proposer gas s txs)[i]? = some st ∧ st.tx = tx ∧
      st.gas = ((ex.steps sha256 height proposer gas s (txs.take i)).map BlockStep.receipt).foldl
        (fun gas r => saturatingAdd gas r.gasUsed) gas ∧
      st.before = storeAfter s (ex.steps sha256 height proposer gas s (txs.take i)) ∧
      st.after = storeAfter s (ex.steps sha256 height proposer gas s (txs.take (i + 1))) := by
  induction txs generalizing gas s i with
  | nil => cases h
  | cons tx' rest ih =>
      cases i with
      | zero =>
          cases h
          exact ⟨_, rfl, rfl, rfl, rfl, rfl⟩
      | succ i =>
          obtain ⟨st, hMem, hTx, hGas, hBefore, hAfter⟩ := ih
            (ex.next sha256 height proposer gas s tx').1.1
            (ex.next sha256 height proposer gas s tx').2 h
          refine ⟨st, hMem, hTx, ?_, hBefore, hAfter⟩
          rw [hGas, List.take_succ_cons, steps, List.map_cons, List.foldl_cons, ← next_gas]

/-- The transaction at a position has its turn, with the receipt at that position. -/
theorem isStep_at (s : StateStore) {i : Nat} (h : txs[i]? = some tx) :
    ∃ receipt, (ex.receiptsOf sha256 txs height proposer s)[i]? = some receipt ∧
      ex.IsStep sha256 height proposer ⟨ex.gasBefore sha256 txs height proposer s i,
        ex.storeBefore sha256 txs height proposer s i, tx, receipt,
        ex.storeBefore sha256 txs height proposer s (i + 1)⟩ := by
  obtain ⟨st, hMem, hTx, hGas, hBefore, hAfter⟩ :=
    ex.steps_getElem? sha256 height proposer 0 (unbonded height s) h
  have hStep := ex.isStep_of_mem_steps sha256 (List.mem_of_getElem? hMem)
  refine ⟨st.receipt, ?_, ?_⟩
  · rw [receiptsOf, run_executeBlock]
    show ((ex.steps sha256 height proposer 0 (unbonded height s) txs).map _)[i]? = _
    rw [List.getElem?_map, hMem]
    rfl
  · unfold storeBefore gasBefore receiptsOf
    rw [run_executeBlock, run_executeBlock]
    obtain ⟨gas, before, tx', receipt, after⟩ := st
    cases hTx
    cases hGas
    cases hBefore
    cases hAfter
    exact hStep

theorem length_receiptsOf (txs : List SignedTransaction) (height : UInt64) (proposer : Address)
    (s : StateStore) : (ex.receiptsOf sha256 txs height proposer s).length = txs.length := by
  rw [receiptsOf, run_executeBlock]
  show ((ex.steps sha256 height proposer 0 _ txs).map _).length = _
  rw [List.length_map, length_steps]

end Executor

end Polay.Execution
