import Polay.Execution.Frame

/-!
# Runs of the executor

What executing a transaction does to a store, in four cases: it is rejected
before anything is written, or its fee is collected and its action fails,
panics or succeeds (`TxRun`). A transaction that is not rejected counts exactly
one nonce, that of its signer; every other nonce is kept.

`CanPay` is the condition of the fee stage in terms of the store before it.
-/

namespace Polay.Execution

open Lib Lib.Machine Polay.Types State

/-! ## Reading a store -/

variable {s : StateStore} {x : AccountState}

/-- The account stored under an address. -/
def accountOf (s : StateStore) (a : Address) : Option AccountState :=
  (s.get? (.account a)).map (·.val)

/-- The nonce of an account; an account that does not exist has none yet. -/
def nonceOf (s : StateStore) (a : Address) : UInt64 := ((accountOf s a).map (·.nonce)).getD 0

def ClassExists (s : StateStore) (i : Hash) : Prop := (s.get? (.assetClass i)).isSome = true

/-- The asset class of every stored listing exists. -/
def ListingsBacked (s : StateStore) : Prop :=
  ∀ i l, s.get? (.listing i) = some l → ClassExists s (Listing.assetClassId l.val)

theorem ListingsBacked.congr {t : StateStore} (h : ListingsBacked s)
    (hListing : ∀ i, t.get? (.listing i) = s.get? (.listing i))
    (hClass : ∀ i, t.get? (.assetClass i) = s.get? (.assetClass i)) : ListingsBacked t := by
  intro i l hl
  rw [hListing] at hl
  unfold ClassExists
  rw [hClass]
  exact h i l hl

/-- The store with an account written under its address. -/
def withAccount (s : StateStore) (x : AccountState) : StateStore :=
  s.insert (.account x.address) ⟨x, Key.files_account x⟩

theorem accountOf_withAccount (s : StateStore) {a : Address} (ha : x.address = a) (b : Address) :
    accountOf (withAccount s x) b = if b = a then some x else accountOf s b := by
  subst ha
  exact Store.read_insert s (.account b) (Option.map (·.val)) (by simp [eq_comm])
    (by rintro ⟨⟩; rfl)

theorem address_of_accountOf {a : Address} (h : accountOf s a = some x) : x.address = a := by
  unfold accountOf at h
  rw [Option.map_eq_some_iff] at h
  obtain ⟨v, _, rfl⟩ := h
  exact v.property

theorem get?_withAccount {k : Key} (h : ∀ a, k ≠ .account a) :
    (withAccount s x).get? k = s.get? k :=
  Store.get?_insert_ne (h x.address).symm

/-! ## The frame of a store -/

/-- Every store satisfies the frame of its own nonces. -/
theorem holds_nonces (s : StateStore) :
    Store.Holds (Frame False (nonceOf s) (fun _ => True) fun _ => True) s := by
  intro k
  cases k
  case account a =>
    show ((s.get? (.account a)).map _).getD 0 = _
    simp only [nonceOf, accountOf, Option.map_map]
    rfl
  case assetClass i => exact ⟨fun h => h.elim, fun _ => trivial⟩
  case listing i => exact fun _ _ => trivial
  all_goals trivial

/-- A store whose listings are backed satisfies the frame of its classes. -/
theorem holds_backed (h : ListingsBacked s) {D : Hash → Prop} (hD : ∀ i, ClassExists s i → D i) :
    Store.Holds (Frame True (nonceOf s) (ClassExists s) D) s := by
  intro k
  cases k
  case account a => exact holds_nonces s (.account a)
  case assetClass i => exact ⟨fun _ hi => hi, hD i⟩
  case listing i => exact fun l hl => h i l hl
  all_goals trivial

variable {B : Prop} {N : Address → UInt64} {C D : Hash → Prop} {s : StateStore}

theorem nonceOf_of_holds (h : Store.Holds (Frame B N C D) s) : nonceOf s = N := by
  funext a
  have hAccount : ((s.get? (.account a)).map _).getD 0 = N a := h (.account a)
  rw [← hAccount]
  simp only [nonceOf, accountOf, Option.map_map]
  rfl

theorem listingsBacked_of_holds (h : Store.Holds (Frame True N C D) s) : ListingsBacked s := by
  intro i l hl
  have hListing : C (Listing.assetClassId l.val) := h (.listing i) l hl
  have hClass := h (.assetClass (Listing.assetClassId l.val))
  exact hClass.1 trivial hListing

/-! ## What a safe program guarantees -/

section Guarantees

variable {α : Type} {P E : Prop} {p : Handler α}

/-- A program that is safe for every frame keeps all nonces. -/
theorem nonceOf_run (h : p.Safe (Frame False (nonceOf s) (fun _ => True) fun _ => True) P E
    false) : nonceOf (p.run s).2 = nonceOf s :=
  nonceOf_of_holds (h.sound (holds_nonces s)).holds

theorem listingsBacked_run (hs : ListingsBacked s) (hD : ∀ i, ClassExists s i → D i)
    (h : p.Safe (Frame True (nonceOf s) (ClassExists s) D) P E false) :
    ListingsBacked (p.run s).2 :=
  listingsBacked_of_holds (h.sound (holds_backed hs hD)).holds

end Guarantees

namespace Executor

variable (sha256 : List UInt8 → Hash) (ex : Executor)
variable {x : AccountState} (a proposer : Address) {payer signer : Address}
variable {tx : SignedTransaction} {fee : UInt64}

theorem nonceOf_dispatchAction (action : TransactionAction) (signer : Address) (t h : UInt64)
    (s : StateStore) :
    nonceOf ((ex.dispatchAction sha256 action signer t h).run s).2 = nonceOf s := by
  have hSafe := dispatchAction_safe (B := False) (N := nonceOf s) (C := fun _ => True) sha256 ex
    action signer t h
  simp only [true_or] at hSafe
  exact nonceOf_run hSafe

theorem mayPanic_of_dispatchAction {action : TransactionAction} {t h : UInt64} {s : StateStore}
    (hPanic : ((ex.dispatchAction sha256 action signer t h).run s).1 = .panic) :
    MayPanic ex.chainConfig action := by
  have hSafe := dispatchAction_safe (B := False) (N := nonceOf s) (C := fun _ => True) sha256 ex
    action signer t h
  simp only [true_or] at hSafe
  exact (hSafe.sound (holds_nonces s)).panic hPanic

theorem listingsBacked_dispatchAction (action : TransactionAction) (signer : Address)
    (t h : UInt64) {s : StateStore} (hs : ListingsBacked s) :
    ListingsBacked ((ex.dispatchAction sha256 action signer t h).run s).2 :=
  listingsBacked_run hs (fun _ => Or.inl) (dispatchAction_safe sha256 ex action signer t h)

/-- With backed listings a failed action leaves no trace. -/
theorem dispatchAction_err {action : TransactionAction} {t h : UInt64} {s : StateStore}
    (hs : ListingsBacked s) {e : ExecutionError}
    (hErr : ((ex.dispatchAction sha256 action signer t h).run s).1 = .err e) :
    ((ex.dispatchAction sha256 action signer t h).run s).2 = s :=
  (((dispatchAction_safe sha256 ex action signer t h).sound
    (holds_backed hs fun _ => Or.inl)).err e hErr (by simp)).2

/-! ## The fee stage -/

/-- Both accounts exist and the payer can afford the fee. -/
def CanPay (s : StateStore) (signer payer : Address) (fee : UInt64) : Prop :=
  (accountOf s signer).isSome = true ∧ ∃ p, accountOf s payer = some p ∧ fee ≤ p.balance

/-- An account after the fee was charged. -/
def charged (signer payer : Address) (fee : UInt64) (x : AccountState) : AccountState :=
  { x with
    balance := if x.address = payer then x.balance - fee else x.balance
    nonce := if x.address = signer then x.nonce + 1 else x.nonce }

theorem charged_of_ne (hSigner : x.address ≠ signer) (hPayer : x.address ≠ payer) :
    charged signer payer fee x = x := by
  simp [charged, hSigner, hPayer]

/-- The store after an account was credited. -/
def creditedStore (s : StateStore) (a : Address) (t amount : UInt64) : StateStore :=
  withAccount s (((accountOf s a).getD (AccountState.new a t)).credit amount)

theorem run_loadAccount_bind {β : Type} (f : AccountState → Handler β) (s : StateStore) :
    ((loadAccount a).bind f).run s =
      match accountOf s a with
      | some x => (f x).run s
      | none => (.err (.accountNotFound a.toHex), s) := by
  show ((Prog.require (accountOf s a) (.accountNotFound a.toHex)).bind f).run s = _
  cases accountOf s a <;> rfl

theorem run_debited_bind {β : Type} (x : AccountState) (amount : UInt64)
    (f : AccountState → Handler β) (s : StateStore) :
    ((debited x amount).bind f).run s =
      if x.balance < amount then (.err (.insufficientBalance amount x.balance), s)
      else (f { x with balance := x.balance - amount }).run s := by
  by_cases hLt : x.balance < amount
  · simp [debited, Prog.ensure, hLt]
  · have hSub : checkedSub x.balance amount = some (x.balance - amount) :=
      if_pos (UInt64.not_lt.mp hLt)
    simp [debited, Prog.ensure, Prog.require, hLt, hSub]

/-- Charging fails without a write unless the fee can be paid. -/
theorem chargeFee_err {s : StateStore} (h : ¬ CanPay s signer payer fee) :
    ∃ e, (chargeFee signer payer fee).run s = (.err e, s) := by
  unfold chargeFee
  rw [Prog.bind_eq, run_loadAccount_bind]
  cases hSigner : accountOf s signer with
  | none => exact ⟨_, rfl⟩
  | some x =>
      have hPayer : ∀ p, accountOf s payer = some p → p.balance < fee := by
        intro p hp
        rw [← UInt64.not_le]
        intro hLe
        exact h ⟨by rw [hSigner]; rfl, p, hp, hLe⟩
      by_cases hEq : payer = signer
      · subst hEq
        simp only [if_pos, Prog.bind_eq, run_debited_bind, if_pos (hPayer x hSigner)]
        exact ⟨_, rfl⟩
      · simp only [if_neg hEq, Prog.bind_eq, run_loadAccount_bind]
        cases hp : accountOf s payer with
        | none => exact ⟨_, rfl⟩
        | some p =>
            simp only [run_debited_bind, if_pos (hPayer p hp)]
            exact ⟨_, rfl⟩

/-- Charging a fee that can be paid changes the two accounts and nothing else. -/
theorem chargeFee_ok {s : StateStore} (h : CanPay s signer payer fee) :
    ∃ changes s', (chargeFee signer payer fee).run s = (.ok changes, s') ∧
      (∀ a, accountOf s' a = (accountOf s a).map (charged signer payer fee)) ∧
      ∀ k, (∀ a, k ≠ Key.account a) → s'.get? k = s.get? k := by
  obtain ⟨hSigner, p, hp, hLe⟩ := h
  obtain ⟨x, hx⟩ := Option.isSome_iff_exists.mp hSigner
  have hxa := address_of_accountOf hx
  have hpa := address_of_accountOf hp
  have hEnough : ¬ p.balance < fee := UInt64.not_lt.mpr hLe
  unfold chargeFee
  rw [Prog.bind_eq, run_loadAccount_bind, hx]
  by_cases hEq : payer = signer
  · subst hEq
    obtain rfl : x = p := Option.some.inj (hx.symm.trans hp)
    simp only [if_pos, Prog.bind_eq, run_debited_bind, if_neg hEnough]
    refine ⟨_, withAccount s (AccountState.incrementNonce { x with balance := x.balance - fee }),
      rfl, ?_, fun k hk => get?_withAccount hk⟩
    intro a
    rw [accountOf_withAccount (a := payer) s (by exact hxa)]
    by_cases ha : a = payer
    · rw [if_pos ha, ha, hx]
      simp [charged, hxa, AccountState.incrementNonce]
    · rw [if_neg ha]
      cases hAcc : accountOf s a with
      | none => rfl
      | some y =>
          have hne : y.address ≠ payer := by rw [address_of_accountOf hAcc]; exact ha
          rw [Option.map_some, charged_of_ne hne hne]
  · simp only [if_neg hEq, Prog.bind_eq, run_loadAccount_bind, hp, run_debited_bind,
      if_neg hEnough]
    refine ⟨_, withAccount (withAccount s { p with balance := p.balance - fee })
      x.incrementNonce, rfl, ?_,
      fun k hk => (get?_withAccount hk).trans (get?_withAccount hk)⟩
    intro a
    rw [accountOf_withAccount (a := signer) _ (by exact hxa),
      accountOf_withAccount (a := payer) s (by exact hpa)]
    by_cases ha : a = signer
    · rw [if_pos ha, ha, hx]
      simp [charged, hxa, Ne.symm hEq, AccountState.incrementNonce]
    · rw [if_neg ha]
      by_cases hap : a = payer
      · rw [if_pos hap, hap, hp]
        simp [charged, hpa, hEq]
      · rw [if_neg hap]
        cases hAcc : accountOf s a with
        | none => rfl
        | some y =>
            have hya := address_of_accountOf hAcc
            rw [Option.map_some, charged_of_ne (by rwa [hya]) (by rwa [hya])]

theorem distributeFee_safe {B : Prop} {N : Address → UInt64} {C : Hash → Prop} (fee : UInt64)
    (proposer : Address) :
    (ex.distributeFee fee proposer).Safe (Frame B N C C) False False false := by
  simp [distributeFee, getSupplyInfo, setSupplyInfo, storeGet, storePut, Frame]

/-- The store after a collected fee was split. -/
def distributed (fee : UInt64) (proposer : Address) (s : StateStore) : StateStore :=
  let fd := ex.chainConfig.feeDistribution
  let burnAmount := share fee fd.burnBps
  let treasuryAmount := share fee fd.treasuryBps
  let validatorAmount := saturatingSub (saturatingSub fee burnAmount) treasuryAmount
  let s := if 0 < treasuryAmount then
    creditedStore s (parseTreasuryAddress ex.chainConfig.treasuryAddress) 0 treasuryAmount else s
  let s := if 0 < validatorAmount then creditedStore s proposer 0 validatorAmount else s
  let supply := ((s.get? .supplyInfo).map (·.val)).getD SupplyInfo.default
  s.insert .supplyInfo ⟨supplyAfterFee supply fee burnAmount treasuryAmount, trivial⟩

theorem run_distributeFee (fee : UInt64) (proposer : Address) (s : StateStore) :
    (ex.distributeFee fee proposer).run s = (.ok (), ex.distributed fee proposer s) := by
  unfold distributeFee distributed Prog.when
  by_cases hTreasury : 0 < share fee ex.chainConfig.feeDistribution.treasuryBps <;>
    by_cases hValidator : 0 < saturatingSub
      (saturatingSub fee (share fee ex.chainConfig.feeDistribution.burnBps))
      (share fee ex.chainConfig.feeDistribution.treasuryBps) <;>
    simp only [hTreasury, hValidator, if_true, if_false] <;> rfl

/-! ## Collecting the fee -/

/-- The transaction pays its fee: it offers enough and the payer has it. -/
def Charges (tx : SignedTransaction) (s : StateStore) : Prop :=
  ¬ tx.transaction.maxFee < ex.actualFee tx.transaction ∧
    CanPay s tx.signer (feePayer tx) (ex.actualFee tx.transaction)

/-- The part of a fee the proposer receives. -/
def validatorShare (fee : UInt64) : UInt64 :=
  saturatingSub (saturatingSub fee (share fee ex.chainConfig.feeDistribution.burnBps))
    (share fee ex.chainConfig.feeDistribution.treasuryBps)

/-- What the fee stage makes of the balance of an account: the payer pays the fee,
then the treasury and the proposer receive their shares. -/
def settledBalance (tx : SignedTransaction) (proposer a : Address) (balance : UInt64) : UInt64 :=
  let fee := ex.actualFee tx.transaction
  let paid := if a = feePayer tx then balance - fee else balance
  let treasured := if a = parseTreasuryAddress ex.chainConfig.treasuryAddress then
    saturatingAdd paid (share fee ex.chainConfig.feeDistribution.treasuryBps) else paid
  if a = proposer then saturatingAdd treasured (ex.validatorShare fee) else treasured

/-- What the fee stage does to a store when it succeeds. -/
structure Collected (tx : SignedTransaction) (proposer : Address) (s s' : StateStore) : Prop where
  nonce : nonceOf s' = Function.update (nonceOf s) tx.signer (nonceOf s tx.signer + 1)
  balance : ∀ a x, accountOf s a = some x →
    ∃ y, accountOf s' a = some y ∧ y.balance = ex.settledBalance tx proposer a x.balance
  other : ∀ k, (∀ a, k ≠ Key.account a) → k ≠ .supplyInfo → s'.get? k = s.get? k

theorem accountOf_creditedStore (s : StateStore) (a : Address) (t amount : UInt64)
    (b : Address) :
    accountOf (creditedStore s a t amount) b =
      if b = a then some (((accountOf s a).getD (AccountState.new a t)).credit amount)
      else accountOf s b := by
  unfold creditedStore
  rw [accountOf_withAccount (a := a)]
  show AccountState.address ((accountOf s a).getD (AccountState.new a t)) = a
  cases hAcc : accountOf s a with
  | none => rfl
  | some x => exact address_of_accountOf hAcc

/-- Crediting an amount, if it is positive, to one of the accounts of a store. -/
theorem balance_creditedStore {s : StateStore} {b : Address} (h : accountOf s b = some x)
    (a : Address) (amount : UInt64) :
    ∃ y, accountOf (if 0 < amount then creditedStore s a 0 amount else s) b = some y ∧
      y.balance = if b = a then saturatingAdd x.balance amount else x.balance := by
  by_cases hPos : 0 < amount
  · rw [if_pos hPos, accountOf_creditedStore]
    by_cases hEq : b = a
    · subst hEq
      rw [if_pos rfl, if_pos rfl, h]
      exact ⟨_, rfl, rfl⟩
    · rw [if_neg hEq, if_neg hEq]
      exact ⟨x, h, rfl⟩
  · rw [if_neg hPos, eq_zero_of_not_pos hPos, saturatingAdd_zero, ite_self]
    exact ⟨x, h, rfl⟩

theorem balance_distributed {s : StateStore} {b : Address} (h : accountOf s b = some x)
    (fee : UInt64) (proposer : Address) :
    ∃ y, accountOf (ex.distributed fee proposer s) b = some y ∧
      y.balance =
        (let treasured := if b = parseTreasuryAddress ex.chainConfig.treasuryAddress then
          saturatingAdd x.balance (share fee ex.chainConfig.feeDistribution.treasuryBps)
          else x.balance
        if b = proposer then saturatingAdd treasured (ex.validatorShare fee) else treasured) := by
  obtain ⟨y, hy, hTreasury⟩ := balance_creditedStore h
    (parseTreasuryAddress ex.chainConfig.treasuryAddress)
    (share fee ex.chainConfig.feeDistribution.treasuryBps)
  obtain ⟨z, hz, hProposer⟩ := balance_creditedStore hy proposer (ex.validatorShare fee)
  refine ⟨z, ?_, ?_⟩
  · unfold distributed accountOf
    rw [Store.get?_insert_ne (by simp)]
    exact hz
  · rw [hProposer, hTreasury]

theorem share_zero (bps : UInt16) : share 0 bps = 0 := by
  simp [share]

theorem get?_distributed {proposer : Address} {s : StateStore} {k : Key}
    (hAccount : ∀ a, k ≠ Key.account a) (hSupply : k ≠ .supplyInfo) :
    (ex.distributed fee proposer s).get? k = s.get? k := by
  unfold distributed creditedStore
  rw [Store.get?_insert_ne (Ne.symm hSupply)]
  split <;> split <;> simp only [get?_withAccount hAccount]

theorem nonceOf_charged {s s' : StateStore} (hSigner : (accountOf s signer).isSome = true)
    (h : ∀ a, accountOf s' a = (accountOf s a).map (charged signer payer fee)) :
    nonceOf s' = Function.update (nonceOf s) signer (nonceOf s signer + 1) := by
  funext a
  rw [nonceOf, h a]
  by_cases ha : a = signer
  · subst ha
    obtain ⟨x, hx⟩ := Option.isSome_iff_exists.mp hSigner
    rw [Function.update_self, nonceOf, hx]
    simp [charged, address_of_accountOf hx]
  · rw [Function.update_of_ne ha, nonceOf]
    cases hx : accountOf s a with
    | none => rfl
    | some x => simp [charged, address_of_accountOf hx, ha]

theorem collectFee_err {s : StateStore} (h : ¬ ex.Charges tx s) :
    ∃ e, (ex.collectFee tx proposer).run s = (.err e, s) := by
  unfold collectFee
  by_cases hFee : tx.transaction.maxFee < ex.actualFee tx.transaction
  · simp only [hFee, Prog.ensure, not_true, if_false]
    exact ⟨_, rfl⟩
  · simp only [hFee, Prog.ensure, not_false_eq_true, if_true]
    obtain ⟨e, he⟩ := chargeFee_err fun hPay => h ⟨hFee, hPay⟩
    refine ⟨e, ?_⟩
    show ((chargeFee _ _ _).bind _).run s = _
    rw [Prog.run_bind, he]
    rfl

/-- The fee stage charges the fee and distributes it, if there is one. -/
theorem collectFee_run {s : StateStore} (h : ex.Charges tx s) :
    ∃ changes s', (ex.collectFee tx proposer).run s =
        (.ok changes, if 0 < ex.actualFee tx.transaction then
          ex.distributed (ex.actualFee tx.transaction) proposer s' else s') ∧
      (∀ a, accountOf s' a = (accountOf s a).map
        (charged tx.signer (feePayer tx) (ex.actualFee tx.transaction))) ∧
      ∀ k, (∀ a, k ≠ Key.account a) → s'.get? k = s.get? k := by
  obtain ⟨hFee, hPay⟩ := h
  obtain ⟨changes, s', hRun, hAccounts, hOther⟩ := chargeFee_ok hPay
  refine ⟨changes, s', ?_, hAccounts, hOther⟩
  unfold collectFee
  simp only [hFee, Prog.ensure, not_false_eq_true, if_true]
  show ((chargeFee _ _ _).bind _).run s = _
  rw [Prog.run_bind, hRun]
  show ((Prog.when _ _).bind _).run s' = _
  by_cases hPos : 0 < ex.actualFee tx.transaction
  · rw [Prog.when, if_pos hPos, if_pos hPos, Prog.run_bind, run_distributeFee]
    rfl
  · rw [Prog.when, if_neg hPos, if_neg hPos]
    rfl

theorem collectFee_ok {s : StateStore} (h : ex.Charges tx s) :
    ∃ changes s', (ex.collectFee tx proposer).run s = (.ok changes, s') ∧
      ex.Collected tx proposer s s' := by
  obtain ⟨changes, s', hRun, hAccounts, hOther⟩ := ex.collectFee_run proposer h
  have hNonce := nonceOf_charged h.2.1 hAccounts
  have hPaid : ∀ a x, accountOf s a = some x → ∃ y, accountOf s' a = some y ∧ y.balance =
      if a = feePayer tx then x.balance - ex.actualFee tx.transaction else x.balance := by
    intro a x hx
    rw [hAccounts a, hx]
    refine ⟨_, rfl, ?_⟩
    show (if x.address = feePayer tx then _ else _) = _
    rw [address_of_accountOf hx]
  refine ⟨changes, _, hRun, ?_⟩
  by_cases hPos : 0 < ex.actualFee tx.transaction
  · rw [if_pos hPos]
    refine ⟨?_, ?_, ?_⟩
    · have hKeep := nonceOf_run (ex.distributeFee_safe (ex.actualFee tx.transaction) proposer)
        (s := s')
      rw [run_distributeFee] at hKeep
      rw [hKeep, hNonce]
    · intro a x hx
      obtain ⟨y, hy, hyb⟩ := hPaid a x hx
      obtain ⟨z, hz, hzb⟩ := ex.balance_distributed hy (ex.actualFee tx.transaction) proposer
      exact ⟨z, hz, by rw [hzb, hyb]; rfl⟩
    · intro k hk hSupply
      rw [ex.get?_distributed hk hSupply, hOther k hk]
  · rw [if_neg hPos]
    refine ⟨hNonce, fun a x hx => ?_, fun k hk _ => hOther k hk⟩
    obtain ⟨y, hy, hyb⟩ := hPaid a x hx
    refine ⟨y, hy, ?_⟩
    rw [hyb, settledBalance, eq_zero_of_not_pos hPos, validatorShare, share_zero, share_zero]
    simp [saturatingSub, saturatingAdd_zero]

/-! ## Transactions -/

theorem spendSession_safe {B : Prop} {N : Address → UInt64} {C : Hash → Prop}
    (signer : Address) (session : Option Address) (fee : UInt64) :
    (spendSession signer session fee).Safe (Frame B N C C) False False false := by
  cases session with
  | none => trivial
  | some a =>
      intro r _
      cases r with
      | none => trivial
      | some grant => exact ⟨trivial, trivial⟩

theorem spendSession_ok (signer : Address) (session : Option Address) (fee : UInt64)
    (s : StateStore) :
    ∃ changes s', (spendSession signer session fee).run s = (.ok changes, s') := by
  cases session with
  | none => exact ⟨_, _, rfl⟩
  | some a =>
      show ∃ changes s', (spendGrant signer a fee ((s.get? (.session signer a)).map (·.val))).run s
        = (.ok changes, s')
      cases s.get? (.session signer a) with
      | none => exact ⟨_, _, rfl⟩
      | some grant => exact ⟨_, _, rfl⟩

/-- The action of a transaction, as it is dispatched at a height. -/
def action (tx : SignedTransaction) (height : UInt64) : Handler (List Event × List StateChange) :=
  ex.dispatchAction sha256 tx.transaction.action tx.signer tx.transaction.timestamp height

/-- The four ways a transaction can go. -/
inductive TxRun (tx : SignedTransaction) (height : UInt64) (proposer : Address)
    (s : StateStore) : Outcome ExecutionError ExecutionResult × StateStore → Prop
  | rejected (e : ExecutionError) (hCharges : ¬ ex.Charges tx s) :
      TxRun tx height proposer s (.err e, s)
  | failed (fees : List StateChange) (s₁ : StateStore) (e : ExecutionError) (s₂ : StateStore)
      (hCharges : ex.Charges tx s)
      (hFee : (ex.collectFee tx proposer).run s = (.ok fees, s₁))
      (hCollected : ex.Collected tx proposer s s₁)
      (hAction : (ex.action sha256 tx height).run s₁ = (.err e, s₂)) :
      TxRun tx height proposer s
        (.ok ⟨TransactionReceipt.failure tx.txHash height (ex.actualFee tx.transaction)
          (ex.estimateGas tx.transaction) (feePayer tx) e.text, fees⟩, s₂)
  | panicked (fees : List StateChange) (s₁ s₂ : StateStore)
      (hCharges : ex.Charges tx s)
      (hFee : (ex.collectFee tx proposer).run s = (.ok fees, s₁))
      (hCollected : ex.Collected tx proposer s s₁)
      (hAction : (ex.action sha256 tx height).run s₁ = (.panic, s₂)) :
      TxRun tx height proposer s (.panic, s₂)
  | succeeded (fees : List StateChange) (s₁ s₂ s₃ : StateStore) (events : List Event)
      (changes spent : List StateChange)
      (hCharges : ex.Charges tx s)
      (hFee : (ex.collectFee tx proposer).run s = (.ok fees, s₁))
      (hCollected : ex.Collected tx proposer s s₁)
      (hAction : (ex.action sha256 tx height).run s₁ = (.ok (events, changes), s₂))
      (hSession : (spendSession tx.signer tx.transaction.session
        (ex.actualFee tx.transaction)).run s₂ = (.ok spent, s₃)) :
      TxRun tx height proposer s
        (.ok ⟨TransactionReceipt.succeeded tx.txHash height (ex.actualFee tx.transaction)
          (ex.estimateGas tx.transaction) (feePayer tx)
          (events ++ sponsorEvents tx (ex.actualFee tx.transaction)),
          fees ++ changes ++ spent⟩, s₃)

theorem executeTransaction_run (tx : SignedTransaction) (height : UInt64) (proposer : Address)
    (s : StateStore) :
    TxRun sha256 ex tx height proposer s
      ((ex.executeTransaction sha256 tx height proposer).run s) := by
  unfold executeTransaction
  rw [Prog.bind_eq, Prog.run_bind]
  by_cases hCharges : ex.Charges tx s
  · obtain ⟨fees, s₁, hFee, hCollected⟩ := ex.collectFee_ok proposer hCharges
    rw [hFee]
    show TxRun sha256 ex tx height proposer s (((ex.action sha256 tx height).attempt.bind _).run s₁)
    rw [Prog.run_bind, Prog.run_attempt]
    cases hAction : (ex.action sha256 tx height).run s₁ with
    | mk outcome s₂ =>
        cases outcome with
        | ok result =>
            obtain ⟨events, changes⟩ := result
            obtain ⟨spent, s₃, hSession⟩ := spendSession_ok tx.signer tx.transaction.session
              (ex.actualFee tx.transaction) s₂
            show TxRun sha256 ex tx height proposer s (((spendSession _ _ _).bind _).run s₂)
            rw [Prog.run_bind, hSession]
            exact .succeeded fees s₁ s₂ s₃ events changes spent hCharges hFee hCollected hAction
              hSession
        | err e => exact .failed fees s₁ e s₂ hCharges hFee hCollected hAction
        | panic => exact .panicked fees s₁ s₂ hCharges hFee hCollected hAction
  · obtain ⟨e, he⟩ := ex.collectFee_err proposer hCharges
    rw [he]
    exact .rejected e hCharges

end Executor

end Polay.Execution
