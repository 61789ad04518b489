import Polay.Execution.Receipts
import Polay.Execution.Records
import Polay.Execution.Validation

/-!
# Stateful validation

The checks of a transaction against a store: the account and nonce of the signer, the
balance of whoever pays, and the grant of the session key that signed. They look at the
maximal fee and at the amount of a transfer or of a delegation; the executor then charges
another fee, splits it, and only then runs the action. A transaction that passes is charged
all the same, and nothing but a panic of its handler keeps it from its receipt.
-/

namespace Polay.Execution

open Lib Lib.Machine Lib.Bytes Polay.Types State Crypto
open Execution.Executor (feePayer)

namespace Validation

/-- The account has what is required. -/
def checkBalance (account : AccountState) (required : UInt64) : Handler Unit :=
  Prog.ensure (¬ account.balance < required) (.insufficientBalance required account.balance)

/-- The account covers what an action moves, with what is `required` for it. Validation looks
at the amounts of two actions only. -/
def checkAmount (account : AccountState) (required : UInt64 → UInt64) :
    TransactionAction → Handler Unit
  | .transfer _ amount => checkBalance account (required amount)
  | .delegateStake _ amount => checkBalance account (required amount)
  | _ => return ()

/-- What a sponsored transaction needs: the sponsor covers the fee, the signer the amount. -/
def validateSponsored (tx : Transaction) (account : AccountState) (sponsor : Address) :
    Handler Unit := do
  let sponsorAccount ← getAccount sponsor
  let sponsorAccount ← Prog.require sponsorAccount (.sponsorAccountNotFound sponsor.toHex)
  checkBalance sponsorAccount tx.maxFee
  checkAmount account (fun amount => amount) tx.action

/-- What a transaction without a sponsor needs: the signer covers the fee and the amount. -/
def validateSelfPaid (tx : Transaction) (account : AccountState) : Handler Unit := do
  checkBalance account tx.maxFee
  checkAmount account (fun amount => saturatingAdd amount tx.maxFee) tx.action

/-- What a session key needs: a grant that is live, permits the action and covers the fee. -/
def validateSession (tx : Transaction) (sessionAddr : Address) (currentHeight : UInt64) :
    Handler Unit := do
  let height ← if 0 < currentHeight then Prog.pure currentHeight else getChainHeight
  let grant ← getSession tx.signer sessionAddr
  let grant ← Prog.require grant .sessionNotFound
  Prog.ensure (¬ grant.revoked) .sessionRevoked
  Prog.ensure (grant.isValid height) .sessionExpired
  Prog.ensure (grant.isActionPermitted tx.action.label) .sessionActionNotPermitted
  Prog.ensure (grant.canSpend tx.maxFee) .sessionSpendingLimitExceeded

def validateStatefulAtHeight (tx : SignedTransaction) (currentHeight : UInt64) :
    Handler Unit := do
  let account ← loadAccount tx.signer
  Prog.ensure (account.nonce = tx.transaction.nonce)
    (.invalidNonce account.nonce tx.transaction.nonce)
  match tx.transaction.sponsor with
  | some sponsor => validateSponsored tx.transaction account sponsor
  | none => validateSelfPaid tx.transaction account
  match tx.transaction.session with
  | some sessionAddr => validateSession tx.transaction sessionAddr currentHeight
  | none => return ()

/-! ## What the checks establish -/

/-- The grant of an account to a session key. -/
def grantOf (s : StateStore) (granter session : Address) : Option SessionGrant :=
  (s.get? (.session granter session)).map (·.val)

/-- The height the chain records. -/
def chainHeightOf (s : StateStore) : UInt64 := ((s.get? .chainHeight).map (·.val)).getD (0 : UInt64)

/-- What an action moves, as far as validation looks at it. -/
def amountOf : TransactionAction → Option UInt64
  | .transfer _ amount => some amount
  | .delegateStake _ amount => some amount
  | _ => none

/-- The balances cover the maximal fee and the amount of the action. -/
def Funded (tx : Transaction) (account : AccountState) (s : StateStore) : Prop :=
  match tx.sponsor with
  | some sponsor =>
      ∃ y, accountOf s sponsor = some y ∧ tx.maxFee ≤ y.balance ∧
        ∀ n, amountOf tx.action = some n → n ≤ account.balance
  | none =>
      tx.maxFee ≤ account.balance ∧
        ∀ n, amountOf tx.action = some n → saturatingAdd n tx.maxFee ≤ account.balance

/-- The session key that signed has a grant that is live, permits the action and covers
the maximal fee. -/
def SessionLive (tx : Transaction) (currentHeight : UInt64) (s : StateStore) : Prop :=
  ∀ a, tx.session = some a → ∃ g, grantOf s tx.signer a = some g ∧ g.revoked = false ∧
    g.isValid (if 0 < currentHeight then currentHeight else chainHeightOf s) ∧
    g.isActionPermitted tx.action.label ∧ g.canSpend tx.maxFee

/-- The program returns without an error. -/
def Passes (p : Handler Unit) (s : StateStore) : Prop := (p.run s).1 = .ok ()

section Spec

variable {s : StateStore} {tx : Transaction} {x : AccountState} {f : Unit → Handler Unit}
variable {a : Address} {e : ExecutionError}

@[simp] theorem passes_pure : Passes (.pure ()) s ↔ True := iff_true_intro rfl

@[simp] theorem passes_ensure {c : Prop} [Decidable c] : Passes (Prog.ensure c e) s ↔ c := by
  unfold Prog.ensure
  split <;> simp_all [Passes]

@[simp] theorem passes_ensure_bind {c : Prop} [Decidable c] :
    Passes ((Prog.ensure c e).bind f) s ↔ c ∧ Passes (f ()) s := by
  unfold Prog.ensure
  split <;> simp_all [Passes]

@[simp] theorem passes_require_bind {α : Type} {r : Option α} {f : α → Handler Unit} :
    Passes ((Prog.require r e).bind f) s ↔ ∃ a, r = some a ∧ Passes (f a) s := by
  cases r <;> simp [Prog.require, Passes]

@[simp] theorem passes_getAccount_bind {f : Option AccountState → Handler Unit} :
    Passes ((getAccount a).bind f) s ↔ Passes (f (accountOf s a)) s := Iff.rfl

@[simp] theorem passes_getChainHeight_bind {f : UInt64 → Handler Unit} :
    Passes (getChainHeight.bind f) s ↔ Passes (f (chainHeightOf s)) s := Iff.rfl

@[simp] theorem passes_getSession_bind {g : Address} {f : Option SessionGrant → Handler Unit} :
    Passes ((getSession g a).bind f) s ↔ Passes (f (grantOf s g a)) s := Iff.rfl

@[simp] theorem passes_loadAccount_bind {f : AccountState → Handler Unit} :
    Passes ((loadAccount a).bind f) s ↔ ∃ x, accountOf s a = some x ∧ Passes (f x) s := by
  simp [loadAccount]

@[simp] theorem passes_checkBalance_bind {n : UInt64} :
    Passes ((checkBalance x n).bind f) s ↔ n ≤ x.balance ∧ Passes (f ()) s := by
  simp [checkBalance]

@[simp] theorem passes_checkAmount_bind {required : UInt64 → UInt64} {action : TransactionAction} :
    Passes ((checkAmount x required action).bind f) s ↔
      (∀ n, amountOf action = some n → required n ≤ x.balance) ∧ Passes (f ()) s := by
  cases action <;> simp [checkAmount, amountOf]

theorem passes_validateSession {currentHeight : UInt64} :
    Passes (validateSession tx a currentHeight) s ↔
      ∃ g, grantOf s tx.signer a = some g ∧ g.revoked = false ∧
        g.isValid (if 0 < currentHeight then currentHeight else chainHeightOf s) ∧
        g.isActionPermitted tx.action.label ∧ g.canSpend tx.maxFee := by
  unfold validateSession
  by_cases hHeight : 0 < currentHeight <;> simp [hHeight]

/-- Stateful validation passes exactly if the signer's account has the nonce, the balances
cover what is checked, and a session key has a live grant. -/
theorem passes_validateStateful {tx : SignedTransaction} {currentHeight : UInt64} :
    Passes (validateStatefulAtHeight tx currentHeight) s ↔
      ∃ x, accountOf s tx.signer = some x ∧ x.nonce = tx.transaction.nonce ∧
        Funded tx.transaction x s ∧ SessionLive tx.transaction currentHeight s := by
  have hSession : Passes (match tx.transaction.session with
      | some sessionAddr => validateSession tx.transaction sessionAddr currentHeight
      | none => Prog.pure ()) s ↔ SessionLive tx.transaction currentHeight s := by
    unfold SessionLive
    cases tx.transaction.session with
    | none => simp
    | some a => simpa using passes_validateSession
  unfold validateStatefulAtHeight Funded
  simp only [Prog.bind_eq, passes_loadAccount_bind, passes_ensure_bind]
  cases tx.transaction.sponsor with
  | none => simp [validateSelfPaid, hSession, and_assoc]
  | some sponsor => simp [validateSponsored, hSession, and_assoc, ← exists_and_right]

end Spec

end Validation

/-! ## Validated transactions -/

section Validated

open Validation

variable {crypto : Primitives} {chainId : String} {currentHeight height : UInt64} {ex : Executor}
  {tx : SignedTransaction} {proposer : Address} {s : StateStore}

/-- A transaction that both validations accept, with a maximal fee that covers the fee of the
executor, on a store without extreme balances. -/
structure Validated (crypto : Primitives) (chainId : String) (currentHeight : UInt64)
    (ex : Executor) (tx : SignedTransaction) (s : StateStore) : Prop where
  balances : ∀ a x, accountOf s a = some x → x.balance < u64Max
  stateless : validateStateless crypto tx chainId = .ok ()
  stateful : Passes (validateStatefulAtHeight tx currentHeight) s
  maxFee : ex.actualFee tx.transaction ≤ tx.transaction.maxFee

/-- A transfer, or a delegation to an active validator. -/
def Direct (tx : SignedTransaction) (s : StateStore) : Prop :=
  match tx.transaction.action with
  | .transfer .. => True
  | .delegateStake v _ => ∃ r, s.get? (.validator v) = some r ∧ ValidatorInfo.isActive r.val = true
  | _ => False

/-- The transaction gets a receipt that charges its fee, and a transfer or a delegation to an
active validator succeeds. -/
def GoesThrough (sha256 : List UInt8 → Hash) (ex : Executor) (tx : SignedTransaction)
    (height : UInt64) (proposer : Address) (s : StateStore) : Prop :=
  ∃ result, ((ex.executeTransaction sha256 tx height proposer).run s).1 = .ok result ∧
    result.receipt.feeUsed = ex.actualFee tx.transaction ∧
    (Direct tx s → result.receipt.success = true)

/-- The handler of the action panics: a delegation to an active validator without an epoch
length, a report without rankings, or a claim of a prize without an entry. -/
def Trips (config : ChainConfig) (tx : SignedTransaction) (s : StateStore) : Prop :=
  match tx.transaction.action with
  | .delegateStake v _ =>
      config.epochLength = 0 ∧
        ∃ r, s.get? (.validator v) = some r ∧ ValidatorInfo.isActive r.val = true
  | .reportTournamentResults id rankings => Executor.ReportPanics s tx.signer id rankings
  | .claimTournamentPrize id => Executor.ClaimPanics s tx.signer id
  | _ => False

/-- The fee stage takes no more than the fee from an account. -/
theorem le_settledBalance {a : Address} {balance : UInt64} :
    balance.toNat ≤ (ex.settledBalance tx proposer a balance).toNat +
      if a = feePayer tx then (ex.actualFee tx.transaction).toNat else 0 := by
  have hLt := balance.toNat_lt
  have hFee := (ex.actualFee tx.transaction).toNat_lt
  have hPaid : balance.toNat ≤ (if a = feePayer tx then balance - ex.actualFee tx.transaction
      else balance).toNat + if a = feePayer tx then (ex.actualFee tx.transaction).toNat else 0 := by
    split
    · rw [UInt64.toNat_sub]
      omega
    · omega
  have hGrows : ∀ (c : Prop) [Decidable c] (b d : UInt64),
      b.toNat ≤ (if c then saturatingAdd b d else b).toNat := by
    intro c _ b d
    have hb := b.toNat_lt
    split
    · rw [toNat_saturatingAdd]
      omega
    · exact Nat.le_refl _
  exact hPaid.trans (Nat.add_le_add_right ((hGrows _ _ _).trans (hGrows _ _ _)) _)

theorem sponsor_ne_signer (h : validateStateless crypto tx chainId = .ok ()) {a : Address}
    (hSponsor : tx.transaction.sponsor = some a) : a ≠ tx.signer := by
  simp only [validateStateless, validateStatelessWithConfig, Check.all, Check.and_eq_ok,
    Check.ensure_eq_ok] at h
  have hCheck := h.2.2.2.1
  rw [validateSponsor, hSponsor, Check.and_eq_ok] at hCheck
  exact Check.ensure_eq_ok.mp hCheck.2

theorem Validated.charges (h : Validated crypto chainId currentHeight ex tx s) :
    ex.Charges tx s := by
  obtain ⟨x, hx, _, hFunded, _⟩ := passes_validateStateful.mp h.stateful
  refine ⟨UInt64.not_lt.mpr h.maxFee, by rw [hx]; rfl, ?_⟩
  unfold Funded at hFunded
  unfold feePayer
  cases hSponsor : tx.transaction.sponsor with
  | none =>
      rw [hSponsor] at hFunded
      exact ⟨x, hx, UInt64.le_trans h.maxFee hFunded.1⟩
  | some a =>
      rw [hSponsor] at hFunded
      obtain ⟨y, hy, hLe, _⟩ := hFunded
      exact ⟨y, hy, UInt64.le_trans h.maxFee hLe⟩

/-- What a transfer or a delegation moves is there after the fee stage. -/
theorem Validated.amount_le (h : Validated crypto chainId currentHeight ex tx s) {n : UInt64}
    (hAmount : amountOf tx.transaction.action = some n) {x : AccountState}
    (hx : accountOf s tx.signer = some x) :
    n ≤ ex.settledBalance tx proposer tx.signer x.balance := by
  obtain ⟨x', hx', _, hFunded, _⟩ := passes_validateStateful.mp h.stateful
  obtain rfl : x = x' := Option.some.inj (hx.symm.trans hx')
  have hSettled : x.balance.toNat ≤
      (ex.settledBalance tx proposer tx.signer x.balance).toNat +
        if tx.signer = feePayer tx then (ex.actualFee tx.transaction).toNat else 0 :=
    le_settledBalance
  have hFee := UInt64.le_iff_toNat_le.mp h.maxFee
  rw [UInt64.le_iff_toNat_le]
  unfold Funded at hFunded
  cases hSponsor : tx.transaction.sponsor with
  | none =>
      rw [hSponsor] at hFunded
      have hPayer : tx.signer = feePayer tx := by rw [feePayer, hSponsor]; rfl
      have hLe := UInt64.le_iff_toNat_le.mp (hFunded.2 n hAmount)
      -- The sum of the check is not cut off: no balance reaches the last word.
      have hRoom := UInt64.lt_iff_toNat_lt.mp (h.balances _ x hx)
      rw [toNat_saturatingAdd] at hLe
      rw [if_pos hPayer] at hSettled
      have hMax : u64Max.toNat = 2 ^ 64 - 1 := rfl
      omega
  | some a =>
      rw [hSponsor] at hFunded
      obtain ⟨_, _, _, hCovers⟩ := hFunded
      have hPayer : tx.signer ≠ feePayer tx := by
        rw [feePayer, hSponsor]
        exact (sponsor_ne_signer h.stateless hSponsor).symm
      have hLe := UInt64.le_iff_toNat_le.mp (hCovers n hAmount)
      rw [if_neg hPayer] at hSettled
      omega

/-- Of a validated transaction the balance never decides whether its handler panics. -/
theorem Validated.panics_iff (h : Validated crypto chainId currentHeight ex tx s) :
    ex.Panics tx proposer s ↔ Trips ex.chainConfig tx s := by
  obtain ⟨x, hx, _⟩ := passes_validateStateful.mp h.stateful
  unfold Executor.Panics Trips
  rw [hx]
  cases hAction : tx.transaction.action
  case delegateStake v n =>
    have hLe : n ≤ ex.settledBalance tx proposer tx.signer x.balance :=
      h.amount_le (by rw [hAction]; rfl) hx
    simp [Executor.ActionPanics, Executor.DelegatePanics, hLe]
  all_goals rfl

/-- A transfer or a delegation to an active validator succeeds after the fee stage. -/
theorem Validated.direct_ok (h : Validated crypto chainId currentHeight ex tx s)
    {t : StateStore} (hCollected : ex.Collected tx proposer s t) (hDirect : Direct tx s)
    (hTrips : ¬ Trips ex.chainConfig tx s) (sha256 : List UInt8 → Hash) :
    ∃ r, ((ex.action sha256 tx height).run t).1 = .ok r := by
  obtain ⟨x, hx, _⟩ := passes_validateStateful.mp h.stateful
  obtain ⟨y, hy, hBalance⟩ := hCollected.balance _ x hx
  have hAmount : ∀ n, amountOf tx.transaction.action = some n → n ≤ y.balance :=
    fun n hn => hBalance ▸ h.amount_le hn hx
  unfold Direct at hDirect
  unfold Trips at hTrips
  show (ex.action sha256 tx height).Wp (fun o _ => ∃ r, o = .ok r) t
  unfold Executor.action
  cases hAction : tx.transaction.action
  case transfer toAddr n =>
    have hLe : n ≤ y.balance := hAmount n (by rw [hAction]; rfl)
    simp [Executor.dispatchAction, Transfer.executeTransfer, hy, hLe]
  case delegateStake v n =>
    rw [hAction] at hDirect hTrips
    have hLe : n ≤ y.balance := hAmount n (by rw [hAction]; rfl)
    obtain ⟨r, hr, hActive⟩ := hDirect
    have hEpoch : ex.chainConfig.epochLength ≠ 0 := fun hZero => hTrips ⟨hZero, r, hr, hActive⟩
    have hValidator : t.get? (.validator v) = some r := by
      rw [hCollected.other _ (by simp) (by simp), hr]
    simp [Executor.dispatchAction, Staking.executeDelegateStake, getValidator, storeGet, hValidator,
      hActive, hy, hLe, setValidator, storePut, hEpoch, getDelegation, setDelegation]
  all_goals
    rw [hAction] at hDirect
    exact hDirect.elim

/-- **Validated transactions do not bounce** unless their handler panics. -/
theorem Validated.goesThrough_iff (h : Validated crypto chainId currentHeight ex tx s) :
    GoesThrough crypto.sha256 ex tx height proposer s ↔ ¬ Trips ex.chainConfig tx s := by
  have hTx := ex.executeTransaction_run crypto.sha256 tx height proposer s
  unfold GoesThrough
  generalize (ex.executeTransaction crypto.sha256 tx height proposer).run s = run at hTx
  have hPanics {s₁ : StateStore} (hCollected : ex.Collected tx proposer s s₁) :
      ((ex.action crypto.sha256 tx height).run s₁).1 = .panic ↔ Trips ex.chainConfig tx s :=
    (ex.action_panics_iff crypto.sha256 height h.charges hCollected).trans h.panics_iff
  cases hTx with
  | rejected e hCharges => exact absurd h.charges hCharges
  | panicked fees s₁ s₂ hCharges hFee hCollected hAction =>
      have hTrips := (hPanics hCollected).mp (by rw [hAction])
      simp [hTrips]
  | failed fees s₁ e s₂ hCharges hFee hCollected hAction =>
      have hTrips : ¬ Trips ex.chainConfig tx s := by
        rw [← hPanics hCollected, hAction]
        nofun
      refine iff_of_true ⟨_, rfl, rfl, fun hDirect => ?_⟩ hTrips
      have hOk : ∃ r, ((ex.action crypto.sha256 tx height).run s₁).1 = .ok r :=
        h.direct_ok hCollected hDirect hTrips crypto.sha256
      obtain ⟨r, hr⟩ := hOk
      rw [hAction] at hr
      cases hr
  | succeeded fees s₁ s₂ s₃ events changes spent hCharges hFee hCollected hAction hSession =>
      have hTrips : ¬ Trips ex.chainConfig tx s := by
        rw [← hPanics hCollected, hAction]
        nofun
      exact iff_of_true ⟨_, rfl, rfl, fun _ => rfl⟩ hTrips

end Validated

/-! ## A delegation without epochs -/

section Samples

/-- An order of the first sample key. -/
def sampleOrder (action : TransactionAction) : SignedTransaction :=
  sampleSigned (FixedBytes.fill 32 1)
    { chainId := "polay-devnet-1", nonce := 0, signer := Address.zero, action, maxFee := 100000,
      timestamp := 0, session := none, sponsor := none }

/-- An account of the first sample key, and a validator. -/
def stakingStore : StateStore :=
  (withAccount ∅
    { AccountState.new (address checksum (FixedBytes.fill 32 1)) 0 with balance := 1000000 }).insert
    (.validator (Address.ofByte 2)) ⟨ValidatorInfo.new (Address.ofByte 2) 0, rfl⟩

theorem balance_stakingStore (a : Address) (x : AccountState)
    (h : accountOf stakingStore a = some x) : x.balance < u64Max := by
  have hSame : accountOf stakingStore a = accountOf (withAccount ∅
      { AccountState.new (address checksum (FixedBytes.fill 32 1)) 0 with
        balance := 1000000 }) a := by
    rw [accountOf, stakingStore, Store.get?_insert_ne (by simp), accountOf]
  rw [hSame, accountOf_withAccount ∅ rfl] at h
  split at h
  · obtain rfl := Option.some.inj h
    decide
  · simp [accountOf] at h

theorem goesThrough_iff_delegation :
    GoesThrough checksum Executor.devnet (sampleOrder (.delegateStake (Address.ofByte 2) 5)) 1
      Address.zero stakingStore := by
  have hValidated : Validated .sample "polay-devnet-1" 1 Executor.devnet
      (sampleOrder (.delegateStake (Address.ofByte 2) 5)) stakingStore := by
    refine ⟨balance_stakingStore, ?_, ?_, ?_⟩
    · decide +kernel
    · unfold Validation.Passes
      decide +kernel
    · decide +kernel
  refine (Validated.goesThrough_iff hValidated).mpr fun hTrips => ?_
  exact absurd hTrips.1 (by decide)

/-- A network whose epochs have no length. -/
def zeroEpoch : Executor := ⟨{ ChainConfig.default with epochLength := 0 }, by decide⟩

/-- A delegation that both validations accept panics when epochs have no length. -/
theorem delegation_panics :
    Validated .sample "polay-devnet-1" 1 zeroEpoch
        (sampleOrder (.delegateStake (Address.ofByte 2) 5)) stakingStore ∧
      ¬ GoesThrough checksum zeroEpoch (sampleOrder (.delegateStake (Address.ofByte 2) 5)) 1
        Address.zero stakingStore := by
  refine ⟨⟨balance_stakingStore, ?_, ?_, ?_⟩, ?_⟩
  · decide +kernel
  · unfold Validation.Passes
    decide +kernel
  · decide +kernel
  · have hPanic : ((zeroEpoch.executeTransaction checksum
        (sampleOrder (.delegateStake (Address.ofByte 2) 5)) 1 Address.zero).run
          stakingStore).1.toOption = none := by decide +kernel
    rintro ⟨result, hRun, _⟩
    rw [hRun] at hPanic
    cases hPanic

end Samples

end Polay.Execution
