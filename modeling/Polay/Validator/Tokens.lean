import Polay.Execution.Unbonding
import Polay.Validator.History
import Polay.Validator.StakeBacking

/-!
# Native tokens on the move

The tokens of an account are in its balance, in its delegations and in its entries of the
unbonding queue. A figure `Counts` tokens when it weighs each of the three places by the
owner, so the tokens of one account, the tokens of all accounts and the tokens in one of
the places are cases of one notion. `Flow` is what a step does to such a figure: what
leaves it and what enters it. The sum is exact as long as it fits into 64 bits; beyond that
the saturating arithmetic of the records loses tokens, and it never wins any.

The unbonding queue keeps its shape along every chain: in every reachable state the queue and
its index agree, and the numbers of the entries of one delegator for one height have no gaps
(`Reachable.wellQueued`).
-/

namespace Polay.Validator

open Lib Lib.Machine Polay.Types State Execution
open Execution.Executor (feePayer)

/-! ## Figures -/

/-- What the balance, a delegation and an entry of the queue count for by their owner, and
the stake of a validator by its address. -/
structure Weights where
  balance : Address → Nat
  delegation : Address → Nat
  queue : Address → Nat
  stake : Address → Nat

/-- The figure weighs balances, delegations, the queue and stakes. It may count other things,
but none of those that the actions on these tokens touch on the way. -/
structure Counts (c : Weights) (w : (k : Key) → k.Value → Nat) : Prop where
  account : ∀ a x, w (.account a) x = c.balance a * (AccountState.balance x.val).toNat
  delegation : ∀ a v x, w (.delegation a v) x = c.delegation a * (Delegation.amount x.val).toNat
  unbonding : ∀ a h i x,
    w (.unbonding a h i) x = c.queue a * (UnbondingEntry.amount x.val).toNat
  validator : ∀ a x, w (.validator a) x = c.stake a * (ValidatorInfo.stake x.val).toNat
  unbondingIndex : ∀ h a i x, w (.unbondingIndex h a i) x = 0
  supplyInfo : ∀ x, w .supplyInfo x = 0
  session : ∀ g a x, w (.session g a) x = 0

/-- The tokens that have weights and nothing else. -/
def tokenFigure (c : Weights) : (k : Key) → k.Value → Nat
  | .account a, x => c.balance a * (AccountState.balance x.val).toNat
  | .delegation a _, x => c.delegation a * (Delegation.amount x.val).toNat
  | .unbonding a _ _, x => c.queue a * (UnbondingEntry.amount x.val).toNat
  | .validator a, x => c.stake a * (ValidatorInfo.stake x.val).toNat
  | _, _ => 0

theorem counts_tokenFigure (c : Weights) : Counts c (tokenFigure c) where
  account _ _ := rfl
  delegation _ _ _ := rfl
  unbonding _ _ _ _ := rfl
  validator _ _ := rfl
  unbondingIndex _ _ _ _ := rfl
  supplyInfo _ := rfl
  session _ _ _ := rfl

/-- From `s` to `t` the amount `paid` leaves what is counted and `got` enters it. -/
structure Flow (w : (k : Key) → k.Value → Nat) (paid got : Nat) (s t : StateStore) : Prop where
  le : Store.total w t + paid ≤ Store.total w s + got
  eq : Store.total w s + got < 2 ^ 64 + paid →
    Store.total w t + paid = Store.total w s + got

section Figures

variable {c : Weights} {w : (k : Key) → k.Value → Nat} {s t u : StateStore}
variable {x : AccountState} {a : Address}

theorem Flow.of_eq (h : Store.total w t = Store.total w s) : Flow w 0 0 s t := by
  refine ⟨?_, fun _ => ?_⟩ <;> omega

/-- Two flows, if the second does not make room for what the first cannot hold. -/
theorem Flow.trans {paid got paid' got' : Nat} (h : Flow w paid got s t)
    (h' : Flow w paid' got' t u) (hRoom : paid' ≤ got') :
    Flow w (paid + paid') (got + got') s u := by
  have hLe := h.le
  have hLe' := h'.le
  refine ⟨by omega, fun hFits => ?_⟩
  have hEq := h.eq (by omega)
  have hEq' := h'.eq (by omega)
  omega

/-- A flow and a step that does not count. -/
theorem Flow.still {paid got : Nat} (h : Flow w paid got s t)
    (hSame : Store.total w u = Store.total w t) : Flow w paid got s u := by
  rw [← Nat.add_zero paid, ← Nat.add_zero got]
  exact h.trans (.of_eq hSame) (Nat.le_refl _)

/-- A flow and then an income. -/
theorem Flow.andThen {paid got got' : Nat} (h : Flow w paid got s t) (h' : Flow w 0 got' t u) :
    Flow w paid (got + got') s u :=
  h.trans h' (Nat.zero_le _)

/-- Records that count for nothing do not matter. -/
theorem total_of_keeps {F : List Family} (hKeeps : Store.Holds (Keeps F s) t)
    (hZero : ∀ k, familyOf k ∈ F → ∀ x, w k x = 0) : Store.total w t = Store.total w s := by
  refine Store.total_congr fun k => ?_
  by_cases hk : familyOf k ∈ F
  · rw [Store.figureAt_eq_zero w (hZero k hk), Store.figureAt_eq_zero w (hZero k hk)]
  · rw [Store.figureAt, hKeeps k hk, Store.figureAt]

theorem figureAt_le_total (w : (k : Key) → k.Value → Nat) (s : StateStore) (k : Key) :
    Store.figureAt w s k ≤ Store.total w s := by
  have hErase := Store.total_erase w (s := s) k
  omega

/-! ### Accounts -/

theorem Counts.figureAt_account (hC : Counts c w) (s : StateStore) (a : Address) :
    Store.figureAt w s (.account a) = c.balance a * balanceOf s a := by
  unfold Store.figureAt balanceOf accountOf
  cases s.get? (.account a) with
  | none => rfl
  | some x => exact hC.account a x

theorem Counts.total_withAccount (hC : Counts c w) (ha : x.address = a) :
    Store.total w (withAccount s x) + c.balance a * balanceOf s a =
      Store.total w s + c.balance a * x.balance.toNat := by
  subst ha
  have hInsert := Store.total_insert w (s := s) (.account x.address) ⟨x, rfl⟩
  rw [hC.figureAt_account, hC.account] at hInsert
  exact hInsert

/-- Only balances matter of an account. -/
theorem Counts.total_congr (hC : Counts c w) (hBalance : ∀ a, balanceOf t a = balanceOf s a)
    (hOther : ∀ k, (∀ a, k ≠ .account a) → t.get? k = s.get? k) :
    Store.total w t = Store.total w s := by
  refine Store.total_congr fun k => ?_
  by_cases hk : ∃ a, k = .account a
  · obtain ⟨a, rfl⟩ := hk
    rw [hC.figureAt_account, hC.figureAt_account, hBalance]
  · rw [Store.figureAt, hOther k fun a hEq => hk ⟨a, hEq⟩, Store.figureAt]

theorem Counts.debit_eq (hC : Counts c w) (hx : accountOf s a = some x) {n : UInt64}
    (hn : n ≤ x.balance) :
    Store.total w (withAccount s { x with balance := x.balance - n }) + c.balance a * n.toNat =
      Store.total w s := by
  have hAddress := address_of_accountOf hx
  have hWrite := hC.total_withAccount (s := s) (x := { x with balance := x.balance - n }) hAddress
  rw [balanceOf_eq hx] at hWrite
  have hSub : (x.balance - n).toNat = x.balance.toNat - n.toNat := UInt64.toNat_sub_of_le _ _ hn
  rw [UInt64.le_iff_toNat_le] at hn
  have hParts : c.balance a * (x.balance - n).toNat + c.balance a * n.toNat =
      c.balance a * x.balance.toNat := by
    rw [hSub, ← Nat.mul_add, Nat.sub_add_cancel hn]
  dsimp only at hWrite
  omega

theorem Counts.debit (hC : Counts c w) (hx : accountOf s a = some x) {n : UInt64}
    (hn : n ≤ x.balance) :
    Flow w (c.balance a * n.toNat) 0 s (withAccount s { x with balance := x.balance - n }) :=
  ⟨(hC.debit_eq hx hn).le, fun _ => hC.debit_eq hx hn⟩

/-- Adding to a figure of 64 bits that is one of those counted. -/
theorem weigh_saturatingAdd {k old n new got : Nat} (hNew : new = min (old + n) (2 ^ 64 - 1))
    (hOld : k * old ≤ got) :
    k * new ≤ k * old + k * n ∧ (got + k * n < 2 ^ 64 → k * new = k * old + k * n) := by
  rw [← Nat.mul_add]
  refine ⟨Nat.mul_le_mul_left _ (hNew ▸ Nat.min_le_left _ _), fun hFits => ?_⟩
  by_cases hZero : k = 0
  · rw [hZero, Nat.zero_mul, Nat.zero_mul]
  · have hOne : 1 ≤ k := by omega
    have hSum : old + n ≤ k * (old + n) := Nat.le_mul_of_pos_left _ hOne
    rw [Nat.mul_add] at hSum
    have hExact : new = old + n := by omega
    rw [hExact]

theorem Counts.credit (hC : Counts c w) (s : StateStore) (a : Address) (t n : UInt64) :
    Flow w 0 (c.balance a * n.toNat) s (Executor.creditedStore s a t n) := by
  obtain ⟨hAddress, hBalance⟩ := balance_getD s a t
  have hWrite := hC.total_withAccount (s := s)
    (x := ((accountOf s a).getD (AccountState.new a t)).credit n) hAddress
  have hNew : (((accountOf s a).getD (AccountState.new a t)).credit n).balance.toNat =
      min (balanceOf s a + n.toNat) (2 ^ 64 - 1) := by
    show (saturatingAdd _ n).toNat = _
    rw [toNat_saturatingAdd, hBalance]
  have hPart := figureAt_le_total w s (.account a)
  rw [hC.figureAt_account] at hPart
  obtain ⟨hLe, hEq⟩ := weigh_saturatingAdd hNew hPart
  change Store.total w (Executor.creditedStore s a t n) + _ = _ at hWrite
  refine ⟨by omega, fun hFits => ?_⟩
  have hEq := hEq hFits
  omega

/-- What is credited only if it is not zero. -/
theorem Counts.credit_pos (hC : Counts c w) (s : StateStore) (a : Address) (t n : UInt64) :
    Flow w 0 (c.balance a * n.toNat) s (if 0 < n then Executor.creditedStore s a t n else s) := by
  split
  · exact hC.credit s a t n
  · rename_i hZero
    rw [eq_zero_of_not_pos hZero]
    exact .of_eq rfl

/-! ### Delegations and the queue -/

theorem Counts.figureAt_validator (hC : Counts c w) (s : StateStore) (a : Address) :
    Store.figureAt w s (.validator a) = c.stake a * stakeAt s a := by
  unfold Store.figureAt stakeAt validatorOf
  cases s.get? (.validator a) with
  | none => rfl
  | some r => exact hC.validator _ r

/-- Writing a validator replaces its stake. -/
theorem Counts.total_withValidator (hC : Counts c w) {v : ValidatorInfo} (ha : v.address = a) :
    Store.total w (withValidator s v) + c.stake a * stakeAt s a =
      Store.total w s + c.stake a * v.stake.toNat := by
  subst ha
  have hInsert := Store.total_insert w (s := s) (.validator v.address) ⟨v, rfl⟩
  rw [hC.figureAt_validator, hC.validator] at hInsert
  exact hInsert

theorem delegationOf_withDelegation {x : Delegation} {v : Address} (ha : x.delegator = a)
    (hv : x.validator = v) : delegationOf (withDelegation s x) a v = some x := by
  subst ha hv
  rw [delegationOf, withDelegation, Std.ExtDTreeMap.get?_insert_self]
  rfl

/-- What an entry of the queue counts for. -/
def entryAt (s : StateStore) (a : Address) (h : UInt64) (i : UInt8) : Nat :=
  ((unbondingOf s a h i).map fun e => e.amount.toNat).getD 0

theorem Counts.figureAt_unbonding (hC : Counts c w) (s : StateStore) (a : Address)
    (h : UInt64) (i : UInt8) :
    Store.figureAt w s (.unbonding a h i) = c.queue a * entryAt s a h i := by
  unfold Store.figureAt entryAt unbondingOf
  cases s.get? (.unbonding a h i) with
  | none => rfl
  | some r => exact hC.unbonding _ _ _ r

end Figures

/-! ## Fees -/

section Fees

variable {c : Weights} {w : (k : Key) → k.Value → Nat} {s t : StateStore}
variable {sha256 : List UInt8 → Hash} {ex : Executor} {tx : SignedTransaction}
variable {height : UInt64} {proposer : Address}

/-- The account that receives the share of the treasury. -/
def treasuryAccount (ex : Executor) : Address := parseTreasuryAddress ex.chainConfig.treasuryAddress

/-- The part of a fee the treasury receives. -/
def treasuryShare (ex : Executor) (fee : UInt64) : UInt64 :=
  Executor.share fee ex.chainConfig.feeDistribution.treasuryBps

/-- The part of a fee that is burnt. -/
def burnShare (ex : Executor) (fee : UInt64) : UInt64 :=
  Executor.share fee ex.chainConfig.feeDistribution.burnBps

theorem toNat_share {fee : UInt64} {bps : UInt16} (h : bps.toNat ≤ 10000) :
    (Executor.share fee bps).toNat = fee.toNat * bps.toNat / 10000 := by
  have hLe : fee.toNat * bps.toNat / 10000 ≤ fee.toNat := by
    apply Nat.div_le_of_le_mul
    rw [Nat.mul_comm 10000]
    exact Nat.mul_le_mul_left _ h
  exact UInt64.toNat_ofNat_of_lt' (Nat.lt_of_le_of_lt hLe fee.toNat_lt)

/-- The shares of a fee add up to it. -/
theorem shares_eq (ex : Executor) (fee : UInt64) :
    (burnShare ex fee).toNat + (treasuryShare ex fee).toNat + (ex.validatorShare fee).toNat =
      fee.toNat := by
  have hSplit := ex.feeSplit
  have hBurn : (burnShare ex fee).toNat = _ := toNat_share (by omega)
  have hTreasury : (treasuryShare ex fee).toNat = _ := toNat_share (by omega)
  have hRest : (ex.validatorShare fee).toNat =
      fee.toNat - (burnShare ex fee).toNat - (treasuryShare ex fee).toNat := by
    unfold Executor.validatorShare
    rw [toNat_saturatingSub, toNat_saturatingSub]
    rfl
  have hSum : (burnShare ex fee).toNat + (treasuryShare ex fee).toNat ≤ fee.toNat := by
    rw [hBurn, hTreasury]
    refine Nat.div_add_div_le_add_div.trans ?_
    apply Nat.div_le_of_le_mul
    rw [← Nat.mul_add, Nat.mul_comm 10000]
    exact Nat.mul_le_mul_left _ hSplit
  omega

/-- What of a fee goes back to the counted accounts. -/
def feeIncome (ex : Executor) (b : Address → Nat) (proposer : Address) (fee : UInt64) : Nat :=
  b (treasuryAccount ex) * (treasuryShare ex fee).toNat + b proposer * (ex.validatorShare fee).toNat

theorem Counts.distributed (hC : Counts c w) (fee : UInt64) (proposer : Address)
    (s : StateStore) :
    Flow w 0 (feeIncome ex c.balance proposer fee) s (ex.distributed fee proposer s) := by
  have hTreasury := hC.credit_pos s (treasuryAccount ex) 0 (treasuryShare ex fee)
  have hBoth := hTreasury.andThen (hC.credit_pos _ proposer 0 (ex.validatorShare fee))
  exact hBoth.still (Store.total_insert_of_zero w hC.supplyInfo _)

/-- The payer pays the fee, the treasury and the proposer receive their shares. -/
theorem Counts.collectFee (hC : Counts c w) (hCharges : ex.Charges tx s)
    {fees : List StateChange} (hRun : (ex.collectFee tx proposer).run s = (.ok fees, t)) :
    Flow w (c.balance (feePayer tx) * (ex.actualFee tx.transaction).toNat)
      (feeIncome ex c.balance proposer (ex.actualFee tx.transaction)) s t := by
  obtain ⟨_, s', hRun', hAccounts, hOther⟩ := ex.collectFee_run proposer hCharges
  obtain ⟨_, payer, hPayer, hEnough⟩ := hCharges.2
  rw [hRun] at hRun'
  obtain rfl := (Prod.mk.inj hRun').2
  have hAddress := address_of_accountOf hPayer
  have hDebit := hC.debit hPayer hEnough
  have hSame : Store.total w s' = Store.total w (withAccount s
      { payer with balance := payer.balance - ex.actualFee tx.transaction }) := by
    refine hC.total_congr (fun a => ?_) fun k hk => ?_
    · rw [balanceOf, hAccounts, balanceOf,
        accountOf_withAccount s (a := feePayer tx) (by exact hAddress)]
      by_cases hEq : a = feePayer tx
      · subst hEq
        rw [if_pos rfl, hPayer]
        simp [Executor.charged, hAddress]
      · rw [if_neg hEq]
        cases hx : accountOf s a with
        | none => rfl
        | some x => simp [Executor.charged, address_of_accountOf hx, hEq]
    · rw [hOther k hk, get?_withAccount hk]
  have hPaid := hDebit.still hSame
  split
  · rw [← Nat.zero_add (feeIncome ex c.balance proposer _)]
    exact hPaid.andThen (hC.distributed (ex.actualFee tx.transaction) proposer s')
  · rename_i hZero
    rw [eq_zero_of_not_pos hZero] at hPaid ⊢
    have hIncome : feeIncome ex c.balance proposer 0 = 0 := by
      simp [feeIncome, treasuryShare, Executor.validatorShare, Executor.share_zero,
        saturatingSub]
    rw [hIncome]
    exact hPaid

end Fees

/-! ## Actions -/

section Actions

variable {c : Weights} {w : (k : Key) → k.Value → Nat} {s : StateStore}

/-! ### Delegating and undelegating -/

variable {config : ChainConfig} {signer validator : Address} {amount height : UInt64}
variable {t : StateStore} {v : ValidatorInfo}

/-- What a delegation that goes through writes; the epoch is not written when it panics. -/
def stakeMoved (s : StateStore) (x : AccountState) (v : ValidatorInfo) (amount : UInt64) :
    StateStore :=
  withValidator (withAccount s { x with balance := x.balance - amount })
    { v with stake := saturatingAdd v.stake amount }

/-- The delegation after more was delegated. -/
def delegationAfter (config : ChainConfig) (s : StateStore) (signer validator : Address)
    (amount height : UInt64) : Delegation :=
  let d := (delegationOf s signer validator).getD (Delegation.new signer validator)
  { d with
    amount := saturatingAdd d.amount amount
    lastRewardEpoch := height / config.epochLength }

/-- The records a delegation needs. -/
structure CanDelegate (s : StateStore) (signer validator : Address) (amount : UInt64)
    (x : AccountState) (v : ValidatorInfo) : Prop where
  info : validatorOf s validator = some v
  active : v.isActive = true
  account : accountOf s signer = some x
  enough : amount ≤ x.balance

/-- How a delegation can end: with an epoch length of zero it panics after the account and
the validator were written. -/
def DelegateEnd (config : ChainConfig) (s : StateStore) (signer validator : Address)
    (amount height : UInt64) : Outcome ExecutionError (List Event) → StateStore → Prop
  | .ok _, t => config.epochLength ≠ 0 ∧ ∃ x v, CanDelegate s signer validator amount x v ∧
      t = withDelegation (stakeMoved s x v amount)
        (delegationAfter config s signer validator amount height)
  | .err _, t => t = s ∧ ∀ x v, ¬ CanDelegate s signer validator amount x v
  | .panic, t => config.epochLength = 0 ∧ ∃ x v, CanDelegate s signer validator amount x v ∧
      t = stakeMoved s x v amount

theorem delegateStake_wp (config : ChainConfig) (signer validator : Address)
    (amount height : UInt64) :
    (Staking.executeDelegateStake config signer validator amount height).Wp
      (DelegateEnd config s signer validator amount height) s := by
  simp only [Staking.executeDelegateStake, Prog.bind_eq, wp_getValidator_bind,
    Prog.wp_require_bind, Prog.wp_ensure_bind, wp_loadAccount_bind, wp_debited_bind,
    wp_setAccount_bind, wp_setValidator_bind, Prog.wp_assert_bind, wp_getDelegation_bind,
    wp_setDelegation_bind, Prog.pure_eq, Prog.wp_pure]
  refine ⟨fun hNone => ⟨rfl, fun x v h => ?_⟩, fun v hv => ⟨fun hNot => ⟨rfl, fun x v' h => ?_⟩,
    fun hActive => ⟨fun hNone => ⟨rfl, fun x v h => ?_⟩, fun x hx =>
      ⟨fun hShort => ⟨rfl, fun x' v h => ?_⟩, fun hn => ?_⟩⟩⟩⟩
  · exact absurd (hNone.symm.trans h.info) (by simp)
  · obtain rfl : v = v' := Option.some.inj (hv.symm.trans h.info)
    exact hNot h.active
  · exact absurd (hNone.symm.trans h.account) (by simp)
  · obtain rfl : x = x' := Option.some.inj (hx.symm.trans h.account)
    exact absurd h.enough (UInt64.not_le.mpr hShort)
  refine ⟨fun hZero => ⟨not_not.mp hZero, x, v, ⟨hv, hActive, hx, hn⟩, rfl⟩, fun hPos =>
    ⟨hPos, x, v, ⟨hv, hActive, hx, hn⟩, ?_⟩⟩
  have hSame : delegationOf (stakeMoved s x v amount) signer validator =
      delegationOf s signer validator := by
    unfold delegationOf stakeMoved
    rw [get?_withValidator (by simp), get?_withAccount (by simp)]
  change delegationOf (withValidator (withAccount s _) _) signer validator = _ at hSame
  rw [hSame]
  rfl

/-- The completion height of an undelegation. -/
def completionAt (config : ChainConfig) (height : UInt64) : UInt64 :=
  height + config.unbondingPeriodBlocks

/-- The entry of an undelegation. -/
def undelegationEntry (config : ChainConfig) (signer validator : Address)
    (amount height : UInt64) : UnbondingEntry where
  delegator := signer
  validator := validator
  amount := amount
  initiatedAt := height
  completionHeight := completionAt config height

/-- The records an undelegation needs. -/
structure CanUndelegate (s : StateStore) (signer validator : Address) (amount : UInt64)
    (x : Delegation) (v : ValidatorInfo) : Prop where
  info : validatorOf s validator = some v
  delegation : delegationOf s signer validator = some x
  enough : amount ≤ x.amount

/-- The store before the entry of an undelegation is written. -/
def stakeWithdrawn (s : StateStore) (x : Delegation) (v : ValidatorInfo) (amount : UInt64) :
    StateStore :=
  withValidator (withDelegation s { x with amount := x.amount - amount })
    { v with stake := saturatingSub v.stake amount }

/-- The store after an undelegation. -/
def Undelegated (config : ChainConfig) (s : StateStore) (signer validator : Address)
    (amount height : UInt64) (t : StateStore) : Prop :=
  ∃ x v, CanUndelegate s signer validator amount x v ∧
    t = withUnbonding (stakeWithdrawn s x v amount)
      (undelegationEntry config signer validator amount height)
      (UInt8.ofNat (pendingCount s signer (completionAt config height)))

/-- How an undelegation can end. -/
def UndelegateEnd (config : ChainConfig) (s : StateStore) (signer validator : Address)
    (amount height : UInt64) : Outcome ExecutionError (List Event) → StateStore → Prop
  | .ok _, t => Undelegated config s signer validator amount height t
  | .err _, t => t = s ∧ ∀ x v, ¬ CanUndelegate s signer validator amount x v
  | .panic, _ => False

theorem pendingCount_congr {s : StateStore} {d : Address} {h : UInt64}
    (hSame : ∀ i, unbondingOf t d h i = unbondingOf s d h i) :
    pendingCount t d h = pendingCount s d h := by
  rw [pendingCount_eq_card, pendingCount_eq_card, numbers, numbers]
  simp only [hSame]

theorem unbondingOf_stakeWithdrawn (s : StateStore) (x : Delegation) (v : ValidatorInfo)
    (amount : UInt64) (d : Address) (h : UInt64) (i : UInt8) :
    unbondingOf (stakeWithdrawn s x v amount) d h i = unbondingOf s d h i := by
  unfold unbondingOf stakeWithdrawn withDelegation
  rw [get?_withValidator (by simp), Store.get?_insert_ne (by simp)]

theorem undelegateStake_wp (config : ChainConfig) (signer validator : Address)
    (amount height : UInt64) :
    (Staking.executeUndelegateStake config signer validator amount height).Wp
      (UndelegateEnd config s signer validator amount height) s := by
  simp only [Staking.executeUndelegateStake, Prog.bind_eq, wp_getValidator_bind,
    Prog.wp_require_bind, Prog.wp_ensure_bind, wp_setValidator_bind, wp_getDelegation_bind,
    wp_setDelegation_bind]
  refine ⟨fun hNone => ⟨rfl, fun x v h => ?_⟩, fun v hv => ⟨fun hNone => ⟨rfl, fun x v h => ?_⟩,
    fun x hx => ⟨fun hShort => ⟨rfl, fun x' v h => ?_⟩, fun hAmount =>
      ⟨x, v, ⟨hv, hx, UInt64.not_lt.mp hAmount⟩, ?_⟩⟩⟩⟩
  · exact absurd (hNone.symm.trans h.info) (by simp)
  · exact absurd (hNone.symm.trans h.delegation) (by simp)
  · obtain rfl : x = x' := Option.some.inj (hx.symm.trans h.delegation)
    exact absurd h.enough (UInt64.not_le.mpr (not_not.mp hShort))
  have hCount := pendingCount_congr (d := signer) (h := completionAt config height)
    (unbondingOf_stakeWithdrawn s x v amount signer (completionAt config height))
  rw [← hCount]
  rfl

end Actions

/-! ## The queue along a chain -/

section Queue

variable {s t : StateStore}
variable {ex : Executor} {sha256 : List UInt8 → Hash}

/-- The queue and its index agree and the numbers have no gaps. -/
structure WellQueued (s : StateStore) : Prop where
  mirrored : Mirrored s
  dense : Dense s

theorem WellQueued.of_keeps {F : List Family} (h : WellQueued s)
    (hKeeps : Store.Holds (Keeps F s) t) (hF : Family.unbonding ∉ F) : WellQueued t :=
  ⟨h.mirrored.of_keeps hKeeps hF, h.dense.congr (unbondingOf_of_keeps hKeeps hF)⟩

theorem WellQueued.unbonded (h : WellQueued s) (height : UInt64) :
    WellQueued (unbonded height s) :=
  ⟨h.mirrored.unbonded height, h.dense.unbonded h.mirrored height⟩

theorem WellQueued.undelegated {config : ChainConfig} {signer validator : Address}
    {amount height : UInt64} (h : WellQueued s)
    (ht : Undelegated config s signer validator amount height t) : WellQueued t := by
  obtain ⟨x, v, _, rfl⟩ := ht
  have hDense := h.dense.congr (unbondingOf_stakeWithdrawn s x v amount)
  have hCount := pendingCount_congr (d := signer) (h := completionAt config height)
    (unbondingOf_stakeWithdrawn s x v amount signer (completionAt config height))
  refine ⟨Mirrored.withUnbonding (fun d n i => ?_) _ _, ?_⟩
  · rw [unbondingOf_stakeWithdrawn, ← h.mirrored d n i]
    unfold indexedOf stakeWithdrawn withDelegation
    rw [get?_withValidator (by simp), Store.get?_insert_ne (by simp)]
  · rw [← hCount]
    exact hDense.withUnbonding (undelegationEntry config signer validator amount height)

/-- No transaction harms the queue. -/
theorem WellQueued.transaction (h : WellQueued s) (tx : SignedTransaction) (height : UInt64)
    (proposer : Address) :
    WellQueued ((ex.executeTransaction sha256 tx height proposer).run s).2 := by
  rcases (ex.executeTransaction_run sha256 tx height proposer s).stages with
    ⟨_, hSame⟩ | ⟨s₁, hStages⟩
  · rw [hSame]
    exact h
  · have h₁ : WellQueued s₁ := h.of_keeps hStages.collected.keeps (by simp [feeFamilies])
    have hKeeps := dispatchAction_keeps sha256 ex tx.transaction.action tx.signer
      tx.transaction.timestamp height (s := s₁)
    have hAction : (ex.action sha256 tx height).Wp (fun _ t => WellQueued t) s₁ := by
      unfold Executor.action
      cases hEq : tx.transaction.action
      case undelegateStake v amount =>
        refine Prog.wp_bind_pure.mpr ((undelegateStake_wp ex.chainConfig tx.signer v amount
          height).mono fun o t ht => ?_)
        cases o with
        | ok events => exact h₁.undelegated ht
        | err e => exact ht.1 ▸ h₁
        | panic => exact ht.elim
      all_goals
        rw [hEq] at hKeeps
        exact h₁.of_keeps (run_keeps hKeeps) (by simp [writtenBy])
    exact WellQueued.of_keeps hAction hStages.spent (by simp)

/-- What a turn of a block does for everything a transaction preserves. -/
theorem TurnFrom.rule {turn : Turn} (h : TurnFrom sha256 ex s turn) {I : StateStore → Prop}
    (hs : I s)
    (hTx : ex.Charged turn.step →
      I ((ex.executeTransaction sha256 turn.step.tx turn.height turn.proposer).run s).2) :
    I turn.step.after := by
  by_cases hCharged : ex.Charged turn.step
  · rw [(h.isStep.after_charged hCharged).1, h.start]
    exact hTx hCharged
  · rw [h.isStep.after_eq hCharged, h.start]
    exact hs

/-- In every reachable state the queue and its index agree, and numbers have no gaps. -/
theorem Reachable.wellQueued (h : Reachable sha256 ex s) : WellQueued s := by
  obtain ⟨l, hHistory⟩ := h.exists_history
  have hEmpty : WellQueued ∅ := ⟨fun _ _ _ => by simp [indexedOf, unbondingOf],
    fun _ _ _ _ _ hSome => by simp [unbondingOf] at hSome⟩
  let Inv (_ : List Turn) (s : StateStore) : Prop := WellQueued s
  suffices hInv : Inv l s from hInv
  refine History.rule hEmpty ?_ ?_ ?_ hHistory
  · exact fun l s height h => h.unbonded height
  · exact fun l s turn h hTurn => hTurn.rule h fun _ => h.transaction _ _ _
  · exact fun l s t h hKeeps => h.of_keeps hKeeps (by simp [chainFamilies])

/-- A player registers, delegates and undelegates twice in one block. -/
def undelegatesTwice : StateStore :=
  ((Executor.devnet.executeBlock (fun _ => Hash.zero) [playerTx 0 (.registerValidator 500),
    playerTx 1 (.delegateStake (Address.ofByte 1) 500),
    playerTx 2 (.undelegateStake (Address.ofByte 1) 200),
    playerTx 3 (.undelegateStake (Address.ofByte 1) 100)] 1 Address.zero).run onePlayerStore).2

theorem Reachable.wellQueued_undelegatesTwice :
    WellQueued undelegatesTwice ∧
      (unbondingOf undelegatesTwice (Address.ofByte 1) (completionAt ChainConfig.default 1) 1).map
        UnbondingEntry.amount = some 100 := by
  have hGenesis : Reachable (fun _ => Hash.zero) Executor.devnet onePlayerStore :=
    .genesis (g := onePlayer) (Prod.ext (by decide +kernel) rfl)
  exact ⟨Reachable.wellQueued (hGenesis.block _ 1 Address.zero), by decide +kernel⟩

end Queue

end Polay.Validator
