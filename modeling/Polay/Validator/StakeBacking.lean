import Polay.Execution.Invariants
import Polay.Execution.Records
import Polay.Validator.StakeAgreement

/-!
# Stake behind delegations

What is delegated to a validator is part of its stake, and the rest is stake of its
own. Transactions leave the rest alone as long as the sums fit into 64 bits
(`Covers.dispatchAction`). A slash need not: the fraction is taken off the stake and
off every delegation separately and rounded down each time, and a governance proposal
takes it off the stake only.
-/

namespace Polay.Validator

open Lib Lib.Machine Polay.Types State Execution

/-! ## Sums of delegations -/

section Sums

variable {s t : StateStore} {g : Nat → Nat} {a : Address}
variable {x : Delegation}

/-- Every validator has at least as much stake as is delegated to it. -/
def Backed (s : StateStore) : Prop := ∀ a, delegatedTo s a ≤ stakeAt s a

/-- A validator has `m` more stake than is delegated to it. -/
def Covers (m : Nat) (a : Address) (s : StateStore) : Prop := m + delegatedTo s a ≤ stakeAt s a

theorem backed_iff_covers : Backed s ↔ ∀ a, Covers 0 a s := by
  simp only [Backed, Covers, Nat.zero_add]

theorem figureAt_eq_zero_of_ne {k : Key} (h : ∀ d, k ≠ .delegation d a) :
    Store.figureAt (delegationFigure g a) s k = 0 := by
  refine Store.figureAt_eq_zero _ fun x => ?_
  cases k
  case delegation d v => exact if_neg fun hEq => h d (by rw [hEq])
  all_goals rfl

/-- The sum over the delegations to a validator sees nothing else. -/
theorem total_delegationFigure_congr
    (h : ∀ d, t.get? (.delegation d a) = s.get? (.delegation d a)) :
    Store.total (delegationFigure g a) t = Store.total (delegationFigure g a) s := by
  refine Store.total_congr fun k => ?_
  by_cases hk : ∃ d, k = .delegation d a
  · obtain ⟨d, rfl⟩ := hk
    unfold Store.figureAt
    rw [h]
  · have hNe : ∀ d, k ≠ .delegation d a := fun d hEq => hk ⟨d, hEq⟩
    rw [figureAt_eq_zero_of_ne hNe, figureAt_eq_zero_of_ne hNe]

theorem Covers.congr {m : Nat} (h : Covers m a s) (hStake : stakeAt t a = stakeAt s a)
    (hDelegation : ∀ d, t.get? (.delegation d a) = s.get? (.delegation d a)) : Covers m a t := by
  rw [Covers, delegatedTo, total_delegationFigure_congr hDelegation, hStake]
  exact h

/-- Records of other families do not matter. -/
theorem Covers.of_keeps {m : Nat} {F : List Family} (h : Covers m a s)
    (hKeeps : Store.Holds (Keeps F s) t) (hValidator : Family.validator ∉ F)
    (hDelegation : Family.delegation ∉ F) : Covers m a t := by
  refine h.congr ?_ fun d => hKeeps (.delegation d a) hDelegation
  rw [stakeAt, validatorOf, hKeeps (.validator a) hValidator, stakeAt, validatorOf]

/-- The store with a delegation written. -/
def withDelegation (s : StateStore) (x : Delegation) : StateStore :=
  s.insert (.delegation x.delegator x.validator) ⟨x, Key.files_delegation x⟩

theorem validatorOf_withDelegation (s : StateStore) (x : Delegation) (a : Address) :
    validatorOf (withDelegation s x) a = validatorOf s a := by
  unfold validatorOf withDelegation
  rw [Store.get?_insert_ne (by simp)]

theorem identifiers_of_delegationOf {d v : Address} (h : delegationOf s d v = some x) :
    x.delegator = d ∧ x.validator = v := by
  obtain ⟨r, _, rfl⟩ := Option.map_eq_some_iff.mp h
  exact r.property

/-- What a delegation counts for. -/
def amountAt (s : StateStore) (d v : Address) : Nat :=
  ((delegationOf s d v).map fun x => x.amount.toNat).getD 0

theorem figureAt_delegationFigure (s : StateStore) (d v : Address) :
    Store.figureAt (delegationFigure id v) s (.delegation d v) = amountAt s d v := by
  unfold amountAt
  cases hd : delegationOf s d v with
  | none =>
      rw [Store.figureAt, Option.map_eq_none_iff.mp hd]
      rfl
  | some x => exact figureAt_delegation hd

theorem amountAt_le (s : StateStore) (d v : Address) : amountAt s d v ≤ delegatedTo s v := by
  rw [← figureAt_delegationFigure]
  exact figureAt_le_delegatedTo s v _

/-- Writing a delegation replaces what it counts for. -/
theorem delegatedTo_withDelegation {d v : Address} (hd : x.delegator = d) (hv : x.validator = v) :
    delegatedTo (withDelegation s x) v + amountAt s d v = delegatedTo s v + x.amount.toNat := by
  subst hd hv
  have hInsert := Store.total_insert (delegationFigure id x.validator) (s := s)
    (.delegation x.delegator x.validator) ⟨x, rfl, rfl⟩
  rw [figureAt_delegationFigure] at hInsert
  have hNew : delegationFigure id x.validator (.delegation x.delegator x.validator)
      ⟨x, rfl, rfl⟩ = x.amount.toNat := if_pos rfl
  rw [hNew] at hInsert
  exact hInsert

theorem delegatedTo_withDelegation_ne (h : a ≠ x.validator) :
    delegatedTo (withDelegation s x) a = delegatedTo s a := by
  refine total_delegationFigure_congr fun d => Store.get?_insert_ne ?_
  simpa using fun _ hEq => h hEq.symm

theorem delegatedTo_withValidator (s : StateStore) (v : ValidatorInfo) (a : Address) :
    delegatedTo (withValidator s v) a = delegatedTo s a :=
  total_delegationFigure_congr fun _ => get?_withValidator (by simp)

theorem stakeAt_withValidator (s : StateStore) (v : ValidatorInfo) (a : Address) :
    stakeAt (withValidator s v) a = if a = v.address then v.stake.toNat else stakeAt s a := by
  unfold stakeAt
  rw [validatorOf_withValidator]
  split <;> rfl

theorem stakeAt_eq {v : ValidatorInfo} (h : validatorOf s a = some v) :
    stakeAt s a = v.stake.toNat := by
  unfold stakeAt
  rw [h]
  rfl

theorem validatorOf_withAccount (s : StateStore) (x : AccountState) (a : Address) :
    validatorOf (withAccount s x) a = validatorOf s a := by
  rw [validatorOf, get?_withAccount (by simp), validatorOf]

theorem delegatedTo_withAccount (s : StateStore) (x : AccountState) (a : Address) :
    delegatedTo (withAccount s x) a = delegatedTo s a :=
  total_delegationFigure_congr fun _ => get?_withAccount (by simp)

end Sums

/-! ## Transactions -/

section Handlers

variable {β : Type} {Q : Outcome ExecutionError β → StateStore → Prop} {s : StateStore}

@[simp] theorem wp_getValidator_bind {a : Address} {f : Option ValidatorInfo → Handler β} :
    ((getValidator a).bind f).Wp Q s ↔ (f (validatorOf s a)).Wp Q s := Iff.rfl

@[simp] theorem wp_setValidator_bind {ε : Type} {v : ValidatorInfo} {f : Unit → Exec ε β}
    {Q : Outcome ε β → StateStore → Prop} :
    ((setValidator v).bind f).Wp Q s ↔ (f ()).Wp Q (withValidator s v) := Iff.rfl

@[simp] theorem wp_getDelegation_bind {d v : Address} {f : Option Delegation → Handler β} :
    ((getDelegation d v).bind f).Wp Q s ↔ (f (delegationOf s d v)).Wp Q s := Iff.rfl

@[simp] theorem wp_setDelegation_bind {x : Delegation} {f : Unit → Handler β} :
    ((setDelegation x).bind f).Wp Q s ↔ (f ()).Wp Q (withDelegation s x) := Iff.rfl

variable {m : Nat} {a : Address}
variable {d b : Address} {x : Delegation} {amount height : UInt64} {v : ValidatorInfo}

theorem Covers.wp_of_keeps {F : List Family} {p : Handler β} (h : Covers m a s)
    (hSafe : p.Safe (Keeps F s) True True false) (hValidator : Family.validator ∉ F)
    (hDelegation : Family.delegation ∉ F) : p.Wp (fun _ t => Covers m a t) s :=
  h.of_keeps (run_keeps hSafe) hValidator hDelegation

theorem Covers.registerValidator (h : Covers m a s) (config : ChainConfig) (signer : Address)
    (bps : UInt16) :
    (Staking.executeRegisterValidator config signer bps).Wp (fun _ t => Covers m a t) s := by
  simp only [Staking.executeRegisterValidator, Prog.bind_eq, wp_getValidator_bind,
    Prog.wp_ensure_bind, wp_setValidator_bind, Prog.pure_eq, Prog.wp_pure]
  refine ⟨fun _ => h, fun hNone => ⟨fun _ => h, fun _ => ?_⟩⟩
  rw [Covers, delegatedTo_withValidator, stakeAt_withValidator]
  split
  · rename_i hEq
    obtain rfl : a = signer := hEq
    have hStake : m + delegatedTo s a ≤ stakeAt s a := h
    rw [stakeAt, Option.isNone_iff_eq_none.mp hNone] at hStake
    exact hStake
  · exact h

/-- Adding to the stake of a validator. -/
theorem Covers.addStake (h : Covers m a s) (hv : validatorOf s b = some v) (amount : UInt64) :
    Covers m a (withValidator s { v with stake := saturatingAdd v.stake amount }) := by
  have hStake : m + delegatedTo s a ≤ stakeAt s a := h
  rw [Covers, delegatedTo_withValidator, stakeAt_withValidator]
  split
  · rename_i hEq
    have hAddress : v.address = b := address_of_validatorOf hv
    obtain rfl : a = b := Eq.trans hEq hAddress
    rw [stakeAt_eq hv] at hStake
    rw [toNat_saturatingAdd]
    have := v.stake.toNat_lt
    omega
  · exact h

/-- The delegation of an account to a validator, a new one if there is none yet. -/
theorem getD_delegationOf (s : StateStore) (d v : Address) :
    let x := (delegationOf s d v).getD (Delegation.new d v)
    x.delegator = d ∧ x.validator = v ∧ x.amount.toNat = amountAt s d v := by
  unfold amountAt
  cases hd : delegationOf s d v with
  | none => exact ⟨rfl, rfl, rfl⟩
  | some x =>
      obtain ⟨hDelegator, hValidator⟩ := identifiers_of_delegationOf hd
      exact ⟨hDelegator, hValidator, rfl⟩

/-- Delegating adds as much to the delegation as to the stake. -/
theorem Covers.addDelegation (h : Covers m a s) (hv : validatorOf s b = some v)
    (hFits : b = a → m + delegatedTo s a + amount.toNat < 2 ^ 64) (hDelegator : x.delegator = d)
    (hValidator : x.validator = b) (hAmount : x.amount.toNat ≤ amountAt s d b + amount.toNat) :
    Covers m a (withDelegation
      (withValidator s { v with stake := saturatingAdd v.stake amount }) x) := by
  have hAddress := address_of_validatorOf hv
  rw [Covers, stakeAt, validatorOf_withDelegation, ← stakeAt]
  by_cases hEq : b = a
  · subst hEq
    have hSame : amountAt (withValidator s { v with stake := saturatingAdd v.stake amount }) d b
        = amountAt s d b := by
      unfold amountAt delegationOf
      rw [get?_withValidator (by simp)]
    have hNew := delegatedTo_withDelegation hDelegator hValidator
      (s := withValidator s { v with stake := saturatingAdd v.stake amount })
    have hOld : m + delegatedTo s b ≤ stakeAt s b := h
    have hFits := hFits rfl
    rw [hSame, delegatedTo_withValidator] at hNew
    rw [stakeAt_eq hv] at hOld
    rw [stakeAt_withValidator, if_pos hAddress.symm, toNat_saturatingAdd]
    omega
  · rw [delegatedTo_withDelegation_ne (by rw [hValidator]; exact Ne.symm hEq)]
    exact h.addStake hv amount

theorem Covers.delegateStake (h : Covers m a s) (config : ChainConfig)
    (signer validator : Address) (amount height : UInt64)
    (hFits : validator = a → m + delegatedTo s a + amount.toNat < 2 ^ 64) :
    (Staking.executeDelegateStake config signer validator amount height).Wp
      (fun _ t => Covers m a t) s := by
  simp only [Staking.executeDelegateStake, Prog.bind_eq, wp_getValidator_bind,
    Prog.wp_require_bind, Prog.wp_ensure_bind, wp_loadAccount_bind, wp_debited_bind,
    wp_setAccount_bind, wp_setValidator_bind, Prog.wp_assert_bind, wp_getDelegation_bind,
    wp_setDelegation_bind, Prog.pure_eq, Prog.wp_pure]
  refine ⟨fun _ => h, fun v hv => ⟨fun _ => h, fun _ => ⟨fun _ => h, fun x _ => ⟨fun _ => h,
    fun _ => ?_⟩⟩⟩⟩
  let s₁ := withAccount s { x with balance := x.balance - amount }
  have hv₁ : validatorOf s₁ validator = some v := (validatorOf_withAccount s _ _).trans hv
  have h₁ : Covers m a s₁ := h.congr (by rw [stakeAt, validatorOf_withAccount, stakeAt])
    fun _ => get?_withAccount (by simp)
  have hFits₁ : validator = a → m + delegatedTo s₁ a + amount.toNat < 2 ^ 64 := by
    rwa [delegatedTo_withAccount]
  refine ⟨fun _ => h₁.addStake hv₁ amount, fun _ => ?_⟩
  let s₂ := withValidator s₁ { v with stake := saturatingAdd v.stake amount }
  obtain ⟨hDelegator, hValidator, hAmount⟩ := getD_delegationOf s₂ signer validator
  refine h₁.addDelegation hv₁ hFits₁ hDelegator hValidator ?_
  have hSame : amountAt s₂ signer validator = amountAt s₁ signer validator := by
    rw [amountAt, delegationOf, get?_withValidator (by simp), ← delegationOf, ← amountAt]
  show (saturatingAdd _ amount).toNat ≤ _
  rw [toNat_saturatingAdd, hAmount, hSame]
  exact Nat.min_le_left _ _

/-- Undelegating takes no more off the stake than there is. -/
theorem Covers.amount_le (h : Covers m a s) (hv : validatorOf s a = some v)
    (hx : delegationOf s d a = some x) (hAmount : amount ≤ x.amount) : amount ≤ v.stake := by
  have hPart := amountAt_le s d a
  have hStake : m + delegatedTo s a ≤ stakeAt s a := h
  rw [amountAt, hx] at hPart
  rw [stakeAt_eq hv] at hStake
  have hPart : x.amount.toNat ≤ delegatedTo s a := hPart
  rw [UInt64.le_iff_toNat_le] at hAmount ⊢
  omega

/-- Undelegating takes as much off the delegation as off the stake. -/
theorem Covers.removeDelegation (h : Covers m a s) (hv : validatorOf s b = some v)
    (hx : delegationOf s d b = some x) (hAmount : amount ≤ x.amount) :
    Covers m a (withValidator (withDelegation s { x with amount := x.amount - amount })
      { v with stake := saturatingSub v.stake amount }) := by
  have hAddress := address_of_validatorOf hv
  obtain ⟨hDelegator, hValidator⟩ := identifiers_of_delegationOf hx
  rw [Covers, delegatedTo_withValidator, stakeAt_withValidator]
  by_cases hEq : a = b
  · subst hEq
    have hLe := h.amount_le hv hx hAmount
    have hNew := delegatedTo_withDelegation (s := s)
      (x := { x with amount := x.amount - amount }) hDelegator hValidator
    have hOld : m + delegatedTo s a ≤ stakeAt s a := h
    have hCount : amountAt s d a = x.amount.toNat := by rw [amountAt, hx]; rfl
    have hSub : (x.amount - amount).toNat = x.amount.toNat - amount.toNat :=
      UInt64.toNat_sub_of_le _ _ hAmount
    rw [hCount, hSub] at hNew
    rw [stakeAt_eq hv] at hOld
    rw [if_pos hAddress.symm, toNat_saturatingSub]
    rw [UInt64.le_iff_toNat_le] at hAmount
    omega
  · rw [if_neg (by rwa [hAddress]), delegatedTo_withDelegation_ne (by rwa [hValidator])]
    rw [stakeAt, validatorOf_withDelegation, ← stakeAt]
    exact h

theorem Covers.undelegateStake (h : Covers m a s) (config : ChainConfig)
    (signer validator : Address) (amount height : UInt64) :
    (Staking.executeUndelegateStake config signer validator amount height).Wp
      (fun _ t => Covers m a t) s := by
  simp only [Staking.executeUndelegateStake, Prog.bind_eq, wp_getValidator_bind,
    Prog.wp_require_bind, Prog.wp_ensure_bind, wp_setValidator_bind, wp_getDelegation_bind,
    wp_setDelegation_bind]
  refine ⟨fun _ => h, fun v hv => ⟨fun _ => h, fun x hx => ⟨fun _ => h, fun hAmount => ?_⟩⟩⟩
  refine (h.removeDelegation hv hx (UInt64.not_lt.mp hAmount)).wp_of_keeps (F := [.unbonding])
    ?_ (by simp) (by simp)
  simp [getUnbondingEntries, setUnbondingEntry, prefixScan, storePut, Keeps, familyOf]

/-- The slash of a proposal takes only stake that nobody delegated. -/
def SlashCovered (s : StateStore) : Governance.ProposalAction → Prop
  | .slashValidator a bps _ =>
      ∀ v, validatorOf s a = some v →
        delegatedTo s a + (StakingModule.slashOf v.stake bps).toNat ≤ v.stake.toNat
  | _ => True

/-- A proposal that slashes the validator takes no more than the part beyond `m`. -/
def Spares (m : Nat) (a : Address) (s : StateStore) (action : Governance.ProposalAction) : Prop :=
  ∀ bps reason v, action = .slashValidator a bps reason → validatorOf s a = some v →
    m + delegatedTo s a + (StakingModule.slashOf v.stake bps).toNat ≤ v.stake.toNat

theorem SlashCovered.spares {action : Governance.ProposalAction} (h : SlashCovered s action)
    (a : Address) : Spares 0 a s action := by
  rintro bps reason v rfl hv
  rw [Nat.zero_add]
  exact h v hv

/-- The action of a proposal writes an account, an attestor or a slashed validator. -/
theorem proposalAction_rule {I : StateStore → Prop}
    (hOther : ∀ t, Store.Holds (Keeps [.account, .attestor] s) t → I t)
    {action : Governance.ProposalAction}
    (hSlash : ∀ a bps reason v, action = .slashValidator a bps reason → validatorOf s a = some v →
      I (withValidator s
        { v with stake := saturatingSub v.stake (StakingModule.slashOf v.stake bps) })) :
    (Governance.executeProposalAction action).Wp (fun _ t => I t) s := by
  have hSame : I s := hOther s (holds_keeps _ s)
  cases action with
  | slashValidator b bps reason =>
      simp only [Governance.executeProposalAction, Prog.bind_eq, wp_getValidator_bind,
        Prog.wp_require_bind]
      exact ⟨fun _ => hSame, fun v hv => hSlash b bps reason v rfl hv⟩
  | parameterChange _ _ => exact hSame
  | treasurySpend recipient amount _ =>
      exact hOther _ (run_keeps (creditOrCreate_keeps (F := [.account, .attestor]) (by simp) _ _ _))
  | approveAttestor _ _ => exact hSame
  | suspendAttestor b =>
      refine hOther _ (run_keeps (F := [.account, .attestor]) ?_)
      intro r _
      cases r with
      | none => trivial
      | some x => exact put_keeps (k := .attestor _) (by simp [familyOf])
  | textProposal _ _ => exact hSame

/-- Executing a proposal writes accounts, attestors, the proposal and a slashed validator. -/
theorem executeProposal_rule {I : StateStore → Prop}
    (hOther : ∀ t u, I t → Store.Holds (Keeps [.account, .attestor, .proposal] t) u → I u)
    (h : I s) {config : ChainConfig} {id : Hash}
    (hSlash : ∀ p, Executes config height s id p → ∀ a bps reason v,
      p.action = .slashValidator a bps reason → validatorOf s a = some v →
      I (withValidator s
        { v with stake := saturatingSub v.stake (StakingModule.slashOf v.stake bps) })) :
    (Governance.executeExecuteProposal config id height).Wp (fun _ t => I t) s := by
  have hWider : ∀ t u : StateStore, Store.Holds (Keeps [.account, .attestor] t) u →
      Store.Holds (Keeps [.account, .attestor, .proposal] t) u :=
    fun t u hu k hk => hu k fun hMem => hk (by simp_all)
  have hCredit : ∀ t, I t → ∀ b n k, (creditOrCreate b n k).Wp (fun _ t => I t) t :=
    fun t ht b n k => hOther t _ ht (run_keeps (creditOrCreate_keeps (by simp) _ _ _))
  have hStore : ∀ t, I t → ∀ p : Governance.Proposal,
      (setProposal p : Handler Unit).Wp (fun _ t => I t) t :=
    fun t ht p => hOther t _ ht (run_keeps (put_keeps (by simp [familyOf])))
  simp only [Governance.executeExecuteProposal, Prog.bind_eq, wp_getProposal_bind,
    Prog.wp_require_bind, Prog.wp_ensure_bind, wp_calculateTotalStaked_bind]
  refine ⟨fun _ => h, fun p hp => ⟨fun _ => h, fun hVoting => ⟨fun _ => h, fun hEnd => ?_⟩⟩⟩
  have hFinish : ∀ r : Governance.Proposal × List Event, ∀ t, I t →
      ((setProposal r.1).bind fun _ => Pure.pure r.2 : Handler (List Event)).Wp
        (fun _ t => I t) t :=
    fun r t ht => (hStore t ht r.1).seq (fun _ h => h) fun _ _ hu => hu
  split
  · rename_i hPass
    have hAction : (Governance.executeProposalAction p.action).Wp (fun _ t => I t) s :=
      proposalAction_rule (fun t ht => hOther s t h (hWider s t ht))
        (hSlash p ⟨hp, hVoting, UInt64.not_le.mp hEnd, hPass⟩)
    have hPassed : (Governance.applyPassed id p height).Wp (fun _ t => I t) s :=
      hAction.seq (fun _ h => h) fun _ t ht =>
        (hCredit t ht _ _ _).seq (fun _ h => h) fun _ _ hu => hu
    exact hPassed.seq (fun _ h => h) hFinish
  · have hRejected : (Governance.applyRejected id p height).Wp (fun _ t => I t) s := by
      refine Prog.Wp.seq ?_ (fun _ h => h) fun _ _ hu => hu
      unfold Prog.when
      split
      · exact hCredit s h _ _ _
      · exact h
    exact hRejected.seq (fun _ h => h) hFinish

theorem Covers.executeProposal (h : Covers m a s) {config : ChainConfig} {id : Hash}
    (hSpares : ∀ p, Executes config height s id p → Spares m a s p.action) :
    (Governance.executeExecuteProposal config id height).Wp (fun _ t => Covers m a t) s := by
  refine executeProposal_rule (fun t u ht hu => ht.of_keeps hu (by simp) (by simp)) h ?_
  intro p hp b bps reason v hAction hv
  have hAddress := address_of_validatorOf hv
  rw [Covers, delegatedTo_withValidator, stakeAt_withValidator]
  by_cases hEq : a = b
  · subst hEq
    have hRest := hSpares p hp bps reason v hAction hv
    rw [if_pos hAddress.symm]
    show m + delegatedTo s a ≤ (saturatingSub _ _).toNat
    rw [toNat_saturatingSub]
    omega
  · rw [if_neg (by rwa [hAddress])]
    exact h

/-- No action takes stake of its own from a validator, unless it slashes it or the sums do
not fit into 64 bits. -/
theorem Covers.dispatchAction (h : Covers m a s) (sha256 : List UInt8 → Hash) (ex : Executor)
    (action : TransactionAction) (signer : Address) (timestamp height : UInt64)
    (hDelegate : ∀ amount, action = .delegateStake a amount →
      m + delegatedTo s a + amount.toNat < 2 ^ 64)
    (hProposal : ∀ id, action = .executeProposal id →
      ∀ p, Executes ex.chainConfig height s id p → Spares m a s p.action) :
    (ex.dispatchAction sha256 action signer timestamp height).Wp (fun _ t => Covers m a t) s := by
  have hKeeps := dispatchAction_keeps sha256 ex action signer timestamp height (s := s)
  cases action
  case registerValidator bps => exact Prog.wp_bind_pure.mpr (h.registerValidator _ _ _)
  case delegateStake v amount =>
    exact Prog.wp_bind_pure.mpr (h.delegateStake _ _ _ _ _ fun hEq => hDelegate amount (hEq ▸ rfl))
  case undelegateStake v amount => exact Prog.wp_bind_pure.mpr (h.undelegateStake _ _ _ _ _)
  case executeProposal id =>
    exact Prog.wp_bind_pure.mpr (h.executeProposal (hProposal id rfl))
  all_goals exact h.wp_of_keeps hKeeps (by simp [writtenBy]) (by simp [writtenBy])

/-- What a transaction must not do to take stake of its own from a validator. -/
structure Harmless (ex : Executor) (tx : SignedTransaction) (height : UInt64) (m : Nat)
    (a : Address) (s : StateStore) : Prop where
  delegation : ∀ amount, tx.transaction.action = .delegateStake a amount →
    m + delegatedTo s a + amount.toNat < 2 ^ 64
  proposal : ∀ id, tx.transaction.action = .executeProposal id →
    ∀ p, Executes ex.chainConfig height s id p → Spares m a s p.action

theorem Covers.transaction {sha256 : List UInt8 → Hash} {ex : Executor} (h : Covers m a s)
    {tx : SignedTransaction} {proposer : Address} (hHarmless : Harmless ex tx height m a s) :
    Covers m a ((ex.executeTransaction sha256 tx height proposer).run s).2 := by
  rcases (ex.executeTransaction_run sha256 tx height proposer s).stages with
    ⟨_, hSame⟩ | ⟨s₁, hStages⟩
  · rw [hSame]
    exact h
  · have hFee := hStages.collected.keeps
    have hValidator : validatorOf s₁ a = validatorOf s a := by
      rw [validatorOf, hFee (.validator a) (by simp [familyOf, feeFamilies]), validatorOf]
    have hDelegated : delegatedTo s₁ a = delegatedTo s a :=
      total_delegationFigure_congr fun d => hFee (.delegation d a) (by simp [familyOf, feeFamilies])
    have h₁ : Covers m a s₁ := h.of_keeps hFee (by simp [feeFamilies]) (by simp [feeFamilies])
    have hAction : (ex.action sha256 tx height).Wp (fun _ t => Covers m a t) s₁ := by
      refine h₁.dispatchAction sha256 ex _ _ _ _ (fun amount hEq => ?_) fun id hEq p hp => ?_
      · rw [hDelegated]
        exact hHarmless.delegation amount hEq
      · have hOld := hp.congr hFee (by simp [feeFamilies]) (by simp [feeFamilies])
        intro bps reason v hSlash hv
        rw [hDelegated]
        exact hHarmless.proposal id hEq p hOld bps reason v hSlash (hValidator ▸ hv)
    exact Covers.of_keeps hAction hStages.spent (by simp) (by simp)

end Handlers

end Polay.Validator
