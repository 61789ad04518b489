import Polay.Lib.Sums
import Polay.Lib.Total
import Polay.Validator.GenesisRuns
import Polay.Validator.StakingModule

/-!
# The two views of the stake

Execution keeps validators and delegations under keys of their own, the staking
module finds them through two lists of addresses. Only genesis writes the list of
validators, and nothing in a block writes the lists of delegators. So a validator
registered by a transaction is in no epoch, and a delegation earns nothing and is
never slashed.

`SameStake` says that the two views agree. It holds along every run in which no
transaction registers a validator and none delegates a positive amount
(`sameStake_of_quiet`); `registered_unlisted` is a run in which it fails.
-/

namespace Polay.Validator

open Lib Lib.Machine Polay.Types State Execution

/-- Execution and the staking module see the same stake: the listed validators are the
stored ones, the listed delegations to a validator are the stored ones that are not
zero, and both compute the same total. -/
structure SameStake (s : StateStore) : Prop where
  validators : ∃ vs, (StakingModule.getValidatorSet : Exec StakingError _).run s = (.ok vs, s) ∧
    vs.Nodup ∧ ∀ v, v ∈ vs ↔ validatorOf s v.address = some v
  delegations : ∀ validator, ∃ ds,
    (StakingModule.getDelegationsForValidator validator : Exec StakingError _).run s =
      (.ok ds, s) ∧
    ds.Nodup ∧ ∀ d, d ∈ ds ↔ d.validator = validator ∧
      delegationOf s d.delegator d.validator = some d ∧ d.amount ≠ 0
  total : ∃ n, StakingModule.getTotalStaked.run s = (.ok n, s) ∧
    Governance.calculateTotalStaked.run s = (.ok n, s)

/-- What the turn of a transaction does not do: register a validator, or delegate a
positive amount to an active one. -/
def StakeQuiet (ex : Executor) (turn : Turn) : Prop :=
  match turn.step.tx.transaction.action with
  | .registerValidator commissionBps => ex.Charged turn.step →
      (validatorOf turn.step.before turn.step.tx.signer).isSome = true ∨
        ex.chainConfig.maxCommissionBps < commissionBps
  | .delegateStake validator amount => ex.Charged turn.step →
      amount = 0 ∨ ∀ v, validatorOf turn.step.before validator = some v → v.isActive = false
  | _ => True

/-! ## The roster -/

/-- The validators `V` and nobody else have records, with at most the stakes `S`, and
are listed; no delegation is worth anything and no delegator is listed. -/
def Roster (V : List Address) (S : Address → Nat) (k : Key) (r : Option k.Value) : Prop :=
  match k, r with
  | .validator a, r =>
      (r.isSome = true ↔ a ∈ V) ∧ ∀ v, r = some v → (ValidatorInfo.stake v.val).toNat ≤ S a
  | .delegation _ _, r => ∀ d, r = some d → Delegation.amount d.val = 0
  | .validatorAddresses, r => (r.map fun x => x.val).getD ([] : List Address) = V
  | .delegators _, r => r = none
  | _, _ => True

section Rules

variable {V : List Address} {S : Address → Nat} {β : Type} {w : Bool}

theorem free_roster {F : List Family} (hValidator : Family.validator ∉ F)
    (hDelegation : Family.delegation ∉ F) (hList : Family.stakingList ∉ F) :
    Free F (Roster V S) := by
  intro k r hk
  cases k
  case validator a => exact absurd hk hValidator
  case delegation d v => exact absurd hk hDelegation
  case validatorAddresses | delegators => exact absurd hk hList
  all_goals trivial

theorem free_roster_account : Free [.account] (Roster V S) :=
  free_roster (by simp) (by simp) (by simp)

theorem roster_readValidator {a : Address} {e : ExecutionError} {f : ValidatorInfo → Handler β}
    (h : ∀ v : ValidatorInfo, v.address ∈ V → v.stake.toNat ≤ S v.address →
      (f v).Safe (Roster V S) True True w) :
    ((getValidator a).bind fun r => (Prog.require r e).bind f).Safe (Roster V S) True True w := by
  intro r hr
  cases r with
  | none => exact fun _ => trivial
  | some v =>
      have hStored := stored_validator (R := Roster V S) v.val v.property hr
      exact h v.val (hStored.1.mp rfl) (hStored.2 _ rfl)

@[simp] theorem roster_setValidator {v : ValidatorInfo} {f : Unit → Handler β} :
    ((setValidator v).bind f).Safe (Roster V S) True True w ↔
      (v.address ∈ V ∧ v.stake.toNat ≤ S v.address) ∧ (f ()).Safe (Roster V S) True True true := by
  simp [setValidator, storePut, Roster]

@[simp] theorem roster_getDelegation {d v : Address} {f : Option Delegation → Handler β} :
    ((getDelegation d v).bind f).Safe (Roster V S) True True w ↔
      (f none).Safe (Roster V S) True True w ∧
      ∀ x : Delegation, x.delegator = d → x.validator = v → x.amount = 0 →
        (f (some x)).Safe (Roster V S) True True w := by
  constructor
  · intro h
    refine ⟨h none (by simp [Roster]), fun x hd hv hZero => h (some ⟨x, hd, hv⟩) ?_⟩
    intro y hy
    cases hy
    exact hZero
  · intro h r hr
    cases r with
    | none => exact h.1
    | some x => exact h.2 x.val x.property.1 x.property.2 (hr x rfl)

@[simp] theorem roster_setDelegation {x : Delegation} {f : Unit → Handler β} :
    ((setDelegation x).bind f).Safe (Roster V S) True True w ↔
      x.amount = 0 ∧ (f ()).Safe (Roster V S) True True true := by
  simp [setDelegation, storePut, Roster]

end Rules

/-! ## Actions -/

section Actions

variable {V : List Address} {S : Address → Nat}
variable (config : ChainConfig) (signer validator : Address)

theorem executeRegisterValidator_roster (commission : UInt16)
    (h : signer ∈ V ∨ config.maxCommissionBps < commission) :
    (Staking.executeRegisterValidator config signer commission).Safe (Roster V S) True True
      false := by
  intro r hr
  show ((Prog.ensure _ _).bind _).Safe _ _ _ _
  rw [Prog.safe_ensure_bind]
  refine ⟨fun _ _ => trivial, fun hNone => ?_⟩
  show ((Prog.ensure _ _).bind _).Safe _ _ _ _
  rw [Prog.safe_ensure_bind]
  refine ⟨fun _ _ => trivial, fun hMax => ?_⟩
  rcases h with hMem | hLt
  · have hSome : r.isSome = true := hr.1.mpr hMem
    cases r with
    | none => cases hSome
    | some v => cases hNone
  · exact absurd hLt hMax

theorem executeDelegateStake_roster (height : UInt64) :
    (Staking.executeDelegateStake config signer validator 0 height).Safe (Roster V S) True True
      false := by
  refine roster_readValidator fun v hMem hStake => ?_
  have hSame : saturatingAdd v.stake 0 = v.stake := saturatingAdd_zero v.stake
  simp +contextual [free_loadAccount free_roster_account, free_debited,
    free_setAccount free_roster_account, hMem, hStake, hSame, Delegation.new, saturatingAdd_zero]

theorem executeUndelegateStake_roster (amount height : UInt64) :
    (Staking.executeUndelegateStake config signer validator amount height).Safe (Roster V S)
      True True false := by
  refine roster_readValidator fun v hMem hStake => ?_
  have hLess : (saturatingSub v.stake amount).toNat ≤ S v.address := by
    rw [toNat_saturatingSub]
    omega
  simp +contextual [getUnbondingEntries, setUnbondingEntry, prefixScan, storePut, Roster, hMem,
    hLess]

theorem executeProposalAction_roster (action : Governance.ProposalAction) :
    (Governance.executeProposalAction action).Safe (Roster V S) True True false := by
  cases action with
  | parameterChange p v => trivial
  | approveAttestor a g => trivial
  | textProposal t d => trivial
  | treasurySpend a n reason => exact free_creditOrCreate_self free_roster_account
  | suspendAttestor a =>
      show (Governance.suspendAttestor a).Safe _ _ _ _
      intro r hr
      cases r with
      | none => trivial
      | some attestor => exact ⟨trivial, trivial⟩
  | slashValidator a bps reason =>
      refine roster_readValidator fun v hMem hStake => ?_
      have hLess : (saturatingSub v.stake
          (UInt64.ofNat (v.stake.toNat * bps.toNat / 10000))).toNat ≤ S v.address := by
        rw [toNat_saturatingSub]
        omega
      simp [setValidator, storePut, Roster, hMem, hLess]

theorem executeExecuteProposal_roster (id : Hash) (height : UInt64) :
    (Governance.executeExecuteProposal config id height).Safe (Roster V S) True True false := by
  simp [Governance.executeExecuteProposal, Governance.calculateTotalStaked, getProposal,
    setProposal, prefixScan, storeGet, storePut, Roster, Governance.applyPassed,
    Governance.applyRejected, Prog.Safe.bind, executeProposalAction_roster,
    free_creditOrCreate free_roster_account]

/-- Delegating to nobody active fails without a write. -/
theorem executeDelegateStake_inactive (amount height : UInt64) {s : StateStore}
    (h : ∀ v, validatorOf s validator = some v → v.isActive = false) :
    ((Staking.executeDelegateStake config signer validator amount height).run s).2 = s := by
  show (((Prog.require (validatorOf s validator) _).bind _).run s).2 = s
  cases hv : validatorOf s validator with
  | none => rfl
  | some v => simp [Prog.require, Prog.ensure, h v hv]

/-- An action that registers no validator and delegates nothing keeps the roster. -/
theorem dispatchAction_roster (sha256 : List UInt8 → Hash) (ex : Executor)
    {action : TransactionAction} {signer : Address} {t h : UInt64} {s : StateStore}
    (hs : Store.Holds (Roster V S) s)
    (hRegister : ∀ bps, action = .registerValidator bps →
      signer ∈ V ∨ ex.chainConfig.maxCommissionBps < bps)
    (hDelegate : ∀ validator amount, action = .delegateStake validator amount →
      amount = 0 ∨ ∀ v, validatorOf s validator = some v → v.isActive = false) :
    Store.Holds (Roster V S) ((ex.dispatchAction sha256 action signer t h).run s).2 := by
  have hKeeps := run_keeps (dispatchAction_keeps sha256 ex action signer t h (s := s))
  have hSafe : ∀ {p : Handler (List Event)} {g : List Event → List Event × List StateChange},
      p.Safe (Roster V S) True True false →
      Store.Holds (Roster V S) ((p.bind fun e => .pure (g e)).run s).2 := by
    intro p g hp
    have hBind : (p.bind fun e => .pure (g e)).Safe (Roster V S) True True false :=
      hp.bind fun _ => trivial
    exact (hBind.sound hs).holds
  cases action
  case registerValidator bps =>
    exact hSafe (executeRegisterValidator_roster _ _ _ (hRegister bps rfl))
  case delegateStake validator amount =>
    rcases hDelegate validator amount rfl with rfl | hInactive
    · exact hSafe (executeDelegateStake_roster _ _ _ _)
    · have hSame := executeDelegateStake_inactive ex.chainConfig signer validator amount h
        hInactive
      show Store.Holds (Roster V S) (((Staking.executeDelegateStake _ _ _ _ _).bind _).run s).2
      rw [Prog.run_bind]
      generalize (Staking.executeDelegateStake _ _ _ _ _).run s = result at hSame
      obtain ⟨outcome, s'⟩ := result
      obtain rfl : s' = s := hSame
      cases outcome <;> exact hs
  case undelegateStake validator amount => exact hSafe (executeUndelegateStake_roster _ _ _ _ _)
  case executeProposal id => exact hSafe (executeExecuteProposal_roster _ _ _)
  all_goals
    exact holds_of_keeps (free_roster (by simp [writtenBy]) (by simp [writtenBy])
      (by simp [writtenBy])) hs hKeeps

end Actions

/-! ## Runs -/

section Runs

variable {sha256 : List UInt8 → Hash} {ex : Executor} {V : List Address} {S : Address → Nat}
variable {s : StateStore}

theorem mem_of_validatorOf (hs : Store.Holds (Roster V S) s) {a : Address} :
    (validatorOf s a).isSome = true ↔ a ∈ V := by
  rw [← (hs (.validator a)).1, validatorOf, Option.isSome_map]

theorem roster_turn {turn : Turn} (hs : Store.Holds (Roster V S) s)
    (h : TurnFrom sha256 ex s turn) (hQuiet : StakeQuiet ex turn) :
    Store.Holds (Roster V S) turn.step.after := by
  obtain ⟨rfl, hStep, _⟩ := h
  by_cases hCharged : ex.Charged turn.step
  · rw [(hStep.after_charged hCharged).1]
    refine (ex.executeTransaction_run sha256 turn.step.tx turn.height turn.proposer
      turn.step.before).holds (free_roster (by simp [feeFamilies]) (by simp [feeFamilies])
      (by simp [feeFamilies])) hs fun s₁ hCollected h₁ => ?_
    have hSame : ∀ a, validatorOf s₁ a = validatorOf turn.step.before a := by
      intro a
      unfold validatorOf
      rw [hCollected.other (.validator a) (by simp) (by simp)]
    unfold StakeQuiet at hQuiet
    refine dispatchAction_roster sha256 ex h₁ (fun bps hAction => ?_)
      fun validator amount hAction => ?_
    · rw [hAction] at hQuiet
      exact (hQuiet hCharged).imp_left (mem_of_validatorOf hs).mp
    · rw [hAction] at hQuiet
      rw [hSame]
      exact hQuiet hCharged
  · rw [hStep.after_eq hCharged]
    exact hs

theorem lenient_roster : Lenient (Roster V S) where
  free := free_roster (by simp) (by simp) (by simp)
  unjail v h := ⟨⟨h.1.mp, fun _ => rfl⟩, fun x hx => by cases hx; exact h.2 ⟨v, rfl⟩ rfl⟩
  count v n h := ⟨⟨h.1.mp, fun _ => rfl⟩, fun x hx => by cases hx; exact h.2 ⟨v, rfl⟩ rfl⟩

/-- The roster of a quiet run stays. -/
theorem roster_of_quiet {s₀ : StateStore} (h₀ : Reachable sha256 ex s₀)
    (hStart : Store.Holds (Roster V S) s₀) {l : List Turn} (hRun : ChainRun sha256 ex s₀ l s)
    (hQuiet : ∀ turn ∈ l, StakeQuiet ex turn) : Store.Holds (Roster V S) s := by
  let Inv (l : List Turn) (s : StateStore) : Prop :=
    (∀ turn ∈ l, StakeQuiet ex turn) → Store.Holds (Roster V S) s
  suffices hInv : Inv l s from hInv hQuiet
  refine ChainRun.rule (fun l s height ih hQ => ?_) (fun l s turn ih hTurn hQ => ?_)
    (fun l s block receipts ih hQ => ?_) (fun l s proposer ih hQ => ?_)
    (fun l s height ih hQ => ?_) h₀ (fun _ => hStart) hRun
  · exact holds_of_keeps (free_roster (by simp) (by simp) (by simp)) (ih hQ)
      (unbonded_keeps height s)
  · have hOld : ∀ t ∈ l, StakeQuiet ex t := fun t ht => hQ t (List.mem_append_left _ ht)
    exact roster_turn (ih hOld) hTurn (hQ turn (by simp))
  · exact ((applyBlock_safe lenient_roster _ _).sound (ih hQ)).holds
  · exact ((applyBlockReward_safe lenient_roster _ _).sound (ih hQ)).holds
  · exact ((processEpochTransition_safe lenient_roster _ _).sound (ih hQ)).holds

end Runs

/-! ## What the roster says about the queries -/

section Queries

variable {ε : Type} {V : List Address} {S : Address → Nat} {s : StateStore}

theorem run_loadValidators (l : List Address) (s : StateStore) :
    (StakingModule.loadValidators l : Exec ε _).run s = (.ok (l.filterMap (validatorOf s)), s) := by
  induction l with
  | nil => rfl
  | cons a rest ih =>
      show (((StakingModule.loadValidators rest).bind _).run s) = _
      rw [Prog.run_bind, ih]
      show (Outcome.ok ((validatorOf s a).toList ++ _), s) = _
      cases h : validatorOf s a <;> simp [h]

theorem run_loadDelegations (validator : Address) (l : List Address) (s : StateStore) :
    (StakingModule.loadDelegations validator l : Exec ε _).run s =
      (.ok (l.filterMap fun d => delegationOf s d validator), s) := by
  induction l with
  | nil => rfl
  | cons a rest ih =>
      show (((StakingModule.loadDelegations validator rest).bind _).run s) = _
      rw [Prog.run_bind, ih]
      show (Outcome.ok ((delegationOf s a validator).toList ++ _), s) = _
      cases h : delegationOf s a validator <;> simp [h]

theorem address_of_validatorOf {a : Address} {v : ValidatorInfo}
    (h : validatorOf s a = some v) : v.address = a := by
  obtain ⟨x, _, rfl⟩ := Option.map_eq_some_iff.mp h
  exact x.property

/-- The listed validators of a store. -/
def listedValidators (V : List Address) (s : StateStore) : List ValidatorInfo :=
  V.filterMap (validatorOf s)

theorem run_getValidatorSet (s : StateStore) :
    (StakingModule.getValidatorSet : Exec ε _).run s =
      (.ok (listedValidators (validatorList s) s), s) := by
  show (StakingModule.loadValidators (validatorList s)).run s = _
  rw [run_loadValidators]
  rfl

theorem run_getValidatorSet_of_roster (hs : Store.Holds (Roster V S) s) :
    (StakingModule.getValidatorSet : Exec ε _).run s = (.ok (listedValidators V s), s) := by
  have hList : validatorList s = V := hs .validatorAddresses
  rw [run_getValidatorSet, hList]

theorem mem_listedValidators (hs : Store.Holds (Roster V S) s) (v : ValidatorInfo) :
    v ∈ listedValidators V s ↔ validatorOf s v.address = some v := by
  unfold listedValidators
  rw [List.mem_filterMap]
  constructor
  · rintro ⟨a, _, ha⟩
    rwa [address_of_validatorOf ha]
  · intro h
    refine ⟨v.address, (mem_of_validatorOf hs).mp ?_, h⟩
    rw [h]
    rfl

theorem nodup_listedValidators (hV : V.Nodup) (s : StateStore) :
    (listedValidators V s).Nodup := by
  refine hV.filterMap fun a b v ha hb => ?_
  rw [← address_of_validatorOf ha, ← address_of_validatorOf hb]

/-! ### Totals -/

theorem sum_stake_listedValidators (hs : Store.Holds (Roster V S) s) :
    ((listedValidators V s).map fun v => v.stake.toNat).sum ≤ (V.map S).sum := by
  have hEach : ∀ a v, validatorOf s a = some v → v.stake.toNat ≤ S a := by
    intro a v h
    obtain ⟨x, hx, rfl⟩ := Option.map_eq_some_iff.mp h
    exact (hs (.validator a)).2 x hx
  unfold listedValidators
  clear hs
  induction V with
  | nil => simp
  | cons a rest ih =>
      cases h : validatorOf s a with
      | none =>
          simp only [List.filterMap_cons, h, List.map_cons, List.sum_cons]
          omega
      | some v =>
          have hHead := hEach a v h
          simp only [List.filterMap_cons, h, List.map_cons, List.sum_cons]
          omega

theorem addStakes_eq (vs : List ValidatorInfo) (acc : UInt64)
    (h : acc.toNat + (vs.map fun v => v.stake.toNat).sum < 2 ^ 64) :
    ∃ n, StakingModule.addStakes acc vs = some n ∧
      n.toNat = acc.toNat + (vs.map fun v => v.stake.toNat).sum := by
  induction vs generalizing acc with
  | nil => exact ⟨acc, rfl, by simp⟩
  | cons v rest ih =>
      simp only [List.map_cons, List.sum_cons] at h ⊢
      have hAdd : (acc + v.stake).toNat = acc.toNat + v.stake.toNat := by
        rw [UInt64.toNat_add]
        omega
      have hChecked : checkedAdd acc v.stake = some (acc + v.stake) := by
        rw [checkedAdd_eq_some]
        omega
      obtain ⟨n, hn, hValue⟩ := ih (acc + v.stake) (by omega)
      refine ⟨n, ?_, by omega⟩
      rw [StakingModule.addStakes, hChecked]
      exact hn

theorem toNat_sumOver (f : Sigma Key.Value → UInt64) (l : List (Sigma Key.Value)) :
    (Governance.sumOver f l).toNat = min ((l.map fun e => (f e).toNat).sum) (2 ^ 64 - 1) := by
  rw [Governance.sumOver, toNat_foldl_saturatingAdd, UInt64.toNat_zero, Nat.zero_add]

/-- The validator stored in an entry. -/
def validatorInfo? : Sigma Key.Value → Option ValidatorInfo
  | ⟨.validator _, info⟩ => some info.val
  | _ => none

theorem validatorEntry_eq (v : ValidatorInfo) {a : Address} (h : v.address = a) :
    (⟨.validator a, v, h⟩ : Sigma Key.Value) = ⟨.validator v.address, v, rfl⟩ := by
  subst h
  rfl

theorem validatorInfo?_eq_some {e : Sigma Key.Value} {v : ValidatorInfo}
    (h : validatorInfo? e = some v) : e = ⟨.validator v.address, v, rfl⟩ := by
  obtain ⟨k, x⟩ := e
  cases k
  case validator a =>
    obtain rfl : x.val = v := Option.some.inj h
    exact validatorEntry_eq x.val x.property
  all_goals cases h

theorem validatorStake_of_none {e : Sigma Key.Value} (h : validatorInfo? e = none) :
    Governance.validatorStake e = 0 := by
  obtain ⟨k, x⟩ := e
  cases k
  case validator a => cases h
  all_goals rfl

theorem sum_validatorStake (l : List (Sigma Key.Value)) :
    (l.map fun e => (Governance.validatorStake e).toNat).sum =
      ((l.filterMap validatorInfo?).map fun v => v.stake.toNat).sum := by
  induction l with
  | nil => rfl
  | cons e l ih =>
      rw [List.map_cons, List.sum_cons, ih]
      cases h : validatorInfo? e with
      | none =>
          rw [List.filterMap_cons_none h, validatorStake_of_none h]
          exact Nat.zero_add _
      | some v =>
          rw [List.filterMap_cons_some h, validatorInfo?_eq_some h]
          rfl

/-- The validators governance scans are the listed ones. -/
theorem scan_perm_listed (hs : Store.Holds (Roster V S) s) (hV : V.Nodup) :
    ((Store.scan s (Key.startsWith [0x05])).filterMap validatorInfo?).Perm
      (listedValidators V s) := by
  have hScan : (Store.scan s (Key.startsWith [0x05])).Nodup := (Store.nodup_toList s).filter _
  have hNodup : ((Store.scan s (Key.startsWith [0x05])).filterMap validatorInfo?).Nodup := by
    refine hScan.filterMap fun e e' v h h' => ?_
    rw [validatorInfo?_eq_some h, validatorInfo?_eq_some h']
  rw [List.perm_ext_iff_of_nodup hNodup (nodup_listedValidators hV s)]
  intro v
  rw [mem_listedValidators hs, List.mem_filterMap]
  constructor
  · rintro ⟨e, hMem, he⟩
    obtain rfl := validatorInfo?_eq_some he
    unfold validatorOf
    rw [(Store.mem_scan.mp hMem).2]
    rfl
  · intro h
    obtain ⟨x, hx, hv⟩ := Option.map_eq_some_iff.mp h
    exact ⟨⟨.validator _, x⟩, Store.mem_scan.mpr ⟨rfl, hx⟩, congrArg some hv⟩

/-- With a roster whose stakes fit, execution and the staking module agree. -/
theorem sameStake_of_roster (hs : Store.Holds (Roster V S) s) (hV : V.Nodup)
    (hFits : (V.map S).sum < 2 ^ 64) : SameStake s where
  validators :=
    ⟨listedValidators V s, run_getValidatorSet_of_roster hs, nodup_listedValidators hV s,
      mem_listedValidators hs⟩
  delegations := by
    intro validator
    have hNone : s.get? (.delegators validator) = none := hs (.delegators validator)
    refine ⟨[], ?_, List.nodup_nil, fun d => ?_⟩
    · show (StakingModule.loadDelegations validator (((s.get? _).map _).getD _)).run s = _
      rw [hNone]
      rfl
    · simp only [List.not_mem_nil, false_iff, not_and, not_not]
      intro _ hStored
      obtain ⟨x, hx, hd⟩ := Option.map_eq_some_iff.mp hStored
      rw [← hd]
      exact hs (.delegation d.delegator d.validator) x hx
  total := by
    have hSum := sum_stake_listedValidators hs
    obtain ⟨n, hn, hValue⟩ := addStakes_eq (listedValidators V s) 0
      (by rw [show (0 : UInt64).toNat = 0 from rfl]; omega)
    refine ⟨n, ?_, ?_⟩
    · show (StakingModule.getValidatorSet.bind _).run s = _
      rw [Prog.run_bind, run_getValidatorSet_of_roster hs]
      show (Prog.require (StakingModule.addStakes 0 (listedValidators V s)) _).run s = _
      rw [hn]
      rfl
    · show (Outcome.ok (Governance.sumOver Governance.validatorStake
        (Store.scan s (Key.startsWith [0x05]))), s) = _
      have hScan := ((scan_perm_listed hs hV).map fun v => v.stake.toNat).sum_eq
      have hTotal : (Governance.sumOver Governance.validatorStake
          (Store.scan s (Key.startsWith [0x05]))).toNat = n.toNat := by
        rw [toNat_sumOver, sum_validatorStake, hScan, hValue,
          show (0 : UInt64).toNat = 0 from rfl]
        omega
      rw [UInt64.toNat_inj.mp hTotal]

end Queries

/-! ## Genesis -/

section Genesis

variable {V : List Address} {s t : StateStore}

/-- The stake stored for an address. -/
def stakeAt (s : StateStore) (a : Address) : Nat :=
  ((validatorOf s a).map fun v => v.stake.toNat).getD 0

/-- The validators `V` are stored and listed, and nothing is delegated. -/
structure Enrolled (V : List Address) (s : StateStore) : Prop where
  nodup : V.Nodup
  record : ∀ a, (validatorOf s a).isSome = true ↔ a ∈ V
  listed : validatorList s = V
  delegators : ∀ v, s.get? (.delegators v) = none
  delegation : ∀ d v, s.get? (.delegation d v) = none

theorem Enrolled.roster (h : Enrolled V s) : Store.Holds (Roster V (stakeAt s)) s := by
  intro k
  cases k
  case validator a =>
    refine ⟨?_, fun v hv => ?_⟩
    · rw [← h.record a, validatorOf, Option.isSome_map]
    · rw [stakeAt, validatorOf, hv]
      exact Nat.le_refl _
  case delegation d v =>
    intro x hx
    rw [h.delegation] at hx
    cases hx
  case validatorAddresses => exact h.listed
  case delegators v => exact h.delegators v
  all_goals trivial

/-- Records other than those of the staking families do not matter. -/
theorem Enrolled.congr {F : List Family} (h : Enrolled V s) (hKeeps : Store.Holds (Keeps F s) t)
    (hValidator : Family.validator ∉ F) (hDelegation : Family.delegation ∉ F)
    (hList : Family.stakingList ∉ F) : Enrolled V t ∧ stakeAt t = stakeAt s := by
  have hSame : ∀ a, validatorOf t a = validatorOf s a := by
    intro a
    unfold validatorOf
    rw [hKeeps (.validator a) hValidator]
  refine ⟨⟨h.nodup, fun a => ?_, ?_, fun v => ?_, fun d v => ?_⟩, ?_⟩
  · rw [hSame, h.record]
  · rw [validatorList, hKeeps .validatorAddresses hList]
    exact h.listed
  · rw [hKeeps (.delegators v) hList, h.delegators]
  · rw [hKeeps (.delegation d v) hDelegation, h.delegation]
  · funext a
    rw [stakeAt, hSame, stakeAt]

theorem sum_stakeAt_withValidator (hV : V.Nodup) (v : ValidatorInfo) :
    (V.map (stakeAt (withValidator s v))).sum ≤ (V.map (stakeAt s)).sum + v.stake.toNat ∧
      (v.address ∉ V → (V.map (stakeAt (withValidator s v))).sum = (V.map (stakeAt s)).sum) := by
  have hAt : ∀ a, stakeAt (withValidator s v) a =
      if a = v.address then v.stake.toNat else stakeAt s a := by
    intro a
    rw [stakeAt, validatorOf_withValidator]
    by_cases hEq : a = v.address
    · rw [if_pos hEq, if_pos hEq]
      rfl
    · rw [if_neg hEq, if_neg hEq, stakeAt]
  induction V with
  | nil => simp
  | cons a rest ih =>
      obtain ⟨hNot, hRest⟩ := List.nodup_cons.mp hV
      obtain ⟨hLe, hEq⟩ := ih hRest
      simp only [List.map_cons, List.sum_cons, hAt a, List.mem_cons, not_or]
      by_cases ha : a = v.address
      · have hSame := hEq (ha ▸ hNot)
        rw [if_pos ha]
        exact ⟨by omega, fun h => absurd ha.symm h.1⟩
      · rw [if_neg ha]
        refine ⟨by omega, fun h => ?_⟩
        rw [hEq h.2]

/-- Writing a validator and listing it enrols it. -/
theorem Enrolled.enrol (h : Enrolled V s) (v : ValidatorInfo) :
    ∃ V', Enrolled V' (listedStore V (withValidator s v) v.address) ∧
      (V'.map (stakeAt (listedStore V (withValidator s v) v.address))).sum ≤
        (V.map (stakeAt s)).sum + v.stake.toNat := by
  obtain ⟨hLe, hEq⟩ := sum_stakeAt_withValidator (s := s) h.nodup v
  have hSame : ∀ a, validatorOf (listedStore V (withValidator s v) v.address) a =
      validatorOf (withValidator s v) a := by
    intro a
    unfold validatorOf
    rw [get?_listedStore (by simp)]
  have hStake : stakeAt (listedStore V (withValidator s v) v.address) =
      stakeAt (withValidator s v) := by
    funext a
    rw [stakeAt, hSame, stakeAt]
  have hRecord : ∀ a, (validatorOf (listedStore V (withValidator s v) v.address) a).isSome = true ↔
      a ∈ V ∨ a = v.address := by
    intro a
    rw [hSame, validatorOf_withValidator]
    by_cases ha : a = v.address
    · rw [if_pos ha]
      simp [ha]
    · rw [if_neg ha, h.record]
      exact ⟨.inl, fun hOr => hOr.resolve_right ha⟩
  have hDelegators : ∀ d, (listedStore V (withValidator s v) v.address).get? (.delegators d) =
      none := by
    intro d
    rw [get?_listedStore (by simp), get?_withValidator (by simp), h.delegators]
  have hDelegation : ∀ d d', (listedStore V (withValidator s v) v.address).get?
      (.delegation d d') = none := by
    intro d d'
    rw [get?_listedStore (by simp), get?_withValidator (by simp), h.delegation]
  by_cases hMem : v.address ∈ V
  · refine ⟨V, ⟨h.nodup, fun a => ?_, ?_, hDelegators, hDelegation⟩, by rw [hStake]; exact hLe⟩
    · rw [hRecord]
      exact ⟨fun hOr => hOr.elim id fun ha => ha ▸ hMem, .inl⟩
    · rw [listedStore, if_pos hMem, validatorList, get?_withValidator (by simp)]
      exact h.listed
  · refine ⟨V ++ [v.address], ⟨?_, fun a => ?_, ?_, hDelegators, hDelegation⟩, ?_⟩
    · exact List.nodup_append.mpr ⟨h.nodup, List.nodup_singleton _, fun a ha b hb hab =>
        hMem (List.mem_singleton.mp hb ▸ hab ▸ ha)⟩
    · rw [hRecord, List.mem_append, List.mem_singleton]
    · rw [listedStore, if_neg hMem, validatorList, Std.ExtDTreeMap.get?_insert_self]
      rfl
    · have hNew : stakeAt (withValidator s v) v.address = v.stake.toNat := by
        rw [stakeAt, validatorOf_withValidator, if_pos rfl]
        rfl
      rw [hStake, List.map_append, List.sum_append, List.map_singleton, List.sum_singleton,
        hEq hMem, hNew]

theorem Enrolled.createGenesisValidator (h : Enrolled V s) {gv : GenesisValidator}
    (hRun : (ChainState.createGenesisValidator gv).run s = (.ok (), t)) :
    ∃ V', Enrolled V' t ∧
      (V'.map (stakeAt t)).sum ≤ (V.map (stakeAt s)).sum + gv.stake.toNat := by
  obtain ⟨a, _, rfl⟩ := createGenesisValidator_eq_ok hRun
  rw [h.listed]
  exact h.enrol (genesisRecord gv a)

theorem Enrolled.createGenesisValidators (h : Enrolled V s) {gvs : List GenesisValidator}
    {addrs : List Address}
    (hRun : (ChainState.createGenesisValidators gvs).run s = (.ok addrs, t)) :
    ∃ V', Enrolled V' t ∧ (V'.map (stakeAt t)).sum ≤
      (V.map (stakeAt s)).sum + (gvs.map fun gv => gv.stake.toNat).sum := by
  induction gvs generalizing V s addrs with
  | nil =>
      obtain rfl : s = t := congrArg Prod.snd hRun
      exact ⟨V, h, by simp⟩
  | cons gv rest ih =>
      obtain ⟨a, s₁, more, hFirst, _, _, hRest, _⟩ := createGenesisValidators_cons_eq_ok hRun
      obtain ⟨V₁, h₁, hSum₁⟩ := h.createGenesisValidator hFirst
      obtain ⟨V₂, h₂, hSum₂⟩ := ih h₁ hRest
      refine ⟨V₂, h₂, ?_⟩
      rw [List.map_cons, List.sum_cons]
      omega

theorem enrolled_empty : Enrolled [] (∅ : StateStore) :=
  ⟨List.nodup_nil, fun a => by simp [validatorOf], by simp [validatorList], by simp, by simp⟩

/-- Genesis enrols its validators, with no more stake than the document says. -/
theorem enrolled_genesis {ex : Executor} {g : Genesis} (h : IsGenesis ex g s) :
    ∃ V, Enrolled V s ∧
      (V.map (stakeAt s)).sum ≤ (g.validators.map fun gv => gv.stake.toNat).sum := by
  obtain ⟨s₁, s₂, s₃, addrs, hStages⟩ := stages_of_genesis h
  obtain ⟨h₁, _⟩ := enrolled_empty.congr hStages.accounts_keeps (by simp) (by simp) (by simp)
  obtain ⟨V, h₂, hSum⟩ := h₁.createGenesisValidators hStages.validators
  obtain ⟨h₃, hStake₃⟩ := h₂.congr hStages.tail_keeps (by simp) (by simp) (by simp)
  refine ⟨V, h₃, ?_⟩
  rw [hStake₃]
  simpa using hSum

end Genesis

/-! ## Agreement along a run -/

/-- In a run from a genesis whose stakes fit into 64 bits, in which nobody registers a
validator or delegates to one, execution and the staking module always agree. -/
theorem sameStake_of_quiet {sha256 : List UInt8 → Hash} {ex : Executor} {g : Genesis}
    {s₀ : StateStore} (hGenesis : IsGenesis ex g s₀)
    (hFits : (g.validators.map fun gv => gv.stake.toNat).sum < 2 ^ 64) {l : List Turn}
    {s : StateStore} (hRun : ChainRun sha256 ex s₀ l s)
    (hQuiet : ∀ turn ∈ l, StakeQuiet ex turn) : SameStake s := by
  obtain ⟨V, hEnrolled, hSum⟩ := enrolled_genesis hGenesis
  have hRoster := roster_of_quiet (.genesis hGenesis) hEnrolled.roster hRun hQuiet
  exact sameStake_of_roster hRoster hEnrolled.nodup (Nat.lt_of_le_of_lt hSum hFits)

/-- A genesis with one validator that has an account. -/
def soleValidator : Genesis where
  accounts := [⟨"0101010101010101010101010101010101010101010101010101010101010101", 1000000⟩]
  validators :=
    [⟨"0101010101010101010101010101010101010101010101010101010101010101", 2000000, 500⟩]
  attestors := []
  initialSupply := 1000000

/-- A network with epochs of three blocks and votes that end after one. -/
def shortEpochs : Executor :=
  ⟨{ ChainConfig.default with epochLength := 3, votingPeriodBlocks := 1 }, by decide⟩

def soleValidatorStore : StateStore :=
  ((ChainState.initFromGenesis ⟨shortEpochs.chainConfig⟩ soleValidator).run ∅).2

theorem isGenesis_soleValidator : IsGenesis shortEpochs soleValidator soleValidatorStore :=
  Prod.ext (by decide +kernel) rfl

/-- The store after some blocks of the network. -/
def afterBlocks (s : StateStore) (blocks : List (List SignedTransaction × UInt64)) : StateStore :=
  blocks.foldl (fun s b =>
    ((shortEpochs.executeBlock (fun _ => Hash.zero) b.1 b.2 Address.zero).run s).2) s

/-- The blocks of the first epoch: the validator proposes to slash itself by a part,
votes for it and has the proposal executed. -/
def slashBlocks (fractionBps : UInt16) : List (List SignedTransaction × UInt64) :=
  [([playerTx 0 (.submitProposal (.slashValidator (Address.ofByte 1) fractionBps "") "" "" 100000),
      playerTx 1 (.voteProposal Hash.zero .yes)], 1),
    ([], 2), ([playerTx 2 (.executeProposal Hash.zero)], 3)]

/-- The validator loses half of its stake, and cannot register again. -/
theorem sameStake_of_quiet_slashed :
    let s := afterBlocks soleValidatorStore
      (slashBlocks 5000 ++ [([playerTx 3 (.registerValidator 500)], 4)])
    SameStake s ∧ (StakingModule.getTotalStaked.run soleValidatorStore).1 = .ok 2000000 ∧
      (StakingModule.getTotalStaked.run s).1 = .ok 1000000 := by
  intro s
  have hStart : ChainRun (fun _ => Hash.zero) shortEpochs soleValidatorStore []
    soleValidatorStore := .start
  have hRun := (((hStart.block (slashBlocks 5000)[0].1 1 Address.zero).block [] 2
    Address.zero).block (slashBlocks 5000)[2].1 3 Address.zero).block
    [playerTx 3 (.registerValidator 500)] 4 Address.zero
  refine ⟨sameStake_of_quiet isGenesis_soleValidator (by decide) hRun ?_, by decide +kernel,
    by decide +kernel⟩
  intro turn hMem
  simp only [turnsOf, slashBlocks, Executor.blockSteps, Executor.steps, List.nil_append,
    List.mem_append, List.map_cons, List.map_nil, List.mem_cons, List.not_mem_nil, or_false,
    List.getElem_cons_zero, List.getElem_cons_succ] at hMem
  rcases hMem with ((rfl | rfl) | rfl) | rfl
  · trivial
  · trivial
  · trivial
  · exact fun _ => .inl (by decide +kernel)

/-- The store after a block at height 1 with some transactions. -/
def blockOne (txs : List SignedTransaction) (s : StateStore) : StateStore :=
  ((Executor.devnet.executeBlock (fun _ => Hash.zero) txs 1 Address.zero).run s).2

/-- Register as a validator and delegate to oneself. -/
def registerAndDelegate : List SignedTransaction :=
  [playerTx 0 (.registerValidator 500), playerTx 1 (.delegateStake (Address.ofByte 1) 500)]

/-- A validator registered and a delegation made by transactions are in no list of the
staking module. -/
theorem registered_unlisted :
    ∃ l s, History (fun _ => Hash.zero) Executor.devnet l s ∧ ¬ SameStake s ∧
      (validatorOf s (Address.ofByte 1)).map ValidatorInfo.stake = some 500 ∧
      ((StakingModule.getValidatorSet : Exec StakingError _).run s).1 = .ok [] ∧
      (delegationOf s (Address.ofByte 1) (Address.ofByte 1)).map Delegation.amount = some 500 ∧
      ((StakingModule.getDelegationsForValidator (Address.ofByte 1) :
        Exec StakingError _).run s).1 = .ok [] ∧
      (StakingModule.getTotalStaked.run s).1 = .ok 0 ∧
      (Governance.calculateTotalStaked.run s).1 = .ok 500 := by
  have hGenesis : IsGenesis Executor.devnet onePlayer onePlayerStore :=
    Prod.ext (by decide +kernel) rfl
  have hHistory : History (fun _ => Hash.zero) Executor.devnet
      (turnsOf (fun _ => Hash.zero) Executor.devnet registerAndDelegate 1 Address.zero
        onePlayerStore) (blockOne registerAndDelegate onePlayerStore) :=
    ⟨onePlayer, onePlayerStore, hGenesis, ChainRun.start.block registerAndDelegate 1 Address.zero⟩
  have hModule : (StakingModule.getTotalStaked.run
      (blockOne registerAndDelegate onePlayerStore)).1 = .ok 0 := by decide +kernel
  have hGovernance : (Governance.calculateTotalStaked.run
      (blockOne registerAndDelegate onePlayerStore)).1 = .ok 500 := by decide +kernel
  refine ⟨_, _, hHistory, fun hSame => ?_, by decide +kernel, by decide +kernel,
    by decide +kernel, by decide +kernel, hModule, hGovernance⟩
  obtain ⟨n, hn, hn'⟩ := hSame.total
  rw [hn] at hModule
  rw [hn'] at hGovernance
  cases hModule
  cases hGovernance

end Polay.Validator
