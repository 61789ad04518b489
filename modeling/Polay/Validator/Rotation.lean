import Polay.Consensus.StateMachine
import Polay.Validator.Genesis
import Polay.Validator.StakeBacking

/-!
# The validator set of the next epoch

At an epoch boundary the node replaces the validator set of the consensus by the
active validators with enough stake, whether or not there are any. An empty set has no
proposer, and the next round panics.

A validator is `Secure` if it is listed and active and has the minimum stake beyond what
others delegated to it. Delegations come and go, but they do not touch that stake, so
only a slash by a governance proposal can end it. `rotation_nonempty` says that the
set stays non-empty in every run in which every slash leaves a secure validator;
`slashed_rotation_empty` is a run in which a proposal takes all stake of the only one.
-/

namespace Polay.Validator

open Lib Lib.Machine Polay.Types State Execution Consensus

/-- Process an epoch boundary; the result is the set to install in the consensus. An
error of the transition is only logged. -/
def EpochManager.maybeProcessEpoch {ε : Type} (em : EpochManager) (height : UInt64) :
    Exec ε (Option ValidatorSet) :=
  if em.isEpochBoundary height then do
    let result ← (em.processEpochTransition height).attempt
    match result with
    | .ok (newValidatorSet, _) => return some newValidatorSet
    | .error _ => return none
  else return none

/-! ## Validators in service -/

section InService

variable {a : Address} {s t : StateStore} {β : Type} {w : Bool}
variable (config : ChainConfig) (signer : Address)

/-- The validator is listed, stored and active. -/
def InService (a : Address) : (k : Key) → Option k.Value → Prop
  | .validator b, r => b = a → ∃ v, r = some v ∧ ValidatorInfo.status v.val = .active
  | .validatorAddresses, r => a ∈ (r.map fun x => x.val).getD ([] : List Address)
  | _, _ => True

theorem free_inService {F : List Family} (hValidator : Family.validator ∉ F)
    (hList : Family.stakingList ∉ F) : Free F (InService a) := by
  intro k r hk
  cases k
  case validator b => exact absurd hk hValidator
  case validatorAddresses => exact absurd hk hList
  all_goals trivial

theorem lenient_inService : Lenient (InService a) where
  free := free_inService (by simp) (by simp)
  unjail _ _ _ := ⟨_, rfl, rfl⟩
  count v n h hEq := by
    obtain ⟨x, hx, hActive⟩ := h hEq
    cases hx
    exact ⟨_, rfl, hActive⟩

theorem inService_readValidator {b : Address} {e : ExecutionError} {f : ValidatorInfo → Handler β}
    (h : ∀ v : ValidatorInfo, (v.address = a → v.status = .active) →
      (f v).Safe (InService a) True True w) :
    ((getValidator b).bind fun r => (Prog.require r e).bind f).Safe (InService a) True True w := by
  intro r hr
  cases r with
  | none => exact fun _ => trivial
  | some v =>
      refine h v.val fun hEq => ?_
      obtain ⟨x, hx, hActive⟩ := hr (v.property ▸ hEq)
      cases hx
      exact hActive

@[simp] theorem inService_setValidator {v : ValidatorInfo} {f : Unit → Handler β} :
    ((setValidator v).bind f).Safe (InService a) True True w ↔
      (v.address = a → v.status = .active) ∧ (f ()).Safe (InService a) True True true := by
  simp [setValidator, storePut, InService]

theorem executeRegisterValidator_inService (bps : UInt16) :
    (Staking.executeRegisterValidator config signer bps).Safe (InService a) True True false := by
  intro r hr
  show ((Prog.ensure _ _).bind _).Safe _ _ _ _
  rw [Prog.safe_ensure_bind]
  refine ⟨fun _ _ => trivial, fun _ => ?_⟩
  show ((Prog.ensure _ _).bind _).Safe _ _ _ _
  rw [Prog.safe_ensure_bind]
  exact ⟨fun _ _ => trivial, fun _ => ⟨fun _ => ⟨_, rfl, rfl⟩, trivial⟩⟩

theorem executeDelegateStake_inService (validator : Address) (amount height : UInt64) :
    (Staking.executeDelegateStake config signer validator amount height).Safe (InService a)
      True True false := by
  refine inService_readValidator fun v hActive => ?_
  have hFree : Free [.account] (InService a) := free_inService (by simp) (by simp)
  simp +contextual [free_loadAccount hFree, free_debited, free_setAccount hFree, hActive,
    getDelegation, setDelegation, storeGet, storePut, InService]

theorem executeUndelegateStake_inService (validator : Address) (amount height : UInt64) :
    (Staking.executeUndelegateStake config signer validator amount height).Safe (InService a)
      True True false := by
  refine inService_readValidator fun v hActive => ?_
  simp +contextual [getDelegation, setDelegation, getUnbondingEntries, setUnbondingEntry,
    prefixScan, storeGet, storePut, InService, hActive]

theorem executeProposalAction_inService (action : Governance.ProposalAction) :
    (Governance.executeProposalAction action).Safe (InService a) True True false := by
  have hFree : Free [.account] (InService a) := free_inService (by simp) (by simp)
  cases action with
  | parameterChange p v => trivial
  | approveAttestor b g => trivial
  | textProposal t d => trivial
  | treasurySpend b n reason => exact free_creditOrCreate_self hFree
  | suspendAttestor b =>
      show (Governance.suspendAttestor b).Safe _ _ _ _
      intro r hr
      cases r with
      | none => trivial
      | some attestor => exact ⟨trivial, trivial⟩
  | slashValidator b bps reason =>
      refine inService_readValidator fun v hActive => ?_
      simpa [setValidator, storePut, InService] using hActive

theorem executeExecuteProposal_inService (id : Hash) (height : UInt64) :
    (Governance.executeExecuteProposal config id height).Safe (InService a) True True false := by
  have hFree : Free [.account] (InService a) := free_inService (by simp) (by simp)
  simp [Governance.executeExecuteProposal, Governance.calculateTotalStaked, getProposal,
    setProposal, prefixScan, storeGet, storePut, InService, Governance.applyPassed,
    Governance.applyRejected, Prog.Safe.bind, executeProposalAction_inService,
    free_creditOrCreate hFree]

/-- No action takes a validator out of service. -/
theorem dispatchAction_inService (sha256 : List UInt8 → Hash) (ex : Executor)
    (action : TransactionAction) (signer : Address) (timestamp height : UInt64)
    (hs : Store.Holds (InService a) s) :
    Store.Holds (InService a)
      ((ex.dispatchAction sha256 action signer timestamp height).run s).2 := by
  have hKeeps := run_keeps (dispatchAction_keeps sha256 ex action signer timestamp height (s := s))
  have hSafe : ∀ {p : Handler (List Event)} {g : List Event → List Event × List StateChange},
      p.Safe (InService a) True True false →
      Store.Holds (InService a) ((p.bind fun e => .pure (g e)).run s).2 := by
    intro p g hp
    have hBind : (p.bind fun e => .pure (g e)).Safe (InService a) True True false :=
      hp.bind fun _ => trivial
    exact (hBind.sound hs).holds
  cases action
  case registerValidator bps => exact hSafe (executeRegisterValidator_inService _ _ _)
  case delegateStake v amount => exact hSafe (executeDelegateStake_inService _ _ _ _ _)
  case undelegateStake v amount => exact hSafe (executeUndelegateStake_inService _ _ _ _ _)
  case executeProposal id => exact hSafe (executeExecuteProposal_inService _ _ _)
  all_goals
    exact holds_of_keeps (free_inService (by simp [writtenBy]) (by simp [writtenBy])) hs hKeeps

end InService

/-! ## Stakes between blocks -/

section Stakes

variable {s t : StateStore}

/-- The stakes and the delegations of a store. -/
def StakesOf (s : StateStore) : (k : Key) → Option k.Value → Prop
  | .validator a, r => (r.map fun v => ValidatorInfo.stake v.val) =
      (validatorOf s a).map ValidatorInfo.stake
  | .delegation d v, r => r = s.get? (.delegation d v)
  | _, _ => True

theorem lenient_stakesOf (s : StateStore) : Lenient (StakesOf s) where
  free := by
    intro k r hk
    cases k
    case validator | delegation => simp [familyOf] at hk
    all_goals trivial
  unjail _ h := h
  count _ _ h := h

theorem holds_stakesOf (s : StateStore) : Store.Holds (StakesOf s) s := by
  intro k
  cases k
  case validator a =>
    show _ = (validatorOf s a).map _
    rw [validatorOf, Option.map_map]
    rfl
  case delegation d v => rfl
  all_goals trivial

theorem Covers.of_stakesOf {m : Nat} {a : Address} (h : Covers m a s)
    (ht : Store.Holds (StakesOf s) t) : Covers m a t := by
  refine h.congr ?_ fun d => ht (.delegation d a)
  have hStake : (validatorOf t a).map ValidatorInfo.stake =
      (validatorOf s a).map ValidatorInfo.stake := by
    rw [← show _ = (validatorOf s a).map ValidatorInfo.stake from ht (.validator a), validatorOf,
      Option.map_map]
    rfl
  have hNat := congrArg (fun r => (r.map UInt64.toNat).getD 0) hStake
  simp only [Option.map_map] at hNat
  exact hNat

end Stakes

/-! ## Secure validators -/

section Secure

variable {sha256 : List UInt8 → Hash} {ex : Executor} {a : Address} {s t : StateStore}

/-- In service, with the minimum stake beyond what is delegated. -/
structure Secure (config : ChainConfig) (a : Address) (s : StateStore) : Prop where
  inService : Store.Holds (InService a) s
  ownStake : Covers config.minStake.toNat a s

/-- What the chain does between transactions keeps a secure validator. -/
theorem Secure.of_lenient {config : ChainConfig} {ε α : Type} {p : Exec ε α}
    (h : Secure config a s)
    (hp : ∀ R : (k : Key) → Option k.Value → Prop, Lenient R → p.Safe R True True false) :
    Secure config a (p.run s).2 where
  inService := ((hp _ lenient_inService).sound h.inService).holds
  ownStake := h.ownStake.of_stakesOf ((hp _ (lenient_stakesOf s)).sound (holds_stakesOf s)).holds

/-- A transaction that slashes no secure validator too far and keeps the sums within
64 bits. -/
def LeavesSecure (ex : Executor) (turn : Turn) : Prop :=
  match turn.step.tx.transaction.action with
  | .delegateStake validator amount => ex.Charged turn.step →
      ex.chainConfig.minStake.toNat + delegatedTo turn.step.before validator + amount.toNat <
        2 ^ 64
  | .executeProposal id => ex.Charged turn.step →
      ∀ p, Executes ex.chainConfig turn.height turn.step.before id p →
        ∀ b bps reason, p.action = .slashValidator b bps reason →
          ∃ a, Secure ex.chainConfig a turn.step.before ∧
            Spares ex.chainConfig.minStake.toNat a turn.step.before p.action
  | _ => True

theorem Secure.transaction {tx : SignedTransaction} {height : UInt64} {proposer : Address}
    (h : Secure ex.chainConfig a s)
    (hHarmless : Harmless ex tx height ex.chainConfig.minStake.toNat a s) :
    Secure ex.chainConfig a ((ex.executeTransaction sha256 tx height proposer).run s).2 where
  inService :=
    (ex.executeTransaction_run sha256 tx height proposer s).holds
      (free_inService (by simp [feeFamilies]) (by simp [feeFamilies])) h.inService
      fun _ _ h₁ => dispatchAction_inService sha256 ex _ _ _ _ h₁
  ownStake := h.ownStake.transaction hHarmless

theorem secure_turn {turn : Turn} (h : ∃ a, Secure ex.chainConfig a s)
    (hTurn : TurnFrom sha256 ex s turn) (hLeaves : LeavesSecure ex turn) :
    ∃ a, Secure ex.chainConfig a turn.step.after := by
  obtain ⟨rfl, hStep, _⟩ := hTurn
  by_cases hCharged : ex.Charged turn.step
  · rw [(hStep.after_charged hCharged).1]
    -- the validator that stays secure: the one a slash spares, or any
    suffices hSpared : ∃ a, Secure ex.chainConfig a turn.step.before ∧
        Harmless ex turn.step.tx turn.height ex.chainConfig.minStake.toNat a turn.step.before by
      obtain ⟨a, hSecure, hHarmless⟩ := hSpared
      exact ⟨a, hSecure.transaction hHarmless⟩
    obtain ⟨a, hSecure⟩ := h
    unfold LeavesSecure at hLeaves
    cases hAction : turn.step.tx.transaction.action
    case delegateStake v amount =>
      rw [hAction] at hLeaves
      refine ⟨a, hSecure, fun n hEq => ?_, fun id hEq => ?_⟩
      · rw [hAction] at hEq
        cases hEq
        exact hLeaves hCharged
      · rw [hAction] at hEq
        cases hEq
    case executeProposal id =>
      rw [hAction] at hLeaves
      have hNone : ∀ n b, turn.step.tx.transaction.action ≠ .delegateStake b n := by simp [hAction]
      by_cases hSlash : ∃ p, Executes ex.chainConfig turn.height turn.step.before id p ∧
          ∃ b bps reason, p.action = .slashValidator b bps reason
      · obtain ⟨p, hp, b, bps, reason, hEq⟩ := hSlash
        obtain ⟨a', hSecure', hSpares⟩ := hLeaves hCharged p hp b bps reason hEq
        refine ⟨a', hSecure', fun n h => absurd h (hNone n a'), fun id' hId q hq => ?_⟩
        rw [hAction] at hId
        cases hId
        obtain rfl : p = q := Option.some.inj (hp.1.symm.trans hq.1)
        exact hSpares
      · refine ⟨a, hSecure, fun n h => absurd h (hNone n a), fun id' hId q hq => ?_⟩
        rw [hAction] at hId
        cases hId
        exact fun bps reason v hEq _ => absurd ⟨q, hq, a, bps, reason, hEq⟩ hSlash
    all_goals
      exact ⟨a, hSecure, fun n hEq => by simp [hAction] at hEq,
        fun id hEq => by simp [hAction] at hEq⟩
  · rw [hStep.after_eq hCharged]
    exact h

/-- A secure validator remains along every run that leaves one. -/
theorem secure_of_leaves {s₀ : StateStore} (h₀ : Reachable sha256 ex s₀)
    (hStart : ∃ a, Secure ex.chainConfig a s₀) {l : List Turn}
    (hRun : ChainRun sha256 ex s₀ l s) (hLeaves : ∀ turn ∈ l, LeavesSecure ex turn) :
    ∃ a, Secure ex.chainConfig a s := by
  let Inv (l : List Turn) (s : StateStore) : Prop :=
    (∀ turn ∈ l, LeavesSecure ex turn) → ∃ a, Secure ex.chainConfig a s
  suffices hInv : Inv l s from hInv hLeaves
  refine ChainRun.rule (fun l s height ih hL => ?_) (fun l s turn ih hTurn hL => ?_)
    (fun l s block receipts ih hL => ?_) (fun l s proposer ih hL => ?_)
    (fun l s height ih hL => ?_) h₀ (fun _ => hStart) hRun
  · obtain ⟨a, hSecure⟩ := ih hL
    have hKeeps := unbonded_keeps height s
    exact ⟨a, holds_of_keeps (free_inService (by simp) (by simp)) hSecure.inService hKeeps,
      hSecure.ownStake.of_keeps hKeeps (by simp) (by simp)⟩
  · have hOld : ∀ t ∈ l, LeavesSecure ex t := fun t ht => hL t (List.mem_append_left _ ht)
    exact secure_turn (ih hOld) hTurn (hL turn (by simp))
  · obtain ⟨a, hSecure⟩ := ih hL
    exact ⟨a, hSecure.of_lenient fun R hR => applyBlock_safe hR _ _⟩
  · obtain ⟨a, hSecure⟩ := ih hL
    exact ⟨a, hSecure.of_lenient fun R hR => applyBlockReward_safe hR _ _⟩
  · obtain ⟨a, hSecure⟩ := ih hL
    exact ⟨a, hSecure.of_lenient fun R hR => processEpochTransition_safe hR _ _⟩

end Secure

/-! ## The set that is installed -/

section Installed

variable {em : EpochManager} {height : UInt64} {s t : StateStore}

/-- A transition that returns: jail terms are lifted, and the new set is made of the
eligible validators after that. -/
theorem processEpochTransition_eq_ok {set : ValidatorSet} {events : List Event}
    (h : (em.processEpochTransition height).run s = (.ok (set, events), t)) :
    ∃ (s₁ : StateStore) (unjailed : List Event),
      (EpochManager.unjailElapsed height (listedValidators (validatorList s) s)).run s =
        (.ok unjailed, s₁) ∧
      set.validators = (em.selectEligible (listedValidators (validatorList s₁) s₁)).map
        fun v => ⟨v.address, v.stake⟩ := by
  obtain ⟨_, s₀, hAssert, hRun⟩ := Prog.run_bind_eq_ok.mp h
  obtain rfl : s₀ = s := by
    unfold Prog.assert at hAssert
    split at hAssert <;> cases hAssert
    rfl
  obtain ⟨vs, s', hSet, hRun⟩ := Prog.run_bind_eq_ok.mp hRun
  rw [run_getValidatorSet] at hSet
  cases hSet
  obtain ⟨unjailed, s₁, hUnjail, hRun⟩ := Prog.run_bind_eq_ok.mp hRun
  obtain ⟨vs, s', hSet, hRun⟩ := Prog.run_bind_eq_ok.mp hRun
  rw [run_getValidatorSet] at hSet
  cases hSet
  obtain ⟨newSet, s₂, hNew, hRun⟩ := Prog.run_bind_eq_ok.mp hRun
  obtain ⟨_, s₃, _, hRun⟩ := Prog.run_bind_eq_ok.mp hRun
  obtain ⟨rewards, s₄, _, hRun⟩ := Prog.run_bind_eq_ok.mp hRun
  obtain ⟨_, s₅, _, hRun⟩ := Prog.run_bind_eq_ok.mp hRun
  cases hRun
  refine ⟨s₁, unjailed, hUnjail, ValidatorSet.validators_of_new ?_⟩
  unfold Prog.unwrap at hNew
  split at hNew
  · cases hNew
    assumption
  · cases hNew

/-- The installed set is made of the eligible validators of a store that the chain got
into by lifting jail terms. -/
theorem validators_of_installed {ε : Type} {set : ValidatorSet}
    (h : (em.maybeProcessEpoch height : Exec ε _).run s = (.ok (some set), t)) :
    ∃ s₁ : StateStore,
      (∀ R : (k : Key) → Option k.Value → Prop, Lenient R → Store.Holds R s → Store.Holds R s₁) ∧
      set.validators = (em.selectEligible (listedValidators (validatorList s₁) s₁)).map
        fun v => ⟨v.address, v.stake⟩ := by
  unfold EpochManager.maybeProcessEpoch at h
  split at h
  · obtain ⟨result, t₁, hAttempt, hResult⟩ := Prog.run_bind_eq_ok.mp h
    rw [Prog.run_attempt] at hAttempt
    rcases hRun : (em.processEpochTransition height).run s with ⟨_ | _ | _, t₂⟩
    case ok pair =>
      rw [hRun] at hAttempt
      cases hAttempt
      cases hResult
      obtain ⟨s₁, unjailed, hUnjail, hSet⟩ := processEpochTransition_eq_ok hRun
      refine ⟨s₁, fun R hR hs => ?_, hSet⟩
      have hLoaded : Loaded R (listedValidators (validatorList s) s) := by
        intro v hv
        obtain ⟨a, _, ha⟩ := List.mem_filterMap.mp hv
        obtain ⟨x, hx, rfl⟩ := Option.map_eq_some_iff.mp ha
        exact stored_validator x.val x.property (hx ▸ hs (.validator a))
      have hSound := ((unjailElapsed_safe hR height hLoaded (w := false)).sound hs).holds
      rwa [hUnjail] at hSound
    all_goals
      rw [hRun] at hAttempt
      cases hAttempt
    cases hResult
  · cases h

theorem selectEligible_ne_nil (em : EpochManager) {vs : List ValidatorInfo} {v : ValidatorInfo}
    (hMem : v ∈ vs) (hActive : v.status = .active) (hStake : em.config.minStake ≤ v.stake)
    (hMax : em.config.maxValidators ≠ 0) : em.selectEligible vs ≠ [] := by
  have hEligible : v ∈ (vs.filter fun v => v.status = .active ∧ em.config.minStake ≤ v.stake) :=
    List.mem_filter.mpr ⟨hMem, by simp [hActive, hStake]⟩
  have hSorted := (List.mergeSort_perm (vs.filter fun v => v.status = .active ∧
    em.config.minStake ≤ v.stake) fun a b => decide (b.stake ≤ a.stake)).mem_iff.mpr hEligible
  unfold EpochManager.selectEligible
  rw [Ne, List.take_eq_nil_iff, not_or]
  exact ⟨fun hZero => hMax (UInt64.toNat_inj.mp hZero), List.ne_nil_of_mem hSorted⟩

/-- No installed set is empty, so the consensus always has a proposer. -/
def NeverEmpty (em : EpochManager) (s : StateStore) : Prop :=
  ∀ (height : UInt64) (set : ValidatorSet) (t : StateStore),
    (em.maybeProcessEpoch height : Exec StakingError _).run s = (.ok (some set), t) →
    set.validators ≠ [] ∧ ∀ m : ConsensusStateMachine,
      (m.updateValidatorSet set).currentProposer ≠ none

theorem Secure.neverEmpty {a : Address} (h : Secure em.config a s)
    (hMax : em.config.maxValidators ≠ 0) : NeverEmpty em s := by
  intro height set t hRun
  obtain ⟨s₁, hHolds, hSet⟩ := validators_of_installed hRun
  have hService := hHolds _ lenient_inService h.inService
  have hStake : Covers em.config.minStake.toNat a s₁ :=
    h.ownStake.of_stakesOf (hHolds _ (lenient_stakesOf s) (holds_stakesOf s))
  obtain ⟨r, hr, hActive⟩ := hService (.validator a) rfl
  have hv : validatorOf s₁ a = some r.val := by rw [validatorOf, hr]; rfl
  have hListed : a ∈ validatorList s₁ := hService .validatorAddresses
  have hMem : r.val ∈ listedValidators (validatorList s₁) s₁ :=
    List.mem_filterMap.mpr ⟨a, hListed, hv⟩
  have hEnough : em.config.minStake ≤ ValidatorInfo.stake r.val := by
    have hCovers : em.config.minStake.toNat + delegatedTo s₁ a ≤ stakeAt s₁ a := hStake
    rw [stakeAt_eq hv] at hCovers
    rw [UInt64.le_iff_toNat_le]
    omega
  have hNonempty : set.validators ≠ [] := by
    rw [hSet]
    exact fun hNil =>
      selectEligible_ne_nil em hMem hActive hEnough hMax (List.map_eq_nil_iff.mp hNil)
  refine ⟨hNonempty, fun m hNone => hNonempty ?_⟩
  exact ValidatorSet.getProposer_eq_none.mp (Option.map_eq_none_iff.mp hNone)

end Installed

/-! ## Runs -/

section Runs

variable {sha256 : List UInt8 → Hash} {ex : Executor}

/-- A listed validator with enough stake is secure at genesis, unless it is listed twice. -/
theorem secure_genesis {g : Genesis} {s : StateStore} (hGenesis : IsGenesis ex g s)
    (hDistinct : (g.validators.map fun gv => (parseAddress gv.address).toOption).Nodup)
    (hListed : ∃ gv ∈ g.validators, ex.chainConfig.minStake ≤ gv.stake) :
    ∃ a, Secure ex.chainConfig a s := by
  obtain ⟨s₁, s₂, s₃, addrs, hStages⟩ := stages_of_genesis hGenesis
  obtain ⟨_, hList, hRecords⟩ := hStages.validators_eq hDistinct
  obtain ⟨gv, hMem, hStake⟩ := hListed
  obtain ⟨i, hi, rfl⟩ := List.mem_iff_getElem.mp hMem
  have hi' : i < addrs.length := hRecords.length_eq ▸ hi
  obtain ⟨_, hRecord⟩ := hRecords.get hi hi'
  refine ⟨addrs.get ⟨i, hi'⟩, fun k => ?_, ?_⟩
  · cases k
    case validator b =>
      rintro rfl
      obtain ⟨x, hx, hVal⟩ := Option.map_eq_some_iff.mp hRecord
      exact ⟨x, hx, by rw [hVal]; rfl⟩
    case validatorAddresses =>
      show addrs.get ⟨i, hi'⟩ ∈ validatorList s
      rw [hList]
      exact List.get_mem _ _
    all_goals trivial
  · have hNone : delegatedTo s (addrs.get ⟨i, hi'⟩) = 0 := by
      obtain ⟨V, hEnrolled, _⟩ := enrolled_genesis hGenesis
      have hEmpty : delegatedTo s (addrs.get ⟨i, hi'⟩) = delegatedTo ∅ (addrs.get ⟨i, hi'⟩) :=
        total_delegationFigure_congr fun d => by rw [hEnrolled.delegation]; simp
      rw [hEmpty]
      rfl
    rw [Covers, hNone, stakeAt_eq hRecord]
    exact UInt64.le_iff_toNat_le.mp hStake

/-- Along every run from a genesis with enough stake, in which every slash leaves a secure
validator, no epoch installs an empty validator set. -/
theorem rotation_nonempty {g : Genesis} {s₀ : StateStore} (hGenesis : IsGenesis ex g s₀)
    (hListed : ∃ gv ∈ g.validators, ex.chainConfig.minStake ≤ gv.stake)
    (hDistinct : (g.validators.map fun gv => (parseAddress gv.address).toOption).Nodup)
    (hMax : ex.chainConfig.maxValidators ≠ 0) {l : List Turn} {s : StateStore}
    (hRun : ChainRun sha256 ex s₀ l s) (hLeaves : ∀ turn ∈ l, LeavesSecure ex turn) :
    NeverEmpty ⟨ex.chainConfig⟩ s := by
  obtain ⟨a, hSecure⟩ :=
    secure_of_leaves (.genesis hGenesis) (secure_genesis hGenesis hDistinct hListed) hRun hLeaves
  exact hSecure.neverEmpty hMax

theorem rotation_nonempty_delegated :
    NeverEmpty ⟨shortEpochs.chainConfig⟩ (afterBlocks soleValidatorStore
      [([playerTx 0 (.delegateStake (Address.ofByte 1) 500)], 1)]) := by
  refine rotation_nonempty isGenesis_soleValidator (by decide +kernel) (by decide +kernel)
    (by decide) (ChainRun.start.block [playerTx 0 (.delegateStake (Address.ofByte 1) 500)] 1
      Address.zero) ?_
  intro turn hMem
  obtain rfl := List.mem_singleton.mp hMem
  intro _
  decide +kernel

theorem exists_run_afterBlocks {s₀ s : StateStore} {l : List Turn}
    (blocks : List (List SignedTransaction × UInt64))
    (h : ChainRun (fun _ => Hash.zero) shortEpochs s₀ l s) :
    ∃ l, ChainRun (fun _ => Hash.zero) shortEpochs s₀ l (afterBlocks s blocks) := by
  induction blocks generalizing l s with
  | nil => exact ⟨l, h⟩
  | cons b rest ih => exact ih (h.block b.1 b.2 Address.zero)

/-- The proposal takes the whole stake of the only validator, and the epoch installs an
empty set: the next proposer is a panic. -/
theorem slashed_rotation_empty :
    ∃ l s set t, History (fun _ => Hash.zero) shortEpochs l s ∧
      (EpochManager.maybeProcessEpoch ⟨shortEpochs.chainConfig⟩ 3 : Exec StakingError _).run s =
        (.ok (some set), t) ∧
      set.validators = [] ∧
      ∀ m : ConsensusStateMachine, (m.updateValidatorSet set).currentProposer = none := by
  let s := afterBlocks soleValidatorStore (slashBlocks 10000)
  have hEmpty : (((EpochManager.maybeProcessEpoch ⟨shortEpochs.chainConfig⟩ 3 :
      Exec StakingError _).run s).1.toOption.map fun r => r.map ValidatorSet.validators) =
        some (some []) := by
    decide +kernel
  have hStart : ChainRun (fun _ => Hash.zero) shortEpochs soleValidatorStore []
    soleValidatorStore := .start
  obtain ⟨l, hRun⟩ := exists_run_afterBlocks (slashBlocks 10000) hStart
  rcases hEpoch : (EpochManager.maybeProcessEpoch ⟨shortEpochs.chainConfig⟩ 3 :
    Exec StakingError _).run s with ⟨⟨_ | set⟩ | _ | _, t⟩
  case ok.some =>
    rw [hEpoch] at hEmpty
    have hNil : set.validators = [] := by simpa [Outcome.toOption] using hEmpty
    refine ⟨l, s, set, t, ⟨soleValidator, soleValidatorStore, isGenesis_soleValidator, hRun⟩,
      hEpoch, hNil, fun m => ?_⟩
    exact Option.map_eq_none_iff.mpr (ValidatorSet.getProposer_eq_none.mpr hNil)
  all_goals
    rw [hEpoch] at hEmpty
    simp [Outcome.toOption] at hEmpty

end Runs

end Polay.Validator
