import Polay.Validator.Operations
import Polay.Validator.Rotation

/-!
# The staking figures of the supply record

The supply record has a field for the stake of all validators and one for the
circulating supply, which is meant to exclude stakes, treasury and pending
unbondings. No staking path writes the record, so the first field stays what
genesis wrote and the second one never subtracts the queue. Both are right along
a run in which no delegation, undelegation or slash moves a token.
-/

namespace Polay.Validator

open Lib Lib.Machine Lib.Trace Polay.Types State Execution
open Execution.Executor (feePayer)

/-- The record counts the stake of all validators, and the circulating supply is what
remains of the supply without stakes, treasury and pending unbondings. Subtraction stops
at zero, as it does in the source. -/
def TracksStaking (s : StateStore) : Prop :=
  ∃ info, supplyOf s = some info ∧ info.totalStaked.toNat = stakedTokens s ∧
    info.circulatingSupply.toNat = info.totalSupply.toNat - stakedTokens s -
      info.treasuryBalance.toNat - pendingTokens s

/-! ## What must not happen -/

/-- The slash of a proposal takes nothing. -/
def SlashesNothing (s : StateStore) : Governance.ProposalAction → Prop
  | .slashValidator a bps _ =>
      ∀ v, validatorOf s a = some v → StakingModule.slashOf v.stake bps = 0
  | _ => True

/-- The transaction moves no stake: a delegation or undelegation is empty or cannot go
through, and a proposal that is executed does not slash. -/
def MovesNoStake (ex : Executor) (tx : SignedTransaction) (height : UInt64) (proposer : Address)
    (s : StateStore) : Prop :=
  match tx.transaction.action with
  | .delegateStake validator amount =>
      ∀ v x, validatorOf s validator = some v → v.isActive = true →
        accountOf s tx.signer = some x →
        amount ≤ ex.settledBalance tx proposer tx.signer x.balance → amount = 0
  | .undelegateStake validator amount =>
      ∀ x v, CanUndelegate s tx.signer validator amount x v → amount = 0
  | .executeProposal id => ∀ p, Executes ex.chainConfig height s id p → SlashesNothing s p.action
  | _ => True

/-- An operation that moves no stake. -/
def ChainOp.MovesNoStake (sha256 : List UInt8 → Hash) (ex : Executor) (s : StateStore) :
    ChainOp → Prop
  | .block txs height proposer => ∀ st ∈ ex.blockSteps sha256 txs height proposer s,
      ex.Charges st.tx st.before → Validator.MovesNoStake ex st.tx height proposer st.before
  | .slash a bps _ _ => ∀ v, validatorOf s a = some v → StakingModule.slashOf v.stake bps = 0
  | _ => True

/-! ## Stakes and queue stay -/

section Settled

variable {s t : StateStore} {stake : Address → Nat}

/-- Validators have the given stakes and the queue holds no tokens. -/
def Settled (stake : Address → Nat) : (k : Key) → Option k.Value → Prop
  | .validator a, r => (r.map fun v => (ValidatorInfo.stake v.val).toNat).getD 0 = stake a
  | .unbonding _ _ _, r => ∀ e, r = some e → UnbondingEntry.amount e.val = 0
  | _, _ => True

theorem lenient_settled (stake : Address → Nat) : Lenient (Settled stake) where
  free := by
    intro k r hk
    cases k
    case validator | unbonding => simp [familyOf] at hk
    all_goals trivial
  unjail _ h := h
  count _ _ h := h

theorem Settled.stakeAt_eq (h : Store.Holds (Settled stake) s) (a : Address) :
    stakeAt s a = stake a := by
  rw [← show _ = stake a from h (.validator a), stakeAt, validatorOf, Option.map_map]
  rfl

/-- Records of other families do not matter. -/
theorem settled_of_keeps {F : List Family} (h : Store.Holds (Settled stake) s)
    (hKeeps : Store.Holds (Keeps F s) t) (hValidator : Family.validator ∉ F)
    (hUnbonding : Family.unbonding ∉ F) : Store.Holds (Settled stake) t := by
  refine holds_of_keeps (fun k r hk => ?_) h hKeeps
  cases k
  case validator a => exact absurd hk hValidator
  case unbonding a n i => exact absurd hk hUnbonding
  all_goals trivial

/-- Writing a validator with the stake it has. -/
theorem settled_withValidator (h : Store.Holds (Settled stake) s) {v : ValidatorInfo}
    {a : Address} (ha : v.address = a) (hStake : v.stake.toNat = stakeAt s a) :
    Store.Holds (Settled stake) (withValidator s v) := by
  subst ha
  refine h.insert ?_
  show v.stake.toNat = stake v.address
  rw [hStake, Settled.stakeAt_eq h]

/-- Two stores with the same settled figures have the same sums. -/
theorem stakedTokens_congr (h : Store.Holds (Settled stake) s)
    (h' : Store.Holds (Settled stake) t) : stakedTokens t = stakedTokens s := by
  refine Store.total_congr fun k => ?_
  cases k
  case validator a =>
    rw [(counts_tokenFigure _).figureAt_validator, (counts_tokenFigure _).figureAt_validator,
      Settled.stakeAt_eq h, Settled.stakeAt_eq h']
  all_goals
    rw [Store.figureAt_eq_zero _ fun x => by simp [tokenFigure],
      Store.figureAt_eq_zero _ fun x => by simp [tokenFigure]]

theorem pendingTokens_eq_zero (h : Store.Holds (Settled stake) s) : pendingTokens s = 0 := by
  refine Store.total_eq_zero fun k => ?_
  cases k
  case unbonding a n i =>
    rw [(counts_tokenFigure _).figureAt_unbonding, entryAt, unbondingOf]
    cases he : s.get? (.unbonding a n i) with
    | none => rfl
    | some e =>
        have hZero := h (.unbonding a n i) e he
        show 1 * (UnbondingEntry.amount e.val).toNat = 0
        rw [hZero]
        rfl
  all_goals exact Store.figureAt_eq_zero _ fun x => by simp [tokenFigure]

/-! ### Transactions -/

variable {sha256 : List UInt8 → Hash} {ex : Executor} {tx : SignedTransaction}
variable {height : UInt64} {proposer : Address}

theorem settled_registerValidator (h : Store.Holds (Settled stake) s) (config : ChainConfig)
    (signer : Address) (bps : UInt16) :
    (Staking.executeRegisterValidator config signer bps).Wp
      (fun _ t => Store.Holds (Settled stake) t) s := by
  simp only [Staking.executeRegisterValidator, Prog.bind_eq, wp_getValidator_bind,
    Prog.wp_ensure_bind, wp_setValidator_bind, Prog.pure_eq, Prog.wp_pure]
  refine ⟨fun _ => h, fun hNone => ⟨fun _ => h, fun _ => ?_⟩⟩
  refine settled_withValidator h (a := signer) rfl ?_
  rw [stakeAt, Option.isNone_iff_eq_none.mp hNone]
  rfl

/-- The first part of an empty delegation. -/
theorem settled_stakeMoved (h : Store.Holds (Settled stake) s) {signer validator : Address}
    {x : AccountState} {v : ValidatorInfo} (hCan : CanDelegate s signer validator 0 x v) :
    Store.Holds (Settled stake) (stakeMoved s x v 0) := by
  let paid := withAccount s { x with balance := x.balance - 0 }
  have hPaid : Store.Holds (Settled stake) paid := by
    refine settled_of_keeps h (F := [.account]) (fun k hk => ?_) (by simp) (by simp)
    refine get?_withAccount fun a hEq => hk ?_
    rw [hEq]
    exact List.mem_singleton.mpr rfl
  have hInfo : validatorOf paid validator = some v :=
    (validatorOf_withAccount s _ _).trans hCan.info
  have hAddress : v.address = validator := address_of_validatorOf hCan.info
  refine settled_withValidator hPaid hAddress ?_
  show (saturatingAdd v.stake 0).toNat = _
  have := v.stake.toNat_lt
  rw [stakeAt_eq hInfo, toNat_saturatingAdd, UInt64.toNat_zero]
  omega

theorem settled_delegateEnd (h : Store.Holds (Settled stake) s) {config : ChainConfig}
    {signer validator : Address} {amount : UInt64}
    (hZero : ∀ x v, CanDelegate s signer validator amount x v → amount = 0)
    {o : Outcome ExecutionError (List Event)}
    (hEnd : DelegateEnd config s signer validator amount height o t) :
    Store.Holds (Settled stake) t := by
  cases o with
  | err e => exact hEnd.1 ▸ h
  | panic =>
      obtain ⟨_, x, v, hCan, rfl⟩ := hEnd
      obtain rfl := hZero x v hCan
      exact settled_stakeMoved h hCan
  | ok events =>
      obtain ⟨_, x, v, hCan, rfl⟩ := hEnd
      obtain rfl := hZero x v hCan
      exact (settled_stakeMoved h hCan).insert trivial

theorem settled_undelegateEnd (h : Store.Holds (Settled stake) s) {config : ChainConfig}
    {signer validator : Address} {amount : UInt64}
    (hZero : ∀ x v, CanUndelegate s signer validator amount x v → amount = 0)
    {o : Outcome ExecutionError (List Event)}
    (hEnd : UndelegateEnd config s signer validator amount height o t) :
    Store.Holds (Settled stake) t := by
  cases o with
  | err e => exact hEnd.1 ▸ h
  | panic => exact hEnd.elim
  | ok events =>
      obtain ⟨x, v, hCan, rfl⟩ := hEnd
      obtain rfl := hZero x v hCan
      let left := withDelegation s { x with amount := x.amount - 0 }
      have hLeft : Store.Holds (Settled stake) left := h.insert trivial
      have hInfo : validatorOf left validator = some v :=
        (validatorOf_withDelegation s _ _).trans hCan.info
      have hWithdrawn : Store.Holds (Settled stake) (stakeWithdrawn s x v 0) := by
        have hAddress : v.address = validator := address_of_validatorOf hCan.info
        refine settled_withValidator hLeft hAddress ?_
        show (saturatingSub v.stake 0).toNat = _
        rw [stakeAt_eq hInfo, toNat_saturatingSub, UInt64.toNat_zero, Nat.sub_zero]
      refine (hWithdrawn.insert ?_).insert trivial
      rintro e hEq
      cases hEq
      rfl

/-- A transaction that moves no stake leaves stakes and queue. -/
theorem settled_transaction (h : Store.Holds (Settled stake) s)
    (hStill : MovesNoStake ex tx height proposer s) :
    Store.Holds (Settled stake)
      ((ex.executeTransaction sha256 tx height proposer).run s).2 := by
  rcases (ex.executeTransaction_run sha256 tx height proposer s).stages with
    ⟨_, hSame⟩ | ⟨s₁, hStages⟩
  · rw [hSame]
    exact h
  have hFee := hStages.collected.keeps
  have h₁ : Store.Holds (Settled stake) s₁ :=
    settled_of_keeps h hFee (by simp [feeFamilies]) (by simp [feeFamilies])
  have hInfo (a : Address) : validatorOf s₁ a = validatorOf s a := by
    rw [validatorOf, hFee (.validator a) (by simp [familyOf, feeFamilies]), validatorOf]
  have hKeeps := dispatchAction_keeps sha256 ex tx.transaction.action tx.signer
    tx.transaction.timestamp height (s := s₁)
  have hAction : (ex.action sha256 tx height).Wp (fun _ t => Store.Holds (Settled stake) t) s₁ := by
    unfold Executor.action
    unfold MovesNoStake at hStill
    cases hEq : tx.transaction.action
    case registerValidator bps =>
      exact Prog.wp_bind_pure.mpr (settled_registerValidator h₁ _ _ _)
    case delegateStake validator amount =>
      rw [hEq] at hStill
      refine Prog.wp_bind_pure.mpr ((delegateStake_wp ex.chainConfig tx.signer validator amount
        height).mono fun o t ht => settled_delegateEnd h₁ (fun x v hCan => ?_) ht)
      obtain ⟨x₀, hSigner⟩ := Option.isSome_iff_exists.mp hStages.charges.2.1
      obtain ⟨y, hy, hBalance⟩ := hStages.collected.balance tx.signer x₀ hSigner
      obtain rfl : y = x := Option.some.inj (hy.symm.trans hCan.account)
      exact hStill v x₀ ((hInfo _).symm.trans hCan.info) hCan.active hSigner
        (hBalance ▸ hCan.enough)
    case undelegateStake validator amount =>
      rw [hEq] at hStill
      refine Prog.wp_bind_pure.mpr ((undelegateStake_wp ex.chainConfig tx.signer validator amount
        height).mono fun o t ht => settled_undelegateEnd h₁ (fun x v hCan => ?_) ht)
      refine hStill x v ⟨(hInfo _).symm.trans hCan.info, ?_, hCan.enough⟩
      rw [← hCan.delegation, delegationOf, delegationOf,
        hFee (.delegation _ _) (by simp [familyOf, feeFamilies])]
    case executeProposal id =>
      rw [hEq] at hStill
      refine Prog.wp_bind_pure.mpr (executeProposal_rule
        (fun t u ht hu => settled_of_keeps ht hu (by simp) (by simp)) h₁ ?_)
      intro p hp a bps reason v hSlash hv
      have hOld := hp.congr hFee (by simp [feeFamilies]) (by simp [feeFamilies])
      have hNothing := hStill p hOld
      rw [hSlash] at hNothing
      have hZero := hNothing v ((hInfo a).symm.trans hv)
      have hAddress : v.address = a := address_of_validatorOf hv
      refine settled_withValidator h₁ hAddress ?_
      show (saturatingSub v.stake (StakingModule.slashOf v.stake bps)).toNat = _
      rw [hZero, stakeAt_eq hv, toNat_saturatingSub, UInt64.toNat_zero, Nat.sub_zero]
    all_goals
      rw [hEq] at hKeeps
      exact settled_of_keeps h₁ (run_keeps hKeeps) (by simp [writtenBy]) (by simp [writtenBy])
  exact settled_of_keeps hAction hStages.spent (by simp) (by simp)

/-! ### The other operations -/

theorem settled_unbonded (h : Store.Holds (Settled stake) s) (height : UInt64) :
    Store.Holds (Settled stake) (unbonded height s) := by
  unfold unbonded
  generalize matureEntries height s = l
  induction l generalizing s with
  | nil => exact h
  | cons e rest ih =>
      have hCredited : Store.Holds (Settled stake)
          (Executor.creditedStore s e.1.delegator 0 e.1.amount) :=
        settled_of_keeps h (creditedStore_keeps s _ _ _) (by simp) (by simp)
      refine ih (Store.Holds.erase (Store.Holds.erase hCredited ?_) trivial)
      rintro _ ⟨⟩

/-- Slashing by nothing. -/
theorem settled_processSlashing (h : Store.Holds (Settled stake) s) {a : Address} {bps : UInt16}
    (hZero : ∀ v, validatorOf s a = some v → StakingModule.slashOf v.stake bps = 0)
    (reason : String) (height : UInt64) :
    Store.Holds (Settled stake)
      ((StakingModule.processSlashing a bps reason height).run s).2 := by
  cases hv : validatorOf s a with
  | none =>
      show Store.Holds _ ((((Prog.require (validatorOf s a) _).bind _).run s).2)
      rw [hv]
      exact h
  | some v =>
      rw [run_processSlashing hv]
      obtain ⟨hAddress, hStake⟩ := slashed_eq v bps height
      have hSame : Store.Holds (Settled stake)
          (withValidator s (StakingModule.slashed v bps height)) := by
        refine settled_withValidator h (hAddress.trans (address_of_validatorOf hv)) ?_
        rw [hStake, hZero v hv, stakeAt_eq hv, toNat_saturatingSub, UInt64.toNat_zero,
          Nat.sub_zero]
      intro k
      by_cases hk : ∃ d, k = .delegation d a
      · obtain ⟨d, rfl⟩ := hk
        trivial
      · rw [get?_slashStore v bps height fun d hEq => hk ⟨d, hEq⟩]
        exact hSame k

end Settled

/-! ## The record along a run -/

section Runs

variable {sha256 : List UInt8 → Hash} {ex : Executor} {s t : StateStore}
variable {stake : Address → Nat} {staked : UInt64}

/-- The record has the given total stake and a circulating supply computed from it. -/
def Recomputed (staked : UInt64) (info : SupplyInfo) : Prop :=
  info.totalStaked = staked ∧ info.recomputeCirculating = info

/-- Stakes and queue are settled and the record is computed from the total stake. -/
structure Tracked (stake : Address → Nat) (staked : UInt64) (s : StateStore) : Prop where
  settled : Store.Holds (Settled stake) s
  supply : ∃ info, supplyOf s = some info ∧ Recomputed staked info

theorem Recomputed.afterTx {info : SupplyInfo} (h : Recomputed staked info)
    (tx : SignedTransaction) : Recomputed staked (supplyAfterTx ex tx info) := by
  unfold supplyAfterTx
  split
  · exact ⟨h.1, rfl⟩
  · exact h

/-- Minting keeps the record computed from the total stake. -/
theorem Tracked.minted {n : Nat} (h : Tracked stake staked s)
    (hSettled : Store.Holds (Settled stake) t) (hMinted : Minted n s t) :
    Tracked stake staked t := by
  obtain ⟨info, hInfo, hRecomputed⟩ := h.supply
  refine ⟨hSettled, ?_⟩
  rcases hMinted.supply with ⟨hSame, _⟩ | ⟨d, _, hNew⟩
  · exact ⟨info, hSame.trans hInfo, hRecomputed⟩
  · rw [hInfo] at hNew
    exact ⟨_, hNew, hRecomputed.1, rfl⟩

theorem Tracked.next (h : Tracked stake staked s) {op : ChainOp}
    (hStill : op.MovesNoStake sha256 ex s) : Tracked stake staked (op.next sha256 ex s) := by
  obtain ⟨info, hInfo, hRecomputed⟩ := h.supply
  have hLenient := lenient_settled stake
  cases op with
  | block txs height proposer =>
      refine ChainOp.block_rule hStill ⟨settled_unbonded h.settled height, info, ?_, hRecomputed⟩ ?_
      · rw [supplyOf_of_keeps (unbonded_keeps height s) (by simp), hInfo]
      · intro st hMoves hCharges hBefore
        obtain ⟨info, hInfo, hRecomputed⟩ := hBefore.supply
        exact ⟨settled_transaction hBefore.settled (hMoves hCharges), _,
          supplyOf_transaction hInfo hCharges, hRecomputed.afterTx st.tx⟩
  | apply block receipts =>
      have hKeeps := applyBlock_keeps (ε := ValidatorError) block receipts s
      refine ⟨settled_of_keeps h.settled hKeeps (by simp) (by simp), info, ?_, hRecomputed⟩
      exact (supplyOf_of_keeps hKeeps (by simp)).trans hInfo
  | reward proposer =>
      exact h.minted ((applyBlockReward_safe hLenient ex proposer).sound h.settled).holds
        (applyBlockReward_wp proposer s)
  | epoch height =>
      obtain ⟨n, hMinted, _⟩ := processEpochTransition_wp ⟨ex.chainConfig⟩ height s
      exact h.minted
        ((processEpochTransition_safe hLenient ⟨ex.chainConfig⟩ height).sound h.settled).holds
        hMinted
  | slash a bps reason height =>
      refine ⟨settled_processSlashing h.settled hStill reason height, info, ?_, hRecomputed⟩
      show supplyOf ((StakingModule.processSlashing a bps reason height).run s).2 = _
      cases hv : validatorOf s a with
      | none =>
          show supplyOf ((((Prog.require (validatorOf s a) _).bind _).run s).2) = _
          rw [hv]
          exact hInfo
      | some v =>
          rw [run_processSlashing hv, supplyOf, get?_slashStore v bps height (by simp),
            get?_withValidator (by simp)]
          exact hInfo

/-- What is tracked is right. -/
theorem Tracked.tracksStaking (h : Tracked stake staked s) {s₀ : StateStore}
    (h₀ : Store.Holds (Settled stake) s₀) (hStaked : staked.toNat = stakedTokens s₀) :
    TracksStaking s := by
  obtain ⟨info, hInfo, hTotal, hRecomputed⟩ := h.supply
  have hSum : stakedTokens s = info.totalStaked.toNat := by
    rw [hTotal, hStaked]
    exact stakedTokens_congr h₀ h.settled
  refine ⟨info, hInfo, hSum.symm, ?_⟩
  rw [pendingTokens_eq_zero h.settled, hSum, ← hRecomputed]
  show (saturatingSub (saturatingSub info.totalSupply info.totalStaked)
    info.treasuryBalance).toNat = _
  rw [toNat_saturatingSub, toNat_saturatingSub, Nat.sub_zero]
  rfl

theorem settled_genesis {g : Genesis} {s₀ : StateStore} (hGenesis : IsGenesis ex g s₀) :
    Store.Holds (Settled (stakeAt s₀)) s₀ := by
  have hKeeps := keeps_of_chainFrame (initFromGenesis_safe (s := ∅) ⟨ex.chainConfig⟩ g)
  rw [hGenesis] at hKeeps
  intro k
  cases k
  case validator a =>
    show _ = stakeAt s₀ a
    rw [stakeAt, validatorOf, Option.map_map]
    rfl
  case unbonding a n i =>
    rw [hKeeps (.unbonding a n i) (by simp [familyOf, chainFamilies])]
    intro e he
    simp at he
  all_goals trivial

/-- The record is right in every state of a run in which no operation moves stake, from a
genesis document with different validators whose stakes fit into 64 bits. -/
theorem tracksStaking_of_movesNoStake {g : Genesis} {s₀ : StateStore}
    (hGenesis : IsGenesis ex g s₀)
    (hDistinct : (g.validators.map fun gv => (parseAddress gv.address).toOption).Nodup)
    (hFits : listedStake g < 2 ^ 64) {ops : List ChainOp}
    (hStill : Along (ChainOp.next sha256 ex) (fun s op => op.MovesNoStake sha256 ex s) s₀ ops) :
    TracksStaking (after (ChainOp.next sha256 ex) s₀ ops) := by
  obtain ⟨s₁, s₂, s₃, addrs, hStages⟩ := stages_of_genesis hGenesis
  have hSettled : Store.Holds (Settled (stakeAt s₀)) s₀ := settled_genesis hGenesis
  have hStaked : (ChainState.genesisStake g).toNat = stakedTokens s₀ := by
    rw [toNat_genesisStake hFits, hStages.stakedTokens_eq hDistinct]
  have hStart : Tracked (stakeAt s₀) (ChainState.genesisStake g) s₀ := by
    have hZero : saturatingSub (saturatingSub g.initialSupply (ChainState.genesisStake g)) 0 =
        saturatingSub g.initialSupply (ChainState.genesisStake g) :=
      UInt64.toNat.inj (by rw [toNat_saturatingSub, UInt64.toNat_zero, Nat.sub_zero])
    refine ⟨hSettled, _, hStages.supplyOf_eq, rfl, ?_⟩
    exact congrArg (fun n => { ChainState.genesisSupply g with circulatingSupply := n }) hZero
  have hEnd := hStill.rule (fun s op hs h => hs.next h) hStart
  exact hEnd.tracksStaking hSettled hStaked

/-- A transfer, a block reward and a slash of nothing leave the record right. -/
theorem tracksStaking_of_movesNoStake_transfer :
    TracksStaking (after (ChainOp.next (fun _ => Hash.zero) shortEpochs) soleValidatorStore
      [.block [playerTx 0 (.transfer (Address.ofByte 2) 5)] 1 Address.zero,
        .reward (Address.ofByte 1), .slash (Address.ofByte 1) 0 "" 1]) := by
  refine tracksStaking_of_movesNoStake isGenesis_soleValidator (by decide +kernel)
    (by decide +kernel) ⟨fun st hMem _ => ?_, trivial, fun v hv => ?_, trivial⟩
  · obtain rfl := List.mem_singleton.mp hMem
    trivial
  · rw [StakingModule.slashOf, UInt16.toNat_zero, Nat.mul_zero]
    rfl

/-- A delegation of 500 tokens reaches the validator but not the record. -/
theorem delegation_not_tracked :
    let s := after (ChainOp.next (fun _ => Hash.zero) shortEpochs) soleValidatorStore
      [.block [playerTx 0 (.delegateStake (Address.ofByte 1) 500)] 1 Address.zero]
    soleValidator.validate shortEpochs.chainConfig = .ok () ∧
      IsGenesis shortEpochs soleValidator soleValidatorStore ∧
      (supplyOf s).map (fun info => info.totalStaked.toNat) = some 2000000 ∧
      stakedTokens s = 2000500 ∧ ¬ TracksStaking s := by
  intro s
  have hRecord : (supplyOf s).map (fun info => info.totalStaked.toNat) = some 2000000 := by
    decide +kernel
  have hStaked : stakedTokens s = 2000500 := by decide +kernel
  refine ⟨by decide +kernel, isGenesis_soleValidator, hRecord, hStaked, ?_⟩
  rintro ⟨info, hInfo, hTracked, _⟩
  rw [hInfo, Option.map_some, hTracked, hStaked] at hRecord
  exact absurd hRecord (by decide)

end Runs

end Polay.Validator
