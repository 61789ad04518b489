import Polay.Validator.Election
import Polay.Validator.Operations

/-!
# When a delegation starts to earn

A delegation records the epoch in which it was made or increased, and an epoch pays the
delegations recorded in earlier epochs. The epoch of a height is rounded down, so a
delegation made in the last block before a boundary is recorded in the epoch that ends there
and earns at once. Only a delegation made in the block of a boundary waits for a full epoch.
-/

namespace Polay.Validator

open Lib Lib.Machine Lib.Trace Polay.Types State Execution

variable {sha256 : List UInt8 → Hash} {ex : Executor} {s t : StateStore} {d v : Address}

/-! ## How a delegation can change -/

variable {height epoch : UInt64}

/-- How a delegation can change in an epoch: it gets lower and keeps its epoch, or it is
written with the current epoch. -/
inductive DelegationChange (epoch : UInt64) : Option Delegation → Option Delegation → Prop where
  | same (x : Option Delegation) : DelegationChange epoch x x
  | lowered {x y : Delegation} (hEpoch : y.lastRewardEpoch = x.lastRewardEpoch)
      (hAmount : y.amount ≤ x.amount) : DelegationChange epoch (some x) (some y)
  | renewed {x : Option Delegation} {y : Delegation} (hEpoch : y.lastRewardEpoch = epoch) :
      DelegationChange epoch x (some y)

theorem DelegationChange.of_eq {x y : Option Delegation} (h : y = x) :
    DelegationChange epoch x y := by
  rw [h]
  exact .same x

theorem delegationOf_of_keeps {F : List Family} (h : Store.Holds (Keeps F s) t)
    (hF : Family.delegation ∉ F) (d v : Address) : delegationOf t d v = delegationOf s d v := by
  rw [delegationOf, h (.delegation d v) hF, delegationOf]

theorem delegationOf_withDelegation_ite (s : StateStore) (x : Delegation) (d v : Address) :
    delegationOf (withDelegation s x) d v =
      if d = x.delegator ∧ v = x.validator then some x else delegationOf s d v := by
  by_cases hEq : d = x.delegator ∧ v = x.validator
  · rw [if_pos hEq, delegationOf_withDelegation hEq.1.symm hEq.2.symm]
  · have hKey : Key.delegation x.delegator x.validator ≠ .delegation d v := by
      intro hKey
      exact hEq (by simpa [eq_comm] using hKey)
    rw [if_neg hEq, delegationOf, withDelegation, Store.get?_insert_ne hKey, delegationOf]

/-- A delegation is written with the current epoch. -/
theorem DelegateEnd.delegationChange {config : ChainConfig} {signer validator : Address}
    {amount : UInt64} {o : Outcome ExecutionError (List Event)}
    (h : DelegateEnd config s signer validator amount height o t) (d v : Address) :
    DelegationChange (height / config.epochLength) (delegationOf s d v) (delegationOf t d v) := by
  have hMoved (x : AccountState) (i : ValidatorInfo) :
      delegationOf (stakeMoved s x i amount) d v = delegationOf s d v := by
    rw [delegationOf, stakeMoved, get?_withValidator (by simp), get?_withAccount (by simp),
      delegationOf]
  cases o with
  | ok events =>
      obtain ⟨_, x, i, _, rfl⟩ := h
      rw [delegationOf_withDelegation_ite, hMoved]
      split
      · exact .renewed rfl
      · exact .same _
  | err e => exact .of_eq (by rw [h.1])
  | panic =>
      obtain ⟨_, x, i, _, rfl⟩ := h
      exact .of_eq (hMoved x i)

/-- An undelegation keeps the epoch. -/
theorem UndelegateEnd.delegationChange {config : ChainConfig} {signer validator : Address}
    {amount : UInt64} {o : Outcome ExecutionError (List Event)}
    (h : UndelegateEnd config s signer validator amount height o t) (epoch : UInt64)
    (d v : Address) : DelegationChange epoch (delegationOf s d v) (delegationOf t d v) := by
  cases o with
  | ok events =>
      obtain ⟨x, i, hCan, rfl⟩ := h
      obtain ⟨hDelegator, hValidator⟩ := identifiers_of_delegationOf hCan.delegation
      have hWithdrawn : delegationOf (stakeWithdrawn s x i amount) d v =
          if d = x.delegator ∧ v = x.validator then some { x with amount := x.amount - amount }
          else delegationOf s d v := by
        rw [delegationOf, stakeWithdrawn, get?_withValidator (by simp), ← delegationOf,
          delegationOf_withDelegation_ite]
      have hEntry : delegationOf (withUnbonding (stakeWithdrawn s x i amount)
          (undelegationEntry config signer validator amount height)
          (UInt8.ofNat (pendingCount s signer (completionAt config height)))) d v =
          delegationOf (stakeWithdrawn s x i amount) d v := by
        rw [delegationOf, withUnbonding, Store.get?_insert_ne (by simp),
          Store.get?_insert_ne (by simp), delegationOf]
      rw [hEntry, hWithdrawn]
      split
      · rename_i hEq
        rw [hEq.1, hEq.2, hDelegator, hValidator, hCan.delegation]
        refine .lowered rfl ?_
        have hLe := hCan.enough
        rw [UInt64.le_iff_toNat_le, UInt64.toNat_sub_of_le _ _ hLe]
        exact Nat.sub_le _ _
      · exact .same _
  | err e => exact .of_eq (by rw [h.1])
  | panic => exact h.elim

theorem delegationChange_dispatchAction (sha256 : List UInt8 → Hash) (ex : Executor)
    (action : TransactionAction) (signer : Address)
    (timestamp height : UInt64) (s : StateStore) (d v : Address) :
    (ex.dispatchAction sha256 action signer timestamp height).Wp (fun _ t =>
      DelegationChange (height / ex.chainConfig.epochLength) (delegationOf s d v)
        (delegationOf t d v)) s := by
  have hKeeps := dispatchAction_keeps sha256 ex action signer timestamp height (s := s)
  cases action
  case delegateStake validator amount =>
    exact Prog.wp_bind_pure.mpr ((delegateStake_wp _ _ _ _ _).mono fun o t h =>
      h.delegationChange d v)
  case undelegateStake validator amount =>
    exact Prog.wp_bind_pure.mpr ((undelegateStake_wp _ _ _ _ _).mono fun o t h =>
      h.delegationChange _ d v)
  all_goals exact .of_eq (delegationOf_of_keeps (run_keeps hKeeps) (by simp [writtenBy]) d v)

/-- A transaction. -/
theorem delegationChange_transaction (tx : SignedTransaction) (height : UInt64)
    (proposer : Address) (s : StateStore) (d v : Address) :
    DelegationChange (height / ex.chainConfig.epochLength) (delegationOf s d v)
      (delegationOf ((ex.executeTransaction sha256 tx height proposer).run s).2 d v) := by
  rcases (ex.executeTransaction_run sha256 tx height proposer s).stages with
    ⟨_, hSame⟩ | ⟨s₁, hStages⟩
  · exact .of_eq (by rw [hSame])
  · have hFee := delegationOf_of_keeps hStages.collected.keeps (by simp [feeFamilies]) d v
    have hSpent := delegationOf_of_keeps hStages.spent (by simp) d v
    have hAction := delegationChange_dispatchAction sha256 ex tx.transaction.action
      tx.transaction.signer tx.transaction.timestamp height s₁ d v
    rw [hSpent, ← hFee]
    exact hAction

theorem delegationChange_slashed (bps : UInt16) {l : List Delegation}
    (hl : ∀ x ∈ l, delegationOf s x.delegator x.validator = some x)
    (h : DelegationChange epoch (delegationOf s d v) (delegationOf t d v)) :
    DelegationChange epoch (delegationOf s d v)
      (delegationOf (l.foldl (slashedStore bps) t) d v) := by
  induction l generalizing t with
  | nil => exact h
  | cons x rest ih =>
      refine ih (fun y hy => hl y (List.mem_cons_of_mem x hy)) ?_
      unfold slashedStore
      split
      · exact h
      · rw [delegationOf_withDelegation_ite]
        split
        · rename_i hEq
          rw [hEq.1, hEq.2, hl x List.mem_cons_self]
          refine .lowered rfl ?_
          rw [UInt64.le_iff_toNat_le, toNat_saturatingSub]
          exact Nat.sub_le _ _
        · exact h

/-- A slash. -/
theorem delegationChange_slash (validator : Address) (bps : UInt16) (reason : String)
    (height epoch : UInt64) (s : StateStore) (d v : Address) :
    DelegationChange epoch (delegationOf s d v) (delegationOf
      ((StakingModule.processSlashing validator bps reason height).run s).2 d v) := by
  cases hi : validatorOf s validator with
  | none =>
      show DelegationChange _ _ (delegationOf (((Prog.require (validatorOf s validator) _).bind
        _).run s).2 d v)
      rw [hi]
      exact .same _
  | some info =>
      rw [run_processSlashing hi]
      refine delegationChange_slashed bps (fun x hx => ?_) (.of_eq ?_)
      · obtain ⟨a, _, ha⟩ := List.mem_filterMap.mp hx
        obtain ⟨hDelegator, hValidator⟩ := identifiers_of_delegationOf ha
        rw [hDelegator, hValidator, ha]
      · rw [delegationOf, get?_withValidator (by simp), delegationOf]

/-! ## The epoch of a delegation -/

/-- The delegation was last raised in the epoch or later. -/
def Dated (epoch : UInt64) (d v : Address) (s : StateStore) : Prop :=
  ∃ x, delegationOf s d v = some x ∧ epoch ≤ x.lastRewardEpoch

theorem Dated.of_change {current : UInt64} (h : Dated epoch d v s)
    (hChange : DelegationChange current (delegationOf s d v) (delegationOf t d v))
    (hLater : epoch ≤ current) : Dated epoch d v t := by
  obtain ⟨x, hx, hEpoch⟩ := h
  rw [hx] at hChange
  generalize hy : delegationOf t d v = y at hChange
  cases hChange with
  | same => exact ⟨x, hy, hEpoch⟩
  | lowered hSame _ => exact ⟨_, hy, hSame ▸ hEpoch⟩
  | renewed hNow => exact ⟨_, hy, hNow ▸ hLater⟩

theorem Dated.of_eq (h : Dated epoch d v s) (hSame : delegationOf t d v = delegationOf s d v) :
    Dated epoch d v t :=
  h.of_change (.of_eq hSame) (UInt64.le_refl epoch)

/-- The delegation was made or increased. -/
def Raised (d v : Address) (s t : StateStore) : Prop :=
  (delegationOf s d v = none ∧ delegationOf t d v ≠ none) ∨ amountAt s d v < amountAt t d v

/-- A change that raises the delegation records the current epoch. -/
theorem Raised.dated (h : Raised d v s t)
    (hChange : DelegationChange epoch (delegationOf s d v) (delegationOf t d v)) :
    Dated epoch d v t := by
  unfold Raised amountAt at h
  generalize hx : delegationOf s d v = x at h hChange
  generalize hy : delegationOf t d v = y at h hChange
  cases hChange with
  | same =>
      rcases h with ⟨hNone, hSome⟩ | hLess
      · exact absurd hNone hSome
      · exact absurd hLess (Nat.lt_irrefl _)
  | lowered _ hAmount =>
      rcases h with ⟨hNone, _⟩ | hLess
      · cases hNone
      · exact absurd (UInt64.le_iff_toNat_le.mp hAmount) (Nat.not_le.mpr hLess)
  | renewed hNow => exact ⟨_, hy, hNow ▸ UInt64.le_refl _⟩

/-! ## Runs -/

/-- What can happen on a chain, and the registration of a delegator with the staking
module. -/
inductive RewardStep where
  | chain (op : ChainOp)
  | register (validator delegator : Address)

/-- The store after a step. -/
def RewardStep.next (sha256 : List UInt8 → Hash) (ex : Executor) (s : StateStore) :
    RewardStep → StateStore
  | .chain op => op.next sha256 ex s
  | .register validator delegator =>
      ((StakingModule.registerDelegation validator delegator : Exec StakingError Unit).run s).2

/-- The step does not execute a block below a height. -/
def RewardStep.NotBelow (height : UInt64) : RewardStep → Prop
  | .chain (.block _ h _) => height ≤ h
  | _ => True

theorem Dated.block (h : Dated epoch d v s) (hLater : epoch ≤ height / ex.chainConfig.epochLength)
    (txs : List SignedTransaction) (proposer : Address) :
    Dated epoch d v (ChainOp.next sha256 ex s (.block txs height proposer)) := by
  refine ChainOp.block_rule (P := fun _ => True) (fun _ _ => trivial) ?_ fun st _ _ hst => ?_
  · exact h.of_eq (delegationOf_of_keeps (unbonded_keeps height s) (by simp) d v)
  · exact hst.of_change (delegationChange_transaction st.tx height proposer st.before d v) hLater

/-- Operations between blocks leave delegations alone. -/
theorem delegationOf_of_safe {ε α : Type} {p : Exec ε α}
    (h : p.Safe (ChainFrame s) True True false) (d v : Address) :
    delegationOf (p.run s).2 d v = delegationOf s d v :=
  delegationOf_of_keeps (keeps_of_chainFrame h) (by simp [chainFamilies]) d v

/-- Steps that execute no block below a height keep the epoch of the height. -/
theorem Dated.next (h : Dated (height / ex.chainConfig.epochLength) d v s) {step : RewardStep}
    (hStep : step.NotBelow height) :
    Dated (height / ex.chainConfig.epochLength) d v (step.next sha256 ex s) := by
  cases step with
  | register validator delegator =>
      exact h.of_eq
        (delegationOf_of_keeps (registerDelegation_keeps validator delegator s) (by simp) d v)
  | chain op =>
      cases op with
      | block txs now proposer =>
          have hLater : height / ex.chainConfig.epochLength ≤ now / ex.chainConfig.epochLength := by
            rw [UInt64.le_iff_toNat_le, UInt64.toNat_div, UInt64.toNat_div]
            exact Nat.div_le_div_right (UInt64.le_iff_toNat_le.mp hStep)
          exact h.block hLater txs proposer
      | apply b receipts =>
          exact h.of_eq
            (delegationOf_of_safe (applyBlock_safe (lenient_chainFrame s) b receipts) d v)
      | reward proposer =>
          exact h.of_eq
            (delegationOf_of_safe (applyBlockReward_safe (lenient_chainFrame s) ex proposer) d v)
      | epoch now =>
          exact h.of_eq
            (delegationOf_of_safe (processEpochTransition_safe (lenient_chainFrame s) _ now) d v)
      | slash validator bps reason now =>
          exact h.of_change (delegationChange_slash validator bps reason now _ s d v)
            (UInt64.le_refl _)

theorem delegationChange_step {proposer : Address} {st : Executor.BlockStep}
    (h : ex.IsStep sha256 height proposer st) (d v : Address) :
    DelegationChange (height / ex.chainConfig.epochLength) (delegationOf st.before d v)
      (delegationOf st.after d v) := by
  by_cases hCharged : ex.Charged st
  · rw [(h.after_charged hCharged).1]
    exact delegationChange_transaction st.tx height proposer st.before d v
  · rw [h.after_eq hCharged]
    exact .same _

/-- A loop in which a turn raises the delegation records the epoch. -/
theorem dated_of_raised {proposer : Address} {txs : List SignedTransaction} {gas : UInt64}
    {t : StateStore} {st : Executor.BlockStep}
    (hst : st ∈ ex.steps sha256 height proposer gas t txs)
    (hRaised : Raised d v st.before st.after) :
    Dated (height / ex.chainConfig.epochLength) d v
      (Executor.storeAfter t (ex.steps sha256 height proposer gas t txs)) := by
  induction txs generalizing gas t with
  | nil => cases hst
  | cons tx rest ih =>
      let r := ex.next sha256 height proposer gas t tx
      have hIsStep := Executor.isStep_of_mem_steps sha256 ex hst
      rcases List.mem_cons.mp hst with hFirst | hLater
      · have hDated : Dated (height / ex.chainConfig.epochLength) d v r.2 := by
          have hNow := hRaised.dated (delegationChange_step hIsStep d v)
          rwa [hFirst] at hNow
        show Dated _ d v (Executor.storeAfter r.2 (ex.steps sha256 height proposer r.1.1 r.2 rest))
        exact steps_rule (P := fun _ => True) (fun st' _ _ h' => h'.of_change
          (delegationChange_transaction st'.tx height proposer st'.before d v)
          (UInt64.le_refl _)) (fun _ _ => trivial) hDated
      · exact ih hLater

/-! ## Who is paid -/

/-- A distribution pays the delegator a share of the pool of the validator. -/
def PaysShare (config : ChainConfig) (epoch : UInt64) (s : StateStore)
    (vs : List ValidatorInfo) (d v : Address) : Prop :=
  ∃ info ∈ vs, info.address = v ∧ ∃ n, (d, n) ∈ poolPayouts
    (poolIn (epochReward config s) (wrappedStake vs) info)
    (StakingModule.earning epoch (delegationsTo s v))

theorem mem_payout {a b : Address} {n m : UInt64} (h : (a, n) ∈ payout b m) : a = b := by
  unfold payout at h
  split at h
  · exact (Prod.mk.inj (List.mem_singleton.mp h)).1
  · cases h

/-- A delegation that is dated in the epoch earns nothing in it. -/
theorem Dated.not_paysShare (h : Dated epoch d v s) (config : ChainConfig)
    (vs : List ValidatorInfo) : ¬ PaysShare config epoch s vs d v := by
  rintro ⟨info, _, _, n, hMem⟩
  obtain ⟨x, hx, hEpoch⟩ := h
  unfold poolPayouts at hMem
  split at hMem
  · obtain ⟨y, hy, hPayout⟩ := List.mem_flatMap.mp hMem
    have hDelegator := mem_payout hPayout
    have hEarning := List.mem_filter.mp hy
    obtain ⟨a, _, ha⟩ := List.mem_filterMap.mp hEarning.1
    rw [(identifiers_of_delegationOf ha).1] at hDelegator
    rw [← hDelegator, hx] at ha
    obtain rfl := Option.some.inj ha
    have hOlder := (of_decide_eq_true hEarning.2).2
    exact absurd hEpoch (UInt64.not_le.mpr hOlder)
  · cases hMem

/-- Two boundaries less than an epoch apart are the same. -/
theorem eq_of_boundaries {em : EpochManager} {boundary : UInt64}
    (hHeight : height % em.config.epochLength = 0)
    (hBoundary : em.isEpochBoundary boundary = true) (hFrom : height ≤ boundary)
    (hTo : boundary.toNat < height.toNat + em.config.epochLength.toNat) : boundary = height := by
  have hLength := epochLength_ne_zero_of_boundary hBoundary
  unfold EpochManager.isEpochBoundary at hBoundary
  rw [if_neg hLength, Bool.and_eq_true, decide_eq_true_iff, decide_eq_true_iff] at hBoundary
  have hMod : boundary.toNat % em.config.epochLength.toNat = 0 := by
    rw [← UInt64.toNat_mod, hBoundary.2]
    rfl
  have hMod' : height.toNat % em.config.epochLength.toNat = 0 := by
    rw [← UInt64.toNat_mod, hHeight]
    rfl
  rw [UInt64.le_iff_toNat_le] at hFrom
  obtain ⟨k, hk⟩ := Nat.exists_eq_add_of_le hFrom
  have hRest : k % em.config.epochLength.toNat = 0 := by
    rw [hk, Nat.add_mod, hMod', Nat.zero_add, Nat.mod_mod] at hMod
    exact hMod
  have hSmall : k < em.config.epochLength.toNat := by omega
  rw [Nat.mod_eq_of_lt hSmall] at hRest
  apply UInt64.toNat_inj.mp
  omega

/-- A delegation that was made or increased in the block of an epoch boundary is paid no share
at a boundary less than `epochLength` blocks later. A transition pays on the store in which
jail terms were lifted and the active set was stored. -/
theorem raised_not_paid {l₁ l₂ : List RewardStep} {txs : List SignedTransaction}
    {height boundary : UInt64} {proposer : Address} {st : Executor.BlockStep}
    (hst : st ∈ ex.blockSteps sha256 txs height proposer
      (after (RewardStep.next sha256 ex) s l₁))
    (hRaised : Raised d v st.before st.after) (hLater : ∀ step ∈ l₂, step.NotBelow height)
    (hHeight : height % ex.chainConfig.epochLength = 0)
    (hBoundary : EpochManager.isEpochBoundary ⟨ex.chainConfig⟩ boundary = true)
    (hFrom : height ≤ boundary)
    (hTo : boundary.toNat < height.toNat + ex.chainConfig.epochLength.toNat) {s₂ : StateStore}
    (hKeeps : Store.Holds (Keeps [.account, .validator, .chain, .supplyInfo]
      (after (RewardStep.next sha256 ex) s (l₁ ++ .chain (.block txs height proposer) :: l₂))) s₂)
    (vs : List ValidatorInfo) :
    ¬ PaysShare ex.chainConfig (boundary / ex.chainConfig.epochLength) s₂ vs d v := by
  have hSame : boundary = height := eq_of_boundaries hHeight hBoundary hFrom hTo
  have hBlock : Dated (height / ex.chainConfig.epochLength) d v
      (RewardStep.next sha256 ex (after (RewardStep.next sha256 ex) s l₁)
        (.chain (.block txs height proposer))) := by
    show Dated _ _ _ ((ex.executeBlock sha256 txs height proposer).run _).2
    rw [Executor.run_executeBlock]
    exact dated_of_raised hst hRaised
  have hRun := (@along_of_forall _ _ (RewardStep.next sha256 ex) _ _ hLater
    (RewardStep.next sha256 ex (after (RewardStep.next sha256 ex) s l₁)
      (.chain (.block txs height proposer)))).rule
    (I := Dated (height / ex.chainConfig.epochLength) d v) (fun s step hs hStep => hs.next hStep)
    hBlock
  have hAfter : after (RewardStep.next sha256 ex) s
      (l₁ ++ .chain (.block txs height proposer) :: l₂) =
      after (RewardStep.next sha256 ex) (RewardStep.next sha256 ex
        (after (RewardStep.next sha256 ex) s l₁) (.chain (.block txs height proposer))) l₂ :=
    List.foldl_append
  rw [hAfter] at hKeeps
  rw [hSame]
  exact (hRun.of_eq (delegationOf_of_keeps hKeeps (by simp) d v)).not_paysShare _ vs

/-- A genesis with a validator and a funded account. -/
def validatorAndPlayer : Genesis where
  accounts :=
    [⟨"0202020202020202020202020202020202020202020202020202020202020202", 10000000⟩]
  validators :=
    [⟨"0101010101010101010101010101010101010101010101010101010101010101", 2000000, 0⟩]
  attestors := []
  initialSupply := 1000000000000

/-- Its store on the development network. -/
def validatorAndPlayerStore : StateStore :=
  ((ChainState.initFromGenesis ⟨ChainConfig.default⟩ validatorAndPlayer).run ∅).2

/-- The steps of the development network, with a hash function that is constant. -/
def devnetNext : StateStore → RewardStep → StateStore :=
  RewardStep.next (fun _ => Hash.zero) Executor.devnet

/-- The player delegates in the block of a height and is registered. -/
def delegateAt (height : UInt64) : List RewardStep :=
  [.chain (.block [secondPlayerTx 0 (.delegateStake (Address.ofByte 1) 500000)] height
    Address.zero), .register (Address.ofByte 1) (Address.ofByte 2)]

/-- A delegation made at height 7199 earns at the boundary 7200. -/
theorem delegation_paid_after_one_block :
    delegationOf validatorAndPlayerStore (Address.ofByte 2) (Address.ofByte 1) = none ∧
      delegationOf (after devnetNext validatorAndPlayerStore (delegateAt 7199)) (Address.ofByte 2)
        (Address.ofByte 1) = some ⟨Address.ofByte 2, Address.ofByte 1, 500000, 0, 0⟩ ∧
      balanceOf (after devnetNext validatorAndPlayerStore
          (delegateAt 7199 ++ [.chain (.epoch 7200)])) (Address.ofByte 2) =
        balanceOf (after devnetNext validatorAndPlayerStore (delegateAt 7199)) (Address.ofByte 2) +
          36529679 := by
  decide +kernel

/-- The only turn of a block at the boundary. -/
def boundaryTurn : Executor.BlockStep :=
  let tx := secondPlayerTx 0 (.delegateStake (Address.ofByte 1) 500000)
  let u := unbonded 7200 validatorAndPlayerStore
  let r := Executor.devnet.next (fun _ => Hash.zero) 7200 Address.zero 0 u tx
  ⟨0, u, tx, r.1.2, r.2⟩

/-- A delegation made at the boundary 7200 earns nothing there. -/
theorem raised_not_paid_at_boundary :
    ¬ PaysShare ChainConfig.default (7200 / 7200)
      (after devnetNext validatorAndPlayerStore (delegateAt 7200))
      [⟨Address.ofByte 1, 2500000, 0, .active, none, 0⟩] (Address.ofByte 2) (Address.ofByte 1) := by
  have hTurn : boundaryTurn ∈ Executor.devnet.blockSteps (fun _ => Hash.zero)
      [secondPlayerTx 0 (.delegateStake (Address.ofByte 1) 500000)] 7200 Address.zero
      validatorAndPlayerStore := List.mem_singleton.mpr rfl
  have hRaised : Raised (Address.ofByte 2) (Address.ofByte 1) boundaryTurn.before
      boundaryTurn.after := .inl ⟨by decide +kernel, by decide +kernel⟩
  refine @raised_not_paid _ _ _ _ _ [] [.register (Address.ofByte 1) (Address.ofByte 2)] _ _ 7200
    _ _ hTurn hRaised ?_ (by decide)
    (by decide) (by decide) (by decide) _ (fun _ _ => rfl) _
  intro step hStep
  rw [List.mem_singleton.mp hStep]
  trivial

end Polay.Validator
