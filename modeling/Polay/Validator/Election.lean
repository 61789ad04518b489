import Polay.Validator.Rewards

/-!
# The election at an epoch boundary

The transition to an epoch frees the validators whose jail term has ended and elects those
with the most stake. What it returns, the stored active set and the record of the
epoch are the same list.
-/

namespace Polay.Validator

open Lib Lib.Machine Polay.Types State Execution Consensus

variable {s t : StateStore} {em : EpochManager} {height : UInt64}

/-- What is left out of the front of an ordered list comes after it. -/
theorem rel_of_not_mem_take {α : Type} {r : α → α → Prop} {l : List α} (h : l.Pairwise r)
    {k : Nat} {a b : α} (ha : a ∈ l) (hOut : a ∉ l.take k) (hb : b ∈ l.take k) : r b a := by
  rw [← List.take_append_drop k l] at h ha
  have hDrop : a ∈ l.drop k := (List.mem_append.mp ha).resolve_left hOut
  exact (List.pairwise_append.mp h).2.2 b hb a hDrop

/-! ## The candidates -/

/-- A validator can be elected: it is active, or will be freed, and has enough stake. -/
def electable (em : EpochManager) (height : UInt64) (v : ValidatorInfo) : Bool :=
  (v.status == .active || termPassed height v) && em.config.minStake ≤ v.stake

theorem electable_iff (v : ValidatorInfo) : electable em height v = true ↔
    (freed height v).status = .active ∧ em.config.minStake ≤ (freed height v).stake := by
  unfold electable
  rw [stake_freed, freed]
  by_cases hPassed : termPassed height v
  · simp [hPassed]
  · simp [hPassed]

/-- The listed validators that can be elected. -/
def candidates (em : EpochManager) (height : UInt64) (s : StateStore) : List ValidatorInfo :=
  (listedValidators (validatorList s) s).filter (electable em height)

/-- The candidates, freed, with the most stake first. -/
def ranking (em : EpochManager) (height : UInt64) (s : StateStore) : List ValidatorInfo :=
  ((candidates em height s).map (freed height)).mergeSort fun a b => decide (b.stake ≤ a.stake)

theorem selectEligible_freed (em : EpochManager) (height : UInt64) (s : StateStore) :
    em.selectEligible ((listedValidators (validatorList s) s).map (freed height)) =
      (ranking em height s).take em.config.maxValidators.toNat := by
  unfold EpochManager.selectEligible ranking candidates
  rw [List.filter_map]
  have hSame : ((fun v : ValidatorInfo => decide (v.status = .active ∧
      em.config.minStake ≤ v.stake)) ∘ freed height) = electable em height := by
    funext v
    rw [Function.comp_apply, Bool.eq_iff_iff, decide_eq_true_iff, electable_iff]
  rw [hSame]

theorem mem_ranking {v : ValidatorInfo} :
    v ∈ ranking em height s ↔ ∃ c ∈ candidates em height s, freed height c = v := by
  unfold ranking
  rw [List.mem_mergeSort, List.mem_map]

theorem ranking_sorted (em : EpochManager) (height : UInt64) (s : StateStore) :
    (ranking em height s).Pairwise fun a b => b.stake ≤ a.stake := by
  have hSorted := @List.pairwise_mergeSort ValidatorInfo (fun a b => decide (b.stake ≤ a.stake))
    (fun a b c hab hbc => by
      rw [decide_eq_true_iff] at hab hbc ⊢
      exact UInt64.le_trans hbc hab)
    (fun a b => by
      rw [Bool.or_eq_true, decide_eq_true_iff, decide_eq_true_iff]
      exact (UInt64.le_total a.stake b.stake).symm)
    ((candidates em height s).map (freed height))
  exact hSorted.imp fun h => of_decide_eq_true h

/-- A listed address without a record stays without one. -/
theorem validatorOf_freed {V : List Address}
    (h : ∀ a, validatorOf t a = if a ∈ (listedValidators V s).map ValidatorInfo.address then
      (validatorOf s a).map (freed height) else validatorOf s a) (a : Address) :
    validatorOf t a = if a ∈ V then (validatorOf s a).map (freed height)
      else validatorOf s a := by
  rw [h]
  cases hv : validatorOf s a with
  | none => rw [Option.map_none, ite_self, ite_self]
  | some v =>
      have hAddress := address_of_validatorOf hv
      have hListed : a ∈ (listedValidators V s).map ValidatorInfo.address ↔ a ∈ V := by
        constructor
        · intro hMem
          obtain ⟨v', hv', rfl⟩ := List.mem_map.mp hMem
          obtain ⟨b, hb, hStored⟩ := List.mem_filterMap.mp hv'
          rwa [address_of_validatorOf hStored]
        · intro hMem
          exact List.mem_map.mpr ⟨v, List.mem_filterMap.mpr ⟨a, hMem, hv⟩, hAddress⟩
      simp only [hListed]

/-- The jail terms are lifted first. -/
theorem exists_run_unjailElapsed (height : UInt64) (s : StateStore) :
    ∃ events t, (EpochManager.unjailElapsed height
        (listedValidators (validatorList s) s)).run s = (.ok events, t) ∧
      (∀ a, validatorOf t a = if a ∈ validatorList s then (validatorOf s a).map (freed height)
        else validatorOf s a) ∧
      Store.Holds (Keeps [.validator] s) t := by
  obtain ⟨⟨events, hEvents⟩, hFreed, hKeeps⟩ :=
    unjailElapsed_wp (s := s) height (listedValidators (validatorList s) s)
      fun v hv => .inl (validatorOf_of_mem_listed hv)
  exact ⟨events, _, Prod.ext hEvents rfl, validatorOf_freed hFreed, hKeeps⟩

/-- The listed validators after the jail terms were lifted. -/
theorem listedValidators_freed {V : List Address}
    (h : ∀ a, validatorOf t a = if a ∈ V then (validatorOf s a).map (freed height)
      else validatorOf s a) :
    listedValidators V t = (listedValidators V s).map (freed height) := by
  unfold listedValidators
  rw [List.map_filterMap]
  refine List.filterMap_congr fun a ha => ?_
  rw [h, if_pos ha]

/-! ## The elected set -/

theorem exists_checkedTotal (vs : List ValidatorWeight) (acc : UInt64)
    (h : acc.toNat + stakeSum vs < 2 ^ 64) :
    ∃ total, ValidatorSet.checkedTotal acc vs = some total := by
  induction vs generalizing acc with
  | nil => exact ⟨acc, rfl⟩
  | cons v rest ih =>
      have hCons : stakeSum (v :: rest) = v.stake.toNat + stakeSum rest := by simp [stakeSum]
      have hAdd : (acc + v.stake).toNat = acc.toNat + v.stake.toNat := by
        rw [UInt64.toNat_add]
        omega
      have hSome : checkedAdd acc v.stake = some (acc + v.stake) := checkedAdd_eq_some.mpr hAdd
      obtain ⟨total, hTotal⟩ := ih (acc + v.stake) (by omega)
      refine ⟨total, ?_⟩
      rw [ValidatorSet.checkedTotal, hSome, Option.bind_some, hTotal]

/-- Different addresses whose stakes fit make a validator set. -/
theorem exists_new {vs : List ValidatorWeight} (hNodup : (vs.map ValidatorWeight.address).Nodup)
    (hFits : stakeSum vs < 2 ^ 64) :
    ∃ set, ValidatorSet.new vs = some set ∧ set.validators = vs := by
  obtain ⟨total, hTotal⟩ := exists_checkedTotal vs 0 (by simpa using hFits)
  cases hNew : ValidatorSet.new vs with
  | some set => exact ⟨set, rfl, ValidatorSet.validators_of_new hNew⟩
  | none =>
      unfold ValidatorSet.new at hNew
      rw [dif_pos hNodup] at hNew
      split at hNew
      · rename_i hNone
        rw [hTotal] at hNone
        cases hNone
      · cases hNew

/-- The weights of the elected validators. -/
def elected (em : EpochManager) (height : UInt64) (s : StateStore) : List ValidatorWeight :=
  ((ranking em height s).take em.config.maxValidators.toNat).map fun v => ⟨v.address, v.stake⟩

theorem nodup_elected (hNodup : (validatorList s).Nodup) :
    ((elected em height s).map ValidatorWeight.address).Nodup := by
  have hCandidates : ((candidates em height s).map ValidatorInfo.address).Nodup :=
    (nodup_address_listed hNodup s).sublist (List.filter_sublist.map _)
  have hRanking : ((ranking em height s).map ValidatorInfo.address).Perm
      ((candidates em height s).map ValidatorInfo.address) := by
    have hPerm := (List.mergeSort_perm ((candidates em height s).map (freed height))
      fun a b => decide (b.stake ≤ a.stake)).map ValidatorInfo.address
    rwa [List.map_map, show ValidatorInfo.address ∘ freed height = ValidatorInfo.address from
      funext fun v => address_freed height v] at hPerm
  unfold elected
  rw [List.map_map]
  exact (hRanking.nodup_iff.mpr hCandidates).sublist ((List.take_sublist _ _).map _)

theorem stakeSum_elected_le :
    stakeSum (elected em height s) ≤
      ((listedValidators (validatorList s) s).map fun v => v.stake.toNat).sum := by
  have hRanking : ((ranking em height s).map fun v => v.stake.toNat).Perm
      ((candidates em height s).map fun v => v.stake.toNat) := by
    have hPerm := (List.mergeSort_perm ((candidates em height s).map (freed height))
      fun a b => decide (b.stake ≤ a.stake)).map fun v => v.stake.toNat
    rwa [List.map_map, show (fun v : ValidatorInfo => v.stake.toNat) ∘ freed height =
      fun v => v.stake.toNat from funext fun v => by simp] at hPerm
  have hTake : (((ranking em height s).take em.config.maxValidators.toNat).map
      fun v => v.stake.toNat).Sublist ((ranking em height s).map fun v => v.stake.toNat) :=
    (List.take_sublist _ _).map _
  have hFilter : ((candidates em height s).map fun v => v.stake.toNat).Sublist
      ((listedValidators (validatorList s) s).map fun v => v.stake.toNat) :=
    List.filter_sublist.map _
  unfold elected stakeSum
  rw [List.map_map]
  exact (hTake.sum_le_sum fun _ _ => Nat.zero_le _).trans
    (hRanking.sum_eq.le.trans (hFilter.sum_le_sum fun _ _ => Nat.zero_le _))

/-! ## The transition -/

/-- The distribution of rewards writes accounts and the supply figures. -/
theorem distributeEpochRewards_other (vs : List ValidatorInfo) (epoch : UInt64)
    (config : ChainConfig) (s : StateStore) {k : Key} (hk : familyOf k ∉ [Family.account])
    (hSupply : k ≠ .supplyInfo) :
    ((StakingModule.distributeEpochRewards vs epoch config).run s).2.get? k = s.get? k := by
  have hPaid := creditedPayouts_keeps s (epochPayouts config epoch s vs) k hk
  rcases distributeEpochRewards_cases vs epoch config s with ⟨_, hRun⟩ | ⟨n, _, hRun⟩
  · rw [hRun]
    exact hPaid
  · rw [hRun]
    dsimp only
    split
    · rw [withSupply, Store.get?_insert_ne (Ne.symm hSupply)]
      exact hPaid
    · exact hPaid

/-- The record of an epoch. -/
def epochOf (s : StateStore) (epoch : UInt64) : Option EpochInfo :=
  (s.get? (.epoch epoch)).map (·.val)

theorem epochOf_insert (s : StateStore) (info : EpochInfo) :
    epochOf (s.insert (.epoch info.epoch) ⟨info, rfl⟩) info.epoch = some info := by
  rw [epochOf, Std.ExtDTreeMap.get?_insert_self]
  rfl

/-- What a transition leaves of the staking records: validators may be freed, and outside
accounts and chain records nothing else changes. -/
structure Lifted (height : UInt64) (s t : StateStore) : Prop where
  records : ∀ a, validatorOf t a = if a ∈ validatorList s then
    (validatorOf s a).map (freed height) else validatorOf s a
  keeps : Store.Holds (Keeps [.account, .validator, .chain, .supplyInfo] s) t

/-- The set was elected and stored. -/
structure Seated (em : EpochManager) (height : UInt64) (s : StateStore) (set : ValidatorSet)
    (t : StateStore) : Prop where
  lifted : Lifted height s t
  set_eq : set.validators = elected em height s
  active : activeSetOf t = some (set.validators.map ValidatorWeight.address)

/-- How a transition can end. -/
inductive TransitionEnd (em : EpochManager) (height : UInt64) (s : StateStore) :
    Outcome StakingError (ValidatorSet × List Event) → StateStore → Prop where
  | noEpochs (h : em.config.epochLength = 0) : TransitionEnd em height s .panic s
  | noSet {t : StateStore} (lifted : Lifted height s t)
      (h : ValidatorSet.new (elected em height s) = none) : TransitionEnd em height s .panic t
  | overflow {set : ValidatorSet} {t : StateStore} (seated : Seated em height s set t) :
      TransitionEnd em height s (.err .arithmeticOverflow) t
  | done {set : ValidatorSet} {events : List Event} {t : StateStore}
      (seated : Seated em height s set t)
      (record : (epochOf t (height / em.config.epochLength)).map EpochInfo.validatorSet =
        some (set.validators.map ValidatorWeight.address)) :
      TransitionEnd em height s (.ok (set, events)) t

/-- Storing the active set, paying the rewards and recording the epoch. -/
theorem Seated.of_other {set : ValidatorSet} {s₁ : StateStore} (hLifted : Lifted height s s₁)
    (hSet : set.validators = elected em height s)
    (hActive : t.get? .activeValidatorSet =
      some ⟨set.validators.map ValidatorWeight.address, trivial⟩)
    (hOther : ∀ k, familyOf k ∉ [Family.account, .chain, .supplyInfo] → t.get? k = s₁.get? k) :
    Seated em height s set t where
  lifted :=
    { records := fun a => by
        rw [validatorOf, hOther _ (by simp [familyOf])]
        exact hLifted.records a
      keeps := fun k hk => by
        refine (hOther k fun hMem => hk ?_).trans (hLifted.keeps k hk)
        simp only [List.mem_cons, List.not_mem_nil, or_false] at hMem ⊢
        tauto }
  set_eq := hSet
  active := by
    rw [activeSetOf, hActive]
    rfl

/-- Every way a transition can end. -/
theorem processEpochTransition_end (em : EpochManager) (height : UInt64) (s : StateStore) :
    (em.processEpochTransition height).Wp (TransitionEnd em height s) s := by
  unfold EpochManager.processEpochTransition
  rw [Prog.bind_eq, Prog.wp_assert_bind]
  refine ⟨fun hZero => .noEpochs (Classical.not_not.mp hZero), fun _ => ?_⟩
  obtain ⟨unjailed, s₁, hUnjail, hFreed, hKeeps⟩ := exists_run_unjailElapsed height s
  have hLifted : Lifted height s s₁ := ⟨hFreed, fun k hk => hKeeps k (by simp_all)⟩
  have hRoster : validatorList s₁ = validatorList s := by
    rw [validatorList, hKeeps _ (by simp [familyOf]), validatorList]
  have hEligible : em.selectEligible (listedValidators (validatorList s₁) s₁) =
      (ranking em height s).take em.config.maxValidators.toNat := by
    rw [hRoster, listedValidators_freed hFreed, selectEligible_freed]
  dsimp only
  rw [Prog.Wp, Prog.bind_eq, Prog.run_bind_of_ok (run_getValidatorSet s), Prog.bind_eq,
    Prog.run_bind_of_ok hUnjail, Prog.bind_eq, Prog.run_bind_of_ok (run_getValidatorSet s₁),
    hEligible]
  show Prog.Wp (Prog.bind (Prog.unwrap (ValidatorSet.new (elected em height s))) _) _ s₁
  rw [Prog.wp_unwrap_bind]
  refine ⟨fun hNone => .noSet hLifted hNone, fun set hNew => ?_⟩
  have hSet := ValidatorSet.validators_of_new hNew
  have hAddresses : ((ranking em height s).take em.config.maxValidators.toNat).map
      ValidatorInfo.address = set.validators.map ValidatorWeight.address := by
    rw [hSet, elected, List.map_map]
    rfl
  rw [hAddresses, Prog.bind_eq, wp_setActiveValidatorSet_bind]
  generalize (ranking em height s).take em.config.maxValidators.toNat = eligible
  generalize hs₂ : s₁.insert .activeValidatorSet
    ⟨set.validators.map ValidatorWeight.address, trivial⟩ = s₂
  have hOther (k : Key) := distributeEpochRewards_other eligible
    (height / em.config.epochLength) em.config s₂ (k := k)
  have hSeated (t : StateStore) (ht : ∀ k, familyOf k ∉ [Family.account] → k ≠ .supplyInfo →
      (∀ e, k ≠ .epoch e) → t.get? k = s₂.get? k) : Seated em height s set t := by
    refine .of_other hLifted hSet ?_ fun k hk => ?_
    · rw [ht _ (by simp [familyOf]) (by simp) (by simp), ← hs₂,
        Std.ExtDTreeMap.get?_insert_self]
    · rw [ht k (by simp_all) (fun hEq => by simp [hEq, familyOf] at hk)
        (fun e hEq => by simp [hEq, familyOf] at hk), ← hs₂]
      exact Store.get?_insert_ne fun hEq => by simp [← hEq, familyOf] at hk
  rw [Prog.bind_eq, Prog.wp_bind, Prog.Wp]
  rcases distributeEpochRewards_cases eligible (height / em.config.epochLength) em.config s₂
    with ⟨_, hRun⟩ | ⟨n, _, hRun⟩
  · rw [hRun] at hOther ⊢
    exact .overflow (hSeated _ fun k hk hSupply _ => hOther k hk hSupply)
  · rw [hRun] at hOther ⊢
    dsimp only [Prog.After]
    rw [Prog.bind_eq, wp_setEpochInfo_bind]
    refine .done (hSeated _ fun k hk hSupply hEpoch => ?_) ?_
    · exact (Store.get?_insert_ne (Ne.symm (hEpoch _))).trans (hOther k hk hSupply)
    · exact congrArg (Option.map EpochInfo.validatorSet) (epochOf_insert _ _)

/-! ## The election -/

/-- What the election at a boundary has to produce from a store. -/
structure Elects (em : EpochManager) (height : UInt64) (s : StateStore) (set : ValidatorSet)
    (t : StateStore) : Prop where
  count : set.validators.length =
    min em.config.maxValidators.toNat (candidates em height s).length
  members : ∀ w ∈ set.validators, ∃ v ∈ candidates em height s,
    v.address = w.address ∧ validatorOf s w.address = some v ∧ w.stake = v.stake
  best : ∀ v ∈ candidates em height s, v.address ∉ set.validators.map ValidatorWeight.address →
    ∀ w ∈ set.validators, v.stake ≤ w.stake
  active : activeSetOf t = some (set.validators.map ValidatorWeight.address)
  record : (epochOf t (height / em.config.epochLength)).map EpochInfo.validatorSet =
    some (set.validators.map ValidatorWeight.address)
  statuses : ∀ a, validatorOf t a = if a ∈ validatorList s then
    (validatorOf s a).map (freed height) else validatorOf s a

/-- The elected validators are candidates. -/
theorem mem_candidates_of_elected {w : ValidatorWeight} (hw : w ∈ elected em height s) :
    ∃ v ∈ candidates em height s,
      v.address = w.address ∧ validatorOf s w.address = some v ∧ w.stake = v.stake := by
  obtain ⟨v, hv, rfl⟩ := List.mem_map.mp hw
  obtain ⟨c, hc, rfl⟩ := mem_ranking.mp (List.mem_of_mem_take hv)
  refine ⟨c, hc, (address_freed height c).symm, ?_, stake_freed height c⟩
  rw [show (freed height c).address = c.address from address_freed height c]
  exact validatorOf_of_mem_listed (List.mem_filter.mp hc).1

theorem Seated.elects {set : ValidatorSet} (h : Seated em height s set t)
    (hRecord : (epochOf t (height / em.config.epochLength)).map EpochInfo.validatorSet =
      some (set.validators.map ValidatorWeight.address)) :
    Elects em height s set t where
  count := by
    rw [h.set_eq, elected, List.length_map, List.length_take, ranking, List.length_mergeSort,
      List.length_map]
  members := by
    intro w hw
    rw [h.set_eq] at hw
    exact mem_candidates_of_elected hw
  best := by
    intro v hv hOut w hw
    rw [h.set_eq] at hOut hw
    obtain ⟨x, hx, rfl⟩ := List.mem_map.mp hw
    have hRanked : freed height v ∈ ranking em height s := mem_ranking.mpr ⟨v, hv, rfl⟩
    have hNotIn : freed height v ∉ (ranking em height s).take em.config.maxValidators.toNat := by
      intro hIn
      refine hOut (List.mem_map.mpr ⟨_, List.mem_map_of_mem hIn, ?_⟩)
      exact address_freed height v
    have hLe := rel_of_not_mem_take (ranking_sorted em height s) hRanked hNotIn hx
    rwa [stake_freed] at hLe
  active := h.active
  record := hRecord
  statuses := h.lifted.records

theorem epochLength_ne_zero_of_boundary (h : em.isEpochBoundary height = true) :
    em.config.epochLength ≠ 0 := by
  intro hZero
  unfold EpochManager.isEpochBoundary at h
  rw [if_pos hZero, Bool.and_eq_true, decide_eq_true_iff, decide_eq_true_iff] at h
  rw [h.2] at h
  exact absurd h.1 (UInt64.lt_irrefl 0)

/-- The election at an epoch boundary. The transition can only fail if the rewards overflow. -/
theorem processEpochTransition_elects (hBoundary : em.isEpochBoundary height = true)
    (hNodup : (validatorList s).Nodup)
    (hStakes : ((listedValidators (validatorList s) s).map fun v => v.stake.toNat).sum < 2 ^ 64) :
    (∃ t, (em.processEpochTransition height).run s = (.err .arithmeticOverflow, t)) ∨
    ∃ set events t, (em.processEpochTransition height).run s = (.ok (set, events), t) ∧
      Elects em height s set t := by
  have hEnd := processEpochTransition_end em height s
  rw [Prog.Wp] at hEnd
  generalize (em.processEpochTransition height).run s = r at hEnd ⊢
  obtain ⟨o, t⟩ := r
  cases hEnd with
  | noEpochs hZero => exact absurd hZero (epochLength_ne_zero_of_boundary hBoundary)
  | noSet _ hNone =>
      have hElected : ((elected em height s).map ValidatorWeight.address).Nodup :=
        nodup_elected hNodup
      obtain ⟨set, hNew, _⟩ := exists_new hElected (stakeSum_elected_le.trans_lt hStakes)
      rw [hNew] at hNone
      cases hNone
  | overflow _ => exact .inl ⟨t, rfl⟩
  | done seated record => exact .inr ⟨_, _, t, rfl, seated.elects record⟩

/-- A chain whose only validator is in jail until height 5. -/
def oneJailed : StateStore :=
  withValidator ((∅ : StateStore).insert .validatorAddresses ⟨[Address.ofByte 1], trivial⟩)
    ⟨Address.ofByte 1, ChainConfig.default.minStake, 0, .jailed, some 5, 0⟩

/-- Beside it a validator that is tombstoned and one that has too little stake. -/
def threeListed : StateStore :=
  withValidator (withValidator (oneJailed.insert .validatorAddresses
    ⟨[Address.ofByte 1, Address.ofByte 2, Address.ofByte 3], trivial⟩)
    ⟨Address.ofByte 2, ChainConfig.default.minStake, 0, .tombstoned, none, 0⟩)
    ⟨Address.ofByte 3, 1, 0, .active, none, 0⟩

/-- At the first boundary the jailed validator is freed, and it alone is elected. -/
theorem processEpochTransition_elects_threeListed :
    ∃ set events t, (EpochManager.processEpochTransition ⟨ChainConfig.default⟩
        ChainConfig.default.epochLength).run threeListed = (.ok (set, events), t) ∧
      set.validators.length = 1 ∧
      activeSetOf t = some (set.validators.map ValidatorWeight.address) := by
  have hReturns : ((EpochManager.processEpochTransition ⟨ChainConfig.default⟩
      ChainConfig.default.epochLength).run threeListed).1.toOption.isSome = true := by
    decide +kernel
  rcases @processEpochTransition_elects threeListed ⟨ChainConfig.default⟩
    ChainConfig.default.epochLength (by decide) (by decide +kernel)
    (by decide +kernel) with ⟨t, hRun⟩ | ⟨set, events, t, hRun, hElects⟩
  · rw [hRun] at hReturns
    cases hReturns
  · refine ⟨set, events, t, hRun, ?_, hElects.active⟩
    rw [hElects.count]
    decide +kernel

end Polay.Validator
