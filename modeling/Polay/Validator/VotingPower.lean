import Polay.Lib.Sums
import Polay.Validator.Governance
import Polay.Validator.Rewards
import Polay.Validator.Slashing

/-!
# Voting power

A validator votes with its whole stake, which includes what others delegated to it, and an
account without stake of its own votes with everything it delegated. A delegation to a
validator that votes too is therefore counted twice.
-/

namespace Polay.Validator

open Lib Lib.Machine Lib.Trace Polay.Types State Execution
open Polay.Types.Governance (Proposal Vote VoteOption ProposalAction)

variable {sha256 : List UInt8 → Hash} {ex : Executor} {s t : StateStore}

/-! ## Sums over a scan -/

/-- A figure summed over a scan is its total over the keys of the scan, within 64 bits. -/
theorem toNat_sumOver_scan (f : Sigma Key.Value → UInt64) (p : Key → Bool)
    (w : (k : Key) → k.Value → Nat)
    (hw : ∀ k x, w k x = if p k then (f ⟨k, x⟩).toNat else 0) (s : StateStore) :
    (Governance.sumOver f (s.scan p)).toNat = min (Store.total w s) (2 ^ 64 - 1) := by
  have hSum : ((s.scan p).map fun e => (f e).toNat).sum = Store.total w s := by
    unfold Store.scan Store.total
    induction s.toList with
    | nil => rfl
    | cons e l ih =>
        rw [List.map_cons, List.sum_cons, hw]
        by_cases hp : p e.1 = true
        · rw [List.filter_cons, if_pos hp, List.map_cons, List.sum_cons, ih, if_pos hp]
        · rw [List.filter_cons, if_neg hp, ih, if_neg hp, Nat.zero_add]
  rw [Governance.sumOver, toNat_foldl_saturatingAdd, hSum, UInt64.toNat_zero, Nat.zero_add]

/-- What an account delegated. -/
def fromFigure (d : Address) : (k : Key) → k.Value → Nat
  | .delegation a _, x => if a = d then (Delegation.amount x.val).toNat else 0
  | _, _ => 0

def delegatedFrom (s : StateStore) (d : Address) : Nat := Store.total (fromFigure d) s

theorem startsWith_delegation (d d' v : Address) :
    Key.startsWith (Governance.delegationPrefix d) (.delegation d' v) = true ↔ d' = d := by
  have hBytes : Key.startsWith (Governance.delegationPrefix d) (.delegation d' v) =
      d.data.isPrefixOf (d'.data ++ v.data) := by
    show (0x06 :: d.data).isPrefixOf (0x06 :: (d'.data ++ v.data)) = _
    simp [List.isPrefixOf]
  rw [hBytes, List.isPrefixOf_iff_prefix]
  constructor
  · rintro ⟨rest, hEq⟩
    have hData := List.append_inj_left hEq (d.length_data.trans d'.length_data.symm)
    exact (Address.data_injective hData).symm
  · rintro rfl
    exact List.prefix_append _ _

theorem toNat_delegationSum (s : StateStore) (d : Address) :
    (Governance.sumOver Governance.delegatedAmount
      (s.scan (Key.startsWith (Governance.delegationPrefix d)))).toNat =
      min (delegatedFrom s d) (2 ^ 64 - 1) := by
  refine toNat_sumOver_scan _ _ _ (fun k x => ?_) s
  cases k
  case delegation a v =>
    have hStarts := startsWith_delegation d a v
    by_cases hEq : a = d
    · rw [fromFigure, if_pos hEq, if_pos (hStarts.mpr hEq)]
      rfl
    · rw [fromFigure, if_neg hEq, if_neg fun h => hEq (hStarts.mp h)]
  all_goals simp [fromFigure, Governance.delegatedAmount]

theorem toNat_totalStaked (s : StateStore) :
    (totalStaked s).toNat = min (stakedTokens s) (2 ^ 64 - 1) := by
  refine toNat_sumOver_scan _ _ _ (fun k x => ?_) s
  cases k
  case validator a =>
    have hStarts : Key.startsWith [0x05] (.validator a) = true := by
      simp [Key.startsWith, Key.bytes, Key.split]
    rw [if_pos hStarts]
    exact Nat.one_mul _
  all_goals simp [tokenFigure, Governance.validatorStake]

/-- The weight of a validator is its stake, and that of another account what it delegated. -/
theorem toNat_voteWeightOf (s : StateStore) (a : Address) :
    (voteWeightOf s a).toNat =
      if 0 < stakeAt s a then stakeAt s a else min (delegatedFrom s a) (2 ^ 64 - 1) := by
  have hStake : (((validatorOf s a).map fun v : ValidatorInfo => v.stake).getD 0).toNat =
      stakeAt s a := by
    unfold stakeAt
    cases validatorOf s a <;> rfl
  have hPos : 0 < ((validatorOf s a).map fun v : ValidatorInfo => v.stake).getD 0 ↔
      0 < stakeAt s a := by
    rw [UInt64.lt_iff_toNat_lt, hStake]
    rfl
  unfold voteWeightOf
  by_cases hOwn : 0 < stakeAt s a
  · rw [if_pos (hPos.mpr hOwn), if_pos hOwn, hStake]
  · rw [if_neg fun h => hOwn (hPos.mp h), if_neg hOwn, toNat_delegationSum]

/-! ## Stake that votes twice and stake that does not vote -/

/-- The voters that vote with stake of their own. -/
def staked (s : StateStore) (V : Finset Address) : Finset Address :=
  V.filter fun a => 0 < stakeAt s a

/-- The voters that vote with what they delegated. -/
def delegating (s : StateStore) (V : Finset Address) : Finset Address :=
  V.filter fun a => stakeAt s a = 0

/-- What the delegating voters delegated to a validator. -/
def backedBy (s : StateStore) (V : Finset Address) (v : Address) : Nat :=
  ∑ d ∈ delegating s V, amountAt s d v

/-- Stake that votes twice: delegated by a voter to a validator that votes too. -/
def votedTwice (s : StateStore) (V : Finset Address) : Nat := ∑ v ∈ staked s V, backedBy s V v

/-- The stake of a validator that does not vote, but for what voters delegated to it. -/
def idleFigure (s : StateStore) (V : Finset Address) : (k : Key) → k.Value → Nat
  | .validator a, x => if a ∈ V then 0 else (ValidatorInfo.stake x.val).toNat - backedBy s V a
  | _, _ => 0

/-- Stake that does not vote. -/
def idleStake (s : StateStore) (V : Finset Address) : Nat := Store.total (idleFigure s V) s

/-- What the weights of the delegating voters lose because they are kept within 64 bits. -/
def lostWeight (s : StateStore) (V : Finset Address) : Nat :=
  ∑ d ∈ delegating s V, (delegatedFrom s d - (2 ^ 64 - 1))

/-- A set with all validators. -/
theorem exists_validators (s : StateStore) :
    ∃ A : Finset Address, ∀ a, a ∉ A → validatorOf s a = none := by
  obtain ⟨F, hF⟩ := Store.exists_finset s
  have hInj : Set.InjOn Key.validator (Set.preimage Key.validator (F : Set Key)) :=
    fun a _ b _ hEq => Key.validator.inj hEq
  refine ⟨F.preimage Key.validator hInj, fun a ha => ?_⟩
  rw [validatorOf, Option.map_eq_none_iff]
  by_contra hSome
  exact ha (Finset.mem_preimage.mpr (hF _ (Option.isSome_iff_ne_none.mpr hSome)))

section Sums

variable {V A : Finset Address}

theorem stakeAt_of_none {a : Address} (h : validatorOf s a = none) : stakeAt s a = 0 := by
  rw [stakeAt, h]
  rfl

/-- A figure of validators, over a set with all of them. -/
theorem total_eq_sum_validators {w : (k : Key) → k.Value → Nat} {g : Address → Nat}
    (hOther : ∀ k, (∀ a, k ≠ .validator a) → ∀ x, w k x = 0)
    (hFigure : ∀ a, Store.figureAt w s (.validator a) = g a)
    (hA : ∀ a, a ∉ A → g a = 0) : Store.total w s = ∑ a ∈ A, g a := by
  rw [Store.total_eq_sum_keys (fun a b hEq => Key.validator.inj hEq) A]
  · exact Finset.sum_congr rfl fun a _ => hFigure a
  · intro k hk
    by_cases hValidator : ∃ a, k = .validator a
    · obtain ⟨a, rfl⟩ := hValidator
      rw [hFigure, hA a fun hMem => hk a hMem rfl]
    · exact Store.figureAt_eq_zero w (hOther k fun a hEq => hValidator ⟨a, hEq⟩)

theorem stakedTokens_eq_sum (hA : ∀ a, a ∉ A → validatorOf s a = none) :
    stakedTokens s = ∑ a ∈ A, stakeAt s a := by
  refine total_eq_sum_validators (fun k hk x => ?_) (fun a => ?_)
    fun a ha => stakeAt_of_none (hA a ha)
  · cases k
    case validator a => exact absurd rfl (hk a)
    all_goals simp [tokenFigure]
  · rw [(counts_tokenFigure _).figureAt_validator]
    exact Nat.one_mul _

theorem idleStake_eq_sum (hA : ∀ a, a ∉ A → validatorOf s a = none) :
    idleStake s V = ∑ a ∈ A, if a ∈ V then 0 else stakeAt s a - backedBy s V a := by
  refine total_eq_sum_validators (fun k hk x => ?_) (fun a => ?_) fun a ha => ?_
  · cases k
    case validator a => exact absurd rfl (hk a)
    all_goals rfl
  · unfold Store.figureAt stakeAt validatorOf
    cases s.get? (.validator a) with
    | none => simp
    | some v => rfl
  · rw [stakeAt_of_none (hA a ha)]
    simp

/-- No more is delegated to a validator than the hypothesis says. -/
theorem amountAt_le_delegatedTo (s : StateStore) (d v : Address) :
    amountAt s d v ≤ delegatedTo s v := by
  rw [← figureAt_delegationFigure]
  exact figureAt_le_delegatedTo s v _

theorem delegatedFrom_eq_sum (hA : ∀ a, a ∉ A → validatorOf s a = none)
    (hBacked : ∀ v, delegatedTo s v ≤ stakeAt s v) (d : Address) :
    delegatedFrom s d = ∑ v ∈ A, amountAt s d v := by
  have hFigure : ∀ v, Store.figureAt (fromFigure d) s (.delegation d v) = amountAt s d v := by
    intro v
    unfold Store.figureAt amountAt delegationOf
    cases s.get? (.delegation d v) with
    | none => rfl
    | some x => simp [fromFigure]
  unfold delegatedFrom
  rw [Store.total_eq_sum_keys (fun a b hEq => (Key.delegation.inj hEq).2) A]
  · exact Finset.sum_congr rfl fun v _ => hFigure v
  · intro k hk
    by_cases hOwn : ∃ v, k = .delegation d v
    · obtain ⟨v, rfl⟩ := hOwn
      have hNone := stakeAt_of_none (hA v fun hMem => hk v hMem rfl)
      have hLe := amountAt_le_delegatedTo s d v
      have hBound := hBacked v
      rw [hFigure]
      omega
    · refine Store.figureAt_eq_zero _ fun x => ?_
      cases k
      case delegation a v =>
        have hNe : a ≠ d := fun hEq => hOwn ⟨v, by rw [hEq]⟩
        simp [fromFigure, hNe]
      all_goals rfl

theorem backedBy_le (s : StateStore) (V : Finset Address) (v : Address) :
    backedBy s V v ≤ delegatedTo s v := by
  have hNodup : ((delegating s V).toList.map fun d => Key.delegation d v).Nodup :=
    (delegating s V).nodup_toList.map fun a b hEq => (Key.delegation.inj hEq).1
  have hLe := Store.sum_figureAt_le (w := delegationFigure id v) (s := s) hNodup
  rw [List.map_map] at hLe
  have hSum : ((delegating s V).toList.map
      (Store.figureAt (delegationFigure id v) s ∘ fun d => Key.delegation d v)).sum =
      backedBy s V v := by
    rw [Finset.sum_map_toList]
    exact Finset.sum_congr rfl fun d _ => figureAt_delegationFigure s d v
  rwa [hSum] at hLe

/-- The voters with stake are validators. -/
theorem sum_staked (hA : ∀ a, a ∉ A → validatorOf s a = none) {g : Address → Nat}
    (hg : ∀ a, stakeAt s a = 0 → g a = 0) :
    ∑ a ∈ staked s V, g a = ∑ a ∈ A, if a ∈ V then g a else 0 := by
  rw [← Finset.sum_filter]
  refine Finset.sum_subset (fun a ha => ?_) fun a ha hNot => hg a ?_
  · obtain ⟨hMem, hPos⟩ := Finset.mem_filter.mp ha
    refine Finset.mem_filter.mpr ⟨?_, hMem⟩
    by_contra hOut
    rw [stakeAt_of_none (hA a hOut)] at hPos
    exact absurd hPos (Nat.lt_irrefl 0)
  · by_contra hStake
    exact hNot (Finset.mem_filter.mpr ⟨(Finset.mem_filter.mp ha).2, Nat.pos_of_ne_zero hStake⟩)

/-- The weights of the voters. -/
theorem sum_voteWeightOf (s : StateStore) (V : Finset Address) :
    ∑ a ∈ V, (voteWeightOf s a).toNat + lostWeight s V =
      ∑ a ∈ staked s V, stakeAt s a + ∑ d ∈ delegating s V, delegatedFrom s d := by
  have hSplit := Finset.sum_filter_add_sum_filter_not V (fun a => 0 < stakeAt s a)
    fun a => (voteWeightOf s a).toNat
  have hStaked : ∑ a ∈ V.filter (fun a => 0 < stakeAt s a), (voteWeightOf s a).toNat =
      ∑ a ∈ staked s V, stakeAt s a := by
    refine Finset.sum_congr rfl fun a ha => ?_
    rw [toNat_voteWeightOf, if_pos (Finset.mem_filter.mp ha).2]
  have hOthers : V.filter (fun a => ¬ 0 < stakeAt s a) = delegating s V :=
    Finset.filter_congr fun a _ => by omega
  have hLost : ∑ a ∈ delegating s V, (voteWeightOf s a).toNat + lostWeight s V =
      ∑ d ∈ delegating s V, delegatedFrom s d := by
    unfold lostWeight
    rw [← Finset.sum_add_distrib]
    refine Finset.sum_congr rfl fun a ha => ?_
    have hZero := (Finset.mem_filter.mp ha).2
    rw [toNat_voteWeightOf, if_neg (by omega)]
    omega
  rw [hOthers] at hSplit
  omega

/-- The weights of the voters stay within the total stake exactly if the stake that votes twice
is no more than the stake that does not vote. -/
theorem weights_within_iff (hBacked : ∀ v, delegatedTo s v ≤ stakeAt s v) :
    ∑ a ∈ V, (voteWeightOf s a).toNat ≤ (totalStaked s).toNat ↔
      votedTwice s V + (stakedTokens s - (totalStaked s).toNat) ≤
        idleStake s V + lostWeight s V := by
  obtain ⟨A, hA⟩ := exists_validators s
  have hNone : ∀ a, stakeAt s a = 0 → backedBy s V a = 0 := by
    intro a ha
    have hLe := backedBy_le s V a
    have hBound := hBacked a
    omega
  have hWeights := sum_voteWeightOf s V
  have hOwn := sum_staked (V := V) hA (g := stakeAt s) fun _ h => h
  have hTwice : votedTwice s V = _ := sum_staked (V := V) hA hNone
  have hIdle := idleStake_eq_sum (V := V) hA
  have hTotal := stakedTokens_eq_sum hA
  -- What the delegating voters delegated, by validators.
  have hDelegated : ∑ d ∈ delegating s V, delegatedFrom s d = ∑ v ∈ A, backedBy s V v := by
    rw [Finset.sum_congr rfl fun d _ => delegatedFrom_eq_sum hA hBacked d, Finset.sum_comm]
    rfl
  -- Each validator votes, or its stake is delegated by voters or idle.
  have hEach : ∑ a ∈ A, stakeAt s a + ∑ a ∈ A, (if a ∈ V then backedBy s V a else 0) =
      ∑ a ∈ A, (if a ∈ V then stakeAt s a else 0) + ∑ a ∈ A, backedBy s V a +
        ∑ a ∈ A, (if a ∈ V then 0 else stakeAt s a - backedBy s V a) := by
    rw [← Finset.sum_add_distrib, ← Finset.sum_add_distrib, ← Finset.sum_add_distrib]
    refine Finset.sum_congr rfl fun a _ => ?_
    have hLe := backedBy_le s V a
    have hBound := hBacked a
    split <;> omega
  have hStaked := toNat_totalStaked s
  omega

end Sums

/-! ## Votes while stakes do not change -/

/-- The stored votes on a proposal weigh what their voters weigh in `s`. -/
def Weighed (s : StateStore) (id : Hash) (t : StateStore) : Prop :=
  ∀ a v, storedVote t id a = some v → v.weight = voteWeightOf s a

theorem Weighed.effect {new : Hash → Prop} {cast : Hash → VoteOption → Prop} {u : StateStore}
    {id : Hash} (h : Weighed s id t) (hEffect : GovernanceEffect new cast t u)
    (hStakes : SameOn [.validator, .delegation] s t) : Weighed s id u := by
  have hSame : ∀ {u}, (∀ a, storedVote u id a = storedVote t id a) → Weighed s id u :=
    fun hu a v hv => h a v (hu a ▸ hv)
  cases hEffect with
  | kept hKept => exact hSame (hKept.votes id)
  | submitted _ _ _ _ hKept | closed _ _ _ _ _ hKept =>
      refine hSame fun a => ?_
      rw [hKept.votes, storedVote_withProposal]
  | voted p v hCast hWeight hProposal hVoting hKept =>
      intro a w hw
      rw [hKept.votes, storedVote_withProposal, storedVote_withVote] at hw
      split at hw
      · rename_i hEq
        obtain rfl := Option.some.inj hw
        rw [hEq.2, hWeight, voteWeightOf_congr hStakes]
      · exact h a w hw

/-- A regular step that leaves stakes and delegations alone. -/
def GovernanceStep.Steady (sha256 : List UInt8 → Hash) (ex : Executor) (s : StateStore)
    (step : GovernanceStep) : Prop :=
  step.Regular sha256 ex s ∧ SameOn [.validator, .delegation] s (step.next sha256 ex s)

theorem weighed_after {id : Hash} {l : List GovernanceStep}
    (hVotes : ∀ a, storedVote s id a = none)
    (h : Along (GovernanceStep.next sha256 ex) (GovernanceStep.Steady sha256 ex) s l) :
    Weighed s id (after (GovernanceStep.next sha256 ex) s l) ∧
      SameOn [.validator, .delegation] s (after (GovernanceStep.next sha256 ex) s l) := by
  refine h.rule (I := fun t => Weighed s id t ∧ SameOn [.validator, .delegation] s t)
    (fun t step ht hStep => ?_) ⟨fun a v hv => ?_, .refl _ s⟩
  · obtain ⟨new, cast, hEffect, _⟩ := hStep.1.effect
    exact ⟨ht.1.effect hEffect ht.2, ht.2.trans hStep.2⟩
  · rw [hVotes] at hv
    cases hv

/-- The weights of all stored votes on a proposal. -/
theorem sum_voteSum {id : Hash} {V : Finset Address}
    (hV : ∀ a, a ∈ V ↔ (storedVote t id a).isSome = true) (hWeighed : Weighed s id t) :
    voteSum id .yes t + voteSum id .no t + voteSum id .abstain t =
      ∑ a ∈ V, (voteWeightOf s a).toNat := by
  unfold voteSum
  rw [← Store.total_add, ← Store.total_add]
  have hAt : ∀ a, Store.figureAt (fun k x => voteFigure id .yes k x + voteFigure id .no k x +
      voteFigure id .abstain k x) t (.vote id a) =
      ((storedVote t id a).map fun v => v.weight.toNat).getD 0 := by
    intro a
    unfold Store.figureAt storedVote
    cases t.get? (.vote id a) with
    | none => rfl
    | some v =>
        show voteFigure id .yes _ v + voteFigure id .no _ v + voteFigure id .abstain _ v =
          (Vote.weight v.val).toNat
        cases hOption : Vote.option v.val <;> simp [voteFigure, hOption]
  rw [Store.total_eq_sum_keys (fun a b hEq => (Key.vote.inj hEq).2) V]
  · refine Finset.sum_congr rfl fun a ha => ?_
    obtain ⟨v, hv⟩ := Option.isSome_iff_exists.mp ((hV a).mp ha)
    rw [hAt, hv, ← hWeighed a v hv]
    rfl
  · intro k hk
    by_cases hVote : ∃ a, k = .vote id a
    · obtain ⟨a, rfl⟩ := hVote
      have hNone : storedVote t id a = none := by
        rw [← Option.not_isSome_iff_eq_none]
        exact fun hSome => hk a ((hV a).mpr hSome) rfl
      rw [hAt, hNone]
      rfl
    · refine Store.figureAt_eq_zero _ fun x => ?_
      cases k
      case vote i a =>
        have hNe : i ≠ id := fun hEq => hVote ⟨a, by rw [hEq]⟩
        simp [voteFigure, hNe]
      all_goals rfl

/-- The votes on a proposal, cast while stakes and delegations do not change, stay within the
total stake exactly if the stake that votes twice is no more than the stake that does not
vote. -/
theorem votes_within_stake_iff {l : List GovernanceStep} {id : Hash} {p : Proposal}
    {V : Finset Address} (hTallies : ∀ q, proposalOf s id = some q → ∀ o, tallyOf q o = 0)
    (hVotes : ∀ a, storedVote s id a = none) (hBacked : ∀ v, delegatedTo s v ≤ stakeAt s v)
    (h : Along (GovernanceStep.next sha256 ex) (GovernanceStep.Steady sha256 ex) s l)
    (ht : t = after (GovernanceStep.next sha256 ex) s l) (hp : proposalOf t id = some p)
    (hV : ∀ a, a ∈ V ↔ (storedVote t id a).isSome = true) :
    p.yesVotes.toNat + p.noVotes.toNat + p.abstainVotes.toNat ≤ (totalStaked t).toNat ↔
      votedTwice s V + (stakedTokens s - (totalStaked s).toNat) ≤
        idleStake s V + lostWeight s V := by
  subst ht
  obtain ⟨hWeighed, hStakes⟩ := weighed_after hVotes h
  have hTallied : Tallied id (after (GovernanceStep.next sha256 ex) s l) := by
    refine tallied_after ⟨fun q hq o => ?_, fun _ => hVotes⟩ (h.mono fun _ _ hStep => hStep.1)
    rw [hTallies q hq, voteSum_eq_zero hVotes]
    rfl
  have hYes := hTallied.tallies p hp .yes
  have hNo := hTallied.tallies p hp .no
  have hAbstain := hTallied.tallies p hp .abstain
  have hTotal : totalStaked (after (GovernanceStep.next sha256 ex) s l) = totalStaked s := by
    unfold totalStaked
    congr 1
    refine Store.scan_congr fun k hk => ?_
    cases k
    case validator a => exact hStakes _ (by simp [familyOf])
    all_goals simp [Key.startsWith, Key.bytes, Key.split] at hk
  rw [← weights_within_iff hBacked, ← sum_voteSum hV hWeighed, ← hYes, ← hNo, ← hAbstain, hTotal]
  rfl

/-- The trader and a player with an account. -/
def traderAndPlayerStore : StateStore :=
  withAccount stakedTraderStore { AccountState.new (Address.ofByte 2) 0 with balance := 10000000 }

/-- The player is a validator too. -/
def twoStakersStore : StateStore :=
  withValidator traderAndPlayerStore ⟨Address.ofByte 2, 700000, 0, .active, none, 0⟩

theorem get?_twoStakersStore {k : Key} (hAccount : ∀ a, k ≠ .account a)
    (hValidator : ∀ a, k ≠ .validator a) : twoStakersStore.get? k = none := by
  rw [twoStakersStore, get?_withValidator hValidator, traderAndPlayerStore,
    get?_withAccount hAccount, get?_stakedTraderStore hAccount hValidator]

/-- The trader submits a proposal and votes for it, and the player votes against it. -/
def twoVotes : List GovernanceStep :=
  [.call (traderCall 0 (.submitProposal (.textProposal "" "") "" "" 100000)),
    .call (traderCall 1 (.voteProposal Hash.zero .yes)),
    .call ⟨secondPlayerTx 0 (.voteProposal Hash.zero .no), 1, Address.zero⟩]

/-- No other account than those of the list voted. -/
def onlyVoters (s : StateStore) (l : List Address) : Bool :=
  s.toList.all fun e => match e.1 with
    | .vote _ b => decide (b ∈ l)
    | _ => true

theorem storedVote_of_onlyVoters {l : List Address} {b : Address} (h : onlyVoters s l = true)
    (hNot : b ∉ l) (id : Hash) : storedVote s id b = none := by
  rw [storedVote, Option.map_eq_none_iff]
  by_contra hSome
  obtain ⟨v, hv⟩ := Option.ne_none_iff_exists'.mp hSome
  have hMem := List.all_eq_true.mp h ⟨.vote id b, v⟩
    (Std.ExtDTreeMap.mem_toList_iff_get?_eq_some.mpr hv)
  exact hNot (of_decide_eq_true hMem)

/-- Two validators that vote do not vote twice. -/
theorem votes_within_stake_two :
    ∃ p, proposalOf (after governanceNext twoStakersStore twoVotes) Hash.zero = some p ∧
      p.yesVotes.toNat + p.noVotes.toNat + p.abstainVotes.toNat ≤
        (totalStaked (after governanceNext twoStakersStore twoVotes)).toNat := by
  have hSame : ∀ {tx : SignedTransaction} {s : StateStore},
      (∀ f ∈ [Family.validator, .delegation], f ∉ writtenBy tx.transaction.action) →
      SameOn [.validator, .delegation] s
        (GovernanceStep.next (fun _ => Hash.zero) Executor.devnet s
          (.call ⟨tx, 1, Address.zero⟩)) :=
    fun hApart => Execution.Call.sameOn (by simp [feeFamilies]) (by simp) hApart
  have hSteady : Along governanceNext (GovernanceStep.Steady (fun _ => Hash.zero)
      Executor.devnet) twoStakersStore twoVotes := by
    refine ⟨⟨⟨fun a title d n hAction _ => ?_, fun id o hAction => ?_⟩, hSame (by decide)⟩,
      ⟨⟨fun a title d n hAction => ?_, fun id o hAction => ?_⟩, hSame (by decide)⟩,
      ⟨⟨fun a title d n hAction => ?_, fun id o hAction => ?_⟩, hSame (by decide)⟩, trivial⟩
    · rw [proposalOf, get?_twoStakersStore (by simp) (by simp)]
      rfl
    · cases hAction
    · cases hAction
    · cases hAction
      decide +kernel
    · cases hAction
    · cases hAction
      decide +kernel
  have hProposal : (proposalOf (after governanceNext twoStakersStore twoVotes)
      Hash.zero).isSome = true := by
    decide +kernel
  obtain ⟨p, hp⟩ := Option.isSome_iff_exists.mp hProposal
  have hVoted : ∀ a ∈ [Address.ofByte 1, Address.ofByte 2],
      (storedVote (after governanceNext twoStakersStore twoVotes) Hash.zero a).isSome = true := by
    decide +kernel
  have hOnly : onlyVoters (after governanceNext twoStakersStore twoVotes)
      [Address.ofByte 1, Address.ofByte 2] = true := by
    decide +kernel
  refine ⟨p, hp, (votes_within_stake_iff (t := after governanceNext twoStakersStore twoVotes)
    (V := {Address.ofByte 1, Address.ofByte 2})
    (fun q hq => ?_) (fun a => ?_) (fun v => ?_) hSteady rfl hp
    fun a => ?_).mpr (by decide +kernel)⟩
  · rw [proposalOf, get?_twoStakersStore (by simp) (by simp)] at hq
    cases hq
  · rw [storedVote, get?_twoStakersStore (by simp) (by simp)]
    rfl
  · have hNothing : delegatedTo twoStakersStore v = 0 := by
      refine Store.total_eq_zero fun k => ?_
      cases k
      case delegation d a =>
        rw [Store.figureAt, get?_twoStakersStore (by simp) (by simp)]
        rfl
      all_goals exact Store.figureAt_eq_zero _ fun _ => rfl
    rw [hNothing]
    exact Nat.zero_le _
  · have hListed : a ∈ ({Address.ofByte 1, Address.ofByte 2} : Finset Address) ↔
        a ∈ [Address.ofByte 1, Address.ofByte 2] := by simp
    rw [hListed]
    refine ⟨hVoted a, fun hSome => ?_⟩
    by_contra hNot
    rw [storedVote_of_onlyVoters hOnly hNot] at hSome
    cases hSome

/-- The player delegates to the trader, who is a validator, and both vote. -/
def bothVote : List GovernanceStep :=
  [.call ⟨secondPlayerTx 0 (.delegateStake (Address.ofByte 1) 500000), 1, Address.zero⟩,
    .call (traderCall 0 (.submitProposal (.textProposal "" "") "" "" 100000)),
    .call (traderCall 1 (.voteProposal Hash.zero .yes)),
    .call ⟨secondPlayerTx 1 (.voteProposal Hash.zero .yes), 1, Address.zero⟩]

/-- The delegation counts for the player and for the trader. -/
theorem delegation_votes_twice :
    let t := after governanceNext traderAndPlayerStore bothVote
    delegatedTo t (Address.ofByte 1) = 500000 ∧ stakeAt t (Address.ofByte 1) = 3000000 ∧
      (proposalOf t Hash.zero).map (fun p => (p.yesVotes, p.noVotes, p.abstainVotes)) =
        some (3500000, 0, 0) ∧
      totalStaked t = 3000000 := by
  decide +kernel

end Polay.Validator
