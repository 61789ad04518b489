import Polay.Lib.Quorum
import Polay.Consensus.StateMachine

/-!
# What a quorum is

The scan for a quorum looks at votes one by one and saturates its counters. This
module says what it finds: a hash `h` is returned exactly when the stake of the
voters of `h` reaches the threshold, so that the result depends on the set of
votes only, and at most one hash can be returned.
-/

namespace Polay.Consensus

open Polay.Types Lib.Machine Lib.Quorum

/-! ## Stake of sets of addresses -/

namespace ValidatorSet

/-- The members of a validator set. -/
def members (s : ValidatorSet) : Finset Address :=
  (s.validators.map ValidatorWeight.address).toFinset

/-- The stake of an address as a number. -/
def power (s : ValidatorSet) (a : Address) : Nat := (s.getStake a).toNat

theorem contains_iff {s : ValidatorSet} {a : Address} :
    s.contains a = true ↔ a ∈ s.members := by
  simp [contains, members, List.any_eq_true]

/-- The stakes found by looking up each member add up to the sum of the list. -/
private theorem sum_lookup (vs : List ValidatorWeight)
    (hNodup : (vs.map ValidatorWeight.address).Nodup) :
    ∑ a ∈ (vs.map ValidatorWeight.address).toFinset,
      (((vs.find? fun v => v.address == a).map ValidatorWeight.stake).getD 0).toNat =
        stakeSum vs := by
  induction vs with
  | nil => rfl
  | cons v rest ih =>
      rw [List.map_cons, List.nodup_cons] at hNodup
      have hFresh : v.address ∉ (rest.map ValidatorWeight.address).toFinset := by
        simpa using hNodup.1
      rw [List.map_cons, List.toFinset_cons, Finset.sum_insert hFresh]
      have hHead : ((((v :: rest).find? fun u => u.address == v.address).map
          ValidatorWeight.stake).getD 0).toNat = v.stake.toNat := by
        simp
      have hTail : ∀ a ∈ (rest.map ValidatorWeight.address).toFinset,
          ((((v :: rest).find? fun u => u.address == a).map
            ValidatorWeight.stake).getD 0).toNat =
          (((rest.find? fun u => u.address == a).map ValidatorWeight.stake).getD 0).toNat := by
        intro a ha
        have hne : v.address ≠ a := fun hEq => hFresh (hEq ▸ ha)
        simp [hne]
      rw [hHead, Finset.sum_congr rfl hTail, ih hNodup.2]
      simp [stakeSum]

/-- The members' stakes add up to the cached total. -/
theorem weight_members (s : ValidatorSet) : weight s.power s.members = s.totalStake.toNat := by
  rw [s.total_eq]
  exact sum_lookup s.validators s.nodup

theorem toNat_quorumThreshold (s : ValidatorSet) :
    s.quorumThreshold.toNat = s.totalStake.toNat * 2 / 3 + 1 := by
  have := s.totalStake.toNat_lt
  rw [quorumThreshold, UInt64.toNat_ofNat', Nat.mod_eq_of_lt (by omega)]

end ValidatorSet

/-! ## Votes for one hash -/

namespace VoteMap

theorem getElem?_insert (m : VoteMap) (v : Vote) (a : Address) :
    (m.insert v).votes[a]? = if v.voter = a then some v else m.votes[a]? := by
  simp [insert, Std.ExtTreeMap.getElem?_insert]

theorem containsKey_eq_false {m : VoteMap} {a : Address} :
    m.containsKey a = false ↔ m.votes[a]? = none := by
  rw [containsKey, ← Std.ExtTreeMap.isSome_getElem?_eq_contains, Option.isSome_eq_false_iff,
    Option.isNone_iff_eq_none]

/-- The voters whose recorded vote is for `h`. -/
def support (m : VoteMap) (h : Hash) : Finset Address :=
  ((m.values.filter fun v => v.blockHash == h).map Vote.voter).toFinset

theorem mem_values {m : VoteMap} {v : Vote} : v ∈ m.values ↔ m.votes[v.voter]? = some v := by
  constructor
  · intro hv
    rw [values, List.mem_map] at hv
    obtain ⟨⟨a, u⟩, hMem, rfl⟩ := hv
    have hGet := Std.ExtTreeMap.mem_toList_iff_getElem?_eq_some.mp hMem
    rw [m.voter_key a u hGet]
    exact hGet
  · intro hv
    rw [values, List.mem_map]
    exact ⟨(v.voter, v), Std.ExtTreeMap.mem_toList_iff_getElem?_eq_some.mpr hv, rfl⟩

theorem mem_support {m : VoteMap} {h : Hash} {a : Address} :
    a ∈ m.support h ↔ ∃ v, m.votes[a]? = some v ∧ v.blockHash = h := by
  simp only [support, List.mem_toFinset, List.mem_map, List.mem_filter, mem_values, beq_iff_eq]
  constructor
  · rintro ⟨v, ⟨hGet, hHash⟩, rfl⟩
    exact ⟨v, hGet, hHash⟩
  · rintro ⟨v, hGet, hHash⟩
    have hVoter := m.voter_key a v hGet
    exact ⟨v, ⟨hVoter ▸ hGet, hHash⟩, hVoter⟩

/-- Each voter is iterated once. -/
theorem nodup_voters (m : VoteMap) : (m.values.map Vote.voter).Nodup := by
  have hKeys : m.values.map Vote.voter = m.votes.keys := by
    rw [values, ← Std.ExtTreeMap.map_fst_toList_eq_keys, List.map_map]
    apply List.map_congr_left
    rintro ⟨a, v⟩ hMem
    exact m.voter_key a v (Std.ExtTreeMap.mem_toList_iff_getElem?_eq_some.mp hMem)
  rw [hKeys]
  exact Std.ExtTreeMap.nodup_keys

/-- The stake behind `h` is the stake of its supporters. -/
theorem weight_support (m : VoteMap) (s : ValidatorSet) (h : Hash) :
    weight s.power (m.support h) =
      ((m.values.filter fun v => v.blockHash == h).map fun v => s.power v.voter).sum := by
  have hNodup : ((m.values.filter fun v => v.blockHash == h).map Vote.voter).Nodup :=
    m.nodup_voters.sublist (List.filter_sublist.map _)
  rw [weight, support, List.sum_toFinset _ hNodup, List.map_map]
  rfl

end VoteMap

/-! ## The scan -/

namespace ConsensusStateMachine

/-- The stake behind `h` in a list of votes. -/
def stakeFor (s : ValidatorSet) (l : List Vote) (h : Hash) : Nat :=
  ((l.filter fun v => v.blockHash == h).map fun v => s.power v.voter).sum

/-- What the running counter of one hash stands for: the stake counted so far,
cut off at the largest machine word. -/
def Counts (acc : Std.ExtTreeMap Hash UInt64) (counted : Hash → Nat) : Prop :=
  ∀ h, ((acc[h]?).getD 0).toNat = min (counted h) (2 ^ 64 - 1)

/-- One iteration of the scan keeps the counters right. -/
theorem Counts.step {s : ValidatorSet} {acc : Std.ExtTreeMap Hash UInt64}
    {counted : Hash → Nat} (hCounts : Counts acc counted) (v : Vote) :
    Counts (acc.insert v.blockHash
        (saturatingAdd ((acc[v.blockHash]?).getD 0) (s.getStake v.voter)))
      (fun h => counted h + if v.blockHash = h then s.power v.voter else 0) := by
  intro h
  rw [Std.ExtTreeMap.getElem?_insert]
  by_cases hEq : v.blockHash = h
  · subst hEq
    have hOld := hCounts v.blockHash
    simp only [Std.ReflOrd.compare_self, if_true, Option.getD_some, toNat_saturatingAdd,
      ValidatorSet.power]
    omega
  · have hNe : ¬ compare v.blockHash h = .eq := fun h' =>
      hEq (Std.LawfulEqOrd.eq_of_compare h')
    simp only [hNe, if_false, hEq, Nat.add_zero]
    exact hCounts h

/-- **What the scan finds.** A returned hash has reached the threshold; if
nothing is returned then no hash has. -/
theorem findQuorumFrom_spec (s : ValidatorSet) (l : List Vote)
    (acc : Std.ExtTreeMap Hash UInt64) (counted : Hash → Nat) (hCounts : Counts acc counted)
    (hBelow : ∀ h, counted h < s.quorumThreshold.toNat) :
    (∀ h, findQuorumFrom s acc l = some h →
      s.quorumThreshold.toNat ≤ counted h + stakeFor s l h) ∧
    (findQuorumFrom s acc l = none →
      ∀ h, counted h + stakeFor s l h < s.quorumThreshold.toNat) := by
  induction l generalizing acc counted with
  | nil =>
      refine ⟨fun h hFound => by simp [findQuorumFrom] at hFound, fun _ h => ?_⟩
      simpa [stakeFor] using hBelow h
  | cons v rest ih =>
      have hStep := hCounts.step (s := s) v
      have hThreshold := s.quorumThreshold.toNat_lt
      have hEntry := hStep v.blockHash
      simp only [Std.ExtTreeMap.getElem?_insert, Std.ReflOrd.compare_self, if_true,
        Option.getD_some] at hEntry
      have hCons : ∀ h, stakeFor s (v :: rest) h =
          (if v.blockHash = h then s.power v.voter else 0) + stakeFor s rest h := by
        intro h
        by_cases hEq : v.blockHash = h
        · simp [stakeFor, hEq]
        · simp [stakeFor, hEq]
      simp only [findQuorumFrom, hCons]
      split
      next hReached =>
        rw [UInt64.le_iff_toNat_le, hEntry] at hReached
        refine ⟨fun h hFound => ?_, fun hNone => by simp at hNone⟩
        simp only [Option.some.injEq] at hFound
        subst hFound
        simp only [if_true]
        omega
      next hNot =>
        rw [UInt64.le_iff_toNat_le, hEntry] at hNot
        have hBelow' : ∀ h, counted h + (if v.blockHash = h then s.power v.voter else 0) <
            s.quorumThreshold.toNat := by
          intro h
          by_cases hEq : v.blockHash = h
          · subst hEq
            simp only [if_true] at hNot ⊢
            omega
          · simpa [hEq] using hBelow h
        obtain ⟨hSome, hNone⟩ := ih _ _ hStep hBelow'
        refine ⟨fun h hFound => ?_, fun hFound h => ?_⟩
        · have := hSome h hFound
          omega
        · have := hNone hFound h
          omega

/-- A hash has a quorum among the votes of a map. -/
def HasQuorum (s : ValidatorSet) (m : VoteMap) (h : Hash) : Prop :=
  s.quorumThreshold.toNat ≤ weight s.power (m.support h)

/-- At most one hash has a quorum in a map whose voters are all members. -/
theorem HasQuorum.unique {s : ValidatorSet} {m : VoteMap} {h h' : Hash}
    (hMembers : ∀ a v, m.votes[a]? = some v → a ∈ s.members)
    (hq : HasQuorum s m h) (hq' : HasQuorum s m h') : h = h' := by
  have hSub : ∀ k, m.support k ⊆ s.members \ ∅ := by
    intro k a ha
    obtain ⟨v, hGet, -⟩ := VoteMap.mem_support.mp ha
    simpa using hMembers a v hGet
  rw [HasQuorum, s.toNat_quorumThreshold] at hq hq'
  have hTotal := s.weight_members
  by_cases hPos : 0 < s.totalStake.toNat
  · obtain ⟨a, ha, ha'⟩ := exists_mem_of_certificates hTotal
      (by simpa [weight] using hPos) (Finset.empty_subset _) (hSub h) (hSub h')
      (by simp only [weight, Finset.sum_empty, Nat.add_zero] at hq ⊢; omega)
      (by simp only [weight, Finset.sum_empty, Nat.add_zero] at hq' ⊢; omega)
    obtain ⟨v, hGet, hHash⟩ := VoteMap.mem_support.mp ha
    obtain ⟨u, hGet', hHash'⟩ := VoteMap.mem_support.mp ha'
    rw [hGet] at hGet'
    cases hGet'
    exact hHash.symm.trans hHash'
  · have hLe : weight s.power (m.support h) ≤ weight s.power s.members :=
      weight_mono ((hSub h).trans Finset.sdiff_subset)
    omega

/-- The machine's search returns a hash only if it has a quorum. -/
theorem hasQuorum_of_findQuorum {m : ConsensusStateMachine} {t : VoteType} {h : Hash}
    (hFound : m.findQuorum t = some h) : HasQuorum m.validatorSet (m.votes t) h := by
  have hSpec := findQuorumFrom_spec m.validatorSet (m.votes t).values ∅ (fun _ => 0)
    (fun h => by simp) (fun h => by rw [ValidatorSet.toNat_quorumThreshold]; omega)
  have := hSpec.1 h hFound
  rw [HasQuorum, VoteMap.weight_support]
  simpa [stakeFor] using this

/-- A hash with a quorum is found. -/
theorem findQuorum_of_hasQuorum {m : ConsensusStateMachine} {t : VoteType} {h : Hash}
    (hMembers : ∀ a v, (m.votes t).votes[a]? = some v → a ∈ m.validatorSet.members)
    (hQuorum : HasQuorum m.validatorSet (m.votes t) h) : m.findQuorum t = some h := by
  cases hFound : m.findQuorum t with
  | some h' => rw [(hasQuorum_of_findQuorum hFound).unique hMembers hQuorum]
  | none =>
      have hSpec := findQuorumFrom_spec m.validatorSet (m.votes t).values ∅ (fun _ => 0)
        (fun h => by simp) (fun h => by rw [ValidatorSet.toNat_quorumThreshold]; omega)
      have := hSpec.2 hFound h
      rw [HasQuorum, VoteMap.weight_support] at hQuorum
      simp only [stakeFor, Nat.zero_add] at this
      omega

end ConsensusStateMachine

end Polay.Consensus
