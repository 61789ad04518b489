import Polay.Consensus.Bookkeeping
import Polay.Lib.Sums

/-!
# Decisions on quorums

The machine searches its votes for a quorum and answers queries for the quorum of
one hash. Both come to the same answer, which is the order-free one: at most one
hash has a quorum, and the commits it leads to are proved by the precommits of
more than two thirds of the stake. The search is made only when a vote for the
current round is counted. A round that is entered with votes for it can have a
quorum that nobody looks for: this happens exactly if the vote that makes the
machine skip to its round also completes a quorum there.
-/

namespace Polay.Consensus

open Polay.Types Lib.Machine Lib.Quorum Lib.Trace

/-! ## Stake of any set of addresses -/

namespace ValidatorSet

variable {s : ValidatorSet}

theorem power_eq_zero {a : Address} (h : a ∉ s.members) : s.power a = 0 := by
  have hNone : s.validators.find? (fun v => v.address == a) = none := by
    rw [List.find?_eq_none]
    intro v hv hEq
    apply h
    rw [members, List.mem_toFinset, List.mem_map]
    exact ⟨v, hv, by simpa using hEq⟩
  rw [power, getStake, hNone]
  rfl

/-- No set of addresses has more stake than all validators. -/
theorem weight_le_totalStake (s : ValidatorSet) (x : Finset Address) :
    weight s.power x ≤ s.totalStake.toNat := by
  rw [← s.weight_members]
  have hSplit : weight s.power x = weight s.power (x ∩ s.members) := by
    refine (Finset.sum_subset Finset.inter_subset_left fun a ha hNot => ?_).symm
    exact power_eq_zero fun hMember => hNot (Finset.mem_inter.mpr ⟨ha, hMember⟩)
  rw [hSplit]
  exact weight_mono Finset.inter_subset_right

end ValidatorSet

namespace ConsensusStateMachine

variable {m m' : ConsensusStateMachine} {t : VoteType} {h h' : Hash}

/-! ## The queries -/

theorem toNat_countVotesFor (m : ConsensusStateMachine) (t : VoteType) (h : Hash) :
    (m.countVotesFor t h).toNat = weight m.validatorSet.power ((m.votes t).support h) := by
  have hLe := m.validatorSet.weight_le_totalStake ((m.votes t).support h)
  have hTotal := m.validatorSet.totalStake.toNat_lt
  have hSum := VoteMap.weight_support (m.votes t) m.validatorSet h
  rw [countVotesFor, toNat_sum, List.map_map, hSum]
  · rfl
  · rw [List.map_map]
    show ((List.filter _ _).map fun v : Vote => m.validatorSet.power v.voter).sum < _
    omega

/-- The query of one kind of votes. -/
def hasQuorum (m : ConsensusStateMachine) : VoteType → Hash → Bool
  | .prevote => m.hasPrevoteQuorum
  | .precommit => m.hasPrecommitQuorum

theorem hasQuorum_iff : m.hasQuorum t h = true ↔ HasQuorum m.validatorSet (m.votes t) h := by
  have hCount := toNat_countVotesFor m t h
  rw [HasQuorum, ← hCount, ← UInt64.le_iff_toNat_le]
  cases t <;> exact decide_eq_true_iff

/-! ## The search in any order -/

theorem stakeFor_perm {s : ValidatorSet} {l l' : List Vote} (hPerm : l.Perm l') (h : Hash) :
    stakeFor s l h = stakeFor s l' h :=
  ((hPerm.filter _).map _).sum_eq

/-- Searching the votes of a map in any order finds a hash exactly if it has a quorum. -/
theorem findQuorumFrom_eq_some_iff {s : ValidatorSet} {votes : VoteMap} {l : List Vote}
    (hMembers : ∀ a v, votes.votes[a]? = some v → a ∈ s.members)
    (hPerm : l.Perm votes.values) :
    findQuorumFrom s ∅ l = some h ↔ HasQuorum s votes h := by
  have hSpec := findQuorumFrom_spec s l ∅ (fun _ => 0) (fun h => by simp)
    (fun h => by rw [ValidatorSet.toNat_quorumThreshold]; omega)
  have hStake (k : Hash) : 0 + stakeFor s l k = weight s.power (votes.support k) := by
    rw [Nat.zero_add, stakeFor_perm hPerm, VoteMap.weight_support]
    rfl
  have hFound {k : Hash} (hk : findQuorumFrom s ∅ l = some k) : HasQuorum s votes k := by
    have := hSpec.1 k hk
    rwa [hStake] at this
  refine ⟨hFound, fun hQuorum => ?_⟩
  cases hResult : findQuorumFrom s ∅ l with
  | some => rw [(hFound hResult).unique hMembers hQuorum]
  | none =>
      have hBelow := hSpec.2 hResult h
      rw [hStake] at hBelow
      exact absurd hQuorum (Nat.not_le.mpr hBelow)

/-! ## Reachable machines -/

/-- The machines that calls reach. The node replaces the validator set right before it
advances the height. -/
inductive Reached : ConsensusStateMachine → Prop
  | new (height : UInt64) (s : ValidatorSet) (a : Address) : Reached (.new height s a)
  | call {m : ConsensusStateMachine} (hm : Reached m) (c : Call) : Reached (m.call c).2
  | advanceHeight {m : ConsensusStateMachine} (hm : Reached m) (height : UInt64) :
      Reached (m.advanceHeight height)
  | updateValidatorSet {m : ConsensusStateMachine} (hm : Reached m) (s : ValidatorSet)
      (height : UInt64) : Reached ((m.updateValidatorSet s).advanceHeight height)

/-- Every vote on a page is of its kind, for its round of this height and from a validator. -/
structure WellFiled (m : ConsensusStateMachine) : Prop where
  noStale : m.NoStale
  filed : ∀ t r (a : Address) v, (m.held t r).votes[a]? = some v → m.Admits t v ∧ v.round = r

theorem wellFiled_new (height : UInt64) (s : ValidatorSet) (a : Address) :
    WellFiled (.new height s a) where
  noStale := (exact_new height s a).noStale
  filed t r x v hv := by
    have hEmpty := (exact_new height s a).held t r x UInt32.zero_le
    rw [hEmpty] at hv
    cases hv

theorem WellFiled.step (hm : m.WellFiled) {c : Call} (hStep : BookStep m c m')
    (hHeight : m'.height = m.height) (hSet : m'.validatorSet = m.validatorSet) :
    m'.WellFiled where
  noStale := hStep.noStale hm.noStale
  filed t r a v hv := by
    have hOld : m.Admits t v ∧ v.round = r := by
      rcases hStep.of_held hm.noStale hv with hOld | ⟨_, hRound, _, hTakes⟩
      · exact hm.filed t r a v hOld
      · exact ⟨hTakes.admits, hRound⟩
    refine ⟨⟨?_, hOld.1.type_eq, ?_⟩, hOld.2⟩
    · rw [hHeight]
      exact hOld.1.height_eq
    · rw [hSet]
      exact hOld.1.member

theorem WellFiled.call (hm : m.WellFiled) (c : Call) : (m.call c).2.WellFiled :=
  hm.step (call_bookStep m c) (call_step m c).fixed.1 (call_step m c).fixed.2

theorem Reached.wellFiled (hm : Reached m) : m.WellFiled := by
  induction hm with
  | new height s a => exact wellFiled_new height s a
  | call _ c ih => exact ih.call c
  | advanceHeight | updateValidatorSet => exact wellFiled_new _ _ _

theorem WellFiled.votes (hm : m.WellFiled) {a : Address} {v : Vote}
    (hv : (m.votes t).votes[a]? = some v) : m.Admits t v ∧ v.round = m.round := by
  refine hm.filed t m.round a v ?_
  rwa [held, if_pos rfl]

theorem WellFiled.members (hm : m.WellFiled) (t : VoteType) :
    ∀ a v, (m.votes t).votes[a]? = some v → a ∈ m.validatorSet.members := by
  intro a v hv
  have hVoter := (m.votes t).voter_key a v hv
  rw [← hVoter]
  exact (hm.votes hv).1.member

/-! ## What is decided -/

/-- The proof of a commit: precommits for the height, the round and the hash by different
validators, who hold more than two thirds of the stake. -/
structure Certifies (s : ValidatorSet) (height : UInt64) (round : UInt32) (h : Hash)
    (proof : CommitProof) : Prop where
  height_eq : proof.height = height
  round_eq : proof.round = round
  hash_eq : proof.blockHash = h
  votes : ∀ v ∈ proof.votes, v.voteType = .precommit ∧ v.height = height ∧ v.round = round ∧
    v.blockHash = h ∧ s.contains v.voter = true
  distinct : (proof.votes.map Vote.voter).Nodup
  stake : 2 * s.totalStake.toNat < 3 * (proof.votes.map fun v => (s.getStake v.voter).toNat).sum

/-- The decisions of a machine on quorums are right. -/
structure SoundQuorums (m : ConsensusStateMachine) : Prop where
  prevotes : ∀ h, m.findPrevoteQuorum = some h ↔ m.hasPrevoteQuorum h = true
  precommits : ∀ h, m.findPrecommitQuorum = some h ↔ m.hasPrecommitQuorum h = true
  unique_prevotes : ∀ h h', m.hasPrevoteQuorum h = true → m.hasPrevoteQuorum h' = true → h = h'
  unique_precommits : ∀ h h', m.hasPrecommitQuorum h = true → m.hasPrecommitQuorum h' = true →
    h = h'
  order : ∀ t l, l.Perm (m.votes t).values → findQuorumFrom m.validatorSet ∅ l = m.findQuorum t
  commits : ∀ c height h proof, (m.call c).1 = some (.commitBlock height h proof) →
    height = m.height ∧ Certifies m.validatorSet height m.round h proof

theorem WellFiled.certifies (hm : m.WellFiled) (hQuorum : HasQuorum m.validatorSet m.precommits h) :
    Certifies m.validatorSet m.height m.round h (m.commitProof h) where
  height_eq := rfl
  round_eq := rfl
  hash_eq := rfl
  votes v hv := by
    obtain ⟨hMem, hHash⟩ := List.mem_filter.mp hv
    obtain ⟨hAdmits, hRound⟩ := hm.votes (t := .precommit) (VoteMap.mem_values.mp hMem)
    exact ⟨hAdmits.type_eq, hAdmits.height_eq, hRound, by simpa using hHash,
      ValidatorSet.contains_iff.mpr hAdmits.member⟩
  distinct := m.precommits.nodup_voters.sublist (List.filter_sublist.map _)
  stake := by
    rw [HasQuorum, ValidatorSet.toNat_quorumThreshold, VoteMap.weight_support] at hQuorum
    show 2 * m.validatorSet.totalStake.toNat <
      3 * ((m.precommits.values.filter fun v => v.blockHash == h).map
        fun v => m.validatorSet.power v.voter).sum
    omega

/-- **Decisions are sound.** In every machine that calls reach, the search for a quorum and
the query for a hash agree, at most one hash has a quorum, the order of the votes does
not matter, and every commit is proved by precommits of more than two thirds of the stake. -/
theorem Reached.soundQuorums (hm : Reached m) : SoundQuorums m := by
  have hFiled := hm.wellFiled
  have hFind (t : VoteType) (h : Hash) : m.findQuorum t = some h ↔ m.hasQuorum t h = true := by
    rw [hasQuorum_iff]
    exact findQuorumFrom_eq_some_iff (hFiled.members t) (List.Perm.refl _)
  have hUnique (t : VoteType) (h h' : Hash) (hq : m.hasQuorum t h = true)
      (hq' : m.hasQuorum t h' = true) : h = h' :=
    (hasQuorum_iff.mp hq).unique (hFiled.members t) (hasQuorum_iff.mp hq')
  refine ⟨hFind .prevote, hFind .precommit, hUnique .prevote, hUnique .precommit, ?_, ?_⟩
  · intro t l hPerm
    refine Option.ext fun h => ?_
    rw [findQuorumFrom_eq_some_iff (hFiled.members t) hPerm, hFind, hasQuorum_iff]
  · intro c height h proof hAction
    have hStep := call_step m c
    have hAfter := hFiled.call c
    generalize (m.call c).1 = action at hStep hAction
    generalize (m.call c).2 = m' at hStep hAfter
    cases hStep with
    | @committed v k hAdmits hRound hNew hStep hNonNil hQuorum =>
        cases hAction
        have hHas : HasQuorum m.validatorSet (m.precommits.insert v) h :=
          hasQuorum_of_findQuorum (m := m.recordVote v .precommit) (t := .precommit) hQuorum
        exact ⟨rfl, hAfter.certifies hHas⟩
    | _ => cases hAction

/-- The third precommit of four equal validators commits, with a proof that certifies. -/
theorem Reached.soundQuorums_three :
    let vote (b : UInt8) : Call := .vote .precommit (firstVote .precommit (.ofByte 7) (.ofByte b))
    let m := (((ConsensusStateMachine.new 1 fourValidators (.ofByte 1)).call (vote 2)).2.call
      (vote 3)).2
    ∃ proof, (m.call (vote 4)).1 = some (.commitBlock 1 (.ofByte 7) proof) ∧
      Certifies m.validatorSet 1 m.round (.ofByte 7) proof := by
  intro vote m
  have hReached : Reached m := .call (.call (.new _ _ _) _) _
  have hAction : (m.call (vote 4)).1 = some (.commitBlock 1 (.ofByte 7)
      ((m.recordVote (firstVote .precommit (.ofByte 7) (.ofByte 4)) .precommit).commitProof
        (.ofByte 7))) := by decide +kernel
  exact ⟨_, hAction, (hReached.soundQuorums.commits _ _ _ _ hAction).2⟩

/-! ## Quorums that are not looked for -/

theorem toNat_skipThreshold (m : ConsensusStateMachine) :
    m.skipThreshold.toNat = m.validatorSet.totalStake.toNat / 3 + 1 := by
  have hTotal := m.validatorSet.totalStake.toNat_lt
  have hThird : (m.validatorSet.totalStake / 3).toNat = m.validatorSet.totalStake.toNat / 3 :=
    UInt64.toNat_div _ _
  rw [skipThreshold, UInt64.toNat_add, hThird]
  show (m.validatorSet.totalStake.toNat / 3 + 1) % 2 ^ 64 = _
  omega

/-- A quorum in the buffer of a round is more than enough to skip to the round. -/
theorem shouldSkip_of_hasQuorum {r : UInt32}
    (hQuorum : HasQuorum m.validatorSet ((m.futureVotes .precommit)[r]?.getD .empty) h) :
    m.shouldSkipToRound r = true := by
  let voters := ((m.futurePrevotes[r]?.getD .empty).keys ++
    (m.futurePrecommits[r]?.getD .empty).keys).dedup
  have hSum : ((voters.map m.validatorSet.getStake).map UInt64.toNat).sum =
      weight m.validatorSet.power voters.toFinset := by
    rw [weight, List.sum_toFinset _ (List.nodup_dedup _), List.map_map]
    rfl
  have hLe := m.validatorSet.weight_le_totalStake voters.toFinset
  have hTotal := m.validatorSet.totalStake.toNat_lt
  have hSupport : ((m.futureVotes .precommit)[r]?.getD .empty).support h ⊆ voters.toFinset := by
    intro a ha
    obtain ⟨v, hv, _⟩ := VoteMap.mem_support.mp ha
    rw [List.mem_toFinset, List.mem_dedup, List.mem_append]
    refine .inr (Std.ExtTreeMap.mem_keys.mpr ?_)
    rw [Std.ExtTreeMap.mem_iff_isSome_getElem?]
    exact Option.isSome_iff_exists.mpr ⟨v, hv⟩
  have hMono := weight_mono (w := m.validatorSet.power) hSupport
  rw [HasQuorum, ValidatorSet.toNat_quorumThreshold] at hQuorum
  show decide (m.skipThreshold ≤ (voters.map m.validatorSet.getStake).sum) = true
  rw [decide_eq_true_iff, UInt64.le_iff_toNat_le, toNat_skipThreshold, toNat_sum (by omega), hSum]
  omega

/-- The actions returned so far and the state. -/
abbrev Logged : Type := List ConsensusAction × ConsensusStateMachine

/-- A call, with its action put on record. -/
def logCall (x : Logged) (c : Call) : Logged := (x.1 ++ (x.2.call c).1.toList, (x.2.call c).2)

/-- A commit of the hash has been returned. -/
def Committed (actions : List ConsensusAction) (h : Hash) : Prop :=
  ∃ height proof, ConsensusAction.commitBlock height h proof ∈ actions

/-- Every block with a quorum of precommits in the current round has been committed. -/
def Announced (x : Logged) : Prop :=
  ∀ h, h ≠ Hash.zero → x.2.hasPrecommitQuorum h = true → Committed x.1 h

/-- A precommit for a later round does not complete a quorum there, except for a block that
has been committed. -/
def ArrivesInTime (x : Logged) : Call → Prop
  | .vote .precommit v => x.2.Takes .precommit v → x.2.round < v.round → ∀ h, h ≠ Hash.zero →
      HasQuorum x.2.validatorSet ((x.2.held .precommit v.round).insert v) h → Committed x.1 h
  | _ => True

/-- What is known about quorums: there is none for a later round, and in the commit step the
block with the quorum has been committed. -/
structure Watched (x : Logged) : Prop where
  filed : x.2.WellFiled
  ahead : ∀ r h, x.2.round < r → ¬ HasQuorum x.2.validatorSet (x.2.held .precommit r) h
  committed : x.2.step = .commit →
    ∃ h, h ≠ Hash.zero ∧ HasQuorum x.2.validatorSet x.2.precommits h ∧ Committed x.1 h

variable {actions : List ConsensusAction} {a : Option ConsensusAction} {v : Vote} {r : UInt32}

theorem Committed.append (hc : Committed actions h) (more : List ConsensusAction) :
    Committed (actions ++ more) h := by
  obtain ⟨height, proof, hMem⟩ := hc
  exact ⟨height, proof, List.mem_append_left _ hMem⟩

theorem not_hasQuorum_empty (s : ValidatorSet) (h : Hash) : ¬ HasQuorum s .empty h := by
  rw [HasQuorum, ValidatorSet.toNat_quorumThreshold]
  have hNone : VoteMap.empty.support h = ∅ := by
    ext a
    rw [VoteMap.mem_support]
    simp [VoteMap.empty]
  rw [hNone]
  simp [weight]

/-- Another vote takes no quorum away. -/
theorem HasQuorum.insert {s : ValidatorSet} {votes : VoteMap} (hq : HasQuorum s votes h)
    (hNew : votes.votes[v.voter]? = none) : HasQuorum s (votes.insert v) h := by
  refine Nat.le_trans hq (weight_mono fun a ha => ?_)
  obtain ⟨w, hw, hHash⟩ := VoteMap.mem_support.mp ha
  refine VoteMap.mem_support.mpr ⟨w, ?_, hHash⟩
  rw [VoteMap.getElem?_insert, if_neg, hw]
  rintro rfl
  rw [hNew] at hw
  cases hw

theorem held_round (m : ConsensusStateMachine) (t : VoteType) : m.held t m.round = m.votes t := by
  rw [held, if_pos rfl]

/-- Both facts after a call that leaves votes, round and step. -/
theorem Watched.of_same (hx : Watched (actions, m)) (hFiled : m'.WellFiled)
    (hSet : m'.validatorSet = m.validatorSet) (hSame : SameBook m m')
    (hStep : m'.step = .commit → m.step = .commit) (more : List ConsensusAction) :
    Watched (actions ++ more, m') := by
  refine ⟨hFiled, fun r k hr => ?_, fun hCommit => ?_⟩
  · show ¬ HasQuorum m'.validatorSet (m'.held .precommit r) k
    rw [hSet, hSame.held_eq]
    exact hx.ahead r k (hSame.round ▸ hr)
  · obtain ⟨k, hNonNil, hQuorum, hCommitted⟩ := hx.committed (hStep hCommit)
    refine ⟨k, hNonNil, ?_, hCommitted.append more⟩
    have hPrecommits : m'.precommits = m.precommits := hSame.votes .precommit
    show HasQuorum m'.validatorSet m'.precommits k
    rw [hSet, hPrecommits]
    exact hQuorum

/-- After a round is entered nothing is ahead that was not ahead before. -/
theorem watched_enterRound (hFiled : m'.WellFiled) (hSet : m'.validatorSet = m.validatorSet)
    (hAhead : ∀ k h, r < k → ¬ HasQuorum m.validatorSet (m.held .precommit k) h)
    (hr : m.round ≤ r) (hSame : SameBook (m.enterRound r) m') (hStep : m'.step ≠ .commit) :
    Watched (actions, m') := by
  refine ⟨hFiled, fun k h hk => ?_, fun hCommit => absurd hCommit hStep⟩
  have hLt : r < k := by
    rw [show m'.round = r from hSame.round] at hk
    exact hk
  have hHeld : m'.held .precommit k = m.held .precommit k := by
    rw [hSame.held_eq, held_of_lt (m := m.enterRound r) hLt, getElem?_futureVotes_enterRound,
      if_pos hLt, held_of_lt (UInt32.lt_of_le_of_lt hr hLt)]
  show ¬ HasQuorum m'.validatorSet (m'.held .precommit k) h
  rw [hSet, hHeld]
  exact hAhead k h hLt

/-- A round that is entered without the help of a vote has no quorum of precommits. -/
theorem Watched.not_hasQuorum_enterRound (hx : Watched (actions, m)) (r : UInt32)
    (h : Hash) : ¬ HasQuorum m.validatorSet (m.enterRound r).precommits h := by
  show ¬ HasQuorum m.validatorSet ((m.futureVotes .precommit)[r]?.getD .empty) h
  by_cases hLt : m.round < r
  · rw [← held_of_lt hLt]
    exact hx.ahead r h hLt
  · rw [hx.filed.noStale .precommit r (UInt32.not_lt.mp hLt)]
    exact not_hasQuorum_empty _ h

theorem announced_iff : Announced (actions, m) ↔
    ∀ h, h ≠ Hash.zero → HasQuorum m.validatorSet m.precommits h → Committed actions h :=
  forall_congr' fun _ => imp_congr_right fun _ => imp_congr_left (hasQuorum_iff (t := .precommit))

/-- The same precommits and more actions. -/
theorem Announced.of_same (hx : Announced (actions, m)) (hSet : m'.validatorSet = m.validatorSet)
    (hSame : SameBook m m') (more : List ConsensusAction) : Announced (actions ++ more, m') := by
  have hPrecommits : m'.precommits = m.precommits := hSame.votes .precommit
  rw [announced_iff] at hx ⊢
  rw [hSet, hPrecommits]
  exact fun h hNonNil hQuorum => (hx h hNonNil hQuorum).append more

/-! ### Calls that are not votes -/

/-- Timeouts and proposals leave no quorum unannounced. -/
theorem Watched.quiet (hx : Watched (actions, m)) {c : Call} (hStep : Step m c a m')
    (hNone : ∀ t v, c ≠ .vote t v) (hFiled : m'.WellFiled) :
    Watched (actions ++ a.toList, m') ∧
      (Announced (actions, m) → Announced (actions ++ a.toList, m')) := by
  have hSet := hStep.fixed.2
  have hEnter : ∀ r, m.round ≤ r → SameBook (m.enterRound r) m' → m'.step ≠ .commit →
      Watched (actions ++ a.toList, m') ∧
        (Announced (actions, m) → Announced (actions ++ a.toList, m')) := by
    intro r hr hSame hNot
    refine ⟨watched_enterRound hFiled hSet (fun k h hk => hx.ahead k h ?_) hr hSame hNot,
      fun _ => ?_⟩
    · exact UInt32.lt_of_le_of_lt hr hk
    · rw [announced_iff, hSet, show m'.precommits = _ from hSame.votes .precommit]
      exact fun h _ hQuorum => absurd hQuorum (hx.not_hasQuorum_enterRound r h)
  have hStay : SameBook m m' → (m'.step = .commit → m.step = .commit) →
      Watched (actions ++ a.toList, m') ∧
        (Announced (actions, m) → Announced (actions ++ a.toList, m')) :=
    fun hSame hCommit => ⟨hx.of_same hFiled hSet hSame hCommit _,
      fun hA => hA.of_same hSet hSame _⟩
  cases hStep with
  | rejected | commitTimeout => exact hStay (.refl m) id
  | rejectedAhead hRound => exact hEnter _ (UInt32.le_of_lt hRound) (.refl _) (by simp [enterRound])
  | accepted =>
      exact hStay (sameBook_of_fields rfl rfl rfl rfl rfl) (by simp [acceptProposal])
  | acceptedAhead hAccepts hRound =>
      exact hEnter _ (UInt32.le_of_lt hRound) (sameBook_of_fields rfl rfl rfl rfl rfl)
        (by simp [acceptProposal])
  | proposeTimeout | prevoteTimeout =>
      exact hStay (sameBook_of_fields rfl rfl rfl rfl rfl) (by simp)
  | precommitTimeout hStep =>
      exact hEnter _ (Step.precommitTimeout hStep).round_le (.refl _) (by simp [enterRound])
  | buffered | skipped | recorded | precommitted | committed => exact absurd rfl (hNone _ _)

/-! ### Votes -/

theorem validatorSet_enterVote (m : ConsensusStateMachine) (v : Vote) (t : VoteType) :
    (m.enterVote v t).validatorSet = m.validatorSet := by
  unfold enterVote
  split <;> cases t <;> rfl

theorem step_enterVote (m : ConsensusStateMachine) (v : Vote) (t : VoteType) :
    (m.enterVote v t).step = m.step := by
  unfold enterVote
  split <;> cases t <;> rfl

/-- The pages of precommits change by precommits only, each on its page. -/
theorem held_precommit_enterVote (hTakes : m.Takes t v) :
    (m.enterVote v t).held .precommit r =
      if t = .precommit ∧ r = v.round then (m.held .precommit r).insert v
      else m.held .precommit r := by
  rw [held_enterVote hTakes.round]
  by_cases hEq : VoteType.precommit = t ∧ r = v.round
  · obtain ⟨rfl, hRound⟩ := hEq
    rw [if_pos ⟨rfl, hRound⟩]
  · rw [if_neg hEq, if_neg fun hBoth => hEq ⟨hBoth.1.symm, hBoth.2⟩]

theorem not_hasQuorum_of_not_skip (hLater : m.round < r)
    (hFew : m.shouldSkipToRound r = false) (h : Hash) :
    ¬ HasQuorum m.validatorSet (m.held .precommit r) h := by
  intro hQuorum
  rw [held_of_lt hLater] at hQuorum
  rw [shouldSkip_of_hasQuorum hQuorum] at hFew
  cases hFew

theorem WellFiled.enterVote (hm : m.WellFiled) (hTakes : m.Takes t v) :
    (m.enterVote v t).WellFiled := by
  refine hm.step (.entered hTakes (.refl _)) ?_ (validatorSet_enterVote m v t)
  unfold ConsensusStateMachine.enterVote
  split <;> cases t <;> rfl

theorem precommits_enterVote (hTakes : m.Takes t v) : (m.enterVote v t).precommits =
    if t = .precommit ∧ m.round = v.round then m.precommits.insert v else m.precommits := by
  have hRound : (m.enterVote v t).held .precommit m.round = (m.enterVote v t).precommits := by
    rw [← round_enterVote m v t]
    exact held_round _ _
  rw [← hRound, held_precommit_enterVote hTakes, held_round]
  rfl

/-- A quorum survives another vote. -/
theorem HasQuorum.enterVote (hq : HasQuorum m.validatorSet m.precommits h)
    (hTakes : m.Takes t v) : HasQuorum m.validatorSet (m.enterVote v t).precommits h := by
  rw [precommits_enterVote hTakes]
  split
  next hBoth =>
    refine hq.insert ?_
    have hFirst := hTakes.first
    rw [hBoth.1, ← hBoth.2, held_round] at hFirst
    exact hFirst
  next => exact hq

/-- A vote is entered, for the current round or without completing a quorum. -/
theorem Watched.enterVote (hx : Watched (actions, m)) (hTakes : m.Takes t v)
    (hFew : m.round < v.round → ∀ h,
      ¬ HasQuorum m.validatorSet ((m.enterVote v t).held .precommit v.round) h) :
    Watched (actions, m.enterVote v t) := by
  refine ⟨hx.filed.enterVote hTakes, fun k h hk => ?_, fun hCommit => ?_⟩
  · have hk : m.round < k := by rwa [round_enterVote] at hk
    show ¬ HasQuorum (m.enterVote v t).validatorSet ((m.enterVote v t).held .precommit k) h
    rw [validatorSet_enterVote]
    by_cases hEq : k = v.round
    · subst hEq
      exact hFew hk h
    · rw [held_precommit_enterVote hTakes, if_neg fun hBoth => hEq hBoth.2]
      exact hx.ahead k h hk
  · obtain ⟨k, hNonNil, hQuorum, hCommitted⟩ := hx.committed (step_enterVote m v t ▸ hCommit)
    refine ⟨k, hNonNil, ?_, hCommitted⟩
    show HasQuorum (m.enterVote v t).validatorSet _ k
    rw [validatorSet_enterVote]
    exact hQuorum.enterVote hTakes

theorem step_of_afterPrevote (hCommit : (m.afterVote .prevote).2.step = .commit) :
    m.step = .commit := by
  unfold afterVote afterPrevote at hCommit
  dsimp only at hCommit
  split at hCommit
  · split at hCommit
    · split at hCommit <;> cases hCommit
    · exact hCommit
  · exact hCommit

/-- Counting a precommit announces the quorum, if there is one. -/
theorem Watched.afterPrecommit (hx : Watched (actions, m)) :
    Watched (actions ++ m.afterPrecommit.1.toList, m.afterPrecommit.2) ∧
      Announced (actions ++ m.afterPrecommit.1.toList, m.afterPrecommit.2) := by
  have hFind : ∀ {k}, HasQuorum m.validatorSet m.precommits k → m.findPrecommitQuorum = some k :=
    fun hQuorum => findQuorum_of_hasQuorum (t := .precommit) (hx.filed.members .precommit) hQuorum
  have hStay : (∀ k, k ≠ Hash.zero → HasQuorum m.validatorSet m.precommits k →
      m.step = .commit) → Watched (actions ++ [], m) ∧ Announced (actions ++ [], m) := by
    intro hCommit
    rw [List.append_nil]
    refine ⟨hx, announced_iff.mpr fun k hNonNil hQuorum => ?_⟩
    obtain ⟨k', _, hQuorum', hCommitted⟩ := hx.committed (hCommit k hNonNil hQuorum)
    rwa [hQuorum.unique (hx.filed.members .precommit) hQuorum']
  unfold ConsensusStateMachine.afterPrecommit
  cases hResult : m.findPrecommitQuorum with
  | none =>
      refine hStay fun k _ hQuorum => ?_
      rw [hFind hQuorum] at hResult
      cases hResult
  | some k =>
      have hHas : HasQuorum m.validatorSet m.precommits k :=
        hasQuorum_of_findQuorum (t := .precommit) hResult
      dsimp only
      by_cases hGuard : k.isZero = false ∧ m.step ≠ .commit
      · rw [if_pos hGuard]
        have hNonNil : k ≠ Hash.zero := Hash.isZero_eq_false.mp hGuard.1
        have hCommitted : Committed (actions ++ [.commitBlock m.height k (m.commitProof k)]) k :=
          ⟨_, _, List.mem_append_right _ List.mem_cons_self⟩
        have hSame : SameBook m { m with step := .commit } :=
          sameBook_of_fields rfl rfl rfl rfl rfl
        refine ⟨⟨?_, ?_, fun _ => ⟨k, hNonNil, hHas, hCommitted⟩⟩, ?_⟩
        · exact hx.filed.step (c := .timeout) (.same (fun _ _ hEq => by cases hEq) hSame) rfl rfl
        · intro r h hr
          rw [hSame.held_eq]
          exact hx.ahead r h hr
        · refine announced_iff.mpr fun k' _ hQuorum => ?_
          rwa [hQuorum.unique (hx.filed.members .precommit) hHas]
      · rw [if_neg hGuard]
        refine hStay fun k' hNonNil hQuorum => ?_
        obtain rfl : k' = k := hQuorum.unique (hx.filed.members .precommit) hHas
        by_contra hNot
        exact hGuard ⟨Hash.isZero_eq_false.mpr hNonNil, hNot⟩

/-- A vote leaves no quorum unannounced exactly if it arrives in time. -/
theorem Watched.vote (hx : Watched (actions, m)) (hStep : VoteStep m t v a m')
    (hFiled : m'.WellFiled) (hSet : m'.validatorSet = m.validatorSet) :
    Watched (actions ++ a.toList, m') ∧ (Announced (actions, m) →
      (Announced (actions ++ a.toList, m') ↔ ArrivesInTime (actions, m) (.vote t v))) := by
  -- a vote that is not for a later round is in time
  have hInTime : ¬ (m.Takes t v ∧ m.round < v.round) → ArrivesInTime (actions, m) (.vote t v) := by
    intro hNot
    cases t with
    | prevote => trivial
    | precommit => exact fun hTakes hLater => absurd ⟨hTakes, hLater⟩ hNot
  -- the page of its round after a vote for a later round
  have hPage : m.Takes t v → m.round < v.round → ∀ k,
      HasQuorum m.validatorSet ((m.enterVote v t).held .precommit v.round) k →
      t = .precommit ∧ HasQuorum m.validatorSet ((m.held .precommit v.round).insert v) k := by
    intro hTakes hLater k hQuorum
    rw [held_precommit_enterVote hTakes] at hQuorum
    split at hQuorum
    next hBoth => exact ⟨hBoth.1, hQuorum⟩
    next => exact absurd hQuorum (hx.ahead v.round k hLater)
  cases hStep with
  | refused hNot =>
      rw [Option.toList_none, List.append_nil]
      exact ⟨hx, fun hA => iff_of_true hA (hInTime fun hBoth => hNot hBoth.1)⟩
  | waiting hTakes hLater hFew =>
      have hLater' : (m.enterVote v t).round < v.round := by rwa [round_enterVote]
      have hNone := not_hasQuorum_of_not_skip hLater' hFew
      rw [validatorSet_enterVote] at hNone
      rw [Option.toList_none, List.append_nil]
      refine ⟨hx.enterVote hTakes fun _ => hNone, fun hA => iff_of_true ?_ ?_⟩
      · have hNe : ¬ (t = .precommit ∧ m.round = v.round) := fun hBoth =>
          UInt32.lt_irrefl _ (hBoth.2 ▸ hLater)
        rw [announced_iff, validatorSet_enterVote, precommits_enterVote hTakes, if_neg hNe]
        exact announced_iff.mp hA
      · cases t with
        | prevote => trivial
        | precommit =>
            intro _ _ k _ hQuorum
            refine absurd ?_ (hNone k)
            rw [held_precommit_enterVote hTakes, if_pos ⟨rfl, rfl⟩]
            exact hQuorum
  | skipped hTakes hLater =>
      have hLater' : (m.enterVote v t).round < v.round := by rwa [round_enterVote]
      have hPrecommits : ((m.enterVote v t).enterRound v.round).precommits =
          (m.enterVote v t).held .precommit v.round := by
        rw [held_of_lt hLater']
        rfl
      refine ⟨watched_enterRound (m := m.enterVote v t) hFiled rfl (fun k h hk => ?_)
        (UInt32.le_of_lt hLater') (.refl _) (by simp [enterRound]), fun hA => ?_⟩
      · have hNe : k ≠ v.round := fun hEq => UInt32.lt_irrefl _ (hEq ▸ hk)
        rw [validatorSet_enterVote, held_precommit_enterVote hTakes,
          if_neg fun hBoth => hNe hBoth.2]
        exact hx.ahead k h (UInt32.lt_trans hLater hk)
      · have hMore : ∀ k, Committed (actions ++ [.scheduleTimeout .propose proposeTimeoutMs]) k →
            Committed actions k := by
          rintro k ⟨height, proof, hMem⟩
          exact ⟨height, proof, by simpa using hMem⟩
        rw [announced_iff, hSet, hPrecommits]
        constructor
        · intro hAll
          cases t with
          | prevote => trivial
          | precommit =>
              intro _ _ k hNonNil hQuorum
              refine hMore k (hAll k hNonNil ?_)
              rw [held_precommit_enterVote hTakes, if_pos ⟨rfl, rfl⟩]
              exact hQuorum
        · intro hArrives k hNonNil hQuorum
          obtain ⟨rfl, hEntered⟩ := hPage hTakes hLater k hQuorum
          exact (hArrives hTakes hLater k hNonNil hEntered).append _
  | counted hTakes hRound =>
      have hNot : ¬ m.round < v.round := by rw [hRound]; exact UInt32.lt_irrefl _
      have hEntered := hx.enterVote hTakes fun hLater => absurd hLater hNot
      have hTrue := hInTime fun hBoth => hNot hBoth.2
      cases t with
      | precommit =>
          obtain ⟨hWatched, hAnnounced⟩ := hEntered.afterPrecommit
          exact ⟨hWatched, fun _ => iff_of_true hAnnounced hTrue⟩
      | prevote =>
          have hSame := sameBook_afterVote (m.enterVote v .prevote) .prevote
          have hSet' : ((m.enterVote v .prevote).afterVote .prevote).2.validatorSet =
              (m.enterVote v .prevote).validatorSet :=
            hSet.trans (validatorSet_enterVote m v .prevote).symm
          refine ⟨hEntered.of_same hFiled hSet' hSame (fun hCommit => ?_) _, fun hA => ?_⟩
          · exact step_of_afterPrevote hCommit
          · refine iff_of_true (Announced.of_same ?_ hSet' hSame _) hTrue
            rw [announced_iff, validatorSet_enterVote, precommits_enterVote hTakes,
              if_neg (by simp)]
            exact announced_iff.mp hA

/-! ### Runs -/

theorem watched_new (height : UInt64) (s : ValidatorSet) (addr : Address) :
    Watched ([], .new height s addr) where
  filed := wellFiled_new height s addr
  ahead r h _ := by
    have hEmpty : (ConsensusStateMachine.new height s addr).held .precommit r = .empty := by
      simp [held, new, futureVotes, votes]
    show ¬ HasQuorum s ((ConsensusStateMachine.new height s addr).held .precommit r) h
    rw [hEmpty]
    exact not_hasQuorum_empty s h
  committed hCommit := by cases hCommit

theorem Watched.logCall {x : Logged} (hx : Watched x) (c : Call) :
    Watched (logCall x c) ∧ (Announced x → (Announced (logCall x c) ↔ ArrivesInTime x c)) := by
  obtain ⟨actions, m⟩ := x
  have hFiled := hx.filed.call c
  have hSet := (call_step m c).fixed.2
  by_cases hVote : ∃ t v, c = .vote t v
  · obtain ⟨t, v, rfl⟩ := hVote
    exact hx.vote (call_voteStep m v t) hFiled hSet
  · have hNone : ∀ t v, c ≠ .vote t v := fun t v hEq => hVote ⟨t, v, hEq⟩
    obtain ⟨hWatched, hAnnounced⟩ := hx.quiet (call_step m c) hNone hFiled
    refine ⟨hWatched, fun hA => iff_of_true (hAnnounced hA) ?_⟩
    cases c with
    | vote t v => exact absurd rfl (hNone t v)
    | proposal | timeout => trivial

/-- In every state of a run of a new machine every quorum of precommits for a block has been
announced by a commit, exactly if every precommit of the run arrives in time: none completes
a quorum for a round that the machine has not entered. -/
theorem announced_iff_arrivesInTime (height : UInt64) (s : ValidatorSet) (addr : Address)
    (cs : List Call) :
    (∀ pre, pre <+: cs → Announced (after logCall ([], .new height s addr) pre)) ↔
      Along logCall ArrivesInTime ([], .new height s addr) cs := by
  refine throughout_iff_along (I := Watched) (fun x c hx => (hx.logCall c).1)
    (fun x c hx hA => (hx.logCall c).2 hA) (watched_new height s addr) ?_
  refine announced_iff.mpr fun h _ hQuorum => absurd hQuorum ?_
  exact not_hasQuorum_empty s h

/-- A validator with three of four shares of the stake. -/
def oneLarge : ValidatorSet where
  validators := [⟨.ofByte 1, 100⟩, ⟨.ofByte 2, 300⟩]
  totalStake := 400
  nodup := by decide
  total_eq := by decide

/-- The precommit of the large validator for round 1 moves a machine in round 0 there. It is a
quorum, but no commit is returned. -/
theorem quorum_overlooked :
    let v : Vote := { Consensus.firstVote .precommit (.ofByte 7) (.ofByte 2) with round := 1 }
    let x := after logCall ([], .new 1 oneLarge (.ofByte 1)) [.vote .precommit v]
    x.2.round = 1 ∧ x.2.hasPrecommitQuorum (.ofByte 7) = true ∧
      x.1 = [.scheduleTimeout .propose proposeTimeoutMs] ∧ ¬ Announced x := by
  intro v x
  have hQuorum : x.2.hasPrecommitQuorum (.ofByte 7) = true := by decide +kernel
  have hActions : x.1 = [.scheduleTimeout .propose proposeTimeoutMs] := by decide +kernel
  refine ⟨by decide +kernel, hQuorum, hActions, fun hA => ?_⟩
  obtain ⟨height, proof, hMem⟩ := hA (.ofByte 7) (by decide) hQuorum
  rw [hActions] at hMem
  simp at hMem

end ConsensusStateMachine

end Polay.Consensus
