import Polay.Consensus.Steps

/-!
# Rejected messages

What a message of a peer leaves behind when its handler returns an error. A
rejected vote leaves the machine as it was. A proposal for a later round moves
the machine there before its proposer is checked, so a rejected one has thrown
away the votes of the current round already.
-/

namespace Polay.Consensus

open Polay.Types Lib.Machine

/-- A message of a peer. -/
inductive PeerMessage where
  | proposal (p : Proposal)
  | prevote (v : Vote)
  | precommit (v : Vote)
deriving DecidableEq

namespace ConsensusStateMachine

/-- The proposer of a round at the height of the machine. -/
def proposerOf (m : ConsensusStateMachine) (r : UInt32) : Option Address :=
  (m.validatorSet.getProposer m.height r).map ValidatorWeight.address

/-- In its own round the proposal comes from the proposer, or repeats the valid block,
and a validator made it. -/
def Proposable (m : ConsensusStateMachine) (p : Proposal) : Prop :=
  ∃ a, m.proposerOf p.round = some a ∧
    (p.proposer = a ∨ m.isValidReproposal p.block.hash = true) ∧
    m.validatorSet.contains p.proposer = true

/-- A message that is answered by an error changes nothing, and no proposal of somebody
who proposes in no round moves the machine to another round. -/
def Guarded (m : ConsensusStateMachine) : PeerMessage → Prop
  | .proposal p =>
      (∀ e, (m.onProposal p).1 = .err e → (m.onProposal p).2 = m) ∧
        ((∀ r, m.proposerOf r ≠ some p.proposer) → (m.onProposal p).2.round = m.round)
  | .prevote v => ∀ e, (m.onPrevote v).1 = .err e → (m.onPrevote v).2 = m
  | .precommit v => ∀ e, (m.onPrecommit v).1 = .err e → (m.onPrecommit v).2 = m

/-- The message is no proposal for a later round, or one that round allows. -/
def Harmless (m : ConsensusStateMachine) : PeerMessage → Prop
  | .proposal p =>
      p.height = m.height → m.round < p.round →
        m.Proposable p ∧ ∃ r, m.proposerOf r = some p.proposer
  | .prevote _ => True
  | .precommit _ => True

variable {m : ConsensusStateMachine}
variable {e : ConsensusError} {p : Proposal}

theorem proposerOf_eq_none {r : UInt32} :
    m.proposerOf r = none ↔ m.validatorSet.validators = [] := by
  rw [proposerOf, Option.map_eq_none_iff, ValidatorSet.getProposer_eq_none]

/-! ## Votes -/

theorem onFutureVote_err {v : Vote} {t : VoteType} (h : (m.onFutureVote v t).1 = .err e) :
    (m.onFutureVote v t).2 = m := by
  unfold onFutureVote at h ⊢
  by_cases hDuplicate : ((m.futureVotes t)[v.round]?.getD .empty).containsKey v.voter
  · rw [if_pos hDuplicate]
  · rw [if_neg hDuplicate] at h
    dsimp only at h
    split at h <;> cases h

theorem onVote_err {v : Vote} {t : VoteType} (h : (m.onVote v t).1 = .err e) :
    (m.onVote v t).2 = m := by
  unfold onVote at h ⊢
  cases hBasics : m.validateVoteBasics v t with
  | some e' => rfl
  | none =>
      rw [hBasics] at h
      dsimp only at h ⊢
      by_cases hPast : v.round < m.round
      · rw [if_pos hPast]
      rw [if_neg hPast] at h ⊢
      by_cases hLater : m.round < v.round
      · rw [if_pos hLater] at h ⊢
        exact onFutureVote_err h
      rw [if_neg hLater] at h ⊢
      by_cases hDuplicate : (m.votes t).containsKey v.voter
      · rw [if_pos hDuplicate]
      · rw [if_neg hDuplicate] at h
        cases h

/-! ## Proposals -/

/-- The part of the handler behind the round checks. -/
def judgeProposal (m : ConsensusStateMachine) (p : Proposal) :
    Outcome ConsensusError ConsensusAction × ConsensusStateMachine :=
  match m.currentProposer with
  | none => (.panic, m)
  | some expected =>
      if p.proposer ≠ expected ∧ m.isValidReproposal p.block.hash = false then
        (.err .invalidProposer, m)
      else if m.validatorSet.contains p.proposer = false then (.err .notValidator, m)
      else ((.ok (m.acceptProposal p).1), (m.acceptProposal p).2)

theorem onProposal_eq (m : ConsensusStateMachine) (p : Proposal) :
    m.onProposal p =
      if p.height ≠ m.height then (.err (.wrongHeight m.height p.height), m)
      else if p.round < m.round then (.err (.wrongRound m.round p.round), m)
      else (if m.round < p.round then m.skipToRound p.round else m).judgeProposal p := rfl

theorem judgeProposal_err (h : (m.judgeProposal p).1 = .err e) : (m.judgeProposal p).2 = m := by
  unfold judgeProposal at h ⊢
  cases hProposer : m.currentProposer with
  | none => rfl
  | some expected =>
      rw [hProposer] at h
      dsimp only at h ⊢
      split
      · rfl
      next hFrom =>
        rw [if_neg hFrom] at h
        split
        · rfl
        next hMember =>
          rw [if_neg hMember] at h
          cases h

/-- The judgement never moves the machine to another round. -/
theorem round_judgeProposal (m : ConsensusStateMachine) (p : Proposal) :
    (m.judgeProposal p).2.round = m.round := by
  unfold judgeProposal
  split
  · rfl
  · split
    · rfl
    · split <;> rfl

/-- An error, unless the round allows the proposal or there is no validator at all. -/
theorem judgeProposal_of_not_proposable (hRound : m.round = p.round) (h : ¬m.Proposable p)
    (hSome : m.proposerOf p.round ≠ none) : ∃ e, (m.judgeProposal p).1 = .err e := by
  obtain ⟨a, ha⟩ := Option.ne_none_iff_exists'.mp hSome
  have hCurrent : m.currentProposer = some a := by
    rw [← hRound] at ha
    exact ha
  unfold judgeProposal
  rw [hCurrent]
  dsimp only
  split
  · exact ⟨_, rfl⟩
  next hFrom =>
    split
    · exact ⟨_, rfl⟩
    next hMember =>
      refine absurd ⟨a, ha, ?_, by simpa using hMember⟩ h
      by_cases hEq : p.proposer = a
      · exact .inl hEq
      · exact .inr (by simpa [hEq] using hFrom)

theorem guarded_proposal_of_harmless (h : m.Harmless (.proposal p)) :
    m.Guarded (.proposal p) := by
  simp only [Guarded]
  rw [onProposal_eq]
  by_cases hHeight : p.height ≠ m.height
  · rw [if_pos hHeight]
    exact ⟨fun _ _ => rfl, fun _ => rfl⟩
  rw [if_neg hHeight]
  by_cases hPast : p.round < m.round
  · rw [if_pos hPast]
    exact ⟨fun _ _ => rfl, fun _ => rfl⟩
  rw [if_neg hPast]
  by_cases hLater : m.round < p.round
  · obtain ⟨⟨a, hProposer, hFrom, hMember⟩, r, hr⟩ := h (not_not.mp hHeight) hLater
    refine ⟨fun e he => ?_, fun hNone => absurd hr (hNone r)⟩
    -- The round allows the proposal, so the handler does not fail.
    rw [if_pos hLater] at he
    have hCurrent : (m.skipToRound p.round).currentProposer = some a := hProposer
    have hValid : (m.skipToRound p.round).isValidReproposal p.block.hash =
        m.isValidReproposal p.block.hash := rfl
    have hSet : (m.skipToRound p.round).validatorSet = m.validatorSet := rfl
    unfold judgeProposal at he
    rw [hCurrent] at he
    dsimp only at he
    rw [hValid, hSet] at he
    rw [if_neg (by rintro ⟨hNe, hNot⟩; simp [hNe, hNot] at hFrom), if_neg (by simp [hMember])]
      at he
    cases he
  · rw [if_neg hLater]
    exact ⟨fun _ he => judgeProposal_err he, fun _ => round_judgeProposal m p⟩

theorem harmless_of_guarded_proposal (h : m.Guarded (.proposal p)) :
    m.Harmless (.proposal p) := by
  intro hHeight hLater
  have hNotPast : ¬p.round < m.round := UInt32.lt_asymm hLater
  simp only [Guarded] at h
  rw [onProposal_eq, if_neg (not_not.mpr hHeight), if_neg hNotPast, if_pos hLater] at h
  obtain ⟨hErr, hMoved⟩ := h
  -- The machine is in another round now, whatever the judgement is.
  have hRound : ((m.skipToRound p.round).judgeProposal p).2.round ≠ m.round := by
    rw [round_judgeProposal]
    exact (UInt32.ne_of_lt hLater).symm
  have hSomeone : ∃ r, m.proposerOf r = some p.proposer := by
    by_contra hNone
    exact hRound (hMoved fun r hr => hNone ⟨r, hr⟩)
  refine ⟨?_, hSomeone⟩
  by_contra hNot
  have hSome : m.proposerOf p.round ≠ none := by
    obtain ⟨r, hr⟩ := hSomeone
    intro hNone
    rw [proposerOf_eq_none] at hNone
    rw [proposerOf_eq_none.mpr hNone] at hr
    cases hr
  obtain ⟨e, he⟩ := judgeProposal_of_not_proposable (m := m.skipToRound p.round) rfl hNot hSome
  exact hRound (congrArg ConsensusStateMachine.round (hErr e he))

/-- A rejected message changes nothing, exactly unless it is a proposal for a later
round which that round does not allow. -/
theorem guarded_iff_harmless (m : ConsensusStateMachine) (msg : PeerMessage) :
    m.Guarded msg ↔ m.Harmless msg := by
  cases msg with
  | proposal p => exact ⟨harmless_of_guarded_proposal, guarded_proposal_of_harmless⟩
  | prevote | precommit => exact iff_of_true (fun _ h => onVote_err h) trivial

/-- A proposal for round 9 by somebody who is no validator. -/
def strangerProposal : Proposal :=
  { firstProposal (.ofByte 7) with round := 9, proposer := .ofByte 9 }

/-- The stranger's proposal is refused, but the node is in round 9 afterwards. -/
theorem stranger_moves_round :
    ((new 1 fourValidators (.ofByte 1)).onProposal strangerProposal).1 =
        .err .invalidProposer ∧
      ((new 1 fourValidators (.ofByte 1)).onProposal strangerProposal).2.round = 9 ∧
      ¬(new 1 fourValidators (.ofByte 1)).Guarded (.proposal strangerProposal) := by
  refine ⟨by decide +kernel, by decide +kernel, fun h => ?_⟩
  have hSame := congrArg round (h.1 .invalidProposer (by decide +kernel))
  revert hSame
  decide +kernel

end ConsensusStateMachine

end Polay.Consensus
