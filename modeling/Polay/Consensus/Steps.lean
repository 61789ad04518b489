import Polay.Consensus.Quorum

/-!
# Calls, steps and runs

A run of the machine is a sequence of handler calls. `Step` says once what a
call can do: which action it returns, which state it leaves, and the guards
under which it does so. Every invariant of the machine is proved by cases on
`Step` and never unfolds a handler.
-/

namespace Polay.Consensus

open Polay.Types Lib.Machine

/-- A call of one of the four event handlers. A vote comes with the handler it
is passed to. -/
inductive Call where
  | proposal (p : Proposal)
  | vote (t : VoteType) (v : Vote)
  | timeout
deriving DecidableEq

/-- The action that sends a vote of the given kind. -/
def sendAction : VoteType → Vote → ConsensusAction
  | .prevote => .sendPrevote
  | .precommit => .sendPrecommit

namespace ConsensusStateMachine

variable {t : VoteType} {c : Call} {v : Vote} {a : Option ConsensusAction}
variable {m' m : ConsensusStateMachine}

/-- The action of a call, none if it returned an error or panicked, and the state
it leaves. -/
def call (m : ConsensusStateMachine) : Call → Option ConsensusAction × ConsensusStateMachine
  | .proposal p => ((m.onProposal p).1.toOption, (m.onProposal p).2)
  | .vote .prevote v => ((m.onPrevote v).1.toOption.join, (m.onPrevote v).2)
  | .vote .precommit v => ((m.onPrecommit v).1.toOption.join, (m.onPrecommit v).2)
  | .timeout => (some m.onTimeout.1, m.onTimeout.2)

/-- The vote passes the checks that do not depend on its round. -/
structure Admits (m : ConsensusStateMachine) (t : VoteType) (v : Vote) : Prop where
  height_eq : v.height = m.height
  type_eq : v.voteType = t
  member : v.voter ∈ m.validatorSet.members

theorem validateVoteBasics_eq_none : m.validateVoteBasics v t = none ↔ m.Admits t v := by
  unfold validateVoteBasics
  constructor
  · intro h
    split at h
    · cases h
    split at h
    · cases h
    split at h
    · cases h
    next hHeight hType hMember =>
      exact ⟨by simpa using hHeight, by simpa using hType,
        ValidatorSet.contains_iff.mp (by simpa using hMember)⟩
  · rintro ⟨hHeight, hType, hMember⟩
    simp [hHeight, hType, ValidatorSet.contains_iff.mpr hMember]

/-- The proposal passes the checks that do not depend on its round: the expected
proposer sent it, or it repeats the block that had a prevote quorum, and its
proposer is a member. -/
structure Accepts (m : ConsensusStateMachine) (p : Proposal) : Prop where
  height_eq : p.height = m.height
  proposer_ok : m.currentProposer = some p.proposer ∨
    m.isValidReproposal p.block.hash = true
  member : p.proposer ∈ m.validatorSet.members

/-- What a call can do. -/
inductive Step (m : ConsensusStateMachine) :
    Call → Option ConsensusAction → ConsensusStateMachine → Prop
  | rejected {c : Call} : Step m c none m
  | rejectedAhead {p : Proposal} (hRound : m.round < p.round) :
      Step m (.proposal p) none (m.enterRound p.round)
  | accepted {p : Proposal} (hAccepts : m.Accepts p) (hRound : p.round = m.round) :
      Step m (.proposal p) (some (m.acceptProposal p).1) (m.acceptProposal p).2
  | acceptedAhead {p : Proposal} (hAccepts : (m.enterRound p.round).Accepts p)
      (hRound : m.round < p.round) :
      Step m (.proposal p) (some ((m.enterRound p.round).acceptProposal p).1)
        ((m.enterRound p.round).acceptProposal p).2
  | buffered {t : VoteType} {v : Vote} (hAdmits : m.Admits t v) (hRound : m.round < v.round) :
      Step m (.vote t v) none (m.bufferVote v t)
  | skipped {t : VoteType} {v : Vote} (hAdmits : m.Admits t v) (hRound : m.round < v.round) :
      Step m (.vote t v) (some (.scheduleTimeout .propose proposeTimeoutMs))
        ((m.bufferVote v t).enterRound v.round)
  | recorded {t : VoteType} {v : Vote} (hAdmits : m.Admits t v) (hRound : v.round = m.round)
      (hNew : (m.votes t).votes[v.voter]? = none) :
      Step m (.vote t v) none (m.recordVote v t)
  | precommitted {v : Vote} {h : Hash} (hAdmits : m.Admits .prevote v)
      (hRound : v.round = m.round) (hNew : m.prevotes.votes[v.voter]? = none)
      (hStep : m.step = .prevote ∨ m.step = .propose)
      (hQuorum : (m.recordVote v .prevote).findPrevoteQuorum = some h) :
      Step m (.vote .prevote v) (some (.sendPrecommit (m.ownVote .precommit h)))
        (if h.isZero then { m.recordVote v .prevote with step := .precommit }
          else { m.recordVote v .prevote with step := .precommit }.lockOn h)
  | committed {v : Vote} {h : Hash} (hAdmits : m.Admits .precommit v)
      (hRound : v.round = m.round) (hNew : m.precommits.votes[v.voter]? = none)
      (hStep : m.step ≠ .commit) (hNonNil : h ≠ Hash.zero)
      (hQuorum : (m.recordVote v .precommit).findPrecommitQuorum = some h) :
      Step m (.vote .precommit v)
        (some (.commitBlock m.height h ((m.recordVote v .precommit).commitProof h)))
        { m.recordVote v .precommit with step := .commit }
  | proposeTimeout (hStep : m.step = .newRound ∨ m.step = .propose) :
      Step m .timeout (some (.sendPrevote (m.ownVote .prevote .zero)))
        { m with step := .prevote }
  | prevoteTimeout (hStep : m.step = .prevote) :
      Step m .timeout (some (.sendPrecommit (m.ownVote .precommit .zero)))
        { m with step := .precommit }
  | precommitTimeout (hStep : m.step = .precommit) :
      Step m .timeout (some (.scheduleTimeout .propose proposeTimeoutMs))
        (m.enterRound m.nextRound)
  | commitTimeout (hStep : m.step = .commit) :
      Step m .timeout (some (.scheduleTimeout .commit proposeTimeoutMs)) m

/-- The proposer checks, as the handler makes them. -/
private theorem accepts_of_checks {p : Proposal} {expected : Address}
    (hHeight : p.height = m.height) (hExpected : m.currentProposer = some expected)
    (hProposer : ¬(p.proposer ≠ expected ∧ m.isValidReproposal p.block.hash = false))
    (hMember : ¬m.validatorSet.contains p.proposer = false) : m.Accepts p where
  height_eq := hHeight
  proposer_ok := by
    by_cases hEq : p.proposer = expected
    · exact .inl (hEq ▸ hExpected)
    · right
      by_contra hNot
      exact hProposer ⟨hEq, by simpa using hNot⟩
  member := ValidatorSet.contains_iff.mp (by simpa using hMember)

private theorem call_proposal_step (m : ConsensusStateMachine) (p : Proposal) :
    Step m (.proposal p) (m.call (.proposal p)).1 (m.call (.proposal p)).2 := by
  simp only [call, onProposal, skipToRound]
  split
  · exact .rejected
  next hHeight =>
    have hHeight : p.height = m.height := by simpa using hHeight
    split
    · exact .rejected
    next hPast =>
      by_cases hAhead : m.round < p.round
      · simp only [hAhead, if_true]
        split
        · exact .rejectedAhead hAhead
        next expected hExpected =>
          split
          · exact .rejectedAhead hAhead
          next hProposer =>
            split
            · exact .rejectedAhead hAhead
            next hMember =>
              exact .acceptedAhead (accepts_of_checks hHeight hExpected hProposer hMember)
                hAhead
      · simp only [hAhead, if_false]
        split
        · exact .rejected
        next expected hExpected =>
          split
          · exact .rejected
          next hProposer =>
            split
            · exact .rejected
            next hMember =>
              exact .accepted (accepts_of_checks hHeight hExpected hProposer hMember)
                (by grind)

private theorem onFutureVote_step (hAdmits : m.Admits t v) (hRound : m.round < v.round) :
    Step m (.vote t v) (m.onFutureVote v t).1.toOption.join
      (m.onFutureVote v t).2 := by
  simp only [onFutureVote, skipToRound]
  split
  · exact .rejected
  · split
    · exact .skipped hAdmits hRound
    · exact .buffered hAdmits hRound

private theorem afterVote_step (hAdmits : m.Admits t v) (hRound : v.round = m.round)
    (hNew : (m.votes t).votes[v.voter]? = none) :
    Step m (.vote t v) ((m.recordVote v t).afterVote t).1
      ((m.recordVote v t).afterVote t).2 := by
  cases t with
  | prevote =>
      simp only [afterVote, afterPrevote]
      split
      next h hQuorum =>
        split
        next hStep => exact .precommitted hAdmits hRound hNew hStep hQuorum
        next => exact .recorded hAdmits hRound hNew
      next => exact .recorded hAdmits hRound hNew
  | precommit =>
      simp only [afterVote, afterPrecommit]
      split
      next h hQuorum =>
        split
        next hGuard =>
          exact .committed hAdmits hRound hNew hGuard.2 (Hash.isZero_eq_false.mp hGuard.1)
            hQuorum
        next => exact .recorded hAdmits hRound hNew
      next => exact .recorded hAdmits hRound hNew

private theorem onVote_step (m : ConsensusStateMachine) (v : Vote) (t : VoteType) :
    Step m (.vote t v) (m.onVote v t).1.toOption.join
      (m.onVote v t).2 := by
  unfold onVote
  split
  · exact .rejected
  next hBasics =>
    have hAdmits := validateVoteBasics_eq_none.mp hBasics
    split
    · exact .rejected
    next hPast =>
      split
      next hAhead => exact onFutureVote_step hAdmits hAhead
      next hAhead =>
        split
        · exact .rejected
        next hNew =>
          exact afterVote_step hAdmits (by grind)
            (VoteMap.containsKey_eq_false.mp (by simpa using hNew))

/-- **Step inversion.** Every call does one of the things `Step` lists. -/
theorem call_step (m : ConsensusStateMachine) (c : Call) :
    Step m c (m.call c).1 (m.call c).2 := by
  cases c with
  | proposal p => exact call_proposal_step m p
  | vote t v =>
      cases t with
      | prevote => exact onVote_step m v .prevote
      | precommit => exact onVote_step m v .precommit
  | timeout =>
      simp only [call, onTimeout, startNewRound]
      split
      next h => exact .proposeTimeout (.inl h)
      next h => exact .proposeTimeout (.inr h)
      next h => exact .prevoteTimeout h
      next h => exact .precommitTimeout h
      next h => exact .commitTimeout h

/-! ## What a step says about rounds and votes -/

theorem lt_nextRound (h : m.round ≠ u32Max) : m.round < m.nextRound := by
  have := le_u32Max m.round
  unfold nextRound
  rw [if_neg h]
  unfold u32Max at *
  grind

/-- The round never goes back. -/
theorem Step.round_le (hStep : Step m c a m') : m.round ≤ m'.round := by
  cases hStep with
  | rejected | accepted | committed | proposeTimeout | prevoteTimeout | commitTimeout =>
      exact UInt32.le_refl _
  | rejectedAhead hRound | acceptedAhead _ hRound | skipped _ hRound =>
      exact UInt32.le_of_lt hRound
  | @buffered t v hAdmits hRound => cases t <;> exact UInt32.le_refl _
  | @recorded t v hAdmits hRound hNew => cases t <;> exact UInt32.le_refl _
  | @precommitted v h hAdmits hRound hNew hStep hQuorum => split <;> exact UInt32.le_refl _
  | precommitTimeout =>
      by_cases hLast : m.round = u32Max
      · show m.round ≤ m.nextRound
        rw [nextRound, if_pos hLast, hLast]
        exact UInt32.le_refl _
      · exact UInt32.le_of_lt (lt_nextRound hLast)

/-- Height and validator set stay. -/
theorem Step.fixed (hStep : Step m c a m') :
    m'.height = m.height ∧ m'.validatorSet = m.validatorSet := by
  cases hStep with
  | @buffered t v hAdmits hRound => cases t <;> exact ⟨rfl, rfl⟩
  | @skipped t v hAdmits hRound => cases t <;> exact ⟨rfl, rfl⟩
  | @recorded t v hAdmits hRound hNew => cases t <;> exact ⟨rfl, rfl⟩
  | @precommitted v h hAdmits hRound hNew hStep hQuorum => split <;> exact ⟨rfl, rfl⟩
  | _ => exact ⟨rfl, rfl⟩

/-- A prevote is for the round the machine is then in, and is nil or respects the
lock. -/
theorem Step.prevote_spec (hStep : Step m c (some (.sendPrevote v)) m') :
    v.round = m'.round ∧
      (v.blockHash ≠ Hash.zero → ∀ r h, m.lockedBlock = some (r, h) → v.blockHash = h) := by
  have hRespects : ∀ (m : ConsensusStateMachine) (k : Hash), m.prevoteHash k ≠ Hash.zero →
      ∀ r h, m.lockedBlock = some (r, h) → m.prevoteHash k = h := by
    intro m k hNonNil r h hLock
    simp only [prevoteHash, hLock] at hNonNil ⊢
    split at hNonNil
    next hEq => rw [if_pos hEq, hEq]
    next => exact absurd rfl hNonNil
  generalize hAction : some (ConsensusAction.sendPrevote v) = action at hStep
  cases hStep with
  | accepted | acceptedAhead =>
      cases hAction
      exact ⟨rfl, hRespects _ _⟩
  | proposeTimeout =>
      cases hAction
      exact ⟨rfl, fun hNonNil => absurd rfl hNonNil⟩
  | _ => cases hAction

/-- A precommit is for the round the machine is in. -/
theorem Step.precommit_round (hStep : Step m c (some (.sendPrecommit v)) m') :
    v.round = m.round := by
  generalize hAction : some (ConsensusAction.sendPrecommit v) = action at hStep
  cases hStep with
  | precommitted =>
      cases hAction
      rfl
  | prevoteTimeout =>
      cases hAction
      rfl
  | _ => cases hAction

/-- A commit is for a block with a quorum of precommits in the state it leaves. -/
theorem Step.commit_spec {k : UInt64} {h : Hash} {proof : CommitProof} (hStep : Step m c a m')
    (hAction : a = some (.commitBlock k h proof)) :
    h ≠ Hash.zero ∧ HasQuorum m'.validatorSet m'.precommits h := by
  cases hStep with
  | @committed v h' hAdmits hRound hNew hStep hNonNil hQuorum =>
      have hHash : h' = h := by
        injection hAction with hAction
        injection hAction
      have hHas : HasQuorum m.validatorSet (m.precommits.insert v) h' :=
        hasQuorum_of_findQuorum (m := m.recordVote v .precommit) (t := .precommit) hQuorum
      exact ⟨hHash ▸ hNonNil, hHash ▸ hHas⟩
  | _ => cases hAction

/-! ## Runs -/

/-- Perform calls one after the other and collect the returned actions. -/
def runCalls (m : ConsensusStateMachine) : List Call →
    List ConsensusAction × ConsensusStateMachine
  | [] => ([], m)
  | c :: cs =>
      let (action, m') := m.call c
      let (actions, final) := m'.runCalls cs
      (action.toList ++ actions, final)

end ConsensusStateMachine

/-! ## Four validators

The smallest network that tolerates a fault: four validators of equal stake, of
which any three are a quorum. Concrete runs of the machine start here. -/

/-- The validators `01…01` to `04…04`, with stake 100 each. -/
def fourValidators : ValidatorSet where
  validators := [⟨.ofByte 1, 100⟩, ⟨.ofByte 2, 100⟩, ⟨.ofByte 3, 100⟩, ⟨.ofByte 4, 100⟩]
  totalStake := 400
  nodup := by decide
  total_eq := by decide

/-- An empty block at height 1 by validator `02…02`, the first proposer there. -/
def emptyBlock (blockHash : Hash) : Block where
  header :=
    { height := 1, timestamp := 0, parentHash := .zero, stateRoot := .zero,
      transactionsRoot := .zero, proposer := .ofByte 2, chainId := "polay", hash := blockHash }
  transactions := []

/-- The proposal of such a block in round 0. -/
def firstProposal (blockHash : Hash) : Proposal where
  height := 1
  round := 0
  block := emptyBlock blockHash
  proposer := .ofByte 2
  signature := .zero

/-- A vote at height 1 in round 0. -/
def firstVote (t : VoteType) (blockHash : Hash) (voter : Address) : Vote where
  height := 1
  round := 0
  voteType := t
  blockHash := blockHash
  voter := voter
  signature := .zero

/-- Votes of validators `02…02` to `04…04`, passed to the handler of their kind. -/
def threeVotes (t : VoteType) (blockHash : Hash) : List Call :=
  [.vote t (firstVote t blockHash (.ofByte 2)), .vote t (firstVote t blockHash (.ofByte 3)),
    .vote t (firstVote t blockHash (.ofByte 4))]

end Polay.Consensus
