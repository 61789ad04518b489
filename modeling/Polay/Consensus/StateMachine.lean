import Polay.Consensus.Types

/-!
# The consensus state machine

One node's view of one height: a Tendermint-style machine that moves through
`NewRound → Propose → Prevote → Precommit → Commit`, counts votes, locks on a
block when it sees a prevote quorum and commits when it sees a precommit quorum.
The handlers perform no input or output; they return the action the runtime has
to perform and the next state.

Hash maps are modelled by ordered maps. The handlers only look keys up, add
entries and total stakes, so the order in which a map is iterated never shows in
a result.
-/

namespace Polay.Consensus

open Polay.Types Lib.Machine

/-- Default timeout of the propose step, in milliseconds. -/
def proposeTimeoutMs : UInt64 := 3000

/-- The local view of a single height. -/
structure ConsensusStateMachine where
  height : UInt64
  round : UInt32
  step : ConsensusState
  validatorSet : ValidatorSet
  localAddress : Address
  proposal : Option Proposal
  prevotes : VoteMap
  precommits : VoteMap
  lockedBlock : Option (UInt32 × Hash)
  validBlock : Option (UInt32 × Hash)
  validProposal : Option Proposal
  futurePrevotes : FutureVotes
  futurePrecommits : FutureVotes

namespace ConsensusStateMachine

/-- A machine at the beginning of a height. -/
def new (height : UInt64) (validatorSet : ValidatorSet) (localAddress : Address) :
    ConsensusStateMachine where
  height
  round := 0
  step := .newRound
  validatorSet
  localAddress
  proposal := none
  prevotes := .empty
  precommits := .empty
  lockedBlock := none
  validBlock := none
  validProposal := none
  futurePrevotes := ∅
  futurePrecommits := ∅

/-- The proposer expected in the current round; `none` is the panic on an empty
validator set. -/
def currentProposer (m : ConsensusStateMachine) : Option Address :=
  (m.validatorSet.getProposer m.height m.round).map ValidatorWeight.address

/-! ## Rounds -/

/-- Enter round `r`: clear the per-round state, keep the lock, load the votes
that were buffered for `r` and drop the buffers of rounds up to `r`. -/
def enterRound (m : ConsensusStateMachine) (r : UInt32) : ConsensusStateMachine :=
  { m with
    round := r
    step := .propose
    proposal := none
    prevotes := m.futurePrevotes[r]?.getD .empty
    precommits := m.futurePrecommits[r]?.getD .empty
    futurePrevotes := (m.futurePrevotes.erase r).filter fun k _ => decide (r < k)
    futurePrecommits := (m.futurePrecommits.erase r).filter fun k _ => decide (r < k) }

/-- Start the round the counter already points at. -/
def startNewRound (m : ConsensusStateMachine) : ConsensusAction × ConsensusStateMachine :=
  (.scheduleTimeout .propose proposeTimeoutMs, m.enterRound m.round)

/-- Jump to a later round. -/
def skipToRound (m : ConsensusStateMachine) (target : UInt32) : ConsensusStateMachine :=
  m.enterRound target

/-- One third of the stake, plus one. -/
def skipThreshold (m : ConsensusStateMachine) : UInt64 := m.validatorSet.totalStake / 3 + 1

/-- Whether the distinct voters seen in a later round hold enough stake to move
there. -/
def shouldSkipToRound (m : ConsensusStateMachine) (round : UInt32) : Bool :=
  let voters := ((m.futurePrevotes[round]?.getD .empty).keys ++
    (m.futurePrecommits[round]?.getD .empty).keys).dedup
  decide (m.skipThreshold ≤ (voters.map m.validatorSet.getStake).sum)

/-! ## Votes -/

/-- The votes of one kind held for the current round. -/
def votes (m : ConsensusStateMachine) : VoteType → VoteMap
  | .prevote => m.prevotes
  | .precommit => m.precommits

/-- The votes of one kind held for later rounds. -/
def futureVotes (m : ConsensusStateMachine) : VoteType → FutureVotes
  | .prevote => m.futurePrevotes
  | .precommit => m.futurePrecommits

/-- Record a vote of the given kind for the current round. -/
def recordVote (m : ConsensusStateMachine) (v : Vote) : VoteType → ConsensusStateMachine
  | .prevote => { m with prevotes := m.prevotes.insert v }
  | .precommit => { m with precommits := m.precommits.insert v }

/-- Record a vote of the given kind for its own, later round. -/
def bufferVote (m : ConsensusStateMachine) (v : Vote) : VoteType → ConsensusStateMachine
  | .prevote =>
      { m with
        futurePrevotes := m.futurePrevotes.insert v.round
          ((m.futurePrevotes[v.round]?.getD .empty).insert v) }
  | .precommit =>
      { m with
        futurePrecommits := m.futurePrecommits.insert v.round
          ((m.futurePrecommits[v.round]?.getD .empty).insert v) }

/-- The checks of a vote that do not depend on its round. -/
def validateVoteBasics (m : ConsensusStateMachine) (v : Vote) (expected : VoteType) :
    Option ConsensusError :=
  if v.height ≠ m.height then some (.wrongHeight m.height v.height)
  else if v.voteType ≠ expected then
    some (.invalidVote ("expected " ++ expected.debug ++ ", got " ++ v.voteType.debug))
  else if m.validatorSet.contains v.voter = false then some .notValidator
  else none

/-- The unsigned vote this node casts in the current round. -/
def ownVote (m : ConsensusStateMachine) (t : VoteType) (h : Hash) : Vote where
  height := m.height
  round := m.round
  voteType := t
  blockHash := h
  voter := m.localAddress
  signature := .zero

/-- Scan votes, adding up the stake behind each hash, until one hash has a
quorum. -/
def findQuorumFrom (s : ValidatorSet) (stakeByHash : Std.ExtTreeMap Hash UInt64) :
    List Vote → Option Hash
  | [] => none
  | v :: rest =>
      let entry := saturatingAdd (stakeByHash[v.blockHash]?.getD 0) (s.getStake v.voter)
      if s.quorumThreshold ≤ entry then some v.blockHash
      else findQuorumFrom s (stakeByHash.insert v.blockHash entry) rest

/-- A hash, possibly nil, with a quorum among the current votes of one kind. -/
def findQuorum (m : ConsensusStateMachine) (t : VoteType) : Option Hash :=
  findQuorumFrom m.validatorSet ∅ (m.votes t).values

def findPrevoteQuorum (m : ConsensusStateMachine) : Option Hash := m.findQuorum .prevote

def findPrecommitQuorum (m : ConsensusStateMachine) : Option Hash := m.findQuorum .precommit

/-- The stake behind a hash among the current votes of one kind. -/
def countVotesFor (m : ConsensusStateMachine) (t : VoteType) (blockHash : Hash) : UInt64 :=
  (((m.votes t).values.filter fun v => v.blockHash == blockHash).map
    fun v => m.validatorSet.getStake v.voter).sum

def countPrevotesFor (m : ConsensusStateMachine) (blockHash : Hash) : UInt64 :=
  m.countVotesFor .prevote blockHash

def countPrecommitsFor (m : ConsensusStateMachine) (blockHash : Hash) : UInt64 :=
  m.countVotesFor .precommit blockHash

def hasPrevoteQuorum (m : ConsensusStateMachine) (blockHash : Hash) : Bool :=
  decide (m.validatorSet.quorumThreshold ≤ m.countPrevotesFor blockHash)

def hasPrecommitQuorum (m : ConsensusStateMachine) (blockHash : Hash) : Bool :=
  decide (m.validatorSet.quorumThreshold ≤ m.countPrecommitsFor blockHash)

/-! ## Handlers -/

/-- Whether a proposal repeats the block this node saw a prevote quorum for. -/
def isValidReproposal (m : ConsensusStateMachine) (h : Hash) : Bool :=
  (m.validBlock.map fun b => b.2 == h).getD false

/-- What to prevote for: the proposed block, or nil when locked on another. -/
def prevoteHash (m : ConsensusStateMachine) (h : Hash) : Hash :=
  match m.lockedBlock with
  | some (_, locked) => if h = locked then h else Hash.zero
  | none => h

/-- Store an acceptable proposal and prevote. -/
def acceptProposal (m : ConsensusStateMachine) (p : Proposal) :
    ConsensusAction × ConsensusStateMachine :=
  (.sendPrevote (m.ownVote .prevote (m.prevoteHash p.block.hash)),
    { m with proposal := some p, step := .prevote })

/-- Handle a block proposal. A proposal for a later round moves the machine
there before its proposer is checked. -/
def onProposal (m : ConsensusStateMachine) (p : Proposal) :
    Outcome ConsensusError ConsensusAction × ConsensusStateMachine :=
  if p.height ≠ m.height then (.err (.wrongHeight m.height p.height), m)
  else if p.round < m.round then (.err (.wrongRound m.round p.round), m)
  else
    let m := if m.round < p.round then m.skipToRound p.round else m
    match m.currentProposer with
    | none => (.panic, m)
    | some expected =>
        if p.proposer ≠ expected ∧ m.isValidReproposal p.block.hash = false then
          (.err .invalidProposer, m)
        else if m.validatorSet.contains p.proposer = false then (.err .notValidator, m)
        else ((.ok (m.acceptProposal p).1), (m.acceptProposal p).2)

/-- Keep a vote for a later round, and move there once enough stake is ahead. -/
def onFutureVote (m : ConsensusStateMachine) (v : Vote) (t : VoteType) :
    Outcome ConsensusError (Option ConsensusAction) × ConsensusStateMachine :=
  if ((m.futureVotes t)[v.round]?.getD .empty).containsKey v.voter then
    (.err .duplicateVote, m)
  else
    let m := m.bufferVote v t
    if m.shouldSkipToRound v.round then
      (.ok (some (.scheduleTimeout .propose proposeTimeoutMs)), m.skipToRound v.round)
    else (.ok none, m)

/-- Lock on a block that has a prevote quorum in the current round. -/
def lockOn (m : ConsensusStateMachine) (h : Hash) : ConsensusStateMachine :=
  { m with
    lockedBlock := some (m.round, h)
    validBlock := some (m.round, h)
    validProposal := m.proposal }

/-- React to a recorded prevote: precommit once some hash has a quorum. -/
def afterPrevote (m : ConsensusStateMachine) :
    Option ConsensusAction × ConsensusStateMachine :=
  match m.findPrevoteQuorum with
  | some h =>
      if m.step = .prevote ∨ m.step = .propose then
        let next := { m with step := .precommit }
        (some (.sendPrecommit (m.ownVote .precommit h)),
          if h.isZero then next else next.lockOn h)
      else (none, m)
  | none => (none, m)

/-- The proof that goes with a commit of `h`. -/
def commitProof (m : ConsensusStateMachine) (h : Hash) : CommitProof where
  height := m.height
  round := m.round
  blockHash := h
  votes := m.precommits.values.filter fun v => v.blockHash == h

/-- React to a recorded precommit: commit once a block has a quorum. -/
def afterPrecommit (m : ConsensusStateMachine) :
    Option ConsensusAction × ConsensusStateMachine :=
  match m.findPrecommitQuorum with
  | some h =>
      if h.isZero = false ∧ m.step ≠ .commit then
        (some (.commitBlock m.height h (m.commitProof h)), { m with step := .commit })
      else (none, m)
  | none => (none, m)

/-- React to a recorded vote. -/
def afterVote (m : ConsensusStateMachine) :
    VoteType → Option ConsensusAction × ConsensusStateMachine
  | .prevote => m.afterPrevote
  | .precommit => m.afterPrecommit

/-- Handle a vote in the place of one kind. -/
def onVote (m : ConsensusStateMachine) (v : Vote) (t : VoteType) :
    Outcome ConsensusError (Option ConsensusAction) × ConsensusStateMachine :=
  match m.validateVoteBasics v t with
  | some e => (.err e, m)
  | none =>
      if v.round < m.round then (.err (.wrongRound m.round v.round), m)
      else if m.round < v.round then m.onFutureVote v t
      else if (m.votes t).containsKey v.voter then (.err .duplicateVote, m)
      else (.ok ((m.recordVote v t).afterVote t).1, ((m.recordVote v t).afterVote t).2)

/-- Handle a prevote. -/
def onPrevote (m : ConsensusStateMachine) (v : Vote) :
    Outcome ConsensusError (Option ConsensusAction) × ConsensusStateMachine :=
  m.onVote v .prevote

/-- Handle a precommit. -/
def onPrecommit (m : ConsensusStateMachine) (v : Vote) :
    Outcome ConsensusError (Option ConsensusAction) × ConsensusStateMachine :=
  m.onVote v .precommit

/-- The round after a precommit timeout; the counter saturates. -/
def nextRound (m : ConsensusStateMachine) : UInt32 :=
  if m.round = u32Max then u32Max else m.round + 1

/-- Handle a timeout of the current step. -/
def onTimeout (m : ConsensusStateMachine) : ConsensusAction × ConsensusStateMachine :=
  match m.step with
  | .newRound | .propose =>
      (.sendPrevote (m.ownVote .prevote .zero), { m with step := .prevote })
  | .prevote =>
      (.sendPrecommit (m.ownVote .precommit .zero), { m with step := .precommit })
  | .precommit => { m with round := m.nextRound }.startNewRound
  | .commit => (.scheduleTimeout .commit proposeTimeoutMs, m)

/-- Reset the machine for a new height. -/
def advanceHeight (m : ConsensusStateMachine) (newHeight : UInt64) : ConsensusStateMachine :=
  new newHeight m.validatorSet m.localAddress

/-- Replace the validator set. -/
def updateValidatorSet (m : ConsensusStateMachine) (newSet : ValidatorSet) :
    ConsensusStateMachine :=
  { m with validatorSet := newSet }

end ConsensusStateMachine

end Polay.Consensus
