import Polay.Types.Transaction

/-!
# Consensus data types

Validator sets with their weights, votes, proposals, commit proofs, and the
actions and errors of the consensus state machine.
-/

namespace Polay.Consensus

open Polay.Types Lib.Machine

/-- The step within one consensus round. -/
inductive ConsensusState where
  | newRound
  | propose
  | prevote
  | precommit
  | commit
deriving DecidableEq

/-! ## Validator sets -/

/-- A validator and its voting weight. -/
structure ValidatorWeight where
  address : Address
  stake : UInt64
deriving DecidableEq

/-- The sum of the stakes as a number. -/
def stakeSum (vs : List ValidatorWeight) : Nat := (vs.map fun v => v.stake.toNat).sum

/-- A validator set: distinct addresses, and a cached total that is the sum of
the stakes. Both are what the constructor of the source asserts. -/
structure ValidatorSet where
  validators : List ValidatorWeight
  totalStake : UInt64
  nodup : (validators.map ValidatorWeight.address).Nodup
  total_eq : totalStake.toNat = stakeSum validators

namespace ValidatorSet

/-- Add up stakes as the source does, failing on overflow. -/
def checkedTotal (acc : UInt64) : List ValidatorWeight → Option UInt64
  | [] => some acc
  | v :: rest => (checkedAdd acc v.stake).bind fun s => checkedTotal s rest

theorem checkedTotal_eq_some {acc total : UInt64} {vs : List ValidatorWeight}
    (h : checkedTotal acc vs = some total) : total.toNat = acc.toNat + stakeSum vs := by
  induction vs generalizing acc with
  | nil =>
      simp only [checkedTotal, Option.some.injEq] at h
      simp [stakeSum, h]
  | cons v rest ih =>
      simp only [checkedTotal, Option.bind_eq_some_iff] at h
      obtain ⟨s, hAdd, hRest⟩ := h
      rw [ih hRest, checkedAdd_eq_some.mp hAdd]
      simp only [stakeSum, List.map_cons, List.sum_cons]
      omega

/-- Build a validator set; `none` is the panic on a duplicate address or on an
overflowing total. -/
def new (validators : List ValidatorWeight) : Option ValidatorSet :=
  if hNodup : (validators.map ValidatorWeight.address).Nodup then
    match hTotal : checkedTotal 0 validators with
    | none => none
    | some total => some
        { validators, totalStake := total, nodup := hNodup,
          total_eq := by rw [checkedTotal_eq_some hTotal]; exact Nat.zero_add _ }
  else none

theorem validators_of_new {validators : List ValidatorWeight} {set : ValidatorSet}
    (h : new validators = some set) : set.validators = validators := by
  unfold new at h
  split at h
  · split at h
    · cases h
    · cases h
      rfl
  · cases h

/-- The round-robin proposer; `none` is the panic on an empty set. -/
def getProposer (s : ValidatorSet) (height : UInt64) (round : UInt32) :
    Option ValidatorWeight :=
  s.validators[(height.toNat + round.toNat) % s.validators.length]?

/-- Only an empty set has no proposer, and then in no round. -/
theorem getProposer_eq_none {s : ValidatorSet} {height : UInt64} {round : UInt32} :
    s.getProposer height round = none ↔ s.validators = [] := by
  unfold getProposer
  rw [List.getElem?_eq_none_iff]
  constructor
  · intro h
    by_contra hNe
    have hLength : 0 < s.validators.length := List.length_pos_iff.mpr hNe
    have hIndex := Nat.mod_lt (height.toNat + round.toNat) hLength
    omega
  · intro h
    simp [h]

def contains (s : ValidatorSet) (addr : Address) : Bool :=
  s.validators.any fun v => v.address == addr

/-- The stake of an address, zero outside the set. -/
def getStake (s : ValidatorSet) (addr : Address) : UInt64 :=
  ((s.validators.find? fun v => v.address == addr).map ValidatorWeight.stake).getD 0

/-- Strictly more than two thirds of the total, computed in 128 bits. -/
def quorumThreshold (s : ValidatorSet) : UInt64 :=
  UInt64.ofNat (s.totalStake.toNat * 2 / 3 + 1)

end ValidatorSet

/-! ## Votes and proposals -/

inductive VoteType where
  | prevote
  | precommit
deriving DecidableEq

/-- The name of a vote type in error texts. -/
def VoteType.debug : VoteType → String
  | .prevote => "Prevote"
  | .precommit => "Precommit"

/-- A vote; the zero hash is a nil vote. -/
structure Vote where
  height : UInt64
  round : UInt32
  voteType : VoteType
  blockHash : Hash
  voter : Address
  signature : Signature
deriving DecidableEq

/-- A block proposal for one round. -/
structure Proposal where
  height : UInt64
  round : UInt32
  block : Block
  proposer : Address
  signature : Signature
deriving DecidableEq

/-- The precommits that committed a block. -/
structure CommitProof where
  height : UInt64
  round : UInt32
  blockHash : Hash
  votes : List Vote
deriving DecidableEq

/-- What the machine asks its runtime to do. -/
inductive ConsensusAction where
  | sendProposal (proposal : Proposal)
  | sendPrevote (vote : Vote)
  | sendPrecommit (vote : Vote)
  | commitBlock (height : UInt64) (blockHash : Hash) (proof : CommitProof)
  | scheduleTimeout (step : ConsensusState) (durationMs : UInt64)
deriving DecidableEq

/-- The errors the state machine returns. -/
inductive ConsensusError where
  | invalidProposer
  | invalidVote (reason : String)
  | duplicateVote
  | notValidator
  | wrongHeight (expected got : UInt64)
  | wrongRound (expected got : UInt32)
deriving DecidableEq

/-! ## Vote maps -/

/-- Votes keyed by voter. The field says what the source's comment says: each
vote is filed under the address of its own voter. -/
structure VoteMap where
  votes : Std.ExtTreeMap Address Vote
  voter_key : ∀ (a : Address) (v : Vote), votes[a]? = some v → v.voter = a

namespace VoteMap

def empty : VoteMap := ⟨∅, by simp⟩

def containsKey (m : VoteMap) (a : Address) : Bool := m.votes.contains a

/-- File a vote under its voter. -/
def insert (m : VoteMap) (v : Vote) : VoteMap where
  votes := m.votes.insert v.voter v
  voter_key a w h := by
    rw [Std.ExtTreeMap.getElem?_insert] at h
    split at h
    next hEq =>
      cases h
      exact Std.LawfulEqOrd.eq_of_compare hEq
    next => exact m.voter_key a w h

/-- The votes in the order the map is iterated. -/
def values (m : VoteMap) : List Vote := m.votes.toList.map Prod.snd

/-- The voters in the order the map is iterated. -/
def keys (m : VoteMap) : List Address := m.votes.keys

end VoteMap

/-- Votes for later rounds, by round. -/
abbrev FutureVotes : Type := Std.ExtTreeMap UInt32 VoteMap

end Polay.Consensus
