import Polay.Lib.Machine
import Polay.Types.Primitives

/-!
# Validators, delegations, supply, epochs and governance

The records behind the validator set and the token supply, and the proposals
that change them.
-/

namespace Polay.Types

open Lib Lib.Machine

/-! ## Staking -/

inductive ValidatorStatus where
  | active
  | jailed
  | unbonding
  | tombstoned
deriving DecidableEq

instance : Borsh ValidatorStatus :=
  Borsh.ofTag (fun | .active => 0 | .jailed => 1 | .unbonding => 2 | .tombstoned => 3)
    (fun t => if t = 0 then some .active else if t = 1 then some .jailed
      else if t = 2 then some .unbonding else if t = 3 then some .tombstoned else none)
    (by rintro ⟨⟩ <;> rfl)

/-- A registered validator. -/
structure ValidatorInfo where
  address : Address
  stake : UInt64
  commissionBps : UInt16
  status : ValidatorStatus
  jailedUntil : Option UInt64
  blocksProduced : UInt64
deriving DecidableEq

namespace ValidatorInfo

def new (address : Address) (commissionBps : UInt16) : ValidatorInfo :=
  { address, stake := 0, commissionBps, status := .active, jailedUntil := none,
    blocksProduced := 0 }

def isActive (v : ValidatorInfo) : Bool := v.status == .active

/-- The validator's commission on a reward, computed in 128 bits. -/
def commissionOn (v : ValidatorInfo) (reward : UInt64) : UInt64 :=
  UInt64.ofNat (reward.toNat * v.commissionBps.toNat / 10000)

def jail (v : ValidatorInfo) (til : UInt64) : ValidatorInfo :=
  { v with status := .jailed, jailedUntil := some til }

instance : Borsh ValidatorInfo :=
  Borsh.xmap
    (fun v => (v.address, v.stake, v.commissionBps, v.status, v.jailedUntil, v.blocksProduced))
    (fun (a, s, c, st, j, b) => ⟨a, s, c, st, j, b⟩) fun _ => rfl

end ValidatorInfo

/-- One delegator's stake with one validator. -/
structure Delegation where
  delegator : Address
  validator : Address
  amount : UInt64
  rewardDebt : UInt64
  lastRewardEpoch : UInt64
deriving DecidableEq

namespace Delegation

def new (delegator validator : Address) : Delegation :=
  { delegator, validator, amount := 0, rewardDebt := 0, lastRewardEpoch := 0 }

instance : Borsh Delegation :=
  Borsh.xmap (fun d => (d.delegator, d.validator, d.amount, d.rewardDebt, d.lastRewardEpoch))
    (fun (d, v, a, r, l) => ⟨d, v, a, r, l⟩) fun _ => rfl

end Delegation

/-- Stake on its way back to the delegator. -/
structure UnbondingEntry where
  delegator : Address
  validator : Address
  amount : UInt64
  initiatedAt : UInt64
  completionHeight : UInt64
deriving DecidableEq

instance : Borsh UnbondingEntry :=
  Borsh.xmap
    (fun e => (e.delegator, e.validator, e.amount, e.initiatedAt, e.completionHeight))
    (fun (d, v, a, i, c) => ⟨d, v, a, i, c⟩) fun _ => rfl

/-! ## Economics -/

/-- Aggregate token figures. -/
structure SupplyInfo where
  totalSupply : UInt64
  circulatingSupply : UInt64
  totalStaked : UInt64
  totalBurned : UInt64
  treasuryBalance : UInt64
  totalMinted : UInt64
  totalFeesCollected : UInt64
deriving DecidableEq

namespace SupplyInfo

/-- The value read when no supply record is stored. -/
def default : SupplyInfo := ⟨0, 0, 0, 0, 0, 0, 0⟩

def recomputeCirculating (s : SupplyInfo) : SupplyInfo :=
  { s with
    circulatingSupply := saturatingSub (saturatingSub s.totalSupply s.totalStaked)
      s.treasuryBalance }

instance : Borsh SupplyInfo :=
  Borsh.xmap
    (fun s => (s.totalSupply, s.circulatingSupply, s.totalStaked, s.totalBurned,
      s.treasuryBalance, s.totalMinted, s.totalFeesCollected))
    (fun (a, b, c, d, e, f, g) => ⟨a, b, c, d, e, f, g⟩) fun _ => rfl

end SupplyInfo

/-- How a fee is split, in basis points. -/
structure FeeDistribution where
  burnBps : UInt16
  treasuryBps : UInt16
  validatorBps : UInt16
deriving DecidableEq

def FeeDistribution.default : FeeDistribution := ⟨5000, 2000, 3000⟩

/-- The inflation schedule, in basis points. -/
structure InflationParams where
  initialRateBps : UInt16
  minRateBps : UInt16
  decayRateBps : UInt16
  targetStakingRatioBps : UInt16
deriving DecidableEq

def InflationParams.default : InflationParams := ⟨800, 200, 500, 6700⟩

/-! ## Epochs -/

/-- The record written at an epoch boundary. -/
structure EpochInfo where
  epoch : UInt64
  startHeight : UInt64
  endHeight : UInt64
  validatorSet : List Address
  totalStaked : UInt64
  rewardsDistributed : UInt64
deriving DecidableEq

instance : Borsh EpochInfo :=
  Borsh.xmap
    (fun e => (e.epoch, e.startHeight, e.endHeight, e.validatorSet, e.totalStaked,
      e.rewardsDistributed))
    (fun (e, s, h, v, t, r) => ⟨e, s, h, v, t, r⟩) fun _ => rfl

/-! ## Governance -/

namespace Governance

inductive ProposalStatus where
  | voting
  | passed
  | rejected
  | executed
  | cancelled
deriving DecidableEq

instance : Borsh ProposalStatus :=
  Borsh.ofTag
    (fun | .voting => 0 | .passed => 1 | .rejected => 2 | .executed => 3 | .cancelled => 4)
    (fun t => if t = 0 then some .voting else if t = 1 then some .passed
      else if t = 2 then some .rejected else if t = 3 then some .executed
      else if t = 4 then some .cancelled else none)
    (by rintro ⟨⟩ <;> rfl)

/-- What a proposal does when it passes. -/
inductive ProposalAction where
  | parameterChange (parameter newValue : String)
  | approveAttestor (address : Address) (gameId : String)
  | suspendAttestor (address : Address)
  | slashValidator (address : Address) (fractionBps : UInt16) (reason : String)
  | treasurySpend (recipient : Address) (amount : UInt64) (reason : String)
  | textProposal (title description : String)
deriving DecidableEq

instance : Borsh ProposalAction :=
  Borsh.tagged
    (fun
      | .parameterChange p v => ⟨0, Borsh.part (p, v)⟩
      | .approveAttestor a g => ⟨1, Borsh.part (a, g)⟩
      | .suspendAttestor a => ⟨2, Borsh.part a⟩
      | .slashValidator a f r => ⟨3, Borsh.part (a, f, r)⟩
      | .treasurySpend a n r => ⟨4, Borsh.part (a, n, r)⟩
      | .textProposal t d => ⟨5, Borsh.part (t, d)⟩)
    (fun t => match t.toNat with
      | 0 => Borsh.parse fun (p, v) => .parameterChange p v
      | 1 => Borsh.parse fun (a, g) => .approveAttestor a g
      | 2 => Borsh.parse fun a => .suspendAttestor a
      | 3 => Borsh.parse fun (a, f, r) => .slashValidator a f r
      | 4 => Borsh.parse fun (a, n, r) => .treasurySpend a n r
      | 5 => Borsh.parse fun (t, d) => .textProposal t d
      | _ => Borsh.reject)
    (by rintro ⟨⟩ rest h <;> exact Borsh.parse_part _ _ _ h)

/-- A governance proposal and its running tally. -/
structure Proposal where
  id : Hash
  proposer : Address
  action : ProposalAction
  title : String
  description : String
  deposit : UInt64
  status : ProposalStatus
  yesVotes : UInt64
  noVotes : UInt64
  abstainVotes : UInt64
  votingStartHeight : UInt64
  votingEndHeight : UInt64
  createdAt : UInt64
deriving DecidableEq

instance : Borsh Proposal :=
  Borsh.xmap
    (fun p => (p.id, p.proposer, p.action, p.title, p.description, p.deposit, p.status,
      p.yesVotes, p.noVotes, p.abstainVotes, p.votingStartHeight, p.votingEndHeight,
      p.createdAt))
    (fun (i, p, a, t, d, de, s, y, n, ab, vs, ve, c) =>
      ⟨i, p, a, t, d, de, s, y, n, ab, vs, ve, c⟩) fun _ => rfl

inductive VoteOption where
  | yes
  | no
  | abstain
deriving DecidableEq

def VoteOption.label : VoteOption → String
  | .yes => "yes"
  | .no => "no"
  | .abstain => "abstain"

instance : Borsh VoteOption :=
  Borsh.ofTag (fun | .yes => 0 | .no => 1 | .abstain => 2)
    (fun t => if t = 0 then some .yes else if t = 1 then some .no
      else if t = 2 then some .abstain else none)
    (by rintro ⟨⟩ <;> rfl)

/-- One account's vote on one proposal. -/
structure Vote where
  proposalId : Hash
  voter : Address
  option : VoteOption
  weight : UInt64
  height : UInt64
deriving DecidableEq

instance : Borsh Vote :=
  Borsh.xmap (fun v => (v.proposalId, v.voter, v.option, v.weight, v.height))
    (fun (p, v, o, w, h) => ⟨p, v, o, w, h⟩) fun _ => rfl

end Governance

end Polay.Types
