import Polay.Execution.Modules.Assets

/-!
# Staking and governance

Validator registration, delegation, the unbonding queue, and governance
proposals. Delegating divides the block height by the epoch length after the
account and the validator were written, so an epoch length of zero panics with
both writes in place.
-/

namespace Polay.Execution

open Lib Lib.Machine Lib.Bytes Polay.Types Polay.Types.Governance State

/-! ## Staking -/

namespace Staking

def executeRegisterValidator (config : ChainConfig) (signer : Address)
    (commissionBps : UInt16) : Handler (List Event) := do
  let existing ← getValidator signer
  Prog.ensure (existing.isNone) .validatorAlreadyRegistered
  Prog.ensure (¬ config.maxCommissionBps < commissionBps) .invalidCommission
  setValidator (ValidatorInfo.new signer commissionBps)
  return [Event.validatorRegistered signer commissionBps]

def executeDelegateStake (config : ChainConfig) (signer validatorAddr : Address)
    (amount blockHeight : UInt64) : Handler (List Event) := do
  let validator ← getValidator validatorAddr
  let validator ← Prog.require validator .validatorNotFound
  Prog.ensure (validator.isActive) .validatorNotFound
  let account ← loadAccount signer
  let account ← debited account amount
  setAccount account
  setValidator { validator with stake := saturatingAdd validator.stake amount }
  Prog.assert (config.epochLength ≠ 0)
  let currentEpoch := blockHeight / config.epochLength
  let delegation ← getDelegation signer validatorAddr
  let delegation := delegation.getD (Delegation.new signer validatorAddr)
  setDelegation
    { delegation with
      amount := saturatingAdd delegation.amount amount
      lastRewardEpoch := currentEpoch }
  return [Event.stakeDelegated signer validatorAddr amount]

/-- Begin to undelegate: the stake leaves the validator at once and waits in the
unbonding queue. The number of entries that complete at the same height is
truncated to 8 bits to index the new one. -/
def executeUndelegateStake (config : ChainConfig) (signer validatorAddr : Address)
    (amount currentHeight : UInt64) : Handler (List Event) := do
  let validator ← getValidator validatorAddr
  let validator ← Prog.require validator .validatorNotFound
  let delegation ← getDelegation signer validatorAddr
  let delegation ← Prog.require delegation .insufficientStake
  Prog.ensure (¬ delegation.amount < amount) .insufficientStake
  setDelegation { delegation with amount := delegation.amount - amount }
  setValidator { validator with stake := saturatingSub validator.stake amount }
  let completionHeight := currentHeight + config.unbondingPeriodBlocks
  let existing ← getUnbondingEntries signer
  let index := UInt8.ofNat (existing.countP fun e => e.completionHeight = completionHeight)
  setUnbondingEntry
    { delegator := signer, validator := validatorAddr, amount, initiatedAt := currentHeight,
      completionHeight } index
  return [Event.unbondingInitiated signer validatorAddr amount completionHeight]

/-- Pay out one matured entry and remove it from the queue. -/
def releaseUnbonding (entry : UnbondingEntry × UInt8) : Handler Unit := do
  creditOrCreate entry.1.delegator 0 entry.1.amount
  deleteUnbondingEntry entry.1.delegator entry.1.completionHeight entry.2

/-- Pay out every matured entry of the unbonding queue. -/
def processMatureUnbondings (currentHeight : UInt64) : Handler (List Event) := do
  let mature ← getMatureUnbondings currentHeight
  Prog.each releaseUnbonding mature
  return mature.map fun e =>
    Event.unbondingCompleted e.1.delegator e.1.validator e.1.amount

end Staking

/-! ## Governance -/

namespace Governance

def executeSubmitProposal (sha256 : List UInt8 → Hash) (config : ChainConfig)
    (signer : Address) (action : ProposalAction) (title description : String)
    (deposit currentHeight : UInt64) : Handler (Hash × List Event) := do
  Prog.ensure (¬ deposit < config.minProposalDeposit)
    (.insufficientDeposit config.minProposalDeposit deposit)
  let account ← loadAccount signer
  let account ← debited account deposit
  setAccount account
  let proposalId := sha256 (signer.data ++ Borsh.utf8 title ++ beBytes 8 currentHeight.toNat)
  setProposal
    { id := proposalId, proposer := signer, action, title, description, deposit,
      status := .voting, yesVotes := 0, noVotes := 0, abstainVotes := 0,
      votingStartHeight := currentHeight,
      votingEndHeight := currentHeight + config.votingPeriodBlocks,
      createdAt := currentHeight }
  let list ← getProposalList
  setProposalList (list ++ [proposalId])
  return (proposalId, [Event.proposalSubmitted proposalId signer title])

/-- The bytes every key of a delegation by the signer starts with. -/
def delegationPrefix (signer : Address) : List UInt8 := 0x06 :: Borsh.encode signer

/-- The amount of a stored delegation. -/
def delegatedAmount : Sigma Key.Value → UInt64
  | ⟨.delegation _ _, delegation⟩ => Delegation.amount delegation.val
  | _ => 0

/-- The stake of a stored validator. -/
def validatorStake : Sigma Key.Value → UInt64
  | ⟨.validator _, info⟩ => ValidatorInfo.stake info.val
  | _ => 0

/-- The saturating sum of one figure over the entries of a scan. -/
def sumOver (f : Sigma Key.Value → UInt64) (pairs : List (Sigma Key.Value)) : UInt64 :=
  pairs.foldl (fun total e => saturatingAdd total (f e)) 0

/-- The voting weight of an account: its stake as a validator or, if that is
zero, everything it delegated. -/
def voteWeight (signer : Address) : Handler UInt64 := do
  let validator ← getValidator signer
  let stake := (validator.map (·.stake)).getD 0
  if 0 < stake then return stake
  else
    let pairs ← prefixScan (delegationPrefix signer)
    return sumOver delegatedAmount pairs

/-- Change one of the three tallies. -/
def adjustTally (p : Proposal) (option : VoteOption) (f : UInt64 → UInt64) : Proposal :=
  match option with
  | .yes => { p with yesVotes := f p.yesVotes }
  | .no => { p with noVotes := f p.noVotes }
  | .abstain => { p with abstainVotes := f p.abstainVotes }

@[simp] theorem id_adjustTally (p : Proposal) (option : VoteOption) (f : UInt64 → UInt64) :
    (adjustTally p option f).id = p.id := by
  cases option <;> rfl

/-- Take an earlier vote out of the tallies. -/
def withdrawVote (p : Proposal) : Option Vote → Proposal
  | some vote => adjustTally p vote.option fun n => saturatingSub n vote.weight
  | none => p

def executeVoteProposal (signer : Address) (proposalId : Hash) (option : VoteOption)
    (currentHeight : UInt64) : Handler (List Event) := do
  let proposal ← getProposal proposalId
  let proposal ← Prog.require proposal .proposalNotFound
  Prog.ensure (proposal.status = .voting) .proposalNotActive
  Prog.ensure (¬ proposal.votingEndHeight < currentHeight) .votingPeriodEnded
  let weight ← voteWeight signer
  Prog.ensure (weight ≠ 0) .noStakeToVote
  let existingVote ← getVote proposalId signer
  let proposal := withdrawVote proposal existingVote
  setVote { proposalId, voter := signer, option, weight, height := currentHeight }
  setProposal (adjustTally proposal option fun n => saturatingAdd n weight)
  return [Event.voteCast proposalId signer option.label weight]

def calculateTotalStaked : Handler UInt64 := do
  let pairs ← prefixScan [0x05]
  return sumOver validatorStake pairs

/-- Suspend an attestor that is still registered. -/
def suspendAttestor (address : Address) : Handler Unit := do
  let attestor ← getAttestor address
  match attestor with
  | some attestor => setAttestor { attestor with status := .suspended }
  | none => return ()

/-- Carry out what a passed proposal asks for. Parameter changes, attestor
approvals and texts are only recorded. -/
def executeProposalAction (action : ProposalAction) : Handler Unit :=
  match action with
  | .parameterChange _ _ => return ()
  | .treasurySpend recipient amount _ => creditOrCreate recipient 0 amount
  | .slashValidator address fractionBps _ => do
      let validator ← getValidator address
      let validator ← Prog.require validator .validatorNotFound
      let slashAmount := UInt64.ofNat (validator.stake.toNat * fractionBps.toNat / 10000)
      setValidator { validator with stake := saturatingSub validator.stake slashAmount }
  | .approveAttestor _ _ => return ()
  | .suspendAttestor address => suspendAttestor address
  | .textProposal _ _ => return ()

/-- Whether enough of the total stake voted. -/
def quorumMet (config : ChainConfig) (p : Proposal) (totalStaked : UInt64) : Bool :=
  let totalVotes := saturatingAdd (saturatingAdd p.yesVotes p.noVotes) p.abstainVotes
  if totalStaked = 0 then false
  else decide (config.governanceQuorumBps.toNat * totalStaked.toNat ≤ totalVotes.toNat * 10000)

/-- Whether enough of the decided votes are in favour. -/
def thresholdMet (config : ChainConfig) (p : Proposal) : Bool :=
  let yesAndNo := saturatingAdd p.yesVotes p.noVotes
  if yesAndNo = 0 then false
  else decide (config.passThresholdBps.toNat * yesAndNo.toNat ≤ p.yesVotes.toNat * 10000)

/-- A passed proposal: its action, and the whole deposit back to the proposer. -/
def applyPassed (proposalId : Hash) (p : Proposal) (currentHeight : UInt64) :
    Handler (Proposal × List Event) := do
  executeProposalAction p.action
  creditOrCreate p.proposer currentHeight p.deposit
  return ({ p with status := .executed },
    [Event.proposalPassed proposalId, Event.proposalExecuted proposalId])

/-- A rejected proposal: half of the deposit is burned. -/
def applyRejected (proposalId : Hash) (p : Proposal) (currentHeight : UInt64) :
    Handler (Proposal × List Event) := do
  let returnAmount := p.deposit / 2
  Prog.when (0 < returnAmount) (creditOrCreate p.proposer currentHeight returnAmount)
  return ({ p with status := .rejected }, [Event.proposalRejected proposalId])

def executeExecuteProposal (config : ChainConfig) (proposalId : Hash)
    (currentHeight : UInt64) : Handler (List Event) := do
  let proposal ← getProposal proposalId
  let proposal ← Prog.require proposal .proposalNotFound
  Prog.ensure (proposal.status = .voting) .proposalNotActive
  Prog.ensure (¬ currentHeight ≤ proposal.votingEndHeight) .votingPeriodNotEnded
  let totalStaked ← calculateTotalStaked
  let (proposal, events) ←
    if quorumMet config proposal totalStaked && thresholdMet config proposal then
      applyPassed proposalId proposal currentHeight
    else applyRejected proposalId proposal currentHeight
  setProposal proposal
  return events

end Governance

end Polay.Execution
