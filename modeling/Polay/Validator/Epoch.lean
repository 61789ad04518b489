import Polay.Consensus.Types
import Polay.Types.Event
import Polay.Validator.Chain

/-!
# Epochs

At every multiple of the epoch length the chain lifts expired jail terms,
selects the validators with the most stake, pays the epoch's rewards and records
the new set. Rewards are computed from the inflation rate, split between the
validators by stake, and each validator's part between its commission and its
delegators.
-/

namespace Polay.Validator

open Lib Lib.Machine Polay.Types State Consensus

/-- The errors of the staking module. -/
inductive StakingError where
  | validatorNotFound (address : String)
  | arithmeticOverflow
deriving DecidableEq

/-! ## Rewards -/

namespace StakingModule

/-- Load each validator of a list that exists. -/
def loadValidators {ε : Type} : List Address → Exec ε (List ValidatorInfo)
  | [] => return []
  | addr :: rest => do
      let v ← getValidator addr
      let vs ← loadValidators rest
      return v.toList ++ vs

/-- All registered validators. -/
def getValidatorSet {ε : Type} : Exec ε (List ValidatorInfo) := do
  let addresses ← loadValidatorList
  loadValidators addresses

/-- Load the delegation of each delegator that has one. -/
def loadDelegations {ε : Type} (validator : Address) :
    List Address → Exec ε (List Delegation)
  | [] => return []
  | delegator :: rest => do
      let d ← getDelegation delegator validator
      let ds ← loadDelegations validator rest
      return d.toList ++ ds

/-- The delegations listed for a validator. -/
def getDelegationsForValidator {ε : Type} (validator : Address) :
    Exec ε (List Delegation) := do
  let list ← storeGet (.delegators validator)
  loadDelegations validator (list.getD ([] : List Address))

/-- Blocks in a year of two-second blocks. -/
def blocksPerYear : UInt64 := 365 * 24 * 3600 / 2

/-- The reward of one epoch, from the annual inflation rate. -/
def calculateEpochRewards (totalSupply : UInt64) (params : InflationParams)
    (epochLength : UInt64) : UInt64 :=
  if totalSupply = 0 ∨ epochLength = 0 then 0
  else
    let epochsPerYear := blocksPerYear / epochLength
    if epochsPerYear = 0 then 0
    else
      let rate := max params.initialRateBps.toNat params.minRateBps.toNat
      let annualReward := UInt64.ofNat (totalSupply.toNat * rate / 10000)
      annualReward / epochsPerYear

/-- A part of an amount in proportion to a weight, computed in 128 bits. The
division by a zero total is the only way it can fail. -/
def proRata (amount weight total : UInt64) : Option UInt64 :=
  if total = 0 then none
  else some (UInt64.ofNat (amount.toNat * weight.toNat / total.toNat))

/-- Credit a payout and list it, unless it is zero. -/
def payOut (payouts : List (Address × UInt64)) (addr : Address) (amount : UInt64) :
    Exec StakingError (List (Address × UInt64)) :=
  if 0 < amount then do
    let account ← getAccountOrNew addr 0
    setAccount (account.credit amount)
    return payouts ++ [(addr, amount)]
  else return payouts

/-- Pay one delegator its part of the validator's reward. -/
def payDelegator (pool totalDelegated : UInt64) (payouts : List (Address × UInt64))
    (d : Delegation) : Exec StakingError (List (Address × UInt64)) := do
  let share ← Prog.require (proRata pool d.amount totalDelegated) .arithmeticOverflow
  payOut payouts d.delegator share

/-- The delegations that earn in an epoch: not empty and older than the epoch. -/
def earning (epoch : UInt64) (delegations : List Delegation) : List Delegation :=
  delegations.filter fun d => 0 < d.amount ∧ d.lastRewardEpoch < epoch

/-- Pay one validator and its delegators. -/
def payValidator (totalReward totalStake epoch : UInt64) (payouts : List (Address × UInt64))
    (v : ValidatorInfo) : Exec StakingError (List (Address × UInt64)) :=
  if v.stake = 0 then return payouts
  else do
    let reward ← Prog.require (proRata totalReward v.stake totalStake) .arithmeticOverflow
    let commission := v.commissionOn reward
    let pool := saturatingSub reward commission
    let payouts ← payOut payouts v.address commission
    let delegations ← getDelegationsForValidator v.address
    let eligible := earning epoch delegations
    let totalDelegated := eligible.foldl (fun total d => total + d.amount) 0
    if 0 < totalDelegated ∧ 0 < pool then
      Prog.fold (payDelegator pool totalDelegated) payouts eligible
    else return payouts

/-- Add up payouts, failing on overflow. -/
def totalPayout : UInt64 → List (Address × UInt64) → Option UInt64
  | acc, [] => some acc
  | acc, (_, amount) :: rest => (checkedAdd acc amount).bind fun acc => totalPayout acc rest

/-- The supply figures after rewards were minted. -/
def supplyAfterRewards (supply : SupplyInfo) (distributed : UInt64) : SupplyInfo :=
  SupplyInfo.recomputeCirculating
    { supply with
      totalMinted := saturatingAdd supply.totalMinted distributed
      totalSupply := saturatingAdd supply.totalSupply distributed }

/-- Distribute the rewards of an epoch; the result lists the credits made. -/
def distributeEpochRewards (validators : List ValidatorInfo) (currentEpoch : UInt64)
    (config : ChainConfig) : Exec StakingError (List (Address × UInt64)) :=
  let totalStake := validators.foldl (fun total v => total + v.stake) 0
  if totalStake = 0 then return []
  else do
    let supply ← getSupplyInfo
    let totalReward := calculateEpochRewards (supply.getD SupplyInfo.default).totalSupply
      config.inflationParams config.epochLength
    let payouts ← Prog.fold (payValidator totalReward totalStake currentEpoch) [] validators
    let distributed ← Prog.require (totalPayout 0 payouts) .arithmeticOverflow
    Prog.when (0 < distributed) (do
      let supply ← getSupplyInfo
      setSupplyInfo (supplyAfterRewards (supply.getD SupplyInfo.default) distributed))
    return payouts

end StakingModule

/-! ## The epoch manager -/

/-- The epoch manager holds the chain configuration. -/
structure EpochManager where
  config : ChainConfig

namespace EpochManager

variable (em : EpochManager)

/-- Whether a height is an epoch boundary. No positive height is a multiple of a
zero epoch length. -/
def isEpochBoundary (height : UInt64) : Bool :=
  decide (0 < height) &&
    if em.config.epochLength = 0 then decide (height = 0)
    else decide (height % em.config.epochLength = 0)

/-- Lift the jail terms that have ended; the result lists the events. -/
def unjailElapsed (height : UInt64) :
    List ValidatorInfo → Exec StakingError (List Event)
  | [] => return []
  | v :: rest => do
      match v.status, v.jailedUntil with
      | .jailed, some til =>
          if til ≤ height then do
            setValidator { v with status := .active, jailedUntil := none }
            let events ← unjailElapsed height rest
            return Event.validatorUnjailed v.address :: events
          else unjailElapsed height rest
      | _, _ => unjailElapsed height rest

/-- The active validators with enough stake, most stake first, as many as the
configuration allows. -/
def selectEligible (all : List ValidatorInfo) : List ValidatorInfo :=
  let eligible := all.filter fun v => v.status = .active ∧ em.config.minStake ≤ v.stake
  (eligible.mergeSort fun a b => decide (b.stake ≤ a.stake)).take em.config.maxValidators.toNat

/-- Process the transition at an epoch boundary: the new validator set and the
events. A zero epoch length divides by zero. -/
def processEpochTransition (height : UInt64) :
    Exec StakingError (ValidatorSet × List Event) := do
  Prog.assert (em.config.epochLength ≠ 0)
  let epoch := height / em.config.epochLength
  let registered ← StakingModule.getValidatorSet
  let unjailed ← unjailElapsed height registered
  let registered ← StakingModule.getValidatorSet
  let eligible := em.selectEligible registered
  let newSet ← Prog.unwrap (ValidatorSet.new (eligible.map fun v => ⟨v.address, v.stake⟩))
  let activeAddrs := eligible.map ValidatorInfo.address
  setActiveValidatorSet activeAddrs
  let rewards ← StakingModule.distributeEpochRewards eligible epoch em.config
  let totalRewards := rewards.foldl (fun total p => total + p.2) 0
  setEpochInfo
    { epoch
      startHeight := epoch * em.config.epochLength
      endHeight := (epoch + 1) * em.config.epochLength - 1
      validatorSet := activeAddrs
      totalStaked := newSet.totalStake
      rewardsDistributed := totalRewards }
  return (newSet, unjailed ++ [Event.validatorSetUpdated epoch activeAddrs.length,
    Event.epochTransition epoch activeAddrs.length newSet.totalStake totalRewards])

end EpochManager

end Polay.Validator
