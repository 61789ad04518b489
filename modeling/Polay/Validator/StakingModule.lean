import Polay.Validator.Epoch

/-!
# The staking module

The total stake as the staking module counts it, the list of a validator's
delegators, and slashing. The module finds validators and delegations through
lists of addresses that it keeps under keys of its own.
-/

namespace Polay.Validator

open Lib Lib.Machine Polay.Types State

/-- The record of a slashing. -/
structure SlashEvent where
  validator : Address
  amount : UInt64
  reason : String
  height : UInt64
deriving DecidableEq

namespace StakingModule

/-- Add up stakes, failing on overflow. -/
def addStakes : UInt64 → List ValidatorInfo → Option UInt64
  | acc, [] => some acc
  | acc, v :: rest => (checkedAdd acc v.stake).bind fun acc => addStakes acc rest

/-- The stake of all registered validators. -/
def getTotalStaked : Exec StakingError UInt64 := do
  let validators ← getValidatorSet
  Prog.require (addStakes 0 validators) .arithmeticOverflow

/-- Add a delegator to the list of a validator unless it is there already. -/
def registerDelegation {ε : Type} (validator delegator : Address) : Exec ε Unit := do
  let list ← storeGet (.delegators validator)
  let list := list.getD ([] : List Address)
  Prog.when (delegator ∉ list) (storePut (.delegators validator) (list ++ [delegator]) trivial)

/-- How long a slashed validator stays jailed, in blocks. -/
def defaultJailDurationBlocks : UInt64 := 1800

/-- The part of an amount that a fraction in basis points takes, computed in 128 bits. -/
def slashOf (amount : UInt64) (fractionBps : UInt16) : UInt64 :=
  UInt64.ofNat (amount.toNat * fractionBps.toNat / 10000)

/-- Slash one delegation and count what was taken. -/
def slashDelegation (fractionBps : UInt16) (total : UInt64) (delegation : Delegation) :
    Exec StakingError UInt64 :=
  if delegation.amount = 0 then return total
  else do
    let delegationSlash := slashOf delegation.amount fractionBps
    setDelegation { delegation with amount := saturatingSub delegation.amount delegationSlash }
    return saturatingAdd total delegationSlash

/-- The validator after a slash: less stake, jailed, and out of the set for good if no
stake is left. -/
def slashed (validator : ValidatorInfo) (fractionBps : UInt16) (height : UInt64) :
    ValidatorInfo :=
  let validator := { validator with
    stake := saturatingSub validator.stake (slashOf validator.stake fractionBps) }
  let validator := validator.jail (saturatingAdd height defaultJailDurationBlocks)
  if validator.stake = 0 then { validator with status := .unbonding } else validator

/-- Slash a validator and every listed delegation to it by a fraction. -/
def processSlashing (validatorAddr : Address) (fractionBps : UInt16) (reason : String)
    (height : UInt64) : Exec StakingError SlashEvent := do
  let validator ← getValidator validatorAddr
  let validator ← Prog.require validator (.validatorNotFound validatorAddr.toHex)
  let validatorSlash := slashOf validator.stake fractionBps
  setValidator (slashed validator fractionBps height)
  let delegations ← getDelegationsForValidator validatorAddr
  let delegationSlashTotal ← Prog.fold (slashDelegation fractionBps) 0 delegations
  return { validator := validatorAddr
           amount := saturatingAdd validatorSlash delegationSlashTotal
           reason, height }

end StakingModule

end Polay.Validator
