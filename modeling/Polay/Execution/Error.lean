import Polay.State.Store
import Polay.Types.Config
import Polay.Types.Event

/-!
# Execution errors and state changes

The errors a transaction can end with, each with the text that a receipt
records, and the list of changes a transaction reports about itself.
-/

namespace Polay.Execution

open Lib Lib.Machine Polay.Types State

/-- Why a transaction was rejected or failed. -/
inductive ExecutionError where
  | insufficientBalance (required available : UInt64)
  | invalidNonce (expected got : UInt64)
  | accountNotFound (address : String)
  | assetClassNotFound
  | assetClassAlreadyExists
  | maxSupplyExceeded (max current requested : UInt64)
  | listingNotFound
  | listingNotActive
  | listingOwnerMismatch
  | cannotBuyOwnListing
  | profileAlreadyExists
  | profileNotFound
  | validatorAlreadyRegistered
  | validatorNotFound
  | invalidCommission
  | insufficientStake
  | attestorAlreadyRegistered
  | attestorNotFound
  | attestorNotActive
  | invalidMatchResult (reason : String)
  | matchAlreadySettled
  | unauthorized
  | feeTooLow
  | invalidChainId (expected got : String)
  | zeroAddressSigner
  | invalidTxHash
  | invalidSignature (reason : String)
  | invalidSignerPubkey (reason : String)
  | matchQuarantined
  | matchSettlementNotFound
  | matchResultNotFound
  | rewardPoolExceeded (pool totalDistributed : UInt64)
  | invalidTransaction (reason : String)
  | insufficientDeposit (required provided : UInt64)
  | proposalNotFound
  | proposalNotActive
  | votingPeriodEnded
  | votingPeriodNotEnded
  | noStakeToVote
  | transactionTooLarge (max actual : Nat)
  | invalidInput (reason : String)
  | sessionNotFound
  | sessionExpired
  | sessionRevoked
  | sessionActionNotPermitted
  | sessionSpendingLimitExceeded
  | sessionAlreadyExists
  | invalidSessionPubkey (reason : String)
  | sponsorIsSigner
  | zeroAddressSponsor
  | sponsorAccountNotFound (address : String)
  | rentalNotFound
  | rentalNotListed
  | rentalNotActive
  | rentalOwnerMismatch
  | rentalRenterMismatch
  | rentalNotExpired
  | invalidRentalDuration (reason : String)
  | guildNotFound
  | alreadyGuildMember
  | notGuildMember
  | guildFull (max : UInt32)
  | leaderCannotLeave
  | insufficientTreasuryBalance (required available : UInt64)
  | notAuthorized
  | invalidGuildRole (role : String)
  | cannotKickLeader
  | tournamentNotFound
  | tournamentNotInRegistration
  | tournamentNotActive
  | tournamentNotCompleted
  | alreadyRegistered
  | tournamentFull
  | registrationClosed
  | notEnoughParticipants
  | notOrganizer
  | notRanked
  | prizeAlreadyClaimed
  | invalidRankings
  | cannotCancelActiveTournament
  | custom (text : String)
deriving DecidableEq

/-- The text of an error, as a receipt records it. -/
def ExecutionError.text : ExecutionError → String
  | .insufficientBalance required available =>
      s!"insufficient balance: required {required}, available {available}"
  | .invalidNonce expected got => s!"invalid nonce: expected {expected}, got {got}"
  | .accountNotFound address => s!"account not found: {address}"
  | .assetClassNotFound => "asset class not found"
  | .assetClassAlreadyExists => "asset class already exists"
  | .maxSupplyExceeded max current requested =>
      s!"max supply exceeded: max {max}, current {current}, requested {requested}"
  | .listingNotFound => "listing not found"
  | .listingNotActive => "listing is not active"
  | .listingOwnerMismatch => "listing owner mismatch"
  | .cannotBuyOwnListing => "cannot buy own listing"
  | .profileAlreadyExists => "profile already exists"
  | .profileNotFound => "profile not found"
  | .validatorAlreadyRegistered => "validator already registered"
  | .validatorNotFound => "validator not found"
  | .invalidCommission => "invalid commission"
  | .insufficientStake => "insufficient stake"
  | .attestorAlreadyRegistered => "attestor already registered"
  | .attestorNotFound => "attestor not found"
  | .attestorNotActive => "attestor not active"
  | .invalidMatchResult reason => s!"invalid match result: {reason}"
  | .matchAlreadySettled => "match already settled"
  | .unauthorized => "unauthorized"
  | .feeTooLow => "fee too low"
  | .invalidChainId expected got => s!"invalid chain id: expected {expected}, got {got}"
  | .zeroAddressSigner => "invalid signer: zero address"
  | .invalidTxHash => "invalid tx hash"
  | .invalidSignature reason => s!"invalid signature: {reason}"
  | .invalidSignerPubkey reason => s!"invalid signer pubkey: {reason}"
  | .matchQuarantined => "match quarantined"
  | .matchSettlementNotFound => "match settlement not found"
  | .matchResultNotFound => "match result not found"
  | .rewardPoolExceeded pool totalDistributed =>
      s!"reward pool exceeded: pool {pool}, total_distributed {totalDistributed}"
  | .invalidTransaction reason => s!"invalid transaction: {reason}"
  | .insufficientDeposit required provided =>
      s!"insufficient deposit: required {required}, provided {provided}"
  | .proposalNotFound => "proposal not found"
  | .proposalNotActive => "proposal is not in active voting state"
  | .votingPeriodEnded => "voting period has ended"
  | .votingPeriodNotEnded => "voting period has not ended yet"
  | .noStakeToVote => "no stake to vote"
  | .transactionTooLarge max actual =>
      s!"transaction too large: max {max} bytes, actual {actual} bytes"
  | .invalidInput reason => s!"invalid input: {reason}"
  | .sessionNotFound => "session not found"
  | .sessionExpired => "session expired"
  | .sessionRevoked => "session revoked"
  | .sessionActionNotPermitted => "session action not permitted"
  | .sessionSpendingLimitExceeded => "session spending limit exceeded"
  | .sessionAlreadyExists => "session already exists"
  | .invalidSessionPubkey reason => s!"invalid session pubkey: {reason}"
  | .sponsorIsSigner => "sponsor cannot be the signer"
  | .zeroAddressSponsor => "sponsor address is the zero address"
  | .sponsorAccountNotFound address => s!"sponsor account not found: {address}"
  | .rentalNotFound => "rental not found"
  | .rentalNotListed => "rental is not in Listed status"
  | .rentalNotActive => "rental is not in Active status"
  | .rentalOwnerMismatch => "rental owner mismatch"
  | .rentalRenterMismatch => "rental renter mismatch"
  | .rentalNotExpired => "rental not expired"
  | .invalidRentalDuration reason => s!"invalid rental duration: {reason}"
  | .guildNotFound => "guild not found"
  | .alreadyGuildMember => "already a guild member"
  | .notGuildMember => "not a guild member"
  | .guildFull max => s!"guild is full: max {max} members"
  | .leaderCannotLeave => "leader cannot leave the guild"
  | .insufficientTreasuryBalance required available =>
      s!"insufficient treasury balance: required {required}, available {available}"
  | .notAuthorized => "not authorized for this guild action"
  | .invalidGuildRole role => s!"invalid guild role: {role}"
  | .cannotKickLeader => "cannot kick the guild leader"
  | .tournamentNotFound => "tournament not found"
  | .tournamentNotInRegistration => "tournament is not in registration state"
  | .tournamentNotActive => "tournament is not active"
  | .tournamentNotCompleted => "tournament is not completed"
  | .alreadyRegistered => "already registered for tournament"
  | .tournamentFull => "tournament is full"
  | .registrationClosed => "registration is closed"
  | .notEnoughParticipants => "not enough participants to start"
  | .notOrganizer => "not the tournament organizer"
  | .notRanked => "signer is not ranked in this tournament"
  | .prizeAlreadyClaimed => "prize already claimed"
  | .invalidRankings => "invalid rankings"
  | .cannotCancelActiveTournament => "cannot cancel an active tournament"
  | .custom text => text

/-- What a transaction reports about its own effects. -/
inductive StateChange where
  | balanceChanged (addr : Address) (delta : Int)
  | assetCreated (id : Hash)
  | assetMinted (id : Hash) (receiver : Address) (amount : UInt64)
  | assetTransferred (id : Hash) (sender receiver : Address) (amount : UInt64)
  | assetBurned (id : Hash) (sender : Address) (amount : UInt64)
  | listingCreated (id : Hash)
  | listingCancelled (id : Hash)
  | listingSold (id : Hash)
  | profileCreated (addr : Address)
  | achievementAwarded (player : Address) (achievementId : String)
  | reputationChanged (player : Address) (delta : Int64)
  | validatorRegistered (addr : Address)
  | stakeDelegated (delegator validator : Address) (amount : UInt64)
  | stakeUndelegated (delegator validator : Address) (amount : UInt64)
  | attestorRegistered (addr : Address)
  | matchResultSubmitted (matchId : Hash)
  | rewardsDistributed (matchId : Hash)
  | proposalSubmitted (id : Hash)
  | proposalVoted (id : Hash) (voter : Address)
  | proposalExecuted (id : Hash)
  | sessionCreated (granter sessionAddress : Address)
  | sessionRevoked (granter sessionAddress : Address)
  | sessionSpendingUpdated (granter sessionAddress : Address) (amountSpent : UInt64)
  | nonceIncremented (addr : Address)
  | feeDeducted (addr : Address) (fee : UInt64)
deriving DecidableEq

/-- A program of the execution layer. -/
abbrev Handler (α : Type) := Exec ExecutionError α

/-! ## Steps many handlers share -/

/-- The account, which must exist. -/
def loadAccount (addr : Address) : Handler AccountState := do
  let account ← getAccount addr
  Prog.require account (.accountNotFound addr.toHex)

/-- The account with the amount taken off its balance, which must cover it. -/
def debited (account : AccountState) (amount : UInt64) : Handler AccountState := do
  Prog.ensure (¬ account.balance < amount) (.insufficientBalance amount account.balance)
  let balance ← Prog.require (checkedSub account.balance amount)
    (.insufficientBalance amount account.balance)
  return { account with balance }

/-- Add to the balance of an account, which is created if it does not exist. -/
def creditOrCreate (addr : Address) (createdAt amount : UInt64) : Handler Unit := do
  let account ← getAccountOrNew addr createdAt
  setAccount (account.credit amount)

end Polay.Execution
