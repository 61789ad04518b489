import Polay.Types.Transaction

/-!
# Event constructors

The events the modules emit. Every constructor fixes the module, the action and
the attribute names; identifiers are shown in hexadecimal and numbers in decimal.
-/

namespace Polay.Types.Event

open Polay.Types

/-! ## Bank and assets -/

def transfer (sender receiver : Address) (amount : UInt64) : Event :=
  ⟨"bank", "transfer", [("from", sender.toHex), ("to", receiver.toHex),
    ("amount", toString amount)]⟩

def gasSponsored (sponsor signer : Address) (amount : UInt64) : Event :=
  ⟨"bank", "gas_sponsored", [("sponsor", sponsor.toHex), ("signer", signer.toHex),
    ("amount", toString amount)]⟩

def mintAsset (assetClassId : Hash) (receiver : Address) (amount : UInt64) : Event :=
  ⟨"asset", "mint", [("asset_class_id", assetClassId.toHex), ("to", receiver.toHex),
    ("amount", toString amount)]⟩

def transferAsset (assetClassId : Hash) (sender receiver : Address) (amount : UInt64) : Event :=
  ⟨"asset", "transfer", [("asset_class_id", assetClassId.toHex), ("from", sender.toHex),
    ("to", receiver.toHex), ("amount", toString amount)]⟩

def burnAsset (assetClassId : Hash) (sender : Address) (amount : UInt64) : Event :=
  ⟨"asset", "burn", [("asset_class_id", assetClassId.toHex), ("from", sender.toHex),
    ("amount", toString amount)]⟩

def assetClassCreated (assetClassId : Hash) (creator : Address) (name : String) : Event :=
  ⟨"asset", "create_class", [("asset_class_id", assetClassId.toHex),
    ("creator", creator.toHex), ("name", name)]⟩

/-! ## Marketplace -/

def listingCreated (listingId : Hash) (seller : Address) (assetClassId : Hash)
    (amount pricePerUnit : UInt64) : Event :=
  ⟨"market", "listing_created", [("listing_id", listingId.toHex), ("seller", seller.toHex),
    ("asset_class_id", assetClassId.toHex), ("amount", toString amount),
    ("price_per_unit", toString pricePerUnit)]⟩

def listingSold (listingId : Hash) (buyer seller : Address) : Event :=
  ⟨"market", "listing_sold", [("listing_id", listingId.toHex), ("buyer", buyer.toHex),
    ("seller", seller.toHex)]⟩

def listingCancelled (listingId : Hash) (seller : Address) : Event :=
  ⟨"market", "listing_cancelled", [("listing_id", listingId.toHex), ("seller", seller.toHex)]⟩

/-! ## Identity -/

def profileCreated (address : Address) (username : String) : Event :=
  ⟨"identity", "profile_created", [("address", address.toHex), ("username", username)]⟩

def achievementAwarded (player : Address) (achievementId name : String) : Event :=
  ⟨"identity", "achievement_awarded", [("player", player.toHex),
    ("achievement_id", achievementId), ("name", name)]⟩

def reputationChanged (player : Address) (delta newValue : Int64) : Event :=
  ⟨"identity", "reputation_changed", [("player", player.toHex),
    ("delta", toString delta), ("new_value", toString newValue)]⟩

/-! ## Staking -/

def validatorRegistered (address : Address) (commissionBps : UInt16) : Event :=
  ⟨"staking", "validator_registered", [("address", address.toHex),
    ("commission_bps", toString commissionBps)]⟩

def stakeDelegated (delegator validator : Address) (amount : UInt64) : Event :=
  ⟨"staking", "delegate", [("delegator", delegator.toHex), ("validator", validator.toHex),
    ("amount", toString amount)]⟩

def unbondingInitiated (delegator validator : Address) (amount completionHeight : UInt64) :
    Event :=
  ⟨"staking", "unbonding_initiated", [("delegator", delegator.toHex),
    ("validator", validator.toHex), ("amount", toString amount),
    ("completion_height", toString completionHeight)]⟩

def unbondingCompleted (delegator validator : Address) (amount : UInt64) : Event :=
  ⟨"staking", "unbonding_completed", [("delegator", delegator.toHex),
    ("validator", validator.toHex), ("amount", toString amount)]⟩

/-! ## Attestation -/

def matchResultSubmitted (matchId : Hash) (gameId : String) : Event :=
  ⟨"attestation", "match_result_submitted", [("match_id", matchId.toHex), ("game_id", gameId)]⟩

def rewardsDistributed (matchId : Hash) (total : UInt64) : Event :=
  ⟨"attestation", "rewards_distributed", [("match_id", matchId.toHex),
    ("total", toString total)]⟩

/-! ## Epochs -/

def epochTransition (epoch : UInt64) (validatorCount : Nat) (totalStaked rewards : UInt64) :
    Event :=
  ⟨"epoch", "epoch_transition", [("epoch", toString epoch),
    ("validator_count", toString validatorCount), ("total_staked", toString totalStaked),
    ("rewards_distributed", toString rewards)]⟩

def validatorUnjailed (address : Address) : Event :=
  ⟨"epoch", "validator_unjailed", [("address", address.toHex)]⟩

def validatorSetUpdated (epoch : UInt64) (count : Nat) : Event :=
  ⟨"epoch", "validator_set_updated", [("epoch", toString epoch),
    ("validator_count", toString count)]⟩

/-! ## Sessions and rentals -/

def sessionCreated (granter sessionAddress : Address) (expiresAt : UInt64) : Event :=
  ⟨"session", "session_created", [("granter", granter.toHex),
    ("session_address", sessionAddress.toHex), ("expires_at", toString expiresAt)]⟩

def sessionRevoked (granter sessionAddress : Address) : Event :=
  ⟨"session", "session_revoked", [("granter", granter.toHex),
    ("session_address", sessionAddress.toHex)]⟩

def rentalListed (owner : Address) (rentalId assetId : Hash) : Event :=
  ⟨"rental", "rental_listed", [("owner", owner.toHex), ("rental_id", rentalId.toHex),
    ("asset_id", assetId.toHex)]⟩

def assetRented (renter : Address) (rentalId : Hash) (duration : UInt64) : Event :=
  ⟨"rental", "asset_rented", [("renter", renter.toHex), ("rental_id", rentalId.toHex),
    ("duration", toString duration)]⟩

def rentalReturned (renter : Address) (rentalId : Hash) : Event :=
  ⟨"rental", "rental_returned", [("renter", renter.toHex), ("rental_id", rentalId.toHex)]⟩

def rentalExpired (rentalId : Hash) : Event :=
  ⟨"rental", "rental_expired", [("rental_id", rentalId.toHex)]⟩

def rentalCancelled (owner : Address) (rentalId : Hash) : Event :=
  ⟨"rental", "rental_cancelled", [("owner", owner.toHex), ("rental_id", rentalId.toHex)]⟩

/-! ## Guilds -/

def guildCreated (leader : Address) (guildId : Hash) (name : String) : Event :=
  ⟨"guild", "guild_created", [("leader", leader.toHex), ("guild_id", guildId.toHex),
    ("name", name)]⟩

def guildJoined (member : Address) (guildId : Hash) : Event :=
  ⟨"guild", "guild_joined", [("member", member.toHex), ("guild_id", guildId.toHex)]⟩

def guildLeft (member : Address) (guildId : Hash) : Event :=
  ⟨"guild", "guild_left", [("member", member.toHex), ("guild_id", guildId.toHex)]⟩

def guildDeposit (member : Address) (guildId : Hash) (amount : UInt64) : Event :=
  ⟨"guild", "guild_deposit", [("member", member.toHex), ("guild_id", guildId.toHex),
    ("amount", toString amount)]⟩

def guildWithdrawal (member : Address) (guildId : Hash) (amount : UInt64) : Event :=
  ⟨"guild", "guild_withdrawal", [("member", member.toHex), ("guild_id", guildId.toHex),
    ("amount", toString amount)]⟩

def guildMemberPromoted (member : Address) (guildId : Hash) (role : String) : Event :=
  ⟨"guild", "guild_member_promoted", [("member", member.toHex), ("guild_id", guildId.toHex),
    ("role", role)]⟩

def guildMemberKicked (member : Address) (guildId : Hash) : Event :=
  ⟨"guild", "guild_member_kicked", [("member", member.toHex), ("guild_id", guildId.toHex)]⟩

/-! ## Tournaments -/

def tournamentCreated (organizer : Address) (tournamentId : Hash) (name : String) : Event :=
  ⟨"tournament", "tournament_created", [("organizer", organizer.toHex),
    ("tournament_id", tournamentId.toHex), ("name", name)]⟩

def tournamentJoined (participant : Address) (tournamentId : Hash) : Event :=
  ⟨"tournament", "tournament_joined", [("participant", participant.toHex),
    ("tournament_id", tournamentId.toHex)]⟩

def tournamentStarted (tournamentId : Hash) (participantsCount : UInt32) : Event :=
  ⟨"tournament", "tournament_started", [("tournament_id", tournamentId.toHex),
    ("participants_count", toString participantsCount)]⟩

def tournamentResultsReported (tournamentId : Hash) (winner : Address) : Event :=
  ⟨"tournament", "tournament_results_reported", [("tournament_id", tournamentId.toHex),
    ("winner", winner.toHex)]⟩

def tournamentPrizeClaimed (participant : Address) (tournamentId : Hash) (amount : UInt64) :
    Event :=
  ⟨"tournament", "tournament_prize_claimed", [("participant", participant.toHex),
    ("tournament_id", tournamentId.toHex), ("amount", toString amount)]⟩

def tournamentCancelled (tournamentId : Hash) (refundedCount : UInt32) : Event :=
  ⟨"tournament", "tournament_cancelled", [("tournament_id", tournamentId.toHex),
    ("refunded_count", toString refundedCount)]⟩

/-! ## Governance -/

def proposalSubmitted (proposalId : Hash) (proposer : Address) (title : String) : Event :=
  ⟨"governance", "proposal_submitted", [("proposal_id", proposalId.toHex),
    ("proposer", proposer.toHex), ("title", title)]⟩

def voteCast (proposalId : Hash) (voter : Address) (option : String) (weight : UInt64) : Event :=
  ⟨"governance", "vote_cast", [("proposal_id", proposalId.toHex), ("voter", voter.toHex),
    ("option", option), ("weight", toString weight)]⟩

def proposalPassed (proposalId : Hash) : Event :=
  ⟨"governance", "proposal_passed", [("proposal_id", proposalId.toHex)]⟩

def proposalRejected (proposalId : Hash) : Event :=
  ⟨"governance", "proposal_rejected", [("proposal_id", proposalId.toHex)]⟩

def proposalExecuted (proposalId : Hash) : Event :=
  ⟨"governance", "proposal_executed", [("proposal_id", proposalId.toHex)]⟩

end Polay.Types.Event
