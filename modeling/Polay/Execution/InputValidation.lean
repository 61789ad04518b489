import Polay.Execution.Error
import Polay.Lib.Check
import Polay.Types.Transaction

/-!
# Input validation

The structural checks of a transaction's fields: lengths, ranges and formats,
without any state. Lengths of texts are in bytes, as the source counts them.
-/

namespace Polay.Execution.InputValidation

open Lib Lib.Machine Polay.Types

/-- A check of a transaction. -/
abbrev TxCheck := Check ExecutionError

/-- Fail with the given text unless a condition holds. -/
def require (c : Prop) [Decidable c] (reason : String) : TxCheck :=
  Check.ensure c (.invalidInput reason)

/-- A text with at least one and at most `max` bytes. -/
def requireText (s : String) (max : Nat) (reason : String) : TxCheck :=
  require (s.utf8ByteSize ≠ 0 ∧ s.utf8ByteSize ≤ max) reason

/-- An identifier that is not zero; `field` names it. -/
def requireId (id : Hash) (field : String) : TxCheck :=
  require (id ≠ Hash.zero) s!"{field} must not be zero"

def validateUsername (username : String) : TxCheck :=
  let len := username.utf8ByteSize
  Check.all [
    require (3 ≤ len ∧ len ≤ 32) s!"username must be 3-32 characters, got {len}",
    require (username.toList.all (fun c => c.isAlphanum || c == '_') = true)
      "username may only contain alphanumeric characters and underscores",
    require (¬ (username.toList.head? = some '_' ∨ username.toList.getLast? = some '_'))
      "username must not start or end with an underscore"]

/-- The shares of a prize; their sum wraps around as the source's does. -/
def validatePrizeDistribution (shares : List UInt32) : TxCheck :=
  let sum := shares.foldl (· + ·) 0
  Check.all [
    require (shares ≠ []) "prize_distribution must not be empty",
    require (shares.length ≤ 100) "prize_distribution must have at most 100 entries",
    require (sum = 100) s!"prize_distribution must sum to 100, got {sum}",
    require (∀ pct ∈ shares, pct ≠ 0 ∧ pct ≤ 100)
      "each prize_distribution entry must be 1-100"]

/-- The fields of an action. -/
def validateTransactionInput (tx : Transaction) (config : ChainConfig) : TxCheck :=
  match tx.action with
  | .transfer toAddr amount => Check.all [
      require (amount ≠ 0) "transfer amount must be > 0",
      require (toAddr ≠ tx.signer) "cannot transfer to self",
      require (toAddr ≠ Address.zero) "cannot transfer to zero address"]
  | .createAssetClass name symbol _ maxSupply metadataUri => Check.all [
      requireText name 128 "asset class name must be 1-128 characters",
      requireText symbol 32 "asset class symbol must be 1-32 characters",
      require (symbol.toList.all Char.isAlphanum = true)
        "asset class symbol must be alphanumeric",
      require (metadataUri.utf8ByteSize ≤ 2048) "metadata_uri must be < 2048 characters",
      require (maxSupply ≠ some 0) "max_supply must be > 0 if set"]
  | .mintAsset _ _ amount _ => require (amount ≠ 0) "mint amount must be > 0"
  | .transferAsset _ toAddr amount => Check.all [
      require (amount ≠ 0) "transfer asset amount must be > 0",
      require (toAddr ≠ tx.signer) "cannot transfer asset to self"]
  | .burnAsset _ amount => require (amount ≠ 0) "burn amount must be > 0"
  | .createListing _ amount pricePerUnit _ => Check.all [
      require (amount ≠ 0) "listing amount must be > 0",
      require (pricePerUnit ≠ 0) "listing price_per_unit must be > 0"]
  | .buyListing listingId => requireId listingId "listing_id"
  | .createProfile username displayName _ => Check.all [
      validateUsername username,
      requireText displayName 128 "display_name must be 1-128 characters"]
  | .addAchievement _ achievementId name _ => Check.all [
      requireText achievementId 128 "achievement_id must be 1-128 characters",
      requireText name 256 "achievement name must be 1-256 characters"]
  | .updateReputation _ delta reason => Check.all [
      require (delta ≠ 0) "reputation delta must not be zero",
      requireText reason 512 "reputation reason must be 1-512 characters"]
  | .registerValidator commissionBps =>
      let max := config.maxCommissionBps
      require (¬ max < commissionBps) s!"commission_bps {commissionBps} exceeds max {max}"
  | .delegateStake _ amount => require (amount ≠ 0) "delegate stake amount must be > 0"
  | .undelegateStake _ amount => require (amount ≠ 0) "undelegate stake amount must be > 0"
  | .registerAttestor gameId endpoint _ => Check.all [
      requireText gameId 64 "game_id must be 1-64 characters",
      require (endpoint.utf8ByteSize ≤ 512) "endpoint must be < 512 characters"]
  | .submitMatchResult m => Check.all [
      require (m.players ≠ []) "match must have at least 1 player",
      require (m.winners ≠ []) "match must have at least 1 winner",
      require (m.scores.length = m.players.length) "scores length must equal players length",
      require (∀ winner ∈ m.winners, winner ∈ m.players)
        "all winners must be in the players list"]
  | .distributeReward _ rewards => Check.all [
      require (rewards ≠ []) "must have at least 1 reward entry",
      require (∀ reward ∈ rewards, reward.2 ≠ 0) "reward amounts must be > 0"]
  | .submitProposal _ title description deposit => Check.all [
      requireText title 256 "proposal title must be 1-256 characters",
      requireText description 4096 "proposal description must be 1-4096 characters",
      require (deposit ≠ 0) "proposal deposit must be > 0"]
  | .cancelListing _ | .voteProposal _ _ | .executeProposal _ | .createSession _ _ _ _
  | .revokeSession _ => .ok ()
  | .listForRent assetClassId assetId pricePerBlock _ minDuration maxDuration => Check.all [
      requireId assetClassId "asset_class_id",
      requireId assetId "asset_id",
      require (pricePerBlock ≠ 0) "price_per_block must be > 0",
      require (minDuration ≠ 0) "min_duration must be > 0",
      require (¬ maxDuration < minDuration) "max_duration must be >= min_duration"]
  | .rentAsset rentalId duration => Check.all [
      requireId rentalId "rental_id",
      require (duration ≠ 0) "duration must be > 0"]
  | .returnRental rentalId | .claimExpiredRental rentalId | .cancelRentalListing rentalId =>
      requireId rentalId "rental_id"
  | .createGuild name description maxMembers => Check.all [
      requireText name 64 "guild name must be 1-64 characters",
      require (description.utf8ByteSize ≤ 256) "guild description must be 0-256 characters",
      require (maxMembers ≠ 0 ∧ maxMembers ≤ 10000) "max_members must be 1-10000"]
  | .joinGuild guildId | .leaveGuild guildId | .guildKick guildId _ =>
      requireId guildId "guild_id"
  | .guildDeposit guildId amount => Check.all [
      requireId guildId "guild_id",
      require (amount ≠ 0) "deposit amount must be > 0"]
  | .guildWithdraw guildId amount => Check.all [
      requireId guildId "guild_id",
      require (amount ≠ 0) "withdraw amount must be > 0"]
  | .guildPromote guildId _ role => Check.all [
      requireId guildId "guild_id",
      require (role = "officer" ∨ role = "member") "role must be \"officer\" or \"member\""]
  | .createTournament name gameId _ maxParticipants minParticipants _ prizeDistribution =>
      Check.all [
        requireText name 128 "tournament name must be 1-128 characters",
        requireText gameId 64 "game_id must be 1-64 characters",
        require (¬ minParticipants < 2) "min_participants must be >= 2",
        require (¬ maxParticipants < minParticipants)
          "max_participants must be >= min_participants",
        validatePrizeDistribution prizeDistribution]
  | .joinTournament tournamentId | .startTournament tournamentId
  | .claimTournamentPrize tournamentId | .cancelTournament tournamentId =>
      requireId tournamentId "tournament_id"
  | .reportTournamentResults tournamentId rankings => Check.all [
      requireId tournamentId "tournament_id",
      require (rankings ≠ []) "rankings must not be empty"]

/-- The bytes of a transaction that are counted; none if it does not serialize. -/
def serializedSize (tx : SignedTransaction) : Nat :=
  ((Borsh.toVec tx.transaction).getD []).length

def validateTxSize (tx : SignedTransaction) (maxSize : UInt64) : TxCheck :=
  Check.ensure (¬ maxSize.toNat < serializedSize tx)
    (.transactionTooLarge maxSize.toNat (serializedSize tx))

end Polay.Execution.InputValidation
