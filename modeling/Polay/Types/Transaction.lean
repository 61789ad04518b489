import Polay.Types.Assets
import Polay.Types.Community
import Polay.Types.Staking

/-!
# Transactions, receipts and blocks

Every on-chain operation, the signed envelope around it, the receipt that
records its outcome, and the blocks that carry transactions. The Borsh bytes of
a transaction are the payload that is signed and hashed.
-/

namespace Polay.Types

open Lib Lib.Machine Governance

/-! ## Actions -/

/-- Every operation a transaction can request. -/
inductive TransactionAction where
  | transfer (toAddr : Address) (amount : UInt64)
  | createAssetClass (name symbol : String) (assetType : AssetType) (maxSupply : Option UInt64)
      (metadataUri : String)
  | mintAsset (assetClassId : Hash) (toAddr : Address) (amount : UInt64)
      (metadata : Option String)
  | transferAsset (assetClassId : Hash) (toAddr : Address) (amount : UInt64)
  | burnAsset (assetClassId : Hash) (amount : UInt64)
  | createListing (assetClassId : Hash) (amount pricePerUnit : UInt64) (currency : Hash)
  | cancelListing (listingId : Hash)
  | buyListing (listingId : Hash)
  | createProfile (username displayName : String) (metadata : Option String)
  | addAchievement (player : Address) (achievementId name metadata : String)
  | updateReputation (player : Address) (delta : Int64) (reason : String)
  | registerValidator (commissionBps : UInt16)
  | delegateStake (validator : Address) (amount : UInt64)
  | undelegateStake (validator : Address) (amount : UInt64)
  | registerAttestor (gameId endpoint metadata : String)
  | submitMatchResult (matchResult : MatchResult)
  | distributeReward (matchId : Hash) (rewards : List (Address × UInt64))
  | submitProposal (action : ProposalAction) (title description : String) (deposit : UInt64)
  | voteProposal (proposalId : Hash) (option : VoteOption)
  | executeProposal (proposalId : Hash)
  | createSession (sessionPubkey : List UInt8) (permissions : SessionPermission)
      (expiresAt spendingLimit : UInt64)
  | revokeSession (sessionAddress : Address)
  | listForRent (assetClassId assetId : Hash)
      (pricePerBlock deposit minDuration maxDuration : UInt64)
  | rentAsset (rentalId : Hash) (duration : UInt64)
  | returnRental (rentalId : Hash)
  | claimExpiredRental (rentalId : Hash)
  | cancelRentalListing (rentalId : Hash)
  | createGuild (name description : String) (maxMembers : UInt32)
  | joinGuild (guildId : Hash)
  | leaveGuild (guildId : Hash)
  | guildDeposit (guildId : Hash) (amount : UInt64)
  | guildWithdraw (guildId : Hash) (amount : UInt64)
  | guildPromote (guildId : Hash) (member : Address) (role : String)
  | guildKick (guildId : Hash) (member : Address)
  | createTournament (name gameId : String) (entryFee : UInt64)
      (maxParticipants minParticipants : UInt32) (startHeight : UInt64)
      (prizeDistribution : List UInt32)
  | joinTournament (tournamentId : Hash)
  | startTournament (tournamentId : Hash)
  | reportTournamentResults (tournamentId : Hash) (rankings : List Address)
  | claimTournamentPrize (tournamentId : Hash)
  | cancelTournament (tournamentId : Hash)
deriving DecidableEq

namespace TransactionAction

/-- The label of an action, which session permissions refer to. -/
def label : TransactionAction → String
  | .transfer .. => "transfer"
  | .createAssetClass .. => "create_asset_class"
  | .mintAsset .. => "mint_asset"
  | .transferAsset .. => "transfer_asset"
  | .burnAsset .. => "burn_asset"
  | .createListing .. => "create_listing"
  | .cancelListing .. => "cancel_listing"
  | .buyListing .. => "buy_listing"
  | .createProfile .. => "create_profile"
  | .addAchievement .. => "add_achievement"
  | .updateReputation .. => "update_reputation"
  | .registerValidator .. => "register_validator"
  | .delegateStake .. => "delegate_stake"
  | .undelegateStake .. => "undelegate_stake"
  | .registerAttestor .. => "register_attestor"
  | .submitMatchResult .. => "submit_match_result"
  | .distributeReward .. => "distribute_reward"
  | .submitProposal .. => "submit_proposal"
  | .voteProposal .. => "vote_proposal"
  | .executeProposal .. => "execute_proposal"
  | .createSession .. => "create_session"
  | .revokeSession .. => "revoke_session"
  | .listForRent .. => "list_for_rent"
  | .rentAsset .. => "rent_asset"
  | .returnRental .. => "return_rental"
  | .claimExpiredRental .. => "claim_expired_rental"
  | .cancelRentalListing .. => "cancel_rental_listing"
  | .createGuild .. => "create_guild"
  | .joinGuild .. => "join_guild"
  | .leaveGuild .. => "leave_guild"
  | .guildDeposit .. => "guild_deposit"
  | .guildWithdraw .. => "guild_withdraw"
  | .guildPromote .. => "guild_promote"
  | .guildKick .. => "guild_kick"
  | .createTournament .. => "create_tournament"
  | .joinTournament .. => "join_tournament"
  | .startTournament .. => "start_tournament"
  | .reportTournamentResults .. => "report_tournament_results"
  | .claimTournamentPrize .. => "claim_tournament_prize"
  | .cancelTournament .. => "cancel_tournament"

instance : Borsh TransactionAction :=
  Borsh.tagged
    (fun
      | .transfer a b => ⟨0, Borsh.part (a, b)⟩
      | .createAssetClass a b c d e => ⟨1, Borsh.part (a, b, c, d, e)⟩
      | .mintAsset a b c d => ⟨2, Borsh.part (a, b, c, d)⟩
      | .transferAsset a b c => ⟨3, Borsh.part (a, b, c)⟩
      | .burnAsset a b => ⟨4, Borsh.part (a, b)⟩
      | .createListing a b c d => ⟨5, Borsh.part (a, b, c, d)⟩
      | .cancelListing a => ⟨6, Borsh.part a⟩
      | .buyListing a => ⟨7, Borsh.part a⟩
      | .createProfile a b c => ⟨8, Borsh.part (a, b, c)⟩
      | .addAchievement a b c d => ⟨9, Borsh.part (a, b, c, d)⟩
      | .updateReputation a b c => ⟨10, Borsh.part (a, b, c)⟩
      | .registerValidator a => ⟨11, Borsh.part a⟩
      | .delegateStake a b => ⟨12, Borsh.part (a, b)⟩
      | .undelegateStake a b => ⟨13, Borsh.part (a, b)⟩
      | .registerAttestor a b c => ⟨14, Borsh.part (a, b, c)⟩
      | .submitMatchResult a => ⟨15, Borsh.part a⟩
      | .distributeReward a b => ⟨16, Borsh.part (a, b)⟩
      | .submitProposal a b c d => ⟨17, Borsh.part (a, b, c, d)⟩
      | .voteProposal a b => ⟨18, Borsh.part (a, b)⟩
      | .executeProposal a => ⟨19, Borsh.part a⟩
      | .createSession a b c d => ⟨20, Borsh.part (a, b, c, d)⟩
      | .revokeSession a => ⟨21, Borsh.part a⟩
      | .listForRent a b c d e f => ⟨22, Borsh.part (a, b, c, d, e, f)⟩
      | .rentAsset a b => ⟨23, Borsh.part (a, b)⟩
      | .returnRental a => ⟨24, Borsh.part a⟩
      | .claimExpiredRental a => ⟨25, Borsh.part a⟩
      | .cancelRentalListing a => ⟨26, Borsh.part a⟩
      | .createGuild a b c => ⟨27, Borsh.part (a, b, c)⟩
      | .joinGuild a => ⟨28, Borsh.part a⟩
      | .leaveGuild a => ⟨29, Borsh.part a⟩
      | .guildDeposit a b => ⟨30, Borsh.part (a, b)⟩
      | .guildWithdraw a b => ⟨31, Borsh.part (a, b)⟩
      | .guildPromote a b c => ⟨32, Borsh.part (a, b, c)⟩
      | .guildKick a b => ⟨33, Borsh.part (a, b)⟩
      | .createTournament a b c d e f g => ⟨34, Borsh.part (a, b, c, d, e, f, g)⟩
      | .joinTournament a => ⟨35, Borsh.part a⟩
      | .startTournament a => ⟨36, Borsh.part a⟩
      | .reportTournamentResults a b => ⟨37, Borsh.part (a, b)⟩
      | .claimTournamentPrize a => ⟨38, Borsh.part a⟩
      | .cancelTournament a => ⟨39, Borsh.part a⟩)
    (fun t => match t.toNat with
      | 0 => Borsh.parse fun (a, b) => .transfer a b
      | 1 => Borsh.parse fun (a, b, c, d, e) => .createAssetClass a b c d e
      | 2 => Borsh.parse fun (a, b, c, d) => .mintAsset a b c d
      | 3 => Borsh.parse fun (a, b, c) => .transferAsset a b c
      | 4 => Borsh.parse fun (a, b) => .burnAsset a b
      | 5 => Borsh.parse fun (a, b, c, d) => .createListing a b c d
      | 6 => Borsh.parse fun a => .cancelListing a
      | 7 => Borsh.parse fun a => .buyListing a
      | 8 => Borsh.parse fun (a, b, c) => .createProfile a b c
      | 9 => Borsh.parse fun (a, b, c, d) => .addAchievement a b c d
      | 10 => Borsh.parse fun (a, b, c) => .updateReputation a b c
      | 11 => Borsh.parse fun a => .registerValidator a
      | 12 => Borsh.parse fun (a, b) => .delegateStake a b
      | 13 => Borsh.parse fun (a, b) => .undelegateStake a b
      | 14 => Borsh.parse fun (a, b, c) => .registerAttestor a b c
      | 15 => Borsh.parse fun a => .submitMatchResult a
      | 16 => Borsh.parse fun (a, b) => .distributeReward a b
      | 17 => Borsh.parse fun (a, b, c, d) => .submitProposal a b c d
      | 18 => Borsh.parse fun (a, b) => .voteProposal a b
      | 19 => Borsh.parse fun a => .executeProposal a
      | 20 => Borsh.parse fun (a, b, c, d) => .createSession a b c d
      | 21 => Borsh.parse fun a => .revokeSession a
      | 22 => Borsh.parse fun (a, b, c, d, e, f) => .listForRent a b c d e f
      | 23 => Borsh.parse fun (a, b) => .rentAsset a b
      | 24 => Borsh.parse fun a => .returnRental a
      | 25 => Borsh.parse fun a => .claimExpiredRental a
      | 26 => Borsh.parse fun a => .cancelRentalListing a
      | 27 => Borsh.parse fun (a, b, c) => .createGuild a b c
      | 28 => Borsh.parse fun a => .joinGuild a
      | 29 => Borsh.parse fun a => .leaveGuild a
      | 30 => Borsh.parse fun (a, b) => .guildDeposit a b
      | 31 => Borsh.parse fun (a, b) => .guildWithdraw a b
      | 32 => Borsh.parse fun (a, b, c) => .guildPromote a b c
      | 33 => Borsh.parse fun (a, b) => .guildKick a b
      | 34 => Borsh.parse fun (a, b, c, d, e, f, g) => .createTournament a b c d e f g
      | 35 => Borsh.parse fun a => .joinTournament a
      | 36 => Borsh.parse fun a => .startTournament a
      | 37 => Borsh.parse fun (a, b) => .reportTournamentResults a b
      | 38 => Borsh.parse fun a => .claimTournamentPrize a
      | 39 => Borsh.parse fun a => .cancelTournament a
      | _ => Borsh.reject)
    (by rintro ⟨⟩ rest h <;> exact Borsh.parse_part _ _ _ h)

end TransactionAction

/-! ## Transactions -/

/-- An unsigned transaction. -/
structure Transaction where
  chainId : String
  nonce : UInt64
  signer : Address
  action : TransactionAction
  maxFee : UInt64
  timestamp : UInt64
  session : Option Address
  sponsor : Option Address
deriving DecidableEq

namespace Transaction

instance : Borsh Transaction :=
  Borsh.xmap
    (fun t => (t.chainId, t.nonce, t.signer, t.action, t.maxFee, t.timestamp, t.session,
      t.sponsor))
    (fun (c, n, s, a, m, t, se, sp) => ⟨c, n, s, a, m, t, se, sp⟩) fun _ => rfl

/-- The canonical bytes that are signed; `none` when serialization fails, in
which case the source panics. -/
def signingBytes (t : Transaction) : Option (List UInt8) := Borsh.toVec t

end Transaction

/-- A transaction with its signature, its claimed hash and the signing key. -/
structure SignedTransaction where
  transaction : Transaction
  signature : Signature
  txHash : Hash
  signerPubkey : List UInt8
deriving DecidableEq

namespace SignedTransaction

def signer (t : SignedTransaction) : Address := t.transaction.signer

def nonce (t : SignedTransaction) : UInt64 := t.transaction.nonce

instance : Borsh SignedTransaction :=
  Borsh.xmap (fun t => (t.transaction, t.signature, t.txHash, t.signerPubkey))
    (fun (t, s, h, p) => ⟨t, s, h, p⟩) fun _ => rfl

end SignedTransaction

/-! ## Events and receipts -/

/-- A structured event emitted during execution. -/
structure Event where
  moduleName : String
  action : String
  attributes : List (String × String)
deriving DecidableEq

instance : Borsh Event :=
  Borsh.xmap (fun e => (e.moduleName, e.action, e.attributes)) (fun (m, a, l) => ⟨m, a, l⟩)
    fun _ => rfl

/-- Where in the chain a transaction was included. -/
structure TxLocation where
  blockHeight : UInt64
  txIndex : UInt32
deriving DecidableEq

instance : Borsh TxLocation :=
  Borsh.xmap (fun l => (l.blockHeight, l.txIndex)) (fun (h, i) => ⟨h, i⟩) fun _ => rfl

/-- The outcome of one executed transaction. -/
structure TransactionReceipt where
  txHash : Hash
  blockHeight : UInt64
  success : Bool
  feeUsed : UInt64
  gasUsed : UInt64
  feePayer : Address
  events : List Event
  error : Option String
deriving DecidableEq

namespace TransactionReceipt

def succeeded (txHash : Hash) (blockHeight feeUsed gasUsed : UInt64) (feePayer : Address)
    (events : List Event) : TransactionReceipt :=
  { txHash, blockHeight, success := true, feeUsed, gasUsed, feePayer, events, error := none }

def failure (txHash : Hash) (blockHeight feeUsed gasUsed : UInt64) (feePayer : Address)
    (error : String) : TransactionReceipt :=
  { txHash, blockHeight, success := false, feeUsed, gasUsed, feePayer, events := [],
    error := some error }

instance : Borsh TransactionReceipt :=
  Borsh.xmap
    (fun r => (r.txHash, r.blockHeight, r.success, r.feeUsed, r.gasUsed, r.feePayer, r.events,
      r.error))
    (fun (t, h, s, f, g, p, e, er) => ⟨t, h, s, f, g, p, e, er⟩) fun _ => rfl

end TransactionReceipt

/-! ## Blocks -/

/-- A block header. -/
structure BlockHeader where
  height : UInt64
  timestamp : UInt64
  parentHash : Hash
  stateRoot : Hash
  transactionsRoot : Hash
  proposer : Address
  chainId : String
  hash : Hash
deriving DecidableEq

namespace BlockHeader

instance : Borsh BlockHeader :=
  Borsh.xmap
    (fun h => (h.height, h.timestamp, h.parentHash, h.stateRoot, h.transactionsRoot,
      h.proposer, h.chainId, h.hash))
    (fun (a, b, c, d, e, f, g, h) => ⟨a, b, c, d, e, f, g, h⟩) fun _ => rfl

/-- The bytes a block hash is computed over: the header with a zeroed hash. -/
def hashInputBytes (h : BlockHeader) : Option (List UInt8) :=
  Borsh.toVec { h with hash := Hash.zero }

end BlockHeader

/-- A header and its transactions in execution order. -/
structure Block where
  header : BlockHeader
  transactions : List SignedTransaction
deriving DecidableEq

namespace Block

def height (b : Block) : UInt64 := b.header.height

def hash (b : Block) : Hash := b.header.hash

instance : Borsh Block :=
  Borsh.xmap (fun b => (b.header, b.transactions)) (fun (h, t) => ⟨h, t⟩) fun _ => rfl

end Block

end Polay.Types
