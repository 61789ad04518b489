import Polay.Lib.Prog
import Polay.State.Key

/-!
# The state store, its view and its writer

The store is a sorted map from keys to the records filed under them. Programs
over it are terms of `Exec`; the typed accessors below are the only operations
the execution layer uses. A setter files a record under the record's own
identifiers, so a stored record always carries the identifiers of its key.

Storage is total here: an accessor of the source can also fail with an input or
output error of the database or with bytes that do not decode, and a record
with more than `2 ^ 32 - 1` elements in one list does not serialize. These
failures are outside the model.
-/

namespace Polay.State

open Lib Polay.Types Polay.Types.Governance

/-- The chain state. -/
abbrev StateStore := Store Key.Value Key.cmp

/-- A program over the chain state. -/
abbrev Exec (ε α : Type) := Prog Key Key.Value ε α

variable {ε : Type}

/-! ## Raw access -/

/-- Read the record under a key. -/
def storeGet (k : Key) : Exec ε (Option k.Record) := .get k fun r => .pure (r.map (·.val))

/-- Write a record under a key it belongs to. -/
def storePut (k : Key) (r : k.Record) (h : k.Files r) : Exec ε Unit := .put k ⟨r, h⟩ (.pure ())

def storeDelete (k : Key) : Exec ε Unit := .delete k (.pure ())

/-- The entries whose key starts with the given bytes, in byte order. -/
def prefixScan (start : List UInt8) : Exec ε (List (Sigma Key.Value)) :=
  .scan (Key.startsWith start) .pure

/-! ## Accounts and assets -/

def getAccount (addr : Address) : Exec ε (Option AccountState) := storeGet (.account addr)

def setAccount (account : AccountState) : Exec ε Unit :=
  storePut (.account account.address) account rfl

/-- The account, or a fresh one created at the given time. -/
def getAccountOrNew (addr : Address) (createdAt : UInt64) : Exec ε AccountState := do
  let account ← getAccount addr
  return account.getD (AccountState.new addr createdAt)

def getAssetClass (id : Hash) : Exec ε (Option AssetClass) := storeGet (.assetClass id)

def setAssetClass (assetClass : AssetClass) : Exec ε Unit :=
  storePut (.assetClass assetClass.id) assetClass rfl

def getAssetBalance (assetClassId : Hash) (owner : Address) : Exec ε UInt64 := do
  let val ← storeGet (.assetBalance assetClassId owner)
  return val.getD (0 : UInt64)

def setAssetBalance (assetClassId : Hash) (owner : Address) (balance : UInt64) : Exec ε Unit :=
  storePut (.assetBalance assetClassId owner) balance trivial

/-! ## Validators and staking -/

def getValidator (addr : Address) : Exec ε (Option ValidatorInfo) := storeGet (.validator addr)

def setValidator (info : ValidatorInfo) : Exec ε Unit :=
  storePut (.validator info.address) info rfl

def getDelegation (delegator validator : Address) : Exec ε (Option Delegation) :=
  storeGet (.delegation delegator validator)

def setDelegation (delegation : Delegation) : Exec ε Unit :=
  storePut (.delegation delegation.delegator delegation.validator) delegation ⟨rfl, rfl⟩

/-- The bytes every key of an unbonding entry of the delegator starts with. -/
def unbondingPrefix (delegator : Address) : List UInt8 := 0x0D :: Borsh.encode delegator

/-- The entry stored under an unbonding key. -/
def unbondingEntry? : Sigma Key.Value → Option UnbondingEntry
  | ⟨.unbonding _ _ _, entry⟩ => some entry.val
  | _ => none

def getUnbondingEntries (delegator : Address) : Exec ε (List UnbondingEntry) := do
  let pairs ← prefixScan (unbondingPrefix delegator)
  return pairs.filterMap unbondingEntry?

/-- Write an unbonding entry and its record in the maturation index. -/
def setUnbondingEntry (entry : UnbondingEntry) (index : UInt8) : Exec ε Unit := do
  storePut (.unbonding entry.delegator entry.completionHeight index) entry ⟨rfl, rfl⟩
  storePut (.unbondingIndex entry.completionHeight entry.delegator index) entry ⟨rfl, rfl⟩

def deleteUnbondingEntry (delegator : Address) (completionHeight : UInt64) (index : UInt8) :
    Exec ε Unit := do
  storeDelete (.unbonding delegator completionHeight index)
  storeDelete (.unbondingIndex completionHeight delegator index)

def unbondingIndexPrefix : List UInt8 := [0x0E]

/-- The entries of the maturation index up to the first that completes after
`currentHeight`, each with its index number. -/
def matureOf (currentHeight : UInt64) : List (Sigma Key.Value) → List (UnbondingEntry × UInt8)
  | ⟨.unbondingIndex completionHeight _ index, entry⟩ :: rest =>
      if currentHeight < completionHeight then []
      else (entry.val, index) :: matureOf currentHeight rest
  | _ :: rest => matureOf currentHeight rest
  | [] => []

def getMatureUnbondings (currentHeight : UInt64) : Exec ε (List (UnbondingEntry × UInt8)) := do
  let pairs ← prefixScan unbondingIndexPrefix
  return matureOf currentHeight pairs

/-! ## Marketplace, identity and attestation -/

def getListing (id : Hash) : Exec ε (Option Listing) := storeGet (.listing id)

def setListing (listing : Listing) : Exec ε Unit := storePut (.listing listing.id) listing rfl

def getProfile (addr : Address) : Exec ε (Option PlayerProfile) := storeGet (.profile addr)

def setProfile (profile : PlayerProfile) : Exec ε Unit :=
  storePut (.profile profile.address) profile rfl

def setAchievement (achievement : Achievement) : Exec ε Unit :=
  storePut (.achievement achievement.player achievement.id) achievement ⟨rfl, rfl⟩

def getAttestor (addr : Address) : Exec ε (Option Attestor) := storeGet (.attestor addr)

def setAttestor (attestor : Attestor) : Exec ε Unit :=
  storePut (.attestor attestor.address) attestor rfl

def getMatchResult (id : Hash) : Exec ε (Option MatchResult) := storeGet (.matchResult id)

def setMatchResult (result : MatchResult) : Exec ε Unit :=
  storePut (.matchResult result.matchId) result rfl

def getMatchSettlement (id : Hash) : Exec ε (Option MatchSettlement) :=
  storeGet (.matchSettlement id)

def setMatchSettlement (settlement : MatchSettlement) : Exec ε Unit :=
  storePut (.matchSettlement settlement.matchId) settlement rfl

/-! ## Governance -/

def getProposal (id : Hash) : Exec ε (Option Proposal) := storeGet (.proposal id)

def setProposal (proposal : Proposal) : Exec ε Unit :=
  storePut (.proposal proposal.id) proposal rfl

def getVote (proposalId : Hash) (voter : Address) : Exec ε (Option Vote) :=
  storeGet (.vote proposalId voter)

def setVote (vote : Vote) : Exec ε Unit :=
  storePut (.vote vote.proposalId vote.voter) vote ⟨rfl, rfl⟩

def getProposalList : Exec ε (List Hash) := do
  let val ← storeGet .proposalList
  return val.getD ([] : List Hash)

def setProposalList (list : List Hash) : Exec ε Unit := storePut .proposalList list trivial

/-! ## Rentals, guilds, tournaments and sessions -/

def getRental (rentalId : Hash) : Exec ε (Option Rental) := storeGet (.rental rentalId)

/-- Write a rental and its markers under the owner and, if there is one, the renter. -/
def setRental (rental : Rental) : Exec ε Unit := do
  storePut (.rental rental.rentalId) rental rfl
  storePut (.rentalByOwner rental.owner rental.rentalId) true trivial
  match rental.renter with
  | some renter => storePut (.rentalByRenter renter rental.rentalId) true trivial
  | none => return ()

def getGuild (guildId : Hash) : Exec ε (Option Guild) := storeGet (.guild guildId)

def setGuild (guild : Guild) : Exec ε Unit := storePut (.guild guild.guildId) guild rfl

def deleteGuild (guildId : Hash) : Exec ε Unit := storeDelete (.guild guildId)

def getGuildMembership (guildId : Hash) (member : Address) :
    Exec ε (Option GuildMembership) :=
  storeGet (.guildMember guildId member)

/-- Write a membership and its reverse marker. -/
def setGuildMembership (membership : GuildMembership) : Exec ε Unit := do
  storePut (.guildMember membership.guildId membership.member) membership ⟨rfl, rfl⟩
  storePut (.memberGuilds membership.member membership.guildId) true trivial

def deleteGuildMembership (guildId : Hash) (member : Address) : Exec ε Unit := do
  storeDelete (.guildMember guildId member)
  storeDelete (.memberGuilds member guildId)

def getTournament (tournamentId : Hash) : Exec ε (Option Tournament) :=
  storeGet (.tournament tournamentId)

def setTournament (tournament : Tournament) : Exec ε Unit :=
  storePut (.tournament tournament.tournamentId) tournament rfl

def isTournamentParticipant (tournamentId : Hash) (participant : Address) : Exec ε Bool := do
  let val ← storeGet (.tournamentParticipant tournamentId participant)
  return val.getD false

def setTournamentParticipant (tournamentId : Hash) (participant : Address) : Exec ε Unit :=
  storePut (.tournamentParticipant tournamentId participant) true trivial

def getSession (granter sessionAddress : Address) : Exec ε (Option SessionGrant) :=
  storeGet (.session granter sessionAddress)

def setSession (grant : SessionGrant) : Exec ε Unit :=
  storePut (.session grant.granter grant.sessionAddress) grant ⟨rfl, rfl⟩

/-! ## Chain records -/

def setReceipt (receipt : TransactionReceipt) : Exec ε Unit :=
  storePut (.receipt receipt.txHash) receipt rfl

def setTxLocation (txHash : Hash) (location : TxLocation) : Exec ε Unit :=
  storePut (.txBlockIndex txHash) location trivial

def setBlockEvents (height : UInt64) (events : List Event) : Exec ε Unit :=
  storePut (.blockEvents height) events trivial

def setEpochInfo (info : EpochInfo) : Exec ε Unit := storePut (.epoch info.epoch) info rfl

def getActiveValidatorSet : Exec ε (Option (List Address)) := storeGet .activeValidatorSet

def setActiveValidatorSet (validators : List Address) : Exec ε Unit :=
  storePut .activeValidatorSet validators trivial

def getSupplyInfo : Exec ε (Option SupplyInfo) := storeGet .supplyInfo

def setSupplyInfo (info : SupplyInfo) : Exec ε Unit := storePut .supplyInfo info trivial

def getChainHeight : Exec ε UInt64 := do
  let val ← storeGet .chainHeight
  return val.getD (0 : UInt64)

def setChainHeight (height : UInt64) : Exec ε Unit := storePut .chainHeight height trivial

def setLatestHash (hash : Hash) : Exec ε Unit := storePut .latestHash hash trivial

def storeBlock (block : Block) : Exec ε Unit :=
  storePut (.block block.header.height) block rfl

end Polay.State
