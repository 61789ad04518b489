import Polay.Execution.Modules.Assets

/-!
# Identity, attestation, sessions, guilds and tournaments

The handlers of the gaming side. Two of them can panic: reporting the results
of a tournament indexes the first ranking after the tournament was written, and
claiming a prize indexes the claim and prize tables at the rank of the signer.
-/

namespace Polay.Execution

open Lib Lib.Machine Lib.Bytes Polay.Types State

/-! ## Identity -/

namespace Identity

def executeCreateProfile (signer : Address) (username displayName : String)
    (metadata : Option String) (timestamp : UInt64) : Handler (List Event) := do
  let existing ← getProfile signer
  Prog.ensure (existing.isNone) .profileAlreadyExists
  setProfile (PlayerProfile.new signer username displayName metadata timestamp)
  return [Event.profileCreated signer username]

/-- Award an achievement; the signer must be a registered attestor. -/
def executeAddAchievement (signer player : Address) (achievementId name metadata : String)
    (timestamp : UInt64) : Handler (List Event) := do
  let attestor ← getAttestor signer
  Prog.ensure (attestor.isSome) .unauthorized
  setAchievement
    { id := achievementId, player, name, metadata, awardedAt := timestamp, soulbound := true }
  return [Event.achievementAwarded player achievementId name]

/-- Adjust a player's reputation; a minimal profile is created if there is none. -/
def executeUpdateReputation (signer player : Address) (delta : Int64) (timestamp : UInt64) :
    Handler (List Event) := do
  let attestor ← getAttestor signer
  Prog.ensure (attestor.isSome) .unauthorized
  let profile ← getProfile player
  let profile := profile.getD
    (PlayerProfile.new player player.toHex "Anonymous" none timestamp)
  let profile := profile.adjustReputation delta
  setProfile profile
  return [Event.reputationChanged player delta profile.reputation]

end Identity

/-! ## Attestation -/

namespace Attestation

def executeRegisterAttestor (signer : Address) (gameId endpoint metadata : String)
    (timestamp : UInt64) : Handler (List Event) := do
  let existing ← getAttestor signer
  Prog.ensure (existing.isNone) .attestorAlreadyRegistered
  setAttestor
    { address := signer, gameId, endpoint, metadata, status := .active,
      registeredAt := timestamp }
  return [⟨"attestation", "attestor_registered",
    [("address", signer.toHex), ("game_id", gameId)]⟩]

/-- Whether the anti-cheat score, if any, is below the threshold. -/
def isQuarantined (threshold : UInt8) (score : Option UInt8) : Bool :=
  match score with
  | some score => decide (score < threshold)
  | none => false

def executeSubmitMatchResult (config : ChainConfig) (signer : Address)
    (matchResult : MatchResult) (timestamp : UInt64) : Handler (List Event) := do
  let attestor ← getAttestor signer
  let attestor ← Prog.require attestor .attestorNotFound
  Prog.ensure (attestor.canSubmit) .attestorNotActive
  Prog.ensure (attestor.gameId = matchResult.gameId) .unauthorized
  Prog.ensure (matchResult.isWellFormed)
    (.invalidMatchResult "players/scores/winners inconsistent")
  setMatchResult matchResult
  setMatchSettlement
    { matchId := matchResult.matchId, settled := false, rewardsDistributed := [],
      quarantined :=
        isQuarantined config.attestationQuarantineThreshold matchResult.antiCheatScore
      settledAt := timestamp }
  return [Event.matchResultSubmitted matchResult.matchId matchResult.gameId]

/-- The wrapping sum of the rewards. -/
def totalRewards (rewards : List (Address × UInt64)) : UInt64 :=
  rewards.foldl (fun total r => total + r.2) 0

def executeDistributeReward (signer : Address) (matchId : Hash)
    (rewards : List (Address × UInt64)) (timestamp : UInt64) : Handler (List Event) := do
  let settlement ← getMatchSettlement matchId
  let settlement ← Prog.require settlement .matchSettlementNotFound
  Prog.ensure (¬ settlement.settled) .matchAlreadySettled
  Prog.ensure (¬ settlement.quarantined) .matchQuarantined
  let attestor ← getAttestor signer
  let attestor ← Prog.require attestor .attestorNotFound
  let matchResult ← getMatchResult matchId
  let matchResult ← Prog.require matchResult .matchResultNotFound
  Prog.ensure (attestor.gameId = matchResult.gameId) .unauthorized
  let totalDistributed := totalRewards rewards
  Prog.ensure (¬ matchResult.rewardPool < totalDistributed)
    (.rewardPoolExceeded matchResult.rewardPool totalDistributed)
  Prog.each (fun r => creditOrCreate r.1 timestamp r.2) rewards
  setMatchSettlement
    { settlement with settled := true, rewardsDistributed := rewards, settledAt := timestamp }
  return [Event.rewardsDistributed matchId totalDistributed]

end Attestation

/-! ## Sessions -/

namespace Sessions

/-- The address of a session key: the hash of its public key. -/
def sessionAddressOf (sha256 : List UInt8 → Hash) (sessionPubkey : List UInt8) : Address :=
  ⟨(sha256 sessionPubkey).toFixedBytes⟩

/-- Whether a stored grant is still usable. -/
def isActiveGrant (grant : Option SessionGrant) (currentHeight : UInt64) : Bool :=
  match grant with
  | some grant => grant.isValid currentHeight
  | none => false

def executeCreateSession (sha256 : List UInt8 → Hash) (signer : Address)
    (sessionPubkey : List UInt8) (permissions : SessionPermission)
    (expiresAt spendingLimit currentHeight : UInt64) : Handler (List Event) := do
  let pubkeyLen := sessionPubkey.length
  Prog.ensure (pubkeyLen = 32)
    (.invalidSessionPubkey s!"expected 32 bytes, got {pubkeyLen}")
  let sessionAddress := sessionAddressOf sha256 sessionPubkey
  Prog.ensure (¬ expiresAt ≤ currentHeight)
    (.invalidInput (s!"session expires_at ({expiresAt}) must be greater than " ++
      s!"current height ({currentHeight})"))
  let existing ← getSession signer sessionAddress
  Prog.ensure (¬ isActiveGrant existing currentHeight) .sessionAlreadyExists
  setSession
    { granter := signer, sessionPubkey, sessionAddress, permissions, expiresAt, spendingLimit,
      amountSpent := 0, revoked := false, createdAt := currentHeight }
  return [Event.sessionCreated signer sessionAddress expiresAt]

def executeRevokeSession (signer sessionAddress : Address) : Handler (List Event) := do
  let grant ← getSession signer sessionAddress
  let grant ← Prog.require grant .sessionNotFound
  Prog.ensure (grant.granter = signer) .unauthorized
  Prog.ensure (¬ grant.revoked) .sessionRevoked
  setSession { grant with revoked := true }
  return [Event.sessionRevoked signer sessionAddress]

end Sessions

/-! ## Guilds -/

namespace Guilds

def executeCreateGuild (sha256 : List UInt8 → Hash) (signer : Address)
    (name description : String) (maxMembers : UInt32) (timestamp : UInt64) :
    Handler (Hash × List Event) := do
  let guildId := sha256 (signer.data ++ Borsh.utf8 name ++ toLeBytes timestamp)
  setGuild
    { guildId, name, description, leader := signer, treasuryBalance := 0, memberCount := 1,
      maxMembers, createdAt := timestamp }
  setGuildMembership { guildId, member := signer, role := .leader, joinedAt := timestamp }
  return (guildId, [Event.guildCreated signer guildId name])

def executeJoinGuild (signer : Address) (guildId : Hash) (blockHeight : UInt64) :
    Handler (List Event) := do
  let guild ← getGuild guildId
  let guild ← Prog.require guild .guildNotFound
  let membership ← getGuildMembership guildId signer
  Prog.ensure (membership.isNone) .alreadyGuildMember
  Prog.ensure (¬ guild.maxMembers ≤ guild.memberCount) (.guildFull guild.maxMembers)
  setGuild { guild with memberCount := guild.memberCount + 1 }
  setGuildMembership { guildId, member := signer, role := .member, joinedAt := blockHeight }
  return [Event.guildJoined signer guildId]

/-- Write a guild back, or delete it once it has no members. -/
def storeOrDeleteGuild (guildId : Hash) (guild : Guild) : Handler Unit :=
  if guild.memberCount = 0 then deleteGuild guildId else setGuild guild

def executeLeaveGuild (signer : Address) (guildId : Hash) : Handler (List Event) := do
  let guild ← getGuild guildId
  let guild ← Prog.require guild .guildNotFound
  let membership ← getGuildMembership guildId signer
  let membership ← Prog.require membership .notGuildMember
  Prog.ensure (membership.role ≠ .leader) .leaderCannotLeave
  deleteGuildMembership guildId signer
  storeOrDeleteGuild guildId { guild with memberCount := guild.memberCount - 1 }
  return [Event.guildLeft signer guildId]

def executeGuildDeposit (signer : Address) (guildId : Hash) (amount : UInt64) :
    Handler (List Event) := do
  let guild ← getGuild guildId
  let guild ← Prog.require guild .guildNotFound
  let membership ← getGuildMembership guildId signer
  Prog.ensure (membership.isSome) .notGuildMember
  let account ← loadAccount signer
  let account ← debited account amount
  setAccount account
  setGuild { guild with treasuryBalance := guild.treasuryBalance + amount }
  return [Event.guildDeposit signer guildId amount]

def executeGuildWithdraw (signer : Address) (guildId : Hash) (amount : UInt64) :
    Handler (List Event) := do
  let guild ← getGuild guildId
  let guild ← Prog.require guild .guildNotFound
  let membership ← getGuildMembership guildId signer
  let membership ← Prog.require membership .notGuildMember
  Prog.ensure (membership.role ≠ .member) .notAuthorized
  Prog.ensure (¬ guild.treasuryBalance < amount)
    (.insufficientTreasuryBalance amount guild.treasuryBalance)
  let account ← loadAccount signer
  setGuild { guild with treasuryBalance := guild.treasuryBalance - amount }
  setAccount { account with balance := account.balance + amount }
  return [Event.guildWithdrawal signer guildId amount]

/-- The role a text names. The source lowers the text by the rules of Unicode;
only the letters `A` to `Z` lower to letters of the two words. -/
def parseRole (role : String) : Option GuildRole :=
  if role.toLower = "officer" then some .officer
  else if role.toLower = "member" then some .member
  else none

def executeGuildPromote (signer : Address) (guildId : Hash) (member : Address)
    (role : String) : Handler (List Event) := do
  let guild ← getGuild guildId
  let _ ← Prog.require guild .guildNotFound
  let signerMembership ← getGuildMembership guildId signer
  let signerMembership ← Prog.require signerMembership .notGuildMember
  Prog.ensure (signerMembership.role = .leader) .notAuthorized
  let targetMembership ← getGuildMembership guildId member
  let targetMembership ← Prog.require targetMembership .notGuildMember
  let newRole ← Prog.require (parseRole role) (.invalidGuildRole role)
  setGuildMembership { targetMembership with role := newRole }
  return [Event.guildMemberPromoted member guildId role]

def executeGuildKick (signer : Address) (guildId : Hash) (member : Address) :
    Handler (List Event) := do
  let guild ← getGuild guildId
  let guild ← Prog.require guild .guildNotFound
  let signerMembership ← getGuildMembership guildId signer
  let signerMembership ← Prog.require signerMembership .notGuildMember
  Prog.ensure (signerMembership.role ≠ .member) .notAuthorized
  let targetMembership ← getGuildMembership guildId member
  let targetMembership ← Prog.require targetMembership .notGuildMember
  Prog.ensure (targetMembership.role ≠ .leader) .cannotKickLeader
  Prog.ensure (¬ (signerMembership.role = .officer ∧ targetMembership.role = .officer))
    .notAuthorized
  deleteGuildMembership guildId member
  setGuild { guild with memberCount := guild.memberCount - 1 }
  return [Event.guildMemberKicked member guildId]

end Guilds

/-! ## Tournaments -/

namespace Tournaments

def executeCreateTournament (sha256 : List UInt8 → Hash) (signer : Address)
    (name gameId : String) (entryFee : UInt64) (maxParticipants minParticipants : UInt32)
    (startHeight : UInt64) (prizeDistribution : List UInt32) (timestamp : UInt64) :
    Handler (Hash × List Event) := do
  Prog.ensure (¬ 100 < prizeDistribution.length)
    (.invalidInput "prize_distribution must have at most 100 entries")
  let tournamentId := sha256 (signer.data ++ Borsh.utf8 name ++ toLeBytes startHeight)
  setTournament
    { tournamentId, name, organizer := signer, gameId, entryFee, prizePool := 0,
      maxParticipants, minParticipants, participants := [], status := .registration,
      startHeight, endHeight := none, prizeDistribution, rankings := [], prizesClaimed := [],
      createdAt := timestamp }
  return (tournamentId, [Event.tournamentCreated signer tournamentId name])

/-- Take an entry fee from an account. -/
def payEntryFee (signer : Address) (entryFee : UInt64) : Handler Unit := do
  let account ← loadAccount signer
  let account ← debited account entryFee
  setAccount account

def executeJoinTournament (signer : Address) (tournamentId : Hash) : Handler (List Event) := do
  let tournament ← getTournament tournamentId
  let tournament ← Prog.require tournament .tournamentNotFound
  Prog.ensure (tournament.status = .registration) .tournamentNotInRegistration
  let currentHeight ← getChainHeight
  Prog.ensure (¬ tournament.startHeight ≤ currentHeight) .registrationClosed
  let joined ← isTournamentParticipant tournamentId signer
  Prog.ensure (¬ joined) .alreadyRegistered
  Prog.ensure (¬ tournament.maxParticipants.toNat ≤ tournament.participants.length)
    .tournamentFull
  Prog.when (0 < tournament.entryFee) (payEntryFee signer tournament.entryFee)
  setTournament
    { tournament with
      prizePool := tournament.prizePool + tournament.entryFee
      participants := tournament.participants ++ [signer] }
  setTournamentParticipant tournamentId signer
  return [Event.tournamentJoined signer tournamentId]

def executeStartTournament (tournamentId : Hash) (blockHeight : UInt64) :
    Handler (List Event) := do
  let tournament ← getTournament tournamentId
  let tournament ← Prog.require tournament .tournamentNotFound
  Prog.ensure (tournament.status = .registration) .tournamentNotInRegistration
  Prog.ensure (¬ blockHeight < tournament.startHeight) .registrationClosed
  Prog.ensure (¬ tournament.participants.length < tournament.minParticipants.toNat)
    .notEnoughParticipants
  setTournament { tournament with status := .active }
  return [Event.tournamentStarted tournamentId (UInt32.ofNat tournament.participants.length)]

/-- Report the rankings. The winner is read from the first ranking after the
tournament was written, so an empty list panics with the write in place. -/
def executeReportTournamentResults (signer : Address) (tournamentId : Hash)
    (rankings : List Address) (blockHeight : UInt64) : Handler (List Event) := do
  let tournament ← getTournament tournamentId
  let tournament ← Prog.require tournament .tournamentNotFound
  Prog.ensure (tournament.status = .active) .tournamentNotActive
  Prog.ensure (signer = tournament.organizer) .notOrganizer
  Prog.ensure (rankings.all fun addr => tournament.participants.contains addr)
    .invalidRankings
  Prog.ensure (¬ tournament.prizeDistribution.length < rankings.length) .invalidRankings
  setTournament
    { tournament with
      rankings
      prizesClaimed := List.replicate rankings.length false
      endHeight := some blockHeight
      status := .completed }
  let winner ← Prog.unwrap rankings[0]?
  return [Event.tournamentResultsReported tournamentId winner]

/-- The rank of an address. -/
def rankOf (rankings : List Address) (addr : Address) : Option Nat :=
  rankings.findIdx? (· = addr)

/-- Claim the prize of the signer's rank; the product wraps. -/
def executeClaimTournamentPrize (signer : Address) (tournamentId : Hash) :
    Handler (List Event) := do
  let tournament ← getTournament tournamentId
  let tournament ← Prog.require tournament .tournamentNotFound
  Prog.ensure (tournament.status = .completed) .tournamentNotCompleted
  let index ← Prog.require (rankOf tournament.rankings signer) .notRanked
  let claimed ← Prog.unwrap tournament.prizesClaimed[index]?
  Prog.ensure (¬ claimed) .prizeAlreadyClaimed
  let share ← Prog.unwrap tournament.prizeDistribution[index]?
  let prize := tournament.prizePool * share.toUInt64 / 100
  let account ← getAccountOrNew signer 0
  setAccount { account with balance := account.balance + prize }
  setTournament { tournament with prizesClaimed := tournament.prizesClaimed.set index true }
  return [Event.tournamentPrizeClaimed signer tournamentId prize]

/-- Give one entry fee back; the balance wraps. -/
def refundEntryFee (entryFee : UInt64) (participant : Address) : Handler Unit := do
  let account ← getAccountOrNew participant 0
  setAccount { account with balance := account.balance + entryFee }

def executeCancelTournament (signer : Address) (tournamentId : Hash) :
    Handler (List Event) := do
  let tournament ← getTournament tournamentId
  let tournament ← Prog.require tournament .tournamentNotFound
  Prog.ensure (tournament.status = .registration) .cannotCancelActiveTournament
  Prog.ensure (signer = tournament.organizer) .notOrganizer
  let refundedCount := UInt32.ofNat tournament.participants.length
  Prog.when (0 < tournament.entryFee)
    (Prog.each (refundEntryFee tournament.entryFee) tournament.participants)
  setTournament { tournament with status := .cancelled, prizePool := 0 }
  return [Event.tournamentCancelled tournamentId refundedCount]

end Tournaments

end Polay.Execution
