import Polay.Lib.Machine
import Polay.Types.Primitives

/-!
# Profiles, sessions, guilds, tournaments and match attestations

The records of the gaming side of the chain, with the methods the execution
layer calls on them.
-/

namespace Polay.Types

open Lib Lib.Machine

/-! ## Identity -/

/-- A player's public profile. -/
structure PlayerProfile where
  address : Address
  username : String
  displayName : String
  reputation : Int64
  metadata : Option String
  createdAt : UInt64
deriving DecidableEq

namespace PlayerProfile

def new (address : Address) (username displayName : String) (metadata : Option String)
    (createdAt : UInt64) : PlayerProfile :=
  { address, username, displayName, reputation := 0, metadata, createdAt }

/-- Change the reputation, saturating at both ends of the 64-bit range. -/
def adjustReputation (p : PlayerProfile) (delta : Int64) : PlayerProfile :=
  { p with reputation := saturatingAddSigned p.reputation delta }

instance : Borsh PlayerProfile :=
  Borsh.xmap
    (fun p => (p.address, p.username, p.displayName, p.reputation, p.metadata, p.createdAt))
    (fun (a, u, d, r, m, c) => ⟨a, u, d, r, m, c⟩) fun _ => rfl

end PlayerProfile

/-- An achievement bound to one player. -/
structure Achievement where
  id : String
  player : Address
  name : String
  metadata : String
  awardedAt : UInt64
  soulbound : Bool
deriving DecidableEq

instance : Borsh Achievement :=
  Borsh.xmap (fun a => (a.id, a.player, a.name, a.metadata, a.awardedAt, a.soulbound))
    (fun (i, p, n, m, a, s) => ⟨i, p, n, m, a, s⟩) fun _ => rfl

/-! ## Session keys -/

/-- What a session key may do: everything, or the listed action labels. -/
inductive SessionPermission where
  | all
  | actions (allowed : List String)
deriving DecidableEq

instance : Borsh SessionPermission :=
  Borsh.xmap (fun | .all => none | .actions l => some l)
    (fun | none => .all | some l => .actions l) (by rintro ⟨⟩ <;> rfl)

/-- A granter's permission for a session key to act on its behalf. -/
structure SessionGrant where
  granter : Address
  sessionPubkey : List UInt8
  sessionAddress : Address
  permissions : SessionPermission
  expiresAt : UInt64
  spendingLimit : UInt64
  amountSpent : UInt64
  revoked : Bool
  createdAt : UInt64
deriving DecidableEq

namespace SessionGrant

def isValid (g : SessionGrant) (currentHeight : UInt64) : Bool :=
  !g.revoked && decide (currentHeight ≤ g.expiresAt)

def isActionPermitted (g : SessionGrant) (actionLabel : String) : Bool :=
  match g.permissions with
  | .all => true
  | .actions allowed => allowed.any (· == actionLabel)

def canSpend (g : SessionGrant) (amount : UInt64) : Bool :=
  decide (saturatingAdd g.amountSpent amount ≤ g.spendingLimit)

instance : Borsh SessionGrant :=
  Borsh.xmap
    (fun g => (g.granter, g.sessionPubkey, g.sessionAddress, g.permissions, g.expiresAt,
      g.spendingLimit, g.amountSpent, g.revoked, g.createdAt))
    (fun (g, pk, a, p, e, l, s, r, c) => ⟨g, pk, a, p, e, l, s, r, c⟩) fun _ => rfl

end SessionGrant

/-! ## Guilds -/

inductive GuildRole where
  | leader
  | officer
  | member
deriving DecidableEq

instance : Borsh GuildRole :=
  Borsh.ofTag (fun | .leader => 0 | .officer => 1 | .member => 2)
    (fun t => if t = 0 then some .leader else if t = 1 then some .officer
      else if t = 2 then some .member else none)
    (by rintro ⟨⟩ <;> rfl)

/-- A guild and its treasury. -/
structure Guild where
  guildId : Hash
  name : String
  description : String
  leader : Address
  treasuryBalance : UInt64
  memberCount : UInt32
  maxMembers : UInt32
  createdAt : UInt64
deriving DecidableEq

instance : Borsh Guild :=
  Borsh.xmap
    (fun g => (g.guildId, g.name, g.description, g.leader, g.treasuryBalance, g.memberCount,
      g.maxMembers, g.createdAt))
    (fun (i, n, d, l, t, m, mm, c) => ⟨i, n, d, l, t, m, mm, c⟩) fun _ => rfl

/-- One member of one guild. -/
structure GuildMembership where
  guildId : Hash
  member : Address
  role : GuildRole
  joinedAt : UInt64
deriving DecidableEq

instance : Borsh GuildMembership :=
  Borsh.xmap (fun m => (m.guildId, m.member, m.role, m.joinedAt))
    (fun (g, m, r, j) => ⟨g, m, r, j⟩) fun _ => rfl

/-! ## Tournaments -/

inductive TournamentStatus where
  | registration
  | active
  | completed
  | cancelled
deriving DecidableEq

instance : Borsh TournamentStatus :=
  Borsh.ofTag (fun | .registration => 0 | .active => 1 | .completed => 2 | .cancelled => 3)
    (fun t => if t = 0 then some .registration else if t = 1 then some .active
      else if t = 2 then some .completed else if t = 3 then some .cancelled else none)
    (by rintro ⟨⟩ <;> rfl)

/-- A tournament with its entry fees and prize table. -/
structure Tournament where
  tournamentId : Hash
  name : String
  organizer : Address
  gameId : String
  entryFee : UInt64
  prizePool : UInt64
  maxParticipants : UInt32
  minParticipants : UInt32
  participants : List Address
  status : TournamentStatus
  startHeight : UInt64
  endHeight : Option UInt64
  prizeDistribution : List UInt32
  rankings : List Address
  prizesClaimed : List Bool
  createdAt : UInt64
deriving DecidableEq

instance : Borsh Tournament :=
  Borsh.xmap
    (fun t => (t.tournamentId, t.name, t.organizer, t.gameId, t.entryFee, t.prizePool,
      t.maxParticipants, t.minParticipants, t.participants, t.status, t.startHeight,
      t.endHeight, t.prizeDistribution, t.rankings, t.prizesClaimed, t.createdAt))
    (fun (i, n, o, g, f, p, ma, mi, ps, st, s, e, d, r, c, ca) =>
      ⟨i, n, o, g, f, p, ma, mi, ps, st, s, e, d, r, c, ca⟩) fun _ => rfl

/-! ## Match attestation -/

inductive AttestorStatus where
  | active
  | suspended
  | revoked
deriving DecidableEq

instance : Borsh AttestorStatus :=
  Borsh.ofTag (fun | .active => 0 | .suspended => 1 | .revoked => 2)
    (fun t => if t = 0 then some .active else if t = 1 then some .suspended
      else if t = 2 then some .revoked else none)
    (by rintro ⟨⟩ <;> rfl)

/-- A game server allowed to report match results. -/
structure Attestor where
  address : Address
  gameId : String
  endpoint : String
  metadata : String
  status : AttestorStatus
  registeredAt : UInt64
deriving DecidableEq

namespace Attestor

def canSubmit (a : Attestor) : Bool := a.status == .active

instance : Borsh Attestor :=
  Borsh.xmap (fun a => (a.address, a.gameId, a.endpoint, a.metadata, a.status, a.registeredAt))
    (fun (a, g, e, m, s, r) => ⟨a, g, e, m, s, r⟩) fun _ => rfl

end Attestor

/-- A reported match. -/
structure MatchResult where
  matchId : Hash
  gameId : String
  timestamp : UInt64
  players : List Address
  scores : List UInt64
  winners : List Address
  rewardPool : UInt64
  serverSignature : List UInt8
  antiCheatScore : Option UInt8
  replayRef : Option String
deriving DecidableEq

namespace MatchResult

/-- One score per player, at least one player and winner, every winner a player. -/
def isWellFormed (m : MatchResult) : Bool :=
  decide (m.players.length = m.scores.length) && !m.players.isEmpty && !m.winners.isEmpty &&
    m.winners.all fun w => m.players.contains w

instance : Borsh MatchResult :=
  Borsh.xmap
    (fun m => (m.matchId, m.gameId, m.timestamp, m.players, m.scores, m.winners, m.rewardPool,
      m.serverSignature, m.antiCheatScore, m.replayRef))
    (fun (i, g, t, p, s, w, r, sg, a, rr) => ⟨i, g, t, p, s, w, r, sg, a, rr⟩) fun _ => rfl

end MatchResult

/-- What became of a match: settled, quarantined, and the rewards paid. -/
structure MatchSettlement where
  matchId : Hash
  settled : Bool
  rewardsDistributed : List (Address × UInt64)
  quarantined : Bool
  settledAt : UInt64
deriving DecidableEq

instance : Borsh MatchSettlement :=
  Borsh.xmap (fun m => (m.matchId, m.settled, m.rewardsDistributed, m.quarantined, m.settledAt))
    (fun (i, s, r, q, a) => ⟨i, s, r, q, a⟩) fun _ => rfl

end Polay.Types
