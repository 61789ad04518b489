import Polay.Types.Transaction

/-!
# State keys

Every record of the chain state lives under a key that starts with one byte
naming its family, followed by the identifiers of the record as raw bytes.
`Key` has one constructor per key builder and `Key.bytes` is its layout. The
layout can be read back (`parse_split`), so two different keys never share their
bytes and the byte order of keys is a lawful order.

`Key.Record` is the type of what is stored under a key and `Key.Files` says
that the identifiers inside a record are those of its key. The store holds
values of `Key.Value`, the records filed under their own identifiers: the
writers of the source offer no way to file a record anywhere else.
-/

namespace Polay.State

open Lib Polay.Types Polay.Types.Governance

/-- A key of the chain state. -/
inductive Key where
  | account (addr : Address)
  | assetClass (id : Hash)
  | assetBalance (assetClassId : Hash) (owner : Address)
  | validator (addr : Address)
  | delegation (delegator validator : Address)
  | listing (id : Hash)
  | profile (addr : Address)
  | achievement (addr : Address) (achievementId : String)
  | attestor (addr : Address)
  | matchResult (matchId : Hash)
  | matchSettlement (matchId : Hash)
  | unbonding (delegator : Address) (completionHeight : UInt64) (index : UInt8)
  | unbondingIndex (completionHeight : UInt64) (delegator : Address) (index : UInt8)
  | proposal (id : Hash)
  | vote (proposalId : Hash) (voter : Address)
  | proposalList
  | receipt (txHash : Hash)
  | txBlockIndex (txHash : Hash)
  | blockEvents (height : UInt64)
  | epoch (epoch : UInt64)
  | activeValidatorSet
  | session (granter sessionAddress : Address)
  | rental (rentalId : Hash)
  | rentalByOwner (owner : Address) (rentalId : Hash)
  | rentalByRenter (renter : Address) (rentalId : Hash)
  | guild (guildId : Hash)
  | guildMember (guildId : Hash) (member : Address)
  | memberGuilds (member : Address) (guildId : Hash)
  | tournament (tournamentId : Hash)
  | tournamentParticipant (tournamentId : Hash) (participant : Address)
  | supplyInfo
  | chainHeight
  | latestHash
  | block (height : UInt64)
  | validatorAddresses
  | delegators (validator : Address)
deriving DecidableEq

namespace Key

/-! ## Layout -/

section Layout

open Borsh

/-- The family byte of a key and the bytes behind it. The two lists of the
staking crate have textual keys. -/
def split : Key → UInt8 × List UInt8
  | .account a => (0x01, encode a)
  | .assetClass i => (0x03, encode i)
  | .assetBalance c o => (0x04, encode (c, o))
  | .validator a => (0x05, encode a)
  | .delegation d v => (0x06, encode (d, v))
  | .listing i => (0x07, encode i)
  | .profile a => (0x08, encode a)
  | .achievement a i => (0x09, encode a ++ utf8 i)
  | .attestor a => (0x0A, encode a)
  | .matchResult i => (0x0B, encode i)
  | .matchSettlement i => (0x0C, encode i)
  | .unbonding d h i => (0x0D, encode (d, BigEndian.mk h, i))
  | .unbondingIndex h d i => (0x0E, encode (BigEndian.mk h, d, i))
  | .proposal i => (0x0F, encode i)
  | .vote p v => (0x10, encode (p, v))
  | .proposalList => (0x11, [])
  | .receipt h => (0x12, encode h)
  | .txBlockIndex h => (0x14, encode h)
  | .blockEvents h => (0x15, encode (BigEndian.mk h))
  | .epoch e => (0x16, encode (BigEndian.mk e))
  | .activeValidatorSet => (0x17, [])
  | .session g s => (0x18, encode (g, s))
  | .rental i => (0x19, encode i)
  | .rentalByOwner o i => (0x1A, encode (o, i))
  | .rentalByRenter r i => (0x1B, encode (r, i))
  | .guild i => (0x1C, encode i)
  | .guildMember i m => (0x1D, encode (i, m))
  | .memberGuilds m i => (0x1E, encode (m, i))
  | .tournament i => (0x1F, encode i)
  | .tournamentParticipant i p => (0x20, encode (i, p))
  | .supplyInfo => (0x21, [])
  | .chainHeight => (0xF0, utf8 "height")
  | .latestHash => (0xF0, utf8 "latest_hash")
  | .block h => (0xF1, encode (BigEndian.mk h))
  | .validatorAddresses => (0x73, utf8 "taking:validator_addresses")
  | .delegators v => (0x73, utf8 "taking:delegators:" ++ encode v)

def bytes (k : Key) : List UInt8 := k.split.1 :: k.split.2

/-- Read one identifier tuple. -/
def readKey {α : Type} [Borsh α] (f : α → Key) (l : List UInt8) : Option Key :=
  (decode l).map fun p => f p.1

theorem readKey_encode {α : Type} [Borsh α] (f : α → Key) (a : α) (h : fits a = true) :
    readKey f (encode a) = some (f a) := by
  have hDecode := decode_encode a [] h
  rw [List.append_nil] at hDecode
  simp [readKey, hDecode]

/-- Read a key back from its family byte and the rest. -/
def parse (tag : UInt8) (rest : List UInt8) : Option Key :=
  match tag.toNat with
  | 0x01 => readKey .account rest
  | 0x03 => readKey .assetClass rest
  | 0x04 => readKey (fun (c, o) => .assetBalance c o) rest
  | 0x05 => readKey .validator rest
  | 0x06 => readKey (fun (d, v) => .delegation d v) rest
  | 0x07 => readKey .listing rest
  | 0x08 => readKey .profile rest
  | 0x09 => (decode rest).bind fun p => (ofUtf8 p.2).map (.achievement p.1)
  | 0x0A => readKey .attestor rest
  | 0x0B => readKey .matchResult rest
  | 0x0C => readKey .matchSettlement rest
  | 0x0D => readKey (fun (d, h, i) => .unbonding d (BigEndian.word h) i) rest
  | 0x0E => readKey (fun (h, d, i) => .unbondingIndex (BigEndian.word h) d i) rest
  | 0x0F => readKey .proposal rest
  | 0x10 => readKey (fun (p, v) => .vote p v) rest
  | 0x11 => some .proposalList
  | 0x12 => readKey .receipt rest
  | 0x14 => readKey .txBlockIndex rest
  | 0x15 => readKey (fun h => .blockEvents (BigEndian.word h)) rest
  | 0x16 => readKey (fun h => .epoch (BigEndian.word h)) rest
  | 0x17 => some .activeValidatorSet
  | 0x18 => readKey (fun (g, s) => .session g s) rest
  | 0x19 => readKey .rental rest
  | 0x1A => readKey (fun (o, i) => .rentalByOwner o i) rest
  | 0x1B => readKey (fun (r, i) => .rentalByRenter r i) rest
  | 0x1C => readKey .guild rest
  | 0x1D => readKey (fun (i, m) => .guildMember i m) rest
  | 0x1E => readKey (fun (m, i) => .memberGuilds m i) rest
  | 0x1F => readKey .tournament rest
  | 0x20 => readKey (fun (i, p) => .tournamentParticipant i p) rest
  | 0x21 => some .supplyInfo
  | 0xF0 => if rest = utf8 "height" then some .chainHeight else some .latestHash
  | 0xF1 => readKey (fun h => .block (BigEndian.word h)) rest
  | 0x73 =>
      if rest = utf8 "taking:validator_addresses" then some .validatorAddresses
      else readKey .delegators (rest.drop 18)
  | _ => none

theorem parse_split (k : Key) : parse k.split.1 k.split.2 = some k := by
  cases k
  case achievement a i =>
    show (decode (encode a ++ utf8 i)).bind _ = _
    rw [decode_encode a (utf8 i) rfl]
    show (ofUtf8 (utf8 i)).map _ = _
    rw [ofUtf8_utf8]
    rfl
  case proposalList => rfl
  case activeValidatorSet => rfl
  case supplyInfo => rfl
  case chainHeight => rfl
  case latestHash =>
    show (if utf8 "latest_hash" = utf8 "height" then some chainHeight else some latestHash) = _
    exact if_neg (by decide)
  case validatorAddresses => rfl
  case delegators v =>
    show (if utf8 "taking:delegators:" ++ encode v = utf8 "taking:validator_addresses"
      then some validatorAddresses else readKey .delegators (encode v)) = _
    rw [if_neg, readKey_encode Key.delegators v rfl]
    intro h
    have hHead : (utf8 "taking:delegators:").take 8 =
        (utf8 "taking:validator_addresses").take 8 := by
      rw [← h, List.take_append_of_le_length (by decide)]
    exact absurd hHead (by decide)
  all_goals
    simp only [split, parse, UInt8.reduceToNat]
    exact readKey_encode _ _ (by rfl)

/-- Different keys have different bytes. -/
theorem bytes_injective : Function.Injective bytes := by
  intro k k' h
  have hSplit : k.split.1 = k'.split.1 ∧ k.split.2 = k'.split.2 := List.cons.inj h
  have hParse := parse_split k
  rw [hSplit.1, hSplit.2, parse_split k'] at hParse
  exact (Option.some.inj hParse).symm

end Layout

/-! ## Order -/

/-- Keys are ordered by their bytes. -/
def cmp (a b : Key) : Ordering := compare a.bytes b.bytes

instance : Std.TransCmp cmp := Bytes.transCmp_of_key bytes

instance : Std.LawfulEqCmp cmp := Bytes.lawfulEqCmp_of_injective bytes bytes_injective

/-- Whether the key starts with the given bytes. -/
def startsWith (start : List UInt8) (k : Key) : Bool := start.isPrefixOf k.bytes

/-! ## What is stored under a key -/

/-- The record type of a key's family. -/
@[reducible] def Record : Key → Type
  | .account _ => AccountState
  | .assetClass _ => AssetClass
  | .assetBalance _ _ => UInt64
  | .validator _ => ValidatorInfo
  | .delegation _ _ => Delegation
  | .listing _ => Listing
  | .profile _ => PlayerProfile
  | .achievement _ _ => Achievement
  | .attestor _ => Attestor
  | .matchResult _ => MatchResult
  | .matchSettlement _ => MatchSettlement
  | .unbonding _ _ _ => UnbondingEntry
  | .unbondingIndex _ _ _ => UnbondingEntry
  | .proposal _ => Proposal
  | .vote _ _ => Vote
  | .proposalList => List Hash
  | .receipt _ => TransactionReceipt
  | .txBlockIndex _ => TxLocation
  | .blockEvents _ => List Event
  | .epoch _ => EpochInfo
  | .activeValidatorSet => List Address
  | .session _ _ => SessionGrant
  | .rental _ => Rental
  | .rentalByOwner _ _ => Bool
  | .rentalByRenter _ _ => Bool
  | .guild _ => Guild
  | .guildMember _ _ => GuildMembership
  | .memberGuilds _ _ => Bool
  | .tournament _ => Tournament
  | .tournamentParticipant _ _ => Bool
  | .supplyInfo => SupplyInfo
  | .chainHeight => UInt64
  | .latestHash => Hash
  | .block _ => Block
  | .validatorAddresses => List Address
  | .delegators _ => List Address

/-- The record carries the identifiers of its key. -/
def Files : (k : Key) → k.Record → Prop
  | .account a, r => AccountState.address r = a
  | .assetClass i, r => AssetClass.id r = i
  | .validator a, r => ValidatorInfo.address r = a
  | .delegation d v, r => Delegation.delegator r = d ∧ Delegation.validator r = v
  | .listing i, r => Listing.id r = i
  | .profile a, r => PlayerProfile.address r = a
  | .achievement a i, r => Achievement.player r = a ∧ Achievement.id r = i
  | .attestor a, r => Attestor.address r = a
  | .matchResult i, r => MatchResult.matchId r = i
  | .matchSettlement i, r => MatchSettlement.matchId r = i
  | .unbonding d h _, r =>
      UnbondingEntry.delegator r = d ∧ UnbondingEntry.completionHeight r = h
  | .unbondingIndex h d _, r =>
      UnbondingEntry.completionHeight r = h ∧ UnbondingEntry.delegator r = d
  | .proposal i, r => Proposal.id r = i
  | .vote p v, r => Vote.proposalId r = p ∧ Vote.voter r = v
  | .receipt h, r => TransactionReceipt.txHash r = h
  | .epoch e, r => EpochInfo.epoch r = e
  | .session g s, r => SessionGrant.granter r = g ∧ SessionGrant.sessionAddress r = s
  | .rental i, r => Rental.rentalId r = i
  | .guild i, r => Guild.guildId r = i
  | .guildMember i m, r => GuildMembership.guildId r = i ∧ GuildMembership.member r = m
  | .tournament i, r => Tournament.tournamentId r = i
  | .block h, r => BlockHeader.height (Block.header r) = h
  | _, _ => True

/-! A record is filed under its own identifiers. -/

theorem files_account (r : AccountState) : Files (.account r.address) r := rfl

theorem files_assetClass (r : AssetClass) : Files (.assetClass r.id) r := rfl

theorem files_validator (r : ValidatorInfo) : Files (.validator r.address) r := rfl

theorem files_delegation (r : Delegation) : Files (.delegation r.delegator r.validator) r :=
  ⟨rfl, rfl⟩

theorem files_listing (r : Listing) : Files (.listing r.id) r := rfl

theorem files_matchResult (r : MatchResult) : Files (.matchResult r.matchId) r := rfl

theorem files_matchSettlement (r : MatchSettlement) : Files (.matchSettlement r.matchId) r := rfl

theorem files_unbonding (r : UnbondingEntry) (i : UInt8) :
    Files (.unbonding r.delegator r.completionHeight i) r := ⟨rfl, rfl⟩

theorem files_unbondingIndex (r : UnbondingEntry) (i : UInt8) :
    Files (.unbondingIndex r.completionHeight r.delegator i) r := ⟨rfl, rfl⟩

theorem files_proposal (r : Proposal) : Files (.proposal r.id) r := rfl

theorem files_rental (r : Rental) : Files (.rental r.rentalId) r := rfl

theorem files_guild (r : Guild) : Files (.guild r.guildId) r := rfl

theorem files_tournament (r : Tournament) : Files (.tournament r.tournamentId) r := rfl

/-- What the store holds under a key: a record filed under its own identifiers. -/
abbrev Value (k : Key) : Type := { r : k.Record // k.Files r }

/-- The stored bytes of a record. -/
def recordBytes : (k : Key) → k.Record → List UInt8
  | .account _, r => Borsh.encode (α := AccountState) r
  | .assetClass _, r => Borsh.encode (α := AssetClass) r
  | .assetBalance _ _, r => Borsh.encode (α := UInt64) r
  | .validator _, r => Borsh.encode (α := ValidatorInfo) r
  | .delegation _ _, r => Borsh.encode (α := Delegation) r
  | .listing _, r => Borsh.encode (α := Listing) r
  | .profile _, r => Borsh.encode (α := PlayerProfile) r
  | .achievement _ _, r => Borsh.encode (α := Achievement) r
  | .attestor _, r => Borsh.encode (α := Attestor) r
  | .matchResult _, r => Borsh.encode (α := MatchResult) r
  | .matchSettlement _, r => Borsh.encode (α := MatchSettlement) r
  | .unbonding _ _ _, r => Borsh.encode (α := UnbondingEntry) r
  | .unbondingIndex _ _ _, r => Borsh.encode (α := UnbondingEntry) r
  | .proposal _, r => Borsh.encode (α := Proposal) r
  | .vote _ _, r => Borsh.encode (α := Vote) r
  | .proposalList, r => Borsh.encode (α := List Hash) r
  | .receipt _, r => Borsh.encode (α := TransactionReceipt) r
  | .txBlockIndex _, r => Borsh.encode (α := TxLocation) r
  | .blockEvents _, r => Borsh.encode (α := List Event) r
  | .epoch _, r => Borsh.encode (α := EpochInfo) r
  | .activeValidatorSet, r => Borsh.encode (α := List Address) r
  | .session _ _, r => Borsh.encode (α := SessionGrant) r
  | .rental _, r => Borsh.encode (α := Rental) r
  | .rentalByOwner _ _, r => Borsh.encode (α := Bool) r
  | .rentalByRenter _ _, r => Borsh.encode (α := Bool) r
  | .guild _, r => Borsh.encode (α := Guild) r
  | .guildMember _ _, r => Borsh.encode (α := GuildMembership) r
  | .memberGuilds _ _, r => Borsh.encode (α := Bool) r
  | .tournament _, r => Borsh.encode (α := Tournament) r
  | .tournamentParticipant _ _, r => Borsh.encode (α := Bool) r
  | .supplyInfo, r => Borsh.encode (α := SupplyInfo) r
  | .chainHeight, r => Borsh.encode (α := UInt64) r
  | .latestHash, r => Borsh.encode (α := Hash) r
  | .block _, r => Borsh.encode (α := Block) r
  | .validatorAddresses, r => Borsh.encode (α := List Address) r
  | .delegators _, r => Borsh.encode (α := List Address) r

end Key

end Polay.State
