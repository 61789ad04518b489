import Polay.Execution.Modules.Community

/-!
# Predicted access sets

Before transactions run in parallel, the keys that each one will touch are
predicted from its signer, its sponsor and the fields of its action alone. The
prediction works on raw keys, and names balance keys that nothing is stored
under. It does not see the accounts that a fee is split to, nor what an action
finds in the store.
-/

namespace Polay.Execution

open Lib Polay.Types State

/-- The keys a transaction is predicted to read and to write. -/
structure AccessSet where
  reads : List (List UInt8)
  writes : List (List UInt8)

/-- The key of an account's balance. Balances are stored with the account. -/
def balanceKey (addr : Address) : List UInt8 := 0x02 :: Borsh.encode addr

namespace AccessSet

def new : AccessSet := ⟨[], []⟩

def read (k : List UInt8) (set : AccessSet) : AccessSet := { set with reads := k :: set.reads }

def write (k : List UInt8) (set : AccessSet) : AccessSet := { set with writes := k :: set.writes }

/-- A key that is read and written. -/
def update (k : List UInt8) (set : AccessSet) : AccessSet := (set.read k).write k

/-- An account that is read and written, with its balance key. -/
def updateAccount (addr : Address) (set : AccessSet) : AccessSet :=
  (set.update (Key.account addr).bytes).update (balanceKey addr)

/-- One set writes what the other writes or reads. -/
def conflictsWith (set other : AccessSet) : Bool :=
  if set.writes.any fun k => other.writes.contains k then true
  else if set.reads.any fun k => other.writes.contains k then true
  else set.writes.any fun k => other.reads.contains k

end AccessSet

open AccessSet in
/-- Add the keys that the fields of an action name. -/
def predictAction (sha256 : List UInt8 → Hash) (signer : Address) (set : AccessSet) :
    TransactionAction → AccessSet
  | .transfer toAddr _ => set.updateAccount toAddr
  | .createAssetClass .. => set
  | .mintAsset assetClassId toAddr _ _ =>
      set |>.update (Key.assetClass assetClassId).bytes
        |>.update (Key.assetBalance assetClassId toAddr).bytes
  | .transferAsset assetClassId toAddr _ =>
      set |>.update (Key.assetBalance assetClassId signer).bytes
        |>.update (Key.assetBalance assetClassId toAddr).bytes
  | .burnAsset assetClassId _ =>
      set |>.update (Key.assetClass assetClassId).bytes
        |>.update (Key.assetBalance assetClassId signer).bytes
  | .createListing assetClassId .. => set.update (Key.assetBalance assetClassId signer).bytes
  | .cancelListing listingId => set.update (Key.listing listingId).bytes
  | .buyListing listingId => set.update (Key.listing listingId).bytes
  | .createProfile .. => set.write (Key.profile signer).bytes
  | .addAchievement player achievementId _ _ =>
      set.write (Key.achievement player achievementId).bytes
  | .updateReputation player _ _ => set.update (Key.profile player).bytes
  | .delegateStake validator _ =>
      set |>.update (Key.validator validator).bytes
        |>.update (Key.delegation signer validator).bytes
  | .undelegateStake validator _ =>
      set |>.update (Key.validator validator).bytes
        |>.update (Key.delegation signer validator).bytes
  | .registerValidator _ => set.write (Key.validator signer).bytes
  | .registerAttestor .. => set.write (Key.attestor signer).bytes
  | .submitMatchResult matchResult =>
      set |>.write (Key.matchResult matchResult.matchId).bytes
        |>.write (Key.matchSettlement matchResult.matchId).bytes
  | .distributeReward matchId rewards =>
      -- Only the unused balance keys of the receivers, not their accounts.
      rewards.foldl (fun set reward => set.update (balanceKey reward.1))
        (set.update (Key.matchSettlement matchId).bytes)
  | .submitProposal .. => set
  | .voteProposal proposalId _ =>
      set |>.update (Key.proposal proposalId).bytes |>.write (Key.vote proposalId signer).bytes
  | .executeProposal proposalId => set.update (Key.proposal proposalId).bytes
  | .createSession sessionPubkey .. =>
      set.update (Key.session signer (Sessions.sessionAddressOf sha256 sessionPubkey)).bytes
  | .revokeSession sessionAddress => set.update (Key.session signer sessionAddress).bytes
  | .listForRent assetClassId .. => set.update (Key.assetBalance assetClassId signer).bytes
  | .rentAsset rentalId _ => set.update (Key.rental rentalId).bytes
  | .returnRental rentalId => set.update (Key.rental rentalId).bytes
  | .claimExpiredRental rentalId => set.update (Key.rental rentalId).bytes
  | .cancelRentalListing rentalId => set.update (Key.rental rentalId).bytes
  | .createGuild .. => set
  | .joinGuild guildId =>
      set |>.update (Key.guild guildId).bytes
        |>.write (Key.guildMember guildId signer).bytes
        |>.write (Key.memberGuilds signer guildId).bytes
  | .leaveGuild guildId =>
      set |>.update (Key.guild guildId).bytes
        |>.update (Key.guildMember guildId signer).bytes
        |>.write (Key.memberGuilds signer guildId).bytes
  | .guildDeposit guildId _ =>
      set |>.update (Key.guild guildId).bytes |>.read (Key.guildMember guildId signer).bytes
  | .guildWithdraw guildId _ =>
      set |>.update (Key.guild guildId).bytes |>.read (Key.guildMember guildId signer).bytes
  | .guildPromote guildId member _ =>
      set |>.read (Key.guild guildId).bytes
        |>.read (Key.guildMember guildId signer).bytes
        |>.update (Key.guildMember guildId member).bytes
  | .guildKick guildId member =>
      set |>.update (Key.guild guildId).bytes
        |>.read (Key.guildMember guildId signer).bytes
        |>.update (Key.guildMember guildId member).bytes
        |>.write (Key.memberGuilds member guildId).bytes
  | .createTournament .. => set
  | .joinTournament tournamentId =>
      set |>.update (Key.tournament tournamentId).bytes
        |>.write (Key.tournamentParticipant tournamentId signer).bytes
  | .startTournament tournamentId => set.update (Key.tournament tournamentId).bytes
  | .reportTournamentResults tournamentId _ => set.update (Key.tournament tournamentId).bytes
  | .claimTournamentPrize tournamentId => set.update (Key.tournament tournamentId).bytes
  | .cancelTournament tournamentId => set.update (Key.tournament tournamentId).bytes

/-- The keys a transaction is predicted to touch: the accounts of the signer and
of the sponsor, and what its action names. -/
def predictAccessSet (sha256 : List UInt8 → Hash) (tx : SignedTransaction) : AccessSet :=
  let signer := tx.transaction.signer
  let set := AccessSet.new.updateAccount signer
  let set := match tx.transaction.sponsor with
    | some sponsor => set.updateAccount sponsor
    | none => set
  predictAction sha256 signer set tx.transaction.action

end Polay.Execution
