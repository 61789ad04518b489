import Polay.Lib.Merkle
import Polay.Execution.Families

/-!
# Creating records

Six actions create a record under an identifier that their sender determines:
a listing, a rental, a guild, a tournament, a proposal and a match result. None
of them looks whether the identifier is taken. `Creation` is what determines the
identifier, and `dispatchAction_within` says that nothing else brings records of
these families into being: every action writes them only under keys at which it
found a record, or under the keys of its own creation.
-/

namespace Polay.Execution

open Lib Lib.Machine Lib.Bytes Polay.Types State

/-- What determines the identifier of a created record. -/
inductive Creation where
  | listing (seller : Address) (assetClassId : Hash) (amount pricePerUnit timestamp : UInt64)
  | rental (owner : Address) (assetId : Hash) (timestamp : UInt64)
  | guild (leader : Address) (name : String) (timestamp : UInt64)
  | tournament (organizer : Address) (name : String) (startHeight : UInt64)
  | proposal (proposer : Address) (title : String) (height : UInt64)
  | matchResult (matchId : Hash)
deriving DecidableEq

namespace Creation

/-- The bytes the identifier is the hash of. A match result names its own. -/
def message : Creation → List UInt8
  | .listing seller assetClassId amount pricePerUnit timestamp =>
      seller.data ++ assetClassId.data ++ toLeBytes amount ++ toLeBytes pricePerUnit
        ++ toLeBytes timestamp
  | .rental owner assetId timestamp => owner.data ++ assetId.data ++ toLeBytes timestamp
  | .guild leader name timestamp => leader.data ++ Borsh.utf8 name ++ toLeBytes timestamp
  | .tournament organizer name startHeight =>
      organizer.data ++ Borsh.utf8 name ++ toLeBytes startHeight
  | .proposal proposer title height =>
      proposer.data ++ Borsh.utf8 title ++ beBytes 8 height.toNat
  | .matchResult _ => []

/-- The keys of the records a creation writes. -/
def keys (sha256 : List UInt8 → Hash) (c : Creation) : List Key :=
  match c with
  | .listing .. => [.listing (sha256 c.message)]
  | .rental .. => [.rental (sha256 c.message)]
  | .guild .. => [.guild (sha256 c.message)]
  | .tournament .. => [.tournament (sha256 c.message)]
  | .proposal .. => [.proposal (sha256 c.message)]
  | .matchResult matchId => [.matchResult matchId, .matchSettlement matchId]

/-- What an action creates. -/
def ofAction (action : TransactionAction) (signer : Address) (timestamp height : UInt64) :
    Option Creation :=
  match action with
  | .createListing assetClassId amount pricePerUnit _ =>
      some (.listing signer assetClassId amount pricePerUnit timestamp)
  | .listForRent _ assetId _ _ _ _ => some (.rental signer assetId timestamp)
  | .createGuild name _ _ => some (.guild signer name timestamp)
  | .createTournament name _ _ _ _ startHeight _ => some (.tournament signer name startHeight)
  | .submitProposal _ title _ _ => some (.proposal signer title height)
  | .submitMatchResult m => some (.matchResult m.matchId)
  | _ => none

/-! ## Different creations have different keys -/

section Injectivity

private theorem toLeBytes_inj {m n : UInt64} (h : toLeBytes m = toLeBytes n) : m = n := by
  have hValue := congrArg leValue h
  have hm : m.toNat < 256 ^ 8 := m.toNat_lt
  have hn : n.toNat < 256 ^ 8 := n.toNat_lt
  rw [toLeBytes, toLeBytes, leValue_leBytes 8 _ hm, leValue_leBytes 8 _ hn] at hValue
  exact UInt64.toNat_inj.mp hValue

private theorem append_toLeBytes_inj {a b : List UInt8} {m n : UInt64}
    (h : a ++ toLeBytes m = b ++ toLeBytes n) : a = b ∧ m = n := by
  have hLength : (toLeBytes m).length = (toLeBytes n).length := by simp [toLeBytes]
  obtain ⟨hLeft, hRight⟩ := List.append_inj' h hLength
  exact ⟨hLeft, toLeBytes_inj hRight⟩

private theorem address_append_inj {a b : Address} {l m : List UInt8}
    (h : a.data ++ l = b.data ++ m) : a = b ∧ l = m := by
  obtain ⟨hLeft, hRight⟩ := List.append_inj h (by rw [a.length_data, b.length_data])
  exact ⟨Address.data_injective hLeft, hRight⟩

private theorem hash_data_inj {a b : Hash} (h : a.data = b.data) : a = b :=
  Hash.data_injective h

/-- A text between an address and a height determines all three. -/
private theorem text_message_inj {a b : Address} {x y : String} {m n : UInt64}
    (h : a.data ++ Borsh.utf8 x ++ toLeBytes m = b.data ++ Borsh.utf8 y ++ toLeBytes n) :
    a = b ∧ x = y ∧ m = n := by
  obtain ⟨hFront, hHeight⟩ := append_toLeBytes_inj h
  obtain ⟨hAddress, hText⟩ := address_append_inj hFront
  exact ⟨hAddress, Borsh.utf8_inj hText, hHeight⟩

/-- Different creations have different keys unless their messages collide. -/
theorem eq_of_mem_keys {sha256 : List UInt8 → Hash} {c c' : Creation}
    (hDistinct : Merkle.NoCollision sha256 [c.message, c'.message]) {k : Key}
    (h : k ∈ c.keys sha256) (h' : k ∈ c'.keys sha256) : c = c' := by
  have hMessage : sha256 c.message = sha256 c'.message → c.message = c'.message :=
    hDistinct _ (by simp) _ (by simp)
  -- Keys of different kinds have different constructors.
  cases c <;> cases c' <;>
    simp only [keys, List.mem_cons, List.not_mem_nil, or_false] at h h' <;>
    try (rcases h with h | h <;> simp [h] at h'; done)
  all_goals try (simp [h] at h'; done)
  case listing.listing =>
    have hEq := hMessage (Key.listing.inj (h.symm.trans h'))
    obtain ⟨hPrice, hTime⟩ := append_toLeBytes_inj hEq
    obtain ⟨hAmount, hPrice⟩ := append_toLeBytes_inj hPrice
    obtain ⟨hClass, hAmount⟩ := append_toLeBytes_inj hAmount
    obtain ⟨hSeller, hClass⟩ := address_append_inj hClass
    rw [hSeller, hash_data_inj hClass, hAmount, hPrice, hTime]
  case rental.rental =>
    have hEq := hMessage (Key.rental.inj (h.symm.trans h'))
    obtain ⟨hAsset, hTime⟩ := append_toLeBytes_inj hEq
    obtain ⟨hOwner, hAsset⟩ := address_append_inj hAsset
    rw [hOwner, hash_data_inj hAsset, hTime]
  case guild.guild =>
    obtain ⟨hLeader, hName, hTime⟩ :=
      text_message_inj (hMessage (Key.guild.inj (h.symm.trans h')))
    rw [hLeader, hName, hTime]
  case tournament.tournament =>
    obtain ⟨hOrganizer, hName, hStart⟩ :=
      text_message_inj (hMessage (Key.tournament.inj (h.symm.trans h')))
    rw [hOrganizer, hName, hStart]
  case proposal.proposal =>
    have hEq := hMessage (Key.proposal.inj (h.symm.trans h'))
    obtain ⟨hFront, hHeight⟩ := List.append_inj' hEq (by simp)
    obtain ⟨hProposer, hTitle⟩ := address_append_inj hFront
    rw [hProposer, Borsh.utf8_inj hTitle, toLeBytes_inj (List.reverse_injective hHeight)]
  case matchResult.matchResult =>
    rcases h with h | h <;> simp only [h, Key.matchResult.injEq, Key.matchSettlement.injEq,
      reduceCtorEq, or_false, false_or] at h' <;> rw [h']

end Injectivity

end Creation

/-! ## Nothing else creates such records -/

/-- The keys of records that are created once. -/
def madeOnce : Key → Bool
  | .listing _ | .rental _ | .guild _ | .tournament _ | .proposal _ | .matchResult _
  | .matchSettlement _ => true
  | _ => false

theorem Creation.madeOnce_of_mem_keys {sha256 : List UInt8 → Hash} {c : Creation} {k : Key}
    (h : k ∈ c.keys sha256) : madeOnce k = true := by
  cases c <;> simp only [keys, List.mem_cons, List.not_mem_nil, or_false] at h
  case matchResult => rcases h with rfl | rfl <;> rfl
  all_goals subst h; rfl

/-- Records that are created once lie under keys in `L`. -/
def Within (L : Key → Prop) (k : Key) (r : Option k.Value) : Prop :=
  madeOnce k = true → r.isSome = true → L k

theorem free_within (L : Key → Prop) : Free [.account] (Within L) := by
  intro k r hk hOnce
  cases k <;> simp [familyOf, madeOnce] at hk hOnce

section Rules

variable {L : Key → Prop} {β : Type} {w : Bool}

/-- Reading a record that must exist. -/
theorem within_read {k : Key} (hk : madeOnce k = true) {e : ExecutionError}
    {f : k.Record → Handler β}
    (h : ∀ x : k.Record, k.Files x → L k → (f x).Safe (Within L) True True w) :
    ((storeGet k).bind fun r => (Prog.require r e).bind f).Safe (Within L) True True w := by
  intro r hr
  cases r with
  | none => exact fun _ => trivial
  | some x => exact h x.val x.property (hr hk rfl)

/-- An action whose handler starts with reading a record that must exist. -/
theorem within_update {γ : Type} {k : Key} (hk : madeOnce k = true) {e : ExecutionError}
    {f : k.Record → Handler β} {g : β → γ} {Q : Prop}
    (h : ∀ x : k.Record, k.Files x → L k → (f x).Safe (Within L) True True w) :
    (((storeGet k).bind fun r => (Prog.require r e).bind f).bind fun b =>
      Prog.pure (g b)).Safe (Within L) True True w ∨ Q :=
  .inl (.bind (within_read hk h) fun _ => trivial)

theorem within_setRental {r : Rental} {f : Unit → Handler β} :
    ((setRental r).bind f).Safe (Within L) True True w ↔
      L (.rental r.rentalId) ∧ (f ()).Safe (Within L) True True true := by
  cases hRenter : r.renter <;> simp [setRental, hRenter, storePut, Within, madeOnce]

end Rules

section Dispatch

variable (sha256 : List UInt8 → Hash) (ex : Executor) {L : Key → Prop}

/-- An action that writes none of the families creates none of their records. -/
theorem within_of_families {action : TransactionAction} {signer : Address} {t h : UInt64}
    {s : StateStore} (hs : Store.Holds (Within L) s)
    (hFree : ∀ k, madeOnce k = true → familyOf k ∉ writtenBy action) :
    Store.Holds (Within L) ((ex.dispatchAction sha256 action signer t h).run s).2 := by
  have hKeeps := run_keeps (dispatchAction_keeps sha256 ex action signer t h (s := s))
  intro k hk hSome
  rw [hKeeps k (hFree k hk)] at hSome
  exact hs k hk hSome

attribute [local simp] free_within free_setAccount free_getAccountOrNew free_loadAccount
  free_debited free_creditOrCreate free_creditOrCreate_self getAssetClass getAssetBalance
  setAssetBalance getValidator setValidator getAttestor setAttestor setListing setGuild
  deleteGuild setTournament setProposal getMatchResult setMatchResult setMatchSettlement
  getVote setVote getProposalList setProposalList getGuildMembership setGuildMembership
  deleteGuildMembership isTournamentParticipant setTournamentParticipant getChainHeight storeGet
  storePut storeDelete prefixScan Within madeOnce within_setRental Executor.dispatchAction
  Market.executeCreateListing Attestation.executeSubmitMatchResult
  Governance.executeSubmitProposal Rentals.executeListForRent Guilds.executeCreateGuild
  Tournaments.executeCreateTournament Market.payRoyalty Rentals.reclaim
  Guilds.storeOrDeleteGuild Tournaments.payEntryFee Governance.calculateTotalStaked
  Governance.applyPassed Governance.applyRejected

theorem executeProposalAction_within (action : Governance.ProposalAction) :
    (Governance.executeProposalAction action).Safe (Within L) True True false := by
  cases action with
  | suspendAttestor a =>
      show (Governance.suspendAttestor a).Safe _ _ _ _
      intro r hr
      cases r <;> simp
  | _ => simp [Governance.executeProposalAction]

theorem refundDeposit_within (rental : Rental) (w : Bool) :
    (Rentals.refundDeposit rental).Safe (Within L) True True w := by
  unfold Rentals.refundDeposit Prog.when
  split <;> simp

theorem payRewards_within (rewards : List (Address × UInt64)) (t : UInt64) (w : Bool) :
    (Prog.each (fun r => creditOrCreate r.1 t r.2) rewards).Safe (Within L) True True w :=
  (Prog.Safe.each fun _ _ => free_creditOrCreate_self (free_within L)).of_true w

theorem refundEntryFees_within (fee : UInt64) (l : List Address) (w : Bool) :
    (Prog.each (Tournaments.refundEntryFee fee) l).Safe (Within L) True True w :=
  (Prog.Safe.each fun _ _ _ _ => ⟨by simp, trivial⟩).of_true w

theorem executeVoteProposal_within (signer : Address) (id : Hash)
    (option : Governance.VoteOption) (height : UInt64) :
    (Governance.executeVoteProposal signer id option height).Safe (Within L) True True false := by
  refine within_read (k := .proposal id) rfl fun x (hx : Governance.Proposal.id x = id) hL => ?_
  have hId : ∀ v, (Governance.withdrawVote x v).id = x.id := by
    intro v
    cases v <;> simp [Governance.withdrawVote]
  simp [Governance.voteWeight, hId, hx, hL]

/-- Every action finds the records it writes, up to those of its own creation. -/
theorem dispatchAction_within (action : TransactionAction) (signer : Address) (t h : UInt64)
    (hL : ∀ c ∈ Creation.ofAction action signer t h, ∀ k ∈ c.keys sha256, L k)
    {s : StateStore} (hs : Store.Holds (Within L) s) :
    Store.Holds (Within L) ((ex.dispatchAction sha256 action signer t h).run s).2 := by
  -- A handler with a safe program, or an action that writes none of the families.
  suffices hSafe : (ex.dispatchAction sha256 action signer t h).Safe (Within L) True True false ∨
      ∀ k, madeOnce k = true → familyOf k ∉ writtenBy action by
    rcases hSafe with hSafe | hFree
    · exact (hSafe.sound hs).holds
    · exact within_of_families sha256 ex hs hFree
  cases action
  case createListing | submitMatchResult | submitProposal | listForRent | createGuild
      | createTournament =>
    simp only [Creation.ofAction, Creation.keys, Creation.message] at hL
    exact .inl (by simp [hL])
  case cancelListing id | buyListing id =>
    refine within_update (k := .listing id) rfl fun x hx hL => ?_
    simp [show Listing.id x = id from hx, hL]
  case distributeReward id rewards =>
    refine within_update (k := .matchSettlement id) rfl fun x hx hL => ?_
    simp [show MatchSettlement.matchId x = id from hx, Prog.Safe.bind, payRewards_within, hL]
  case voteProposal id option =>
    exact .inl ((executeVoteProposal_within _ _ _ _).bind fun _ => trivial)
  case executeProposal id =>
    refine within_update (k := .proposal id) rfl fun x hx hL => ?_
    simp [show Governance.Proposal.id x = id from hx, Prog.Safe.bind,
      executeProposalAction_within, hL]
  case rentAsset id _ | returnRental id | claimExpiredRental id | cancelRentalListing id =>
    refine within_update (k := .rental id) rfl fun x hx hL => ?_
    simp [show Rental.rentalId x = id from hx, Prog.Safe.bind, refundDeposit_within, hL]
  case joinGuild id | leaveGuild id | guildDeposit id _ | guildWithdraw id _
      | guildKick id _ =>
    refine within_update (k := .guild id) rfl fun x hx hL => ?_
    simp [show Guild.guildId x = id from hx, hL]
  case joinTournament id | startTournament id | reportTournamentResults id _
      | claimTournamentPrize id | cancelTournament id =>
    refine within_update (k := .tournament id) rfl fun x hx hL => ?_
    simp [show Tournament.tournamentId x = id from hx, Prog.Safe.bind, refundEntryFees_within,
      hL]
  all_goals
    refine .inr fun k hk => ?_
    cases k <;> simp [madeOnce, familyOf, writtenBy] at hk ⊢

end Dispatch

end Polay.Execution
