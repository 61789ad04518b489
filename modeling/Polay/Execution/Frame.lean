import Polay.Execution.Executor

/-!
# What the handlers may write

One relation on the records of the store, `Frame`, says what every handler
keeps: the nonce of each account, the asset classes that exist, and that the
asset class of every listing exists. `Prog.Safe` checks it along the program of
a handler together with the discipline of its errors: none comes after a write.
The rules for accounts are stated once as simp lemmas; each handler is then a
short computation.

Only three kinds of actions can panic, and `MayPanic` names them.
-/

namespace Polay.Execution

open Lib Lib.Machine Polay.Types State

/-- The records allowed under each key: accounts have the nonces `N`, listings are
for classes in `C`, every existing class is in `D` and, if the listings are
backed (`B`), the classes in `C` exist. -/
def Frame (B : Prop) (N : Address → UInt64) (C D : Hash → Prop) (k : Key)
    (r : Option k.Value) : Prop :=
  match k, r with
  | .account a, r => (r.map fun x => AccountState.nonce x.val).getD 0 = N a
  | .assetClass i, r => (B → C i → r.isSome = true) ∧ (r.isSome = true → D i)
  | .listing _, r => ∀ l, r = some l → C (Listing.assetClassId l.val)
  | _, _ => True

section Rules

variable {B : Prop} {N : Address → UInt64} {C D : Hash → Prop} {P E : Prop} {β : Type}
variable {w : Bool}
variable {t amount : UInt64} {i : Hash} {a : Address} {f : Unit → Handler β}

@[simp] theorem safe_setAccount_bind {x : AccountState} :
    ((setAccount x).bind f).Safe (Frame B N C D) P E w ↔
      x.nonce = N x.address ∧ (f ()).Safe (Frame B N C D) P E true := Iff.rfl

@[simp] theorem safe_getAccount_bind {f : Option AccountState → Handler β} :
    ((getAccount a).bind f).Safe (Frame B N C D) P E w ↔
      (0 = N a → (f none).Safe (Frame B N C D) P E w) ∧
      ∀ x : AccountState, x.address = a → x.nonce = N a →
        (f (some x)).Safe (Frame B N C D) P E w := by
  constructor
  · intro h
    exact ⟨fun hn => h none hn, fun x ha hn => h (some ⟨x, ha⟩) hn⟩
  · intro h r hr
    cases r with
    | none => exact h.1 hr
    | some x => exact h.2 x.val x.property hr

@[simp] theorem safe_getAccountOrNew_bind {f : AccountState → Handler β} :
    ((getAccountOrNew a t).bind f).Safe (Frame B N C D) P E w ↔
      ∀ x : AccountState, x.address = a → x.nonce = N a → (f x).Safe (Frame B N C D) P E w := by
  simp only [getAccountOrNew, Prog.bind_eq, Prog.pure_eq, Prog.bind_assoc, Prog.pure_bind,
    safe_getAccount_bind, Option.getD_none, Option.getD_some, and_iff_right_iff_imp]
  intro h hn
  exact h _ rfl hn

@[simp] theorem safe_loadAccount_bind {f : AccountState → Handler β} :
    ((loadAccount a).bind f).Safe (Frame B N C D) P E w ↔
      (0 = N a → w = true → E) ∧
      ∀ x : AccountState, x.address = a → x.nonce = N a →
        (f x).Safe (Frame B N C D) P E w := by
  simp [loadAccount]

@[simp] theorem safe_debited_bind {x : AccountState} {f : AccountState → Handler β} :
    ((debited x amount).bind f).Safe (Frame B N C D) P E w ↔
      (x.balance < amount → w = true → E) ∧
      (¬ x.balance < amount →
        (f { x with balance := x.balance - amount }).Safe (Frame B N C D) P E w) := by
  have hSub : ¬ x.balance < amount →
      checkedSub x.balance amount = some (x.balance - amount) := by
    intro h
    exact if_pos (UInt64.not_lt.mp h)
  simp +contextual [debited, hSub]

@[simp] theorem safe_creditOrCreate_bind :
    ((creditOrCreate a t amount).bind f).Safe (Frame B N C D) P E w ↔
      (f ()).Safe (Frame B N C D) P E true := by
  simp only [creditOrCreate, AccountState.credit, Prog.bind_eq, Prog.bind_assoc,
    safe_getAccountOrNew_bind, safe_setAccount_bind]
  constructor
  · intro h
    exact (h ⟨a, N a, 0, 0⟩ rfl rfl).2
  · intro h x ha hn
    exact ⟨by rw [hn, ha], h⟩

/-- Crediting is safe on its own. -/
theorem safe_creditOrCreate : (creditOrCreate a t amount).Safe (Frame B N C D) P E w := by
  rw [← Prog.bind_pure (creditOrCreate a t amount), safe_creditOrCreate_bind]
  trivial

@[simp] theorem safe_getAssetClass_bind {f : Option AssetClass → Handler β} :
    ((getAssetClass i).bind f).Safe (Frame B N C D) P E w ↔
      ((B → ¬ C i) → (f none).Safe (Frame B N C D) P E w) ∧
      ∀ x : AssetClass, x.id = i → D i → (f (some x)).Safe (Frame B N C D) P E w := by
  constructor
  · intro h
    refine ⟨fun hi => h none ⟨fun hb hc => absurd hc (hi hb), by simp⟩, fun x hx hd => ?_⟩
    exact h (some ⟨x, hx⟩) ⟨fun _ _ => rfl, fun _ => hd⟩
  · intro h r hr
    cases r with
    | none => exact h.1 fun hb hc => absurd (hr.1 hb hc) (by simp)
    | some x => exact h.2 x.val x.property (hr.2 rfl)

@[simp] theorem safe_setAssetClass_bind {x : AssetClass} :
    ((setAssetClass x).bind f).Safe (Frame B N C D) P E w ↔
      D x.id ∧ (f ()).Safe (Frame B N C D) P E true := by
  simp [setAssetClass, storePut, Frame]

@[simp] theorem safe_getListing_bind {f : Option Listing → Handler β} :
    ((getListing i).bind f).Safe (Frame B N C D) P E w ↔
      (f none).Safe (Frame B N C D) P E w ∧
      ∀ l : Listing, l.id = i → C l.assetClassId → (f (some l)).Safe (Frame B N C D) P E w := by
  constructor
  · intro h
    refine ⟨h none (by simp [Frame]), fun l hl hc => h (some ⟨l, hl⟩) ?_⟩
    intro l' hl'
    cases hl'
    exact hc
  · intro h r hr
    cases r with
    | none => exact h.1
    | some l => exact h.2 l.val l.property (hr l rfl)

@[simp] theorem safe_setListing_bind {l : Listing} :
    ((setListing l).bind f).Safe (Frame B N C D) P E w ↔
      C l.assetClassId ∧ (f ()).Safe (Frame B N C D) P E true := by
  simp [setListing, storePut, Frame]

@[simp] theorem safe_getAssetBalance_bind {f : UInt64 → Handler β} :
    ((getAssetBalance i a).bind f).Safe (Frame B N C D) P E w ↔
      ∀ b : UInt64, (f b).Safe (Frame B N C D) P E w := by
  constructor
  · intro h b
    exact h (some ⟨b, trivial⟩) trivial
  · intro h r hr
    exact h _

@[simp] theorem safe_setAssetBalance_bind {b : UInt64} :
    ((setAssetBalance i a b).bind f).Safe (Frame B N C D) P E w ↔
      (f ()).Safe (Frame B N C D) P E true := by
  simp [setAssetBalance, storePut, Frame]

end Rules

/-! ## Dispatch -/

section Dispatch

variable (sha256 : List UInt8 → Hash) (ex : Executor)
variable {B : Prop} {N : Address → UInt64} {C : Hash → Prop}
variable (signer : Address) (id : Hash)

theorem setRental_bind_safe {β : Type} {r : Rental} {f : Unit → Handler β} {w : Bool}
    (hf : (f ()).Safe (Frame B N C C) False (¬ B) true) :
    ((setRental r).bind f).Safe (Frame B N C C) False (¬ B) w := by
  cases hRenter : r.renter <;> simp [setRental, hRenter, storePut, Frame, hf]

-- The accessors of the records that the frame says nothing about.
attribute [local simp] getValidator setValidator getDelegation setDelegation getProfile setProfile
  setAchievement getAttestor setAttestor getMatchResult setMatchResult getMatchSettlement
  setMatchSettlement getProposal setProposal getVote setVote getProposalList setProposalList
  getRental getGuild setGuild deleteGuild getGuildMembership setGuildMembership
  deleteGuildMembership getTournament setTournament isTournamentParticipant
  setTournamentParticipant getSession setSession getUnbondingEntries setUnbondingEntry
  getChainHeight storeGet storePut storeDelete prefixScan Frame setRental_bind_safe

theorem refundDeposit_safe (r : Rental) :
    (Rentals.refundDeposit r).Safe (Frame B N C C) False (¬ B) true := by
  unfold Rentals.refundDeposit Prog.when
  split
  · simp [safe_creditOrCreate]
  · trivial

theorem processMatureUnbondings_safe (height : UInt64) :
    (Staking.processMatureUnbondings height).Safe (Frame B N C C) False (¬ B) false := by
  have hRelease : ∀ l, (Prog.each Staking.releaseUnbonding l).Safe (Frame B N C C)
      False (¬ B) false := by
    intro l
    refine (Prog.Safe.each fun e _ => ?_).of_true false
    simp [Staking.releaseUnbonding, deleteUnbondingEntry]
  simp [Staking.processMatureUnbondings, getMatureUnbondings, Prog.Safe.bind, hRelease]

theorem executeProposalAction_safe (action : Governance.ProposalAction) :
    (Governance.executeProposalAction action).Safe (Frame B N C C) False (¬ B) false := by
  cases action with
  | parameterChange => trivial
  | approveAttestor => trivial
  | suspendAttestor a =>
      show (Governance.suspendAttestor a).Safe _ _ _ _
      intro r hr
      cases r <;> simp
  | slashValidator => simp [Governance.executeProposalAction]
  | treasurySpend => exact safe_creditOrCreate
  | textProposal => trivial

theorem executeExecuteProposal_safe (config : ChainConfig) (id : Hash) (height : UInt64) :
    (Governance.executeExecuteProposal config id height).Safe (Frame B N C C) False (¬ B)
      false := by
  simp [Governance.executeExecuteProposal, Governance.calculateTotalStaked,
    Governance.applyPassed, Governance.applyRejected, Prog.Safe.bind, executeProposalAction_safe]

theorem executeBuyListing_safe (config : ChainConfig) (buyer : Address) (id : Hash)
    (t : UInt64) :
    (Market.executeBuyListing config buyer id t).Safe (Frame B N C C) False (¬ B) false := by
  simp +contextual [Market.executeBuyListing, Market.payRoyalty]

theorem executeDistributeReward_safe (rewards : List (Address × UInt64)) (t : UInt64) :
    (Attestation.executeDistributeReward signer id rewards t).Safe (Frame B N C C) False (¬ B)
      false := by
  have hPay : (Prog.each (fun r => creditOrCreate r.1 t r.2) rewards).Safe (Frame B N C C)
      False (¬ B) true := Prog.Safe.each fun r _ => safe_creditOrCreate
  simp [Attestation.executeDistributeReward, Prog.Safe.bind, hPay, Prog.Safe.of_true]

theorem executeCancelTournament_safe :
    (Tournaments.executeCancelTournament signer id).Safe (Frame B N C C) False (¬ B) false := by
  have hRefund : ∀ fee l, (Prog.each (Tournaments.refundEntryFee fee) l).Safe (Frame B N C C)
      False (¬ B) false := by
    intro fee l
    refine (Prog.Safe.each fun p _ => ?_).of_true false
    simp +contextual [Tournaments.refundEntryFee, setAccount]
  simp [Tournaments.executeCancelTournament, Prog.Safe.bind, hRefund]

theorem executeJoinTournament_safe :
    (Tournaments.executeJoinTournament signer id).Safe (Frame B N C C) False (¬ B) false := by
  simp +contextual [Tournaments.executeJoinTournament, Tournaments.payEntryFee]

theorem executeClaimTournamentPrize_safe :
    (Tournaments.executeClaimTournamentPrize signer id).Safe (Frame B N C C) True (¬ B) false := by
  simp +contextual [Tournaments.executeClaimTournamentPrize]

/-- The actions that can panic on some store. -/
def MayPanic (config : ChainConfig) : TransactionAction → Prop
  | .delegateStake _ _ => config.epochLength = 0
  | .reportTournamentResults _ rankings => rankings = []
  | .claimTournamentPrize _ => True
  | _ => False

/-- The asset class an action can create. -/
def CreatesClass (signer : Address) (timestamp : UInt64) (action : TransactionAction)
    (id : Hash) : Prop :=
  match action with
  | .createAssetClass name _ _ _ _ => id = Assets.assetClassIdOf sha256 signer name timestamp
  | _ => False

attribute [local simp] Executor.dispatchAction MayPanic CreatesClass

/-- Every action keeps the frame, up to the class it creates, and makes all its
checks before its first write if the listings are backed. -/
theorem dispatchAction_safe (action : TransactionAction) (signer : Address) (t h : UInt64) :
    (ex.dispatchAction sha256 action signer t h).Safe
      (Frame B N C fun i => C i ∨ CreatesClass sha256 signer t action i)
      (MayPanic ex.chainConfig action) (¬ B) false := by
  cases action
  case createAssetClass =>
    simp [Assets.executeCreateAssetClass]
  all_goals simp only [CreatesClass, or_false]
  case transfer => simp +contextual [Transfer.executeTransfer]
  case mintAsset => simp +contextual [Assets.executeMintAsset]
  case transferAsset => simp [Assets.executeTransferAsset]
  case burnAsset => simp +contextual [Assets.executeBurnAsset]
  case createListing => simp +contextual [Market.executeCreateListing]
  case cancelListing => simp +contextual [Market.executeCancelListing]
  case buyListing => exact (executeBuyListing_safe _ _ _ _).bind fun _ => trivial
  case createProfile => simp [Identity.executeCreateProfile]
  case addAchievement => simp [Identity.executeAddAchievement]
  case updateReputation => simp [Identity.executeUpdateReputation]
  case registerValidator => simp [Staking.executeRegisterValidator]
  case delegateStake => simp +contextual [Staking.executeDelegateStake]
  case undelegateStake => simp [Staking.executeUndelegateStake]
  case registerAttestor => simp [Attestation.executeRegisterAttestor]
  case submitMatchResult => simp [Attestation.executeSubmitMatchResult]
  case distributeReward =>
    exact (executeDistributeReward_safe _ _ _ _).bind fun _ => trivial
  case submitProposal =>
    simp +contextual [Governance.executeSubmitProposal]
  case voteProposal => simp [Governance.executeVoteProposal, Governance.voteWeight]
  case executeProposal => exact (executeExecuteProposal_safe _ _ _).bind fun _ => trivial
  case createSession => simp [Sessions.executeCreateSession]
  case revokeSession => simp [Sessions.executeRevokeSession]
  case listForRent => simp [Rentals.executeListForRent]
  case rentAsset => simp +contextual [Rentals.executeRentAsset]
  case returnRental => simp +contextual [Rentals.executeReturnRental, Rentals.reclaim]
  case claimExpiredRental =>
    simp [Rentals.executeClaimExpiredRental, Prog.Safe.bind, refundDeposit_safe,
      Prog.Safe.of_true]
  case cancelRentalListing => simp [Rentals.executeCancelRentalListing]
  case createGuild => simp [Guilds.executeCreateGuild]
  case joinGuild => simp [Guilds.executeJoinGuild]
  case leaveGuild => simp [Guilds.executeLeaveGuild, Guilds.storeOrDeleteGuild]
  case guildDeposit => simp +contextual [Guilds.executeGuildDeposit]
  case guildWithdraw => simp +contextual [Guilds.executeGuildWithdraw]
  case guildPromote => simp [Guilds.executeGuildPromote]
  case guildKick => simp [Guilds.executeGuildKick]
  case createTournament =>
    simp [Tournaments.executeCreateTournament]
  case joinTournament => exact (executeJoinTournament_safe _ _).bind fun _ => trivial
  case startTournament => simp [Tournaments.executeStartTournament]
  case reportTournamentResults => simp [Tournaments.executeReportTournamentResults]
  case claimTournamentPrize =>
    exact (executeClaimTournamentPrize_safe _ _).bind fun _ => trivial
  case cancelTournament => exact (executeCancelTournament_safe _ _).bind fun _ => trivial

end Dispatch

end Polay.Execution
