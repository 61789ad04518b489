import Polay.Execution.Blocks

/-!
# The record families an action writes

Every action writes records of a few families only. `writtenBy` lists them and
`dispatchAction_keeps` says that all other records stay as they were, whatever
the outcome of the action. With the frames of the fee stage and of the session
counter this gives the frame of a transaction, and from it the frame of a block
(`block_keeps_other_families`).
-/

namespace Polay.Execution

open Lib Lib.Machine Polay.Types State

/-- The families of records. An index is in the family of what it indexes. -/
inductive Family where
  | account | assetClass | assetBalance | validator | delegation | listing | profile
  | achievement | attestor | matchResult | matchSettlement | unbonding | proposal | vote
  | proposalList | session | rental | guild | guildMember | tournament
  | tournamentParticipant | supplyInfo | chain | stakingList
deriving DecidableEq

/-- The family of a key. -/
def familyOf : Key → Family
  | .account _ => .account
  | .assetClass _ => .assetClass
  | .assetBalance _ _ => .assetBalance
  | .validator _ => .validator
  | .delegation _ _ => .delegation
  | .listing _ => .listing
  | .profile _ => .profile
  | .achievement _ _ => .achievement
  | .attestor _ => .attestor
  | .matchResult _ => .matchResult
  | .matchSettlement _ => .matchSettlement
  | .unbonding _ _ _ | .unbondingIndex _ _ _ => .unbonding
  | .proposal _ => .proposal
  | .vote _ _ => .vote
  | .proposalList => .proposalList
  | .session _ _ => .session
  | .rental _ | .rentalByOwner _ _ | .rentalByRenter _ _ => .rental
  | .guild _ => .guild
  | .guildMember _ _ | .memberGuilds _ _ => .guildMember
  | .tournament _ => .tournament
  | .tournamentParticipant _ _ => .tournamentParticipant
  | .supplyInfo => .supplyInfo
  | .receipt _ | .txBlockIndex _ | .blockEvents _ | .epoch _ | .activeValidatorSet
  | .chainHeight | .latestHash | .block _ => .chain
  | .validatorAddresses | .delegators _ => .stakingList

/-- The families an action may write. -/
def writtenBy : TransactionAction → List Family
  | .transfer .. => [.account]
  | .createAssetClass .. => [.assetClass]
  | .mintAsset .. => [.assetClass, .assetBalance]
  | .transferAsset .. => [.assetBalance]
  | .burnAsset .. => [.assetClass, .assetBalance]
  | .createListing .. => [.assetBalance, .listing]
  | .cancelListing .. => [.assetBalance, .listing]
  | .buyListing .. => [.account, .assetBalance, .listing]
  | .createProfile .. => [.profile]
  | .addAchievement .. => [.achievement]
  | .updateReputation .. => [.profile]
  | .registerValidator .. => [.validator]
  | .delegateStake .. => [.account, .validator, .delegation]
  | .undelegateStake .. => [.validator, .delegation, .unbonding]
  | .registerAttestor .. => [.attestor]
  | .submitMatchResult .. => [.matchResult, .matchSettlement]
  | .distributeReward .. => [.account, .matchSettlement]
  | .submitProposal .. => [.account, .proposal, .proposalList]
  | .voteProposal .. => [.proposal, .vote]
  | .executeProposal .. => [.account, .validator, .attestor, .proposal]
  | .createSession .. => [.session]
  | .revokeSession .. => [.session]
  | .listForRent .. => [.rental]
  | .rentAsset .. => [.account, .rental]
  | .returnRental .. => [.account, .rental]
  | .claimExpiredRental .. => [.account, .rental]
  | .cancelRentalListing .. => [.rental]
  | .createGuild .. => [.guild, .guildMember]
  | .joinGuild .. => [.guild, .guildMember]
  | .leaveGuild .. => [.guild, .guildMember]
  | .guildDeposit .. => [.account, .guild]
  | .guildWithdraw .. => [.account, .guild]
  | .guildPromote .. => [.guildMember]
  | .guildKick .. => [.guild, .guildMember]
  | .createTournament .. => [.tournament]
  | .joinTournament .. => [.account, .tournament, .tournamentParticipant]
  | .startTournament .. => [.tournament]
  | .reportTournamentResults .. => [.tournament]
  | .claimTournamentPrize .. => [.account, .tournament]
  | .cancelTournament .. => [.account, .tournament]

/-- Records outside the families `F` are those of the store `s`. -/
def Keeps (F : List Family) (s : StateStore) (k : Key) (r : Option k.Value) : Prop :=
  familyOf k ∉ F → r = s.get? k

/-- A relation that allows any record of the families `F`. -/
def Free (F : List Family) (R : (k : Key) → Option k.Value → Prop) : Prop :=
  ∀ k r, familyOf k ∈ F → R k r

attribute [local simp] familyOf

theorem holds_keeps (F : List Family) (s : StateStore) : Store.Holds (Keeps F s) s :=
  fun _ _ => rfl

theorem free_keeps {G F : List Family} (h : G ⊆ F) (s : StateStore) : Free G (Keeps F s) :=
  fun _ _ hk hNot => absurd (h hk) hNot

/-- Writing only families on which a relation is free keeps the relation. -/
theorem holds_of_keeps {F : List Family} {R : (k : Key) → Option k.Value → Prop}
    {s t : StateStore} (hFree : Free F R) (hs : Store.Holds R s)
    (hKeeps : Store.Holds (Keeps F s) t) : Store.Holds R t := by
  intro k
  by_cases hk : familyOf k ∈ F
  · exact hFree k _ hk
  · rw [hKeeps k hk]
    exact hs k

section Rules

variable {F : List Family} {s : StateStore} {ε α β : Type} {w : Bool}

theorem run_keeps {p : Exec ε α} (h : p.Safe (Keeps F s) True True false) :
    Store.Holds (Keeps F s) (p.run s).2 :=
  (h.sound (holds_keeps F s)).holds

/-- Writing a record of a family in `F` is always allowed. -/
theorem put_keeps {k : Key} (hk : familyOf k ∈ F) {r : k.Record} {h : k.Files r} :
    (storePut k r h : Exec ε Unit).Safe (Keeps F s) True True w :=
  ⟨fun hNot => absurd hk hNot, trivial⟩

theorem creditOrCreate_keeps (hF : Family.account ∈ F) (a : Address) (t amount : UInt64) :
    (creditOrCreate a t amount).Safe (Keeps F s) True True w :=
  fun _ _ => put_keeps (k := .account _) hF

theorem each_keeps {f : β → Exec ε Unit} {l : List β}
    (h : ∀ b, (f b).Safe (Keeps F s) True True true) :
    (Prog.each f l).Safe (Keeps F s) True True w :=
  (Prog.Safe.each fun b _ => h b).of_true w

theorem setRental_bind_keeps {r : Rental} {f : Unit → Handler β} (hF : Family.rental ∈ F)
    (hf : (f ()).Safe (Keeps F s) True True true) :
    ((setRental r).bind f).Safe (Keeps F s) True True w := by
  cases hRenter : r.renter <;> simp [setRental, hRenter, storePut, Keeps, hF, hf]

end Rules

/-! ## Relations that say nothing about accounts -/

section FreeAccounts

variable {R : (k : Key) → Option k.Value → Prop} {β : Type} {w : Bool}
variable {t amount : UInt64} {a : Address} {f : AccountState → Handler β}

theorem free_setAccount (hR : Free [.account] R) {x : AccountState} {f : Unit → Handler β} :
    ((setAccount x).bind f).Safe R True True w ↔ (f ()).Safe R True True true :=
  and_iff_right (hR (.account x.address) _ (by simp))

theorem free_getAccountOrNew (hR : Free [.account] R) :
    ((getAccountOrNew a t).bind f).Safe R True True w ↔
      ∀ x : AccountState, x.address = a → (f x).Safe R True True w := by
  constructor
  · intro h x hx
    exact h (some ⟨x, hx⟩) (hR (.account a) _ (by simp))
  · intro h r _
    cases r with
    | none => exact h _ rfl
    | some x => exact h x.val x.property

theorem free_loadAccount (hR : Free [.account] R) :
    ((loadAccount a).bind f).Safe R True True w ↔
      ∀ x : AccountState, x.address = a → (f x).Safe R True True w := by
  constructor
  · intro h x hx
    exact h (some ⟨x, hx⟩) (hR (.account a) _ (by simp))
  · intro h r _
    cases r with
    | none => exact fun _ => trivial
    | some x => exact h x.val x.property

theorem free_debited {x : AccountState} :
    ((debited x amount).bind f).Safe R True True w ↔
      (¬ x.balance < amount → (f { x with balance := x.balance - amount }).Safe R True True w) := by
  have hSub : ¬ x.balance < amount →
      checkedSub x.balance amount = some (x.balance - amount) :=
    fun h => if_pos (UInt64.not_lt.mp h)
  simp +contextual [debited, hSub]

theorem free_creditOrCreate (hR : Free [.account] R) {f : Unit → Handler β} :
    ((creditOrCreate a t amount).bind f).Safe R True True w ↔ (f ()).Safe R True True true := by
  unfold creditOrCreate
  rw [Prog.bind_eq, Prog.bind_assoc, free_getAccountOrNew hR]
  constructor
  · intro h
    exact ((free_setAccount hR).mp (h (AccountState.new a t) rfl))
  · intro h x _
    exact (free_setAccount hR).mpr h

theorem free_creditOrCreate_self (hR : Free [.account] R) :
    (creditOrCreate a t amount).Safe R True True w := by
  rw [← Prog.bind_pure (creditOrCreate a t amount), free_creditOrCreate hR]
  trivial

end FreeAccounts

/-! ## Dispatch -/

section Dispatch

variable (sha256 : List UInt8 → Hash) (ex : Executor) {s : StateStore}

-- The accessors, so that each handler is a tree of reads and writes.
attribute [local simp] free_setAccount free_getAccountOrNew free_loadAccount free_debited
  free_creditOrCreate free_creditOrCreate_self free_keeps getAccount getAssetClass
  setAssetClass getAssetBalance setAssetBalance getValidator setValidator
  getDelegation setDelegation getListing setListing getProfile setProfile setAchievement
  getAttestor setAttestor getMatchResult setMatchResult getMatchSettlement setMatchSettlement
  getProposal setProposal getVote setVote getProposalList setProposalList getRental getGuild
  setGuild deleteGuild getGuildMembership setGuildMembership deleteGuildMembership getTournament
  setTournament isTournamentParticipant setTournamentParticipant getSession setSession
  getUnbondingEntries setUnbondingEntry getChainHeight storeGet storePut storeDelete prefixScan
  Keeps Executor.dispatchAction writtenBy

theorem executeProposalAction_keeps (action : Governance.ProposalAction) :
    (Governance.executeProposalAction action).Safe
      (Keeps [.account, .validator, .attestor, .proposal] s) True True false := by
  cases action with
  | suspendAttestor a =>
      show (Governance.suspendAttestor a).Safe _ _ _ _
      intro r hr
      cases r <;> simp
  | _ => simp [Governance.executeProposalAction]

theorem applyPassed_keeps (id : Hash) (p : Governance.Proposal) (height : UInt64) :
    (Governance.applyPassed id p height).Safe
      (Keeps [.account, .validator, .attestor, .proposal] s) True True false :=
  (executeProposalAction_keeps p.action).bind fun _ =>
    (creditOrCreate_keeps (by simp) _ _ _).bind fun _ => trivial

theorem applyRejected_keeps (id : Hash) (p : Governance.Proposal) (height : UInt64) :
    (Governance.applyRejected id p height).Safe
      (Keeps [.account, .validator, .attestor, .proposal] s) True True false := by
  simp [Governance.applyRejected]

theorem refundDeposit_keeps (rental : Rental) (w : Bool) :
    (Rentals.refundDeposit rental).Safe (Keeps [.account, .rental] s) True True w := by
  unfold Rentals.refundDeposit Prog.when
  split <;> simp

theorem payRewards_keeps (t : UInt64) (rewards : List (Address × UInt64)) (w : Bool) :
    (Prog.each (fun r => creditOrCreate r.1 t r.2) rewards).Safe
      (Keeps [.account, .matchSettlement] s) True True w :=
  each_keeps fun _ => creditOrCreate_keeps (by simp) _ _ _

theorem refundEntryFees_keeps (fee : UInt64) (participants : List Address) (w : Bool) :
    (Prog.each (Tournaments.refundEntryFee fee) participants).Safe
      (Keeps [.account, .tournament] s) True True w :=
  each_keeps fun _ _ _ => put_keeps (k := .account _) (by simp)

/-- Every action leaves the records outside its families as they were. -/
theorem dispatchAction_keeps (action : TransactionAction) (signer : Address) (t h : UInt64) :
    (ex.dispatchAction sha256 action signer t h).Safe (Keeps (writtenBy action) s) True True
      false := by
  cases action
  case transfer => simp [Transfer.executeTransfer]
  case createAssetClass => simp [Assets.executeCreateAssetClass]
  case mintAsset => simp [Assets.executeMintAsset]
  case transferAsset => simp [Assets.executeTransferAsset]
  case burnAsset => simp [Assets.executeBurnAsset]
  case createListing => simp [Market.executeCreateListing]
  case cancelListing => simp [Market.executeCancelListing]
  case buyListing => simp [Market.executeBuyListing, Market.payRoyalty]
  case createProfile => simp [Identity.executeCreateProfile]
  case addAchievement => simp [Identity.executeAddAchievement]
  case updateReputation => simp [Identity.executeUpdateReputation]
  case registerValidator => simp [Staking.executeRegisterValidator]
  case delegateStake => simp [Staking.executeDelegateStake]
  case undelegateStake => simp [Staking.executeUndelegateStake]
  case registerAttestor => simp [Attestation.executeRegisterAttestor]
  case submitMatchResult => simp [Attestation.executeSubmitMatchResult]
  case distributeReward =>
    simp [Attestation.executeDistributeReward, Prog.Safe.bind, payRewards_keeps]
  case submitProposal => simp [Governance.executeSubmitProposal]
  case voteProposal =>
    simp [Governance.executeVoteProposal, Governance.voteWeight]
  case executeProposal =>
    simp [Governance.executeExecuteProposal, Governance.calculateTotalStaked, Prog.Safe.bind,
      applyPassed_keeps, applyRejected_keeps]
  case createSession => simp [Sessions.executeCreateSession]
  case revokeSession => simp [Sessions.executeRevokeSession]
  case listForRent =>
    simp [Rentals.executeListForRent, setRental_bind_keeps]
  case rentAsset => simp [Rentals.executeRentAsset, setRental_bind_keeps]
  case returnRental =>
    simp [Rentals.executeReturnRental, Rentals.reclaim, setRental_bind_keeps]
  case claimExpiredRental =>
    simp [Rentals.executeClaimExpiredRental, Prog.Safe.bind, refundDeposit_keeps,
      setRental_bind_keeps]
  case cancelRentalListing => simp [Rentals.executeCancelRentalListing, setRental_bind_keeps]
  case createGuild => simp [Guilds.executeCreateGuild]
  case joinGuild => simp [Guilds.executeJoinGuild]
  case leaveGuild => simp [Guilds.executeLeaveGuild, Guilds.storeOrDeleteGuild]
  case guildDeposit => simp [Guilds.executeGuildDeposit]
  case guildWithdraw => simp [Guilds.executeGuildWithdraw]
  case guildPromote => simp [Guilds.executeGuildPromote]
  case guildKick => simp [Guilds.executeGuildKick]
  case createTournament =>
    simp [Tournaments.executeCreateTournament]
  case joinTournament => simp [Tournaments.executeJoinTournament, Tournaments.payEntryFee]
  case startTournament => simp [Tournaments.executeStartTournament]
  case reportTournamentResults => simp [Tournaments.executeReportTournamentResults]
  case claimTournamentPrize => simp [Tournaments.executeClaimTournamentPrize]
  case cancelTournament =>
    simp [Tournaments.executeCancelTournament, Prog.Safe.bind, refundEntryFees_keeps]

end Dispatch

/-! ## Transactions and blocks -/

/-- The families that the fee stage and the session counter write. -/
def feeFamilies : List Family := [.account, .supplyInfo, .session]

namespace Executor

variable {sha256 : List UInt8 → Hash} {ex : Executor} {tx : SignedTransaction}
variable {height : UInt64} {proposer : Address} {s : StateStore}
variable {result : Outcome ExecutionError ExecutionResult × StateStore}

theorem Collected.keeps {s₁ : StateStore} (h : ex.Collected tx proposer s s₁) :
    Store.Holds (Keeps feeFamilies s) s₁ := by
  intro k hk
  apply h.other k
  · rintro a rfl
    exact hk (by simp [feeFamilies])
  · rintro rfl
    exact hk (by simp [feeFamilies])

theorem spendSession_keeps {F : List Family} (hF : Family.session ∈ F) (signer : Address)
    (session : Option Address) (fee : UInt64) :
    (spendSession signer session fee).Safe (Keeps F s) True True false := by
  cases session with
  | none => trivial
  | some =>
      intro r _
      cases r with
      | none => trivial
      | some => exact ⟨fun hk => absurd hF hk, trivial⟩

/-- The stages of a transaction that is not rejected: the fee, the action, and the
session counter. The receipt reports the success of the action. -/
structure Stages (sha256 : List UInt8 → Hash) (ex : Executor) (tx : SignedTransaction)
    (height : UInt64) (proposer : Address) (s s₁ : StateStore)
    (result : Outcome ExecutionError ExecutionResult × StateStore) : Prop where
  charges : ex.Charges tx s
  ran : ∃ fees, (ex.collectFee tx proposer).run s = (.ok fees, s₁)
  collected : ex.Collected tx proposer s s₁
  spent : Store.Holds (Keeps [.session] ((ex.action sha256 tx height).run s₁).2) result.2
  succeeded : ∀ r, ((ex.action sha256 tx height).run s₁).1 = .ok r →
    ∃ x, result.1 = .ok x ∧ x.receipt.success = true
  ok_of_success : ∀ x, result.1 = .ok x → x.receipt.success = true →
    ∃ r, ((ex.action sha256 tx height).run s₁).1 = .ok r

theorem TxRun.stages (h : TxRun sha256 ex tx height proposer s result) :
    ((∃ e, result.1 = .err e) ∧ result.2 = s) ∨
      ∃ s₁, Stages sha256 ex tx height proposer s s₁ result := by
  cases h with
  | rejected e => exact .inl ⟨⟨e, rfl⟩, rfl⟩
  | failed fees s₁ e s₂ hCharges hFee hCollected hRun =>
      refine .inr ⟨s₁, hCharges, ⟨fees, hFee⟩, hCollected, ?_, ?_, ?_⟩
      · rw [hRun]
        exact holds_keeps _ _
      · rw [hRun]
        simp
      · rintro _ ⟨rfl⟩ hSuccess
        cases hSuccess
  | panicked fees s₁ s₂ hCharges hFee hCollected hRun =>
      refine .inr ⟨s₁, hCharges, ⟨fees, hFee⟩, hCollected, ?_, ?_, fun _ hx => nomatch hx⟩
      · rw [hRun]
        exact holds_keeps _ _
      · rw [hRun]
        simp
  | succeeded fees s₁ s₂ s₃ events changes spent hCharges hFee hCollected hRun hSession =>
      refine .inr ⟨s₁, hCharges, ⟨fees, hFee⟩, hCollected, ?_, fun _ _ => ⟨_, rfl, rfl⟩,
        fun _ _ _ => ⟨_, congrArg Prod.fst hRun⟩⟩
      have hSpent := run_keeps (spendSession_keeps (F := [.session]) (by simp) tx.signer
        tx.transaction.session (ex.actualFee tx.transaction) (s := s₂))
      rw [hSession] at hSpent
      rw [hRun]
      exact hSpent

theorem TxRun.stages_of_charges (h : TxRun sha256 ex tx height proposer s result)
    (hCharges : ex.Charges tx s) : ∃ s₁, Stages sha256 ex tx height proposer s s₁ result := by
  rcases h.stages with ⟨⟨e, hErr⟩, _⟩ | hStages
  · cases h with
    | rejected _ hNot => exact absurd hCharges hNot
    | failed => cases hErr
    | panicked => cases hErr
    | succeeded => cases hErr
  · exact hStages

/-- A transaction keeps every relation that its action keeps and that says nothing
about the records of the fee stage. -/
theorem TxRun.holds {R : (k : Key) → Option k.Value → Prop}
    (h : TxRun sha256 ex tx height proposer s result) (hFree : Free feeFamilies R)
    (hs : Store.Holds R s)
    (hAction : ∀ s₁, ex.Collected tx proposer s s₁ → Store.Holds R s₁ →
      Store.Holds R ((ex.action sha256 tx height).run s₁).2) :
    Store.Holds R result.2 := by
  rcases h.stages with ⟨_, hSame⟩ | ⟨s₁, hStages⟩
  · rw [hSame]
    exact hs
  · have hSession : Free [.session] R := fun k r hk => hFree k r (by simp_all [feeFamilies])
    have hFee := holds_of_keeps hFree hs hStages.collected.keeps
    exact holds_of_keeps hSession (hAction s₁ hStages.collected hFee) hStages.spent

end Executor

theorem unbonded_keeps (height : UInt64) (s : StateStore) :
    Store.Holds (Keeps [.account, .unbonding] s) (unbonded height s) := by
  have hRelease : ∀ e, (Staking.releaseUnbonding e).Safe (Keeps [.account, .unbonding] s)
      True True true := by
    intro e
    refine (creditOrCreate_keeps (by simp) _ _ _).bind fun _ => ?_
    simp [deleteUnbondingEntry, storeDelete, Keeps]
  have hSafe : (Staking.processMatureUnbondings height).Safe (Keeps [.account, .unbonding] s)
      True True false := by
    intro l _
    exact (each_keeps hRelease).bind fun _ => trivial
  have hRun := run_keeps hSafe
  rwa [run_processMatureUnbondings] at hRun

/-! ## Blocks -/

/-- The families a transaction may write. -/
def touchedBy (tx : SignedTransaction) : List Family :=
  feeFamilies ++ writtenBy tx.transaction.action

section Blocks

variable {sha256 : List UInt8 → Hash} {ex : Executor} {F : List Family} {s t : StateStore}

theorem executeTransaction_keeps (h : Store.Holds (Keeps F s) t) {tx : SignedTransaction}
    (hF : touchedBy tx ⊆ F) (height : UInt64) (proposer : Address) :
    Store.Holds (Keeps F s) ((ex.executeTransaction sha256 tx height proposer).run t).2 := by
  obtain ⟨hFee, hWritten⟩ := List.append_subset.mp hF
  refine (ex.executeTransaction_run sha256 tx height proposer t).holds (free_keeps hFee s) h
    fun s₁ _ h₁ => holds_of_keeps (free_keeps hWritten s) h₁ ?_
  exact run_keeps (dispatchAction_keeps sha256 ex tx.transaction.action tx.signer
    tx.transaction.timestamp height)

theorem steps_keep (h : Store.Holds (Keeps F s) t) {txs : List SignedTransaction}
    (hF : ∀ tx ∈ txs, touchedBy tx ⊆ F) (gas height : UInt64) (proposer : Address) :
    Store.Holds (Keeps F s)
      (Executor.storeAfter t (ex.steps sha256 height proposer gas t txs)) := by
  induction txs generalizing t gas with
  | nil => exact h
  | cons tx rest ih =>
      refine ih ?_ (fun tx' hMem => hF tx' (List.mem_cons_of_mem _ hMem)) _
      unfold Executor.next
      split
      · exact h
      · exact executeTransaction_keeps h (hF tx List.mem_cons_self) height proposer

end Blocks

/-- A block leaves every record alone that is neither in the families of the payout of matured
unbondings nor in those of one of its transactions, whatever the outcomes. -/
theorem block_keeps_other_families (sha256 : List UInt8 → Hash) (ex : Executor)
    (txs : List SignedTransaction) (height : UInt64) (proposer : Address) (s : StateStore) :
    Store.Holds (Keeps ([.account, .unbonding] ++ txs.flatMap touchedBy) s)
      ((ex.executeBlock sha256 txs height proposer).run s).2 := by
  rw [Executor.run_executeBlock]
  refine steps_keep ?_ (fun tx hMem => ?_) 0 height proposer
  · exact holds_of_keeps (free_keeps (List.subset_append_left _ _) s) (holds_keeps _ s)
      (unbonded_keeps height s)
  · exact List.subset_append_of_subset_right _ fun f hf => List.mem_flatMap.mpr ⟨tx, hMem, hf⟩

end Polay.Execution
