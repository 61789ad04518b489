import Polay.Execution.Blocks

/-!
# What receipts say about the store

A receipt with `success = false` and no gas reads as "nothing happened". This is
right for skipped and rejected transactions. It is wrong when the fee was
collected: after a panic of the handler, whose writes stay, and for a failed
action whose gas is zero because the sum wrapped.

`Panics` says, from the store before the transaction alone, when the handler
panics; `truthful_iff` is the exact condition.
-/

namespace Polay.Execution

open Lib Lib.Machine Polay.Types State

namespace Executor

variable (sha256 : List UInt8 → Hash) (ex : Executor)

/-! ## When a handler panics -/

variable {height : UInt64} {proposer signer : Address} {s : StateStore}

/-- The organizer reports no rankings for an active tournament. -/
def ReportPanics (s : StateStore) (signer : Address) (id : Hash) (rankings : List Address) :
    Prop :=
  rankings = [] ∧ ∃ t, s.get? (.tournament id) = some t ∧
    Tournament.status t.val = .active ∧ signer = Tournament.organizer t.val

/-- A ranked player claims a prize for which the tournament has no claim flag, or
no share although it is unclaimed. -/
def ClaimPanics (s : StateStore) (signer : Address) (id : Hash) : Prop :=
  ∃ t, s.get? (.tournament id) = some t ∧ Tournament.status t.val = .completed ∧
    ∃ i, Tournaments.rankOf (Tournament.rankings t.val) signer = some i ∧
      ((Tournament.prizesClaimed t.val)[i]? = none ∨
        ((Tournament.prizesClaimed t.val)[i]? = some false ∧
          (Tournament.prizeDistribution t.val)[i]? = none))

/-- Stake is delegated to an active validator under an epoch length of zero, and
the delegator's balance covers it. -/
def DelegatePanics (s : StateStore) (balance : Option UInt64) (validator : Address)
    (amount : UInt64) : Prop :=
  ex.chainConfig.epochLength = 0 ∧
    (∃ v, s.get? (.validator validator) = some v ∧ ValidatorInfo.isActive v.val = true) ∧
    ∃ b, balance = some b ∧ ¬ b < amount

/-- When the handler of an action panics, given the signer's balance. -/
def ActionPanics (s : StateStore) (signer : Address) (balance : Option UInt64) :
    TransactionAction → Prop
  | .delegateStake validator amount => ex.DelegatePanics s balance validator amount
  | .reportTournamentResults id rankings => ReportPanics s signer id rankings
  | .claimTournamentPrize id => ClaimPanics s signer id
  | _ => False

/-- When the handler of a transaction panics, from the store before its fee. -/
def Panics (tx : SignedTransaction) (proposer : Address) (s : StateStore) : Prop :=
  ex.ActionPanics s tx.signer
    ((accountOf s tx.signer).map fun x => ex.settledBalance tx proposer tx.signer x.balance)
    tx.transaction.action

theorem delegateStake_panics {validator : Address} {amount : UInt64} :
    ((Staking.executeDelegateStake ex.chainConfig signer validator amount height).run s).1 =
        .panic ↔
      ex.DelegatePanics s ((accountOf s signer).map (·.balance)) validator amount := by
  unfold Staking.executeDelegateStake DelegatePanics
  rw [Prog.bind_eq, getValidator, storeGet, Prog.get_bind, Prog.run_get, Prog.pure_bind]
  cases hv : s.get? (.validator validator) with
  | none => simp [Prog.require]
  | some v =>
      simp only [Option.map_some, Prog.require, Prog.pure_bind, Prog.bind_eq]
      by_cases hActive : ValidatorInfo.isActive v.val = true
      · simp only [hActive, Prog.ensure, if_true, Prog.pure_bind, run_loadAccount_bind]
        cases hAcc : accountOf s signer with
        | none => simp
        | some x =>
            simp only [run_debited_bind]
            by_cases hLt : x.balance < amount
            · simp [hLt]
            · by_cases hEpoch : ex.chainConfig.epochLength = 0
              · have hLe := UInt64.not_lt.mp hLt
                simp [hLt, hLe, hEpoch, hActive, Prog.assert, setAccount, setValidator, storePut]
              · simp [hLt, hEpoch, Prog.assert, setAccount, setValidator, storePut,
                  getDelegation, storeGet, setDelegation]
      · simp [hActive, Prog.ensure]

theorem reportTournamentResults_panics {id : Hash} {rankings : List Address} :
    ((Tournaments.executeReportTournamentResults signer id rankings height).run s).1 =
      .panic ↔ ReportPanics s signer id rankings := by
  unfold Tournaments.executeReportTournamentResults ReportPanics
  rw [Prog.bind_eq, getTournament, storeGet, Prog.get_bind, Prog.run_get, Prog.pure_bind]
  cases ht : s.get? (.tournament id) with
  | none => simp [Prog.require]
  | some t =>
      simp only [Option.map_some, Prog.require, Prog.pure_bind, Prog.bind_eq, Prog.ensure]
      by_cases hStatus : Tournament.status t.val = .active
      · by_cases hOrganizer : signer = Tournament.organizer t.val
        · cases rankings with
          | nil => simp [hStatus, hOrganizer, setTournament, storePut, Prog.unwrap]
          | cons =>
              simp only [hStatus, hOrganizer, if_true, Prog.pure_bind]
              split
              · split <;> simp [setTournament, storePut, Prog.unwrap]
              · simp
        · simp [hStatus, hOrganizer]
      · simp [hStatus]

theorem claimTournamentPrize_panics {id : Hash} :
    ((Tournaments.executeClaimTournamentPrize signer id).run s).1 = .panic ↔
      ClaimPanics s signer id := by
  unfold Tournaments.executeClaimTournamentPrize ClaimPanics
  rw [Prog.bind_eq, getTournament, storeGet, Prog.get_bind, Prog.run_get, Prog.pure_bind]
  cases ht : s.get? (.tournament id) with
  | none => simp [Prog.require]
  | some t =>
      simp only [Option.map_some, Prog.require, Prog.pure_bind, Prog.bind_eq, Prog.ensure]
      by_cases hStatus : Tournament.status t.val = .completed
      · cases hRank : Tournaments.rankOf (Tournament.rankings t.val) signer with
        | none => simp [hStatus, hRank]
        | some i =>
            cases hClaimed : (Tournament.prizesClaimed t.val)[i]? with
            | none => simp [hStatus, hRank, hClaimed, Prog.unwrap, -getElem?_eq_none_iff]
            | some claimed =>
                cases claimed with
                | true => simp [hStatus, hRank, hClaimed, Prog.unwrap, -getElem?_eq_none_iff]
                | false =>
                    cases hShare : (Tournament.prizeDistribution t.val)[i]? with
                    | none =>
                        simp [hStatus, hRank, hClaimed, hShare, Prog.unwrap,
                          -getElem?_eq_none_iff]
                    | some =>
                        simp [hStatus, hRank, hClaimed, hShare, Prog.unwrap, getAccountOrNew,
                          getAccount, storeGet, setAccount, setTournament, storePut,
                          -getElem?_eq_none_iff]
      · simp [hStatus]

/-- The outcome of a program is a panic whether or not its value is used. -/
theorem run_bind_pure_panic {α β : Type} {p : Handler α} {f : α → β} :
    ((p.bind fun a => .pure (f a)).run s).1 = .panic ↔ (p.run s).1 = .panic := by
  rw [Prog.run_bind]
  cases p.run s with
  | mk outcome => cases outcome <;> simp [Prog.andThen, Prog.runOn]

theorem dispatchAction_panics {action : TransactionAction} {t : UInt64} :
    ((ex.dispatchAction sha256 action signer t height).run s).1 = .panic ↔
      ex.ActionPanics s signer ((accountOf s signer).map (·.balance)) action := by
  cases action
  case delegateStake =>
    exact run_bind_pure_panic.trans (ex.delegateStake_panics)
  case reportTournamentResults =>
    exact run_bind_pure_panic.trans reportTournamentResults_panics
  case claimTournamentPrize =>
    exact run_bind_pure_panic.trans claimTournamentPrize_panics
  all_goals exact ⟨ex.mayPanic_of_dispatchAction sha256, False.elim⟩

/-! ## One transaction -/

theorem ActionPanics.congr {t : StateStore} {balance : Option UInt64} {action : TransactionAction}
    (hTournament : ∀ id, t.get? (.tournament id) = s.get? (.tournament id))
    (hValidator : ∀ a, t.get? (.validator a) = s.get? (.validator a)) :
    ex.ActionPanics t signer balance action ↔ ex.ActionPanics s signer balance action := by
  cases action
  case delegateStake =>
    simp only [ActionPanics, DelegatePanics, hValidator]
  case reportTournamentResults =>
    simp only [ActionPanics, ReportPanics, hTournament]
  case claimTournamentPrize =>
    simp only [ActionPanics, ClaimPanics, hTournament]
  all_goals rfl

/-- The fee stage does not decide whether a handler panics, except through the
signer's balance. -/
theorem action_panics_iff {tx : SignedTransaction} (height : UInt64) {s₁ : StateStore}
    (hCharges : ex.Charges tx s) (h : ex.Collected tx proposer s s₁) :
    ((ex.action sha256 tx height).run s₁).1 = .panic ↔ ex.Panics tx proposer s := by
  obtain ⟨x, hx⟩ := Option.isSome_iff_exists.mp hCharges.2.1
  obtain ⟨y, hy, hBalance⟩ := h.balance _ x hx
  unfold action Panics
  rw [dispatchAction_panics, hx, hy, Option.map_some, Option.map_some, hBalance]
  exact ActionPanics.congr ex (fun _ => h.other _ (by simp) (by simp))
    fun _ => h.other _ (by simp) (by simp)

/-- The handler accepts the action of a transaction on the store its fee leaves. -/
def Accepts (tx : SignedTransaction) (height : UInt64) (proposer : Address)
    (s : StateStore) : Prop :=
  ∃ r, ((ex.action sha256 tx height).run ((ex.collectFee tx proposer).run s).2).1 = .ok r

/-- A turn changes the store unless it is not charged. -/
theorem IsStep.after_ne {st : BlockStep} (h : ex.IsStep sha256 height proposer st)
    (hCharged : ex.Charged st) : st.after ≠ st.before := by
  intro hEq
  have hNonce := congrFun (h.nonceOf_after hCharged) st.tx.signer
  rw [hEq, Function.update_self] at hNonce
  have hSub := congrArg (· - nonceOf st.before st.tx.signer) hNonce
  simp [UInt64.add_comm] at hSub

/-- A receipt without success and gas says that the store was left alone. -/
def Truthful (receipt : TransactionReceipt) (before after : StateStore) : Prop :=
  receipt.success = false → receipt.gasUsed = 0 → after = before

/-- When the receipt of a transaction at its turn is truthful. -/
def TellsTruth (tx : SignedTransaction) (height : UInt64) (proposer : Address) (gas : UInt64)
    (s : StateStore) : Prop :=
  ex.OverLimit gas tx ∨ ¬ ex.Charges tx s ∨
    (¬ ex.Panics tx proposer s ∧
      (ex.estimateGas tx.transaction = 0 → ex.Accepts sha256 tx height proposer s))

theorem IsStep.truthful_iff {st : BlockStep} (h : ex.IsStep sha256 height proposer st) :
    Truthful st.receipt st.before st.after ↔
      ex.TellsTruth sha256 st.tx height proposer st.gas st.before := by
  by_cases hCharged : ex.Charged st
  · have hNe := h.after_ne sha256 ex hCharged
    have hRun := ex.executeTransaction_run sha256 st.tx height proposer st.before
    have hReceipt := (h.after_charged hCharged).2
    unfold Truthful TellsTruth
    simp only [hCharged.1, hCharged.2, not_true, false_or, hNe, imp_false]
    generalize (ex.executeTransaction sha256 st.tx height proposer).run st.before = result
      at hRun hReceipt
    cases hRun with
    | rejected e hc => exact absurd hCharged.2 hc
    | failed fees s₁ e s₂ _ hFee hCollected hAction =>
        have hPanics := ex.action_panics_iff sha256 height hCharged.2 hCollected
        rw [hAction] at hPanics
        have hAccepts : ¬ ex.Accepts sha256 st.tx height proposer st.before := by
          rintro ⟨r, hr⟩
          rw [hFee, hAction] at hr
          cases hr
        rw [hReceipt]
        simp [booked, TransactionReceipt.failure, ← hPanics, hAccepts]
    | panicked fees s₁ s₂ _ hFee hCollected hAction =>
        have hPanics := ex.action_panics_iff sha256 height hCharged.2 hCollected
        rw [hAction] at hPanics
        rw [hReceipt]
        simp [booked, rejection, TransactionReceipt.failure, ← hPanics]
    | succeeded fees s₁ s₂ s₃ events changes spent _ hFee hCollected hAction =>
        have hPanics := ex.action_panics_iff sha256 height hCharged.2 hCollected
        rw [hAction] at hPanics
        have hAccepts : ex.Accepts sha256 st.tx height proposer st.before := by
          refine ⟨(events, changes), ?_⟩
          rw [hFee, hAction]
        rw [hReceipt]
        simp [booked, TransactionReceipt.succeeded, ← hPanics, hAccepts]
  · have hCond : ex.TellsTruth sha256 st.tx height proposer st.gas st.before := by
      by_cases hGas : ex.OverLimit st.gas st.tx
      · exact .inl hGas
      · exact .inr (.inl fun hCharges => hCharged ⟨hGas, hCharges⟩)
    exact ⟨fun _ => hCond, fun _ _ _ => h.after_eq hCharged⟩

/-! ## Every transaction of a block -/

/-- The receipt of a transaction in a block tells the truth about the store exactly
when, at its turn, the transaction is skipped, or its fee is not collected, or its
handler does not panic and, should its gas be zero, accepts the action. -/
theorem receipts_truthful_iff (txs : List SignedTransaction) (height : UInt64)
    (proposer : Address) (s : StateStore) {i : Nat} {tx : SignedTransaction}
    (hTx : txs[i]? = some tx) :
    (∀ receipt, (ex.receiptsOf sha256 txs height proposer s)[i]? = some receipt →
      Truthful receipt (ex.storeBefore sha256 txs height proposer s i)
        (ex.storeBefore sha256 txs height proposer s (i + 1))) ↔
      ex.TellsTruth sha256 tx height proposer (ex.gasBefore sha256 txs height proposer s i)
        (ex.storeBefore sha256 txs height proposer s i) := by
  obtain ⟨receipt, hReceipt, hStep⟩ := ex.isStep_at sha256 height proposer s hTx
  rw [hReceipt]
  simp only [Option.some.injEq, forall_eq']
  exact hStep.truthful_iff sha256 ex

/-- An active tournament with one participant and one prize. -/
def activeTournament : Tournament where
  tournamentId := Hash.ofByte 7
  name := "cup"
  organizer := Address.ofByte 1
  gameId := "game"
  entryFee := 0
  prizePool := 0
  maxParticipants := 8
  minParticipants := 1
  participants := [Address.ofByte 2]
  status := .active
  startHeight := 0
  endHeight := none
  prizeDistribution := [100]
  rankings := []
  prizesClaimed := []
  createdAt := 0

/-- A store with that tournament and a funded organizer. -/
def tournamentStore : StateStore :=
  (withAccount ∅ (AccountState.withBalance (Address.ofByte 1) 1000000 0)).insert
    (.tournament (Hash.ofByte 7)) ⟨activeTournament, rfl⟩

/-- The organizer reports results without a ranking. -/
def emptyReport : SignedTransaction where
  transaction :=
    { chainId := "polay-devnet-1", nonce := 0, signer := Address.ofByte 1
      action := .reportTournamentResults (Hash.ofByte 7) [], maxFee := 100000, timestamp := 0
      session := none, sponsor := none }
  signature := Signature.zero
  txHash := Hash.zero
  signerPubkey := []

theorem receipts_truthful_iff_emptyReport :
    (∀ receipt, (Executor.devnet.receiptsOf (fun _ => Hash.zero) [emptyReport] 1 Address.zero
      tournamentStore)[0]? = some receipt →
      Truthful receipt
        (Executor.devnet.storeBefore (fun _ => Hash.zero) [emptyReport] 1 Address.zero
          tournamentStore 0)
        (Executor.devnet.storeBefore (fun _ => Hash.zero) [emptyReport] 1 Address.zero
          tournamentStore 1)) ↔
      Executor.devnet.TellsTruth (fun _ => Hash.zero) emptyReport 1 Address.zero
        (Executor.devnet.gasBefore (fun _ => Hash.zero) [emptyReport] 1 Address.zero
          tournamentStore 0)
        (Executor.devnet.storeBefore (fun _ => Hash.zero) [emptyReport] 1 Address.zero
          tournamentStore 0) :=
  receipts_truthful_iff (fun _ => Hash.zero) Executor.devnet [emptyReport] 1 Address.zero
    tournamentStore rfl

/-- The report panics after the tournament was written: the receipt shows neither
success nor gas, but the nonce was counted, the fee is gone and the tournament is
completed. -/
theorem empty_report_changes_store :
    Executor.devnet.receiptsOf (fun _ => Hash.zero) [emptyReport] 1 Address.zero
        tournamentStore = [rejection emptyReport 1 "transaction execution panicked"] ∧
      accountOf (Executor.devnet.storeBefore (fun _ => Hash.zero) [emptyReport] 1 Address.zero
        tournamentStore 0) (Address.ofByte 1) =
        some ⟨Address.ofByte 1, 0, 1000000, 0⟩ ∧
      accountOf (Executor.devnet.storeBefore (fun _ => Hash.zero) [emptyReport] 1 Address.zero
        tournamentStore 1) (Address.ofByte 1) =
        some ⟨Address.ofByte 1, 1, 937192, 0⟩ ∧
      (((Executor.devnet.storeBefore (fun _ => Hash.zero) [emptyReport] 1 Address.zero
        tournamentStore 1).get? (.tournament (Hash.ofByte 7))).map
          fun t => Tournament.status t.val) = some .completed := by
  decide +kernel

end Executor

end Polay.Execution
