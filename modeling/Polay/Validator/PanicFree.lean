import Polay.Execution.StatefulValidation
import Polay.Validator.Reachable

/-!
# Validated input does not panic

Three handlers can panic. The configuration rules out the first: epochs have a length. The
input checks rule out the second: a report has rankings. The third indexes the claim flags
and the prize shares of a tournament at the rank of the signer, so it needs an invariant of
the chain: there is a flag for every rank, and a share for every rank.
-/

namespace Polay.Validator

open Lib Lib.Machine Polay.Types State Execution Crypto

/-! ## Tournaments -/

section Tournaments

variable (signer : Address) (id : Hash)

/-- Every rank has a claim flag and a prize share. -/
def RankedSoundly (t : Tournament) : Prop :=
  t.prizesClaimed.length = t.rankings.length ∧ t.rankings.length ≤ t.prizeDistribution.length

/-- The stored tournaments are ranked soundly. -/
def Ranked (k : Key) (r : Option k.Value) : Prop :=
  match k, r with
  | .tournament _, some t => RankedSoundly t.val
  | _, _ => True

theorem free_ranked {F : List Family} (h : Family.tournament ∉ F) : Free F Ranked := by
  intro k r hk
  cases k
  case tournament => exact absurd hk h
  all_goals trivial

/-- A handler that starts by reading a tournament. -/
theorem ranked_readTournament {β : Type} {id : Hash} {e : ExecutionError}
    {f : Tournament → Handler β} (hf : ∀ t, RankedSoundly t → (f t).Safe Ranked True True false) :
    ((getTournament id).bind fun r => (Prog.require r e).bind f).Safe Ranked True True false := by
  intro r hr
  cases r with
  | none => exact fun _ => trivial
  | some t => exact hf t.val hr

attribute [local simp] Ranked setTournament storePut storeGet getAccount setAccount
  getAccountOrNew

theorem executeCreateTournament_ranked (sha256 : List UInt8 → Hash) (signer : Address)
    (name gameId : String) (entryFee : UInt64) (maxP minP : UInt32) (start : UInt64)
    (prizes : List UInt32) (t : UInt64) :
    (Tournaments.executeCreateTournament sha256 signer name gameId entryFee maxP minP start
      prizes t).Safe Ranked True True false := by
  simp [Tournaments.executeCreateTournament, RankedSoundly]

theorem executeJoinTournament_ranked :
    (Tournaments.executeJoinTournament signer id).Safe Ranked True True false := by
  refine ranked_readTournament fun x hx => ?_
  have hJoined : ∀ pool ps, RankedSoundly { x with prizePool := pool, participants := ps } :=
    fun _ _ => hx
  simp [Tournaments.payEntryFee, loadAccount, debited, getChainHeight, isTournamentParticipant,
    setTournamentParticipant, hJoined]

theorem executeStartTournament_ranked (height : UInt64) :
    (Tournaments.executeStartTournament id height).Safe Ranked True True false := by
  refine ranked_readTournament fun x hx => ?_
  have hStarted : RankedSoundly { x with status := .active } := hx
  simp [hStarted]

/-- A report brings one flag for every rank, and at most as many ranks as shares. -/
theorem executeReportTournamentResults_ranked (rankings : List Address) (height : UInt64) :
    (Tournaments.executeReportTournamentResults signer id rankings height).Safe Ranked
      True True false := by
  refine ranked_readTournament fun x _ => ?_
  simp [RankedSoundly]

theorem executeClaimTournamentPrize_ranked :
    (Tournaments.executeClaimTournamentPrize signer id).Safe Ranked True True false := by
  refine ranked_readTournament fun x hx => ?_
  have hClaimed : ∀ i, RankedSoundly { x with prizesClaimed := x.prizesClaimed.set i true } :=
    fun i => ⟨(List.length_set).trans hx.1, hx.2⟩
  simp [hClaimed]

theorem executeCancelTournament_ranked :
    (Tournaments.executeCancelTournament signer id).Safe Ranked True True false := by
  refine ranked_readTournament fun x hx => ?_
  have hCancelled : RankedSoundly { x with status := .cancelled, prizePool := 0 } := hx
  have hRefund : ∀ fee l, (Prog.each (Tournaments.refundEntryFee fee) l).Safe Ranked
      True True false := by
    intro fee l
    refine (Prog.Safe.each fun p _ => ?_).of_true false
    simp [Tournaments.refundEntryFee]
  simp [Prog.Safe.bind, hRefund, hCancelled]

end Tournaments

section Runs

variable {sha256 : List UInt8 → Hash} {ex : Executor}

/-- Every action keeps the tournaments ranked soundly. -/
theorem dispatchAction_ranked {action : TransactionAction} {signer : Address} {t height : UInt64}
    {s : StateStore} (hs : Store.Holds Ranked s) :
    Store.Holds Ranked ((ex.dispatchAction sha256 action signer t height).run s).2 := by
  by_cases hTournament : Family.tournament ∈ writtenBy action
  · have hSafe : (ex.dispatchAction sha256 action signer t height).Safe Ranked
        True True false := by
      cases action
      case createTournament =>
        exact (executeCreateTournament_ranked sha256 _ _ _ _ _ _ _ _ _).bind fun _ => trivial
      case joinTournament => exact (executeJoinTournament_ranked _ _).bind fun _ => trivial
      case startTournament => exact (executeStartTournament_ranked _ _).bind fun _ => trivial
      case reportTournamentResults =>
        exact (executeReportTournamentResults_ranked _ _ _ _).bind fun _ => trivial
      case claimTournamentPrize =>
        exact (executeClaimTournamentPrize_ranked _ _).bind fun _ => trivial
      case cancelTournament => exact (executeCancelTournament_ranked _ _).bind fun _ => trivial
      all_goals simp [writtenBy] at hTournament
    exact (hSafe.sound hs).holds
  · exact holds_of_keeps (free_ranked hTournament) hs
      (run_keeps (dispatchAction_keeps sha256 ex action signer t height))

theorem executeTransaction_ranked {tx : SignedTransaction} {height : UInt64} {proposer : Address}
    {s : StateStore} (hs : Store.Holds Ranked s) :
    Store.Holds Ranked ((ex.executeTransaction sha256 tx height proposer).run s).2 :=
  (ex.executeTransaction_run sha256 tx height proposer s).holds
    (free_ranked (by simp [feeFamilies])) hs fun _ _ h => dispatchAction_ranked h

end Runs

/-! ## Validated transactions -/

section Validated

variable (crypto : Primitives) (chainId : String) (ex : Executor)

/-- A transaction passes the stateless checks under the executor's configuration. -/
def InputChecked (tx : SignedTransaction) : Prop :=
  Validation.validateStatelessWithConfig crypto tx chainId (some ex.chainConfig) = .ok ()

/-- The states reached from a genesis by executing checked transactions. -/
inductive CheckedRun : StateStore → Prop
  | genesis {g : Genesis} {s : StateStore}
      (h : (ChainState.initFromGenesis ⟨ex.chainConfig⟩ g).run ∅ = (.ok (), s)) : CheckedRun s
  | execute {s : StateStore} (h : CheckedRun s) {tx : SignedTransaction}
      (hTx : InputChecked crypto chainId ex tx) (height : UInt64) (proposer : Address) :
      CheckedRun ((ex.executeTransaction crypto.sha256 tx height proposer).run s).2

variable {crypto : Primitives} {chainId : String} {ex : Executor}

theorem CheckedRun.ranked {s : StateStore} (h : CheckedRun crypto chainId ex s) :
    Store.Holds Ranked s := by
  induction h with
  | @genesis g s h =>
      have hEmpty : Store.Holds Ranked (∅ : StateStore) := by
        intro k
        cases k <;> trivial
      have hKeeps := keeps_of_chainFrame (initFromGenesis_safe ⟨ex.chainConfig⟩ g (s := ∅))
      rw [h] at hKeeps
      exact holds_of_keeps (free_ranked (by simp [chainFamilies])) hEmpty hKeeps
  | execute _ _ height proposer ih => exact executeTransaction_ranked ih

/-- A configuration is accepted if it has none of the problems. -/
theorem validate_eq_ok {c : ChainConfig} (h : c.validate = .ok ()) {p : Bool × String}
    (hp : p ∈ c.problems) : p.1 = false := by
  unfold ChainConfig.validate at h
  split at h
  next hNone =>
    rw [List.filterMap_eq_nil_iff] at hNone
    simpa using hNone p hp
  next => cases h

/-- A sound configuration has epochs. -/
theorem epochLength_ne_zero {c : ChainConfig} (h : c.validate = .ok ()) : c.epochLength ≠ 0 := by
  have hEpoch := validate_eq_ok h
    (p := (c.epochLength == 0, "epoch_length must be > 0")) (by simp [ChainConfig.problems])
  simpa using hEpoch

/-- A checked report has rankings. -/
theorem InputChecked.rankings_ne_nil {tx : SignedTransaction} {id : Hash}
    {rankings : List Address} (h : InputChecked crypto chainId ex tx)
    (hAction : tx.transaction.action = .reportTournamentResults id rankings) : rankings ≠ [] := by
  have hInput := ((Validation.validateStatelessWithConfig_eq_ok crypto).mp h).2.2.2.2.2.2
  unfold InputValidation.validateTransactionInput at hInput
  rw [hAction] at hInput
  exact Check.ensure_eq_ok.mp (Check.and_eq_ok.mp (Check.and_eq_ok.mp hInput).2).1

/-- Nobody of a soundly ranked tournament is without a claim flag or a share. -/
theorem not_claimPanics {s : StateStore} (hs : Store.Holds Ranked s) (signer : Address)
    (id : Hash) : ¬ Executor.ClaimPanics s signer id := by
  rintro ⟨t, hGet, _, i, hRank, hMissing⟩
  have hSound := hs (.tournament id)
  rw [hGet] at hSound
  obtain ⟨hFlags, hShares⟩ : RankedSoundly t.val := hSound
  obtain ⟨hLt, _⟩ := List.findIdx?_eq_some_iff_getElem.mp hRank
  rcases hMissing with hNone | ⟨_, hNone⟩
  · rw [List.getElem?_eq_none_iff] at hNone
    omega
  · rw [List.getElem?_eq_none_iff] at hNone
    omega

/-- A checked transaction does not panic, at any height, in any state that checked
transactions lead to from a genesis, under any sound configuration. -/
theorem executeTransaction_ne_panic (hConfig : ex.chainConfig.validate = .ok ()) {s : StateStore}
    (hRun : CheckedRun crypto chainId ex s) {tx : SignedTransaction}
    (hTx : InputChecked crypto chainId ex tx) (height : UInt64) (proposer : Address) :
    ((ex.executeTransaction crypto.sha256 tx height proposer).run s).1 ≠ .panic := by
  have hTxRun := ex.executeTransaction_run crypto.sha256 tx height proposer s
  generalize (ex.executeTransaction crypto.sha256 tx height proposer).run s = result at hTxRun
  cases hTxRun with
  | rejected | failed | succeeded => simp
  | panicked fees s₁ s₂ hCharges hFee hCollected hAction =>
      have hPanics := (ex.action_panics_iff crypto.sha256 height hCharges hCollected).mp
        (by rw [hAction])
      unfold Executor.Panics at hPanics
      cases hCase : tx.transaction.action
      case delegateStake =>
        rw [hCase] at hPanics
        exact absurd hPanics.1 (epochLength_ne_zero hConfig)
      case reportTournamentResults =>
        rw [hCase] at hPanics
        exact absurd hPanics.1 (hTx.rankings_ne_nil hCase)
      case claimTournamentPrize =>
        rw [hCase] at hPanics
        exact absurd hPanics (not_claimPanics hRun.ranked _ _)
      all_goals
        rw [hCase] at hPanics
        exact hPanics.elim

/-- A prize claim, then a delegation, on the development network. -/
theorem executeTransaction_ne_panic_onePlayer :
    ((Executor.devnet.executeTransaction checksum
      (sampleOrder (.delegateStake (Address.ofByte 2) 5)) 2 Address.zero).run
        ((Executor.devnet.executeTransaction checksum
          (sampleOrder (.claimTournamentPrize (Hash.ofByte 7))) 1 Address.zero).run
            onePlayerStore).2).1 ≠ .panic := by
  have hGenesis : CheckedRun .sample "polay-devnet-1" Executor.devnet onePlayerStore := by
    refine .genesis (g := onePlayer) (Prod.ext ?_ rfl)
    decide +kernel
  have hClaim : InputChecked .sample "polay-devnet-1" Executor.devnet
      (sampleOrder (.claimTournamentPrize (Hash.ofByte 7))) := by
    unfold InputChecked
    decide +kernel
  have hDelegate : InputChecked .sample "polay-devnet-1" Executor.devnet
      (sampleOrder (.delegateStake (Address.ofByte 2) 5)) := by
    unfold InputChecked
    decide +kernel
  have hConfig : Executor.devnet.chainConfig.validate = .ok () := by decide +kernel
  exact executeTransaction_ne_panic hConfig (hGenesis.execute hClaim 1 Address.zero) hDelegate 2
    Address.zero

end Validated

end Polay.Validator
