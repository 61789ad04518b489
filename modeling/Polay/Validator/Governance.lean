import Polay.Execution.Calls
import Polay.Execution.Creation
import Polay.Validator.StakeBacking

/-!
# Votes and tallies

A vote is stored under its proposal and its voter, and the proposal counts it in one of three
tallies. A second vote takes the stored weight of the first one out again, so the tallies are
the sums of the stored weights whatever happened to the stake of the voter in between.

`GovernanceEffect` says what a transaction can do to proposals and votes: nothing, or a
proposal is submitted, voted on or closed.
-/

namespace Polay.Validator

open Lib Lib.Machine Lib.Trace Polay.Types State Execution
open Execution.Executor
open Polay.Types.Governance (Proposal Vote VoteOption ProposalAction)

variable {sha256 : List UInt8 → Hash} {ex : Executor} {s t : StateStore}

/-! ## Stored votes -/

variable (p : Proposal) {id : Hash}

/-- The stored vote of an account on a proposal. -/
def storedVote (s : StateStore) (id : Hash) (a : Address) : Option Vote :=
  (s.get? (.vote id a)).map (·.val)

theorem files_vote (v : Vote) : (Key.vote v.proposalId v.voter).Files v := ⟨rfl, rfl⟩

/-- The store with a vote written. -/
def withVote (s : StateStore) (v : Vote) : StateStore :=
  s.insert (.vote v.proposalId v.voter) ⟨v, files_vote v⟩

theorem identifiers_of_storedVote {a : Address} {v : Vote} (h : storedVote s id a = some v) :
    v.proposalId = id ∧ v.voter = a := by
  obtain ⟨r, _, rfl⟩ := Option.map_eq_some_iff.mp h
  exact r.property

theorem storedVote_withVote (s : StateStore) (v : Vote) (id : Hash) (a : Address) :
    storedVote (withVote s v) id a =
      if id = v.proposalId ∧ a = v.voter then some v else storedVote s id a :=
  Store.read_insert s (.vote id a) (Option.map (·.val)) (by simp [eq_comm]) (by rintro ⟨⟩; rfl)

theorem proposalOf_withProposal (s : StateStore) (p : Proposal) (id : Hash) :
    proposalOf (withProposal s p) id = if id = p.id then some p else proposalOf s id :=
  Store.read_insert s (.proposal id) (Option.map (·.val)) (by simp [eq_comm]) (by rintro ⟨⟩; rfl)

/-- The weight of a stored vote for an option. -/
def voteFigure (id : Hash) (o : VoteOption) : (k : Key) → k.Value → Nat
  | .vote i _, v => if i = id ∧ Vote.option v.val = o then (Vote.weight v.val).toNat else 0
  | _, _ => 0

/-- The weights of the stored votes on a proposal for an option. -/
def voteSum (id : Hash) (o : VoteOption) (s : StateStore) : Nat :=
  Store.total (voteFigure id o) s

/-- What a vote counts for an option. -/
def countFor (o : VoteOption) (v : Option Vote) : Nat :=
  (v.map fun v => if v.option = o then v.weight.toNat else 0).getD 0

theorem figureAt_vote (s : StateStore) (id : Hash) (o : VoteOption) (a : Address) :
    Store.figureAt (voteFigure id o) s (.vote id a) = countFor o (storedVote s id a) := by
  unfold Store.figureAt storedVote countFor
  cases s.get? (.vote id a) with
  | none => rfl
  | some v => simp [voteFigure]

theorem figureAt_vote_ne {k : Key} (h : ∀ a, k ≠ .vote id a) (o : VoteOption) (s : StateStore) :
    Store.figureAt (voteFigure id o) s k = 0 := by
  refine Store.figureAt_eq_zero _ fun x => ?_
  cases k
  case vote i a =>
    have hNe : i ≠ id := fun hEq => h a (by rw [hEq])
    simp [voteFigure, hNe]
  all_goals rfl

/-- Only the stored votes on the proposal matter. -/
theorem voteSum_congr (h : ∀ a, storedVote t id a = storedVote s id a) (o : VoteOption) :
    voteSum id o t = voteSum id o s := by
  refine Store.total_congr fun k => ?_
  by_cases hk : ∃ a, k = .vote id a
  · obtain ⟨a, rfl⟩ := hk
    rw [figureAt_vote, figureAt_vote, h]
  · have hNe : ∀ a, k ≠ .vote id a := fun a hEq => hk ⟨a, hEq⟩
    rw [figureAt_vote_ne hNe, figureAt_vote_ne hNe]

theorem voteSum_eq_zero (h : ∀ a, storedVote s id a = none) (o : VoteOption) :
    voteSum id o s = 0 := by
  refine Store.total_eq_zero fun k => ?_
  by_cases hk : ∃ a, k = .vote id a
  · obtain ⟨a, rfl⟩ := hk
    rw [figureAt_vote, h]
    rfl
  · exact figureAt_vote_ne (fun a hEq => hk ⟨a, hEq⟩) o s

/-- A vote replaces the one of the same voter. -/
theorem voteSum_withVote (s : StateStore) (v : Vote) (o : VoteOption) :
    voteSum v.proposalId o (withVote s v) + countFor o (storedVote s v.proposalId v.voter) =
      voteSum v.proposalId o s + countFor o (some v) := by
  have hInsert := Store.total_insert (voteFigure v.proposalId o) (s := s)
    (.vote v.proposalId v.voter) ⟨v, files_vote v⟩
  rw [figureAt_vote] at hInsert
  have hNew : voteFigure v.proposalId o (.vote v.proposalId v.voter) ⟨v, files_vote v⟩ =
      countFor o (some v) := by
    simp [voteFigure, countFor]
  rw [hNew] at hInsert
  exact hInsert

theorem countFor_le (s : StateStore) (id : Hash) (o : VoteOption) (a : Address) :
    countFor o (storedVote s id a) ≤ voteSum id o s := by
  have hLe := Store.sum_figureAt_le (w := voteFigure id o) (s := s)
    (List.nodup_singleton (Key.vote id a))
  rw [List.map_singleton, List.sum_singleton, figureAt_vote] at hLe
  exact hLe

/-! ## What a transaction does to proposals and votes -/

/-- Two stores with the same proposals and votes. -/
structure SameGovernance (s t : StateStore) : Prop where
  proposals : ∀ id, proposalOf t id = proposalOf s id
  votes : ∀ id a, storedVote t id a = storedVote s id a

theorem sameGovernance_of_sameOn (h : SameOn [.proposal, .vote] s t) : SameGovernance s t := by
  refine ⟨fun id => ?_, fun id a => ?_⟩
  · rw [proposalOf, h (.proposal id) (by simp [familyOf]), proposalOf]
  · rw [storedVote, h (.vote id a) (by simp [familyOf]), storedVote]

theorem SameGovernance.refl (s : StateStore) : SameGovernance s s :=
  ⟨fun _ => rfl, fun _ _ => rfl⟩

theorem SameGovernance.trans {u : StateStore} (h : SameGovernance s t) (h' : SameGovernance t u) :
    SameGovernance s u :=
  ⟨fun id => (h'.proposals id).trans (h.proposals id),
    fun id a => (h'.votes id a).trans (h.votes id a)⟩

theorem storedVote_withProposal (s : StateStore) (p : Proposal) (id : Hash) (a : Address) :
    storedVote (withProposal s p) id a = storedVote s id a := by
  rw [storedVote, withProposal, Store.get?_insert_ne (by simp), storedVote]

theorem proposalOf_withVote (s : StateStore) (v : Vote) (id : Hash) :
    proposalOf (withVote s v) id = proposalOf s id := by
  rw [proposalOf, withVote, Store.get?_insert_ne (by simp), proposalOf]

theorem SameGovernance.withProposal (h : SameGovernance s t) (p : Proposal) :
    SameGovernance (withProposal s p) (withProposal t p) := by
  refine ⟨fun id => ?_, fun id a => ?_⟩
  · rw [proposalOf_withProposal, proposalOf_withProposal, h.proposals]
  · rw [storedVote_withProposal, storedVote_withProposal, h.votes]

theorem SameGovernance.withVote (h : SameGovernance s t) (v : Vote) :
    SameGovernance (withVote s v) (withVote t v) := by
  refine ⟨fun id => ?_, fun id a => ?_⟩
  · rw [proposalOf_withVote, proposalOf_withVote, h.proposals]
  · rw [storedVote_withVote, storedVote_withVote, h.votes]

/-- The tally of an option. -/
def tallyOf (p : Proposal) : VoteOption → UInt64
  | .yes => p.yesVotes
  | .no => p.noVotes
  | .abstain => p.abstainVotes

theorem tallyOf_adjustTally (o o' : VoteOption) (f : UInt64 → UInt64) :
    tallyOf (Governance.adjustTally p o f) o' =
      if o' = o then f (tallyOf p o) else tallyOf p o' := by
  cases o <;> cases o' <;> rfl

/-- The proposal after a vote, given the earlier vote of the same voter. -/
def votedOn (p : Proposal) (old : Option Vote) (v : Vote) : Proposal :=
  Governance.adjustTally (Governance.withdrawVote p old) v.option
    fun n => saturatingAdd n v.weight

theorem id_votedOn (old : Option Vote) (v : Vote) : (votedOn p old v).id = p.id := by
  unfold votedOn
  cases old <;> simp [Governance.withdrawVote]

/-- The voting weight of an account. -/
def voteWeightOf (s : StateStore) (a : Address) : UInt64 :=
  if 0 < ((validatorOf s a).map (·.stake)).getD 0 then ((validatorOf s a).map (·.stake)).getD 0
  else Governance.sumOver Governance.delegatedAmount
    (s.scan (Key.startsWith (Governance.delegationPrefix a)))

theorem voteWeightOf_congr (h : SameOn [.validator, .delegation] s t) (a : Address) :
    voteWeightOf t a = voteWeightOf s a := by
  have hValidator : validatorOf t a = validatorOf s a := by
    rw [validatorOf, h (.validator a) (by simp [familyOf]), validatorOf]
  have hScan : t.scan (Key.startsWith (Governance.delegationPrefix a)) =
      s.scan (Key.startsWith (Governance.delegationPrefix a)) := by
    refine Store.scan_congr fun k hk => ?_
    cases k
    case delegation d v => exact h _ (by simp [familyOf])
    all_goals simp [Key.startsWith, Key.bytes, Key.split, Governance.delegationPrefix] at hk
  rw [voteWeightOf, hValidator, hScan, voteWeightOf]

/-- What a transaction does to proposals and votes, given which proposals it can submit and
which votes it can cast. -/
inductive GovernanceEffect (new : Hash → Prop) (cast : Hash → VoteOption → Prop)
    (s t : StateStore) : Prop
  | kept (h : SameGovernance s t)
  | submitted (p : Proposal) (hNew : new p.id) (hStatus : p.status = .voting)
      (hTally : ∀ o, tallyOf p o = 0) (h : SameGovernance (withProposal s p) t)
  | voted (p : Proposal) (v : Vote) (hCast : cast v.proposalId v.option)
      (hWeight : v.weight = voteWeightOf s v.voter)
      (hProposal : proposalOf s v.proposalId = some p) (hVoting : p.status = .voting)
      (h : SameGovernance
        (withProposal (withVote s v) (votedOn p (storedVote s v.proposalId v.voter) v)) t)
  | closed (p : Proposal) (status : Governance.ProposalStatus)
      (hProposal : proposalOf s p.id = some p) (hVoting : p.status = .voting)
      (hStatus : status ≠ .voting) (h : SameGovernance (withProposal s { p with status }) t)

/-- Records of other kinds do not matter. -/
theorem GovernanceEffect.congr {new : Hash → Prop} {cast : Hash → VoteOption → Prop}
    {s₁ t₁ : StateStore} (h : GovernanceEffect new cast s₁ t₁) (hs : SameGovernance s s₁)
    (hStakes : SameOn [.validator, .delegation] s s₁) (ht : SameGovernance t₁ t) :
    GovernanceEffect new cast s t := by
  cases h with
  | kept h => exact .kept (hs.trans (h.trans ht))
  | submitted p hNew hStatus hTally h =>
      exact .submitted p hNew hStatus hTally ((hs.withProposal p).trans (h.trans ht))
  | voted p v hCast hWeight hProposal hVoting h =>
      rw [hs.proposals] at hProposal
      rw [hs.votes] at h
      rw [voteWeightOf_congr hStakes] at hWeight
      exact .voted p v hCast hWeight hProposal hVoting
        (((hs.withVote v).withProposal _).trans (h.trans ht))
  | closed p status hProposal hVoting hStatus h =>
      rw [hs.proposals] at hProposal
      exact .closed p status hProposal hVoting hStatus ((hs.withProposal _).trans (h.trans ht))

section Handlers

variable {β : Type} {Q : Outcome ExecutionError β → StateStore → Prop}
variable {id : Hash} (config : ChainConfig)

theorem wp_voteWeight_bind {a : Address} {f : UInt64 → Handler β} :
    ((Governance.voteWeight a).bind f).Wp Q s ↔ (f (voteWeightOf s a)).Wp Q s := by
  unfold Governance.voteWeight voteWeightOf
  rw [Prog.wp_bind, Prog.bind_eq, wp_getValidator_bind]
  dsimp only
  split <;> exact Iff.rfl

theorem wp_getVote_bind {a : Address} {f : Option Vote → Handler β} :
    ((getVote id a).bind f).Wp Q s ↔ (f (storedVote s id a)).Wp Q s := Iff.rfl

theorem wp_setVote_bind {v : Vote} {f : Unit → Handler β} :
    ((setVote v).bind f).Wp Q s ↔ (f ()).Wp Q (withVote s v) := Iff.rfl

/-- How a vote ends: a vote that is refused changes nothing. -/
def VoteEnd (s : StateStore) (signer : Address) (id : Hash) (option : VoteOption)
    (height : UInt64) (o : Outcome ExecutionError (List Event)) (t : StateStore) : Prop :=
  match o with
  | .ok _ => ∃ p, proposalOf s id = some p ∧ p.status = .voting ∧ height ≤ p.votingEndHeight ∧
      voteWeightOf s signer ≠ 0 ∧
      t = withProposal (withVote s ⟨id, signer, option, voteWeightOf s signer, height⟩)
        (votedOn p (storedVote s id signer) ⟨id, signer, option, voteWeightOf s signer, height⟩)
  | .err _ => t = s
  | .panic => False

theorem voteProposal_wp (s : StateStore) (signer : Address) (id : Hash) (option : VoteOption)
    (height : UInt64) :
    (Governance.executeVoteProposal signer id option height).Wp
      (VoteEnd s signer id option height) s := by
  simp only [Governance.executeVoteProposal, Prog.bind_eq, wp_getProposal_bind,
    Prog.wp_require_bind, Prog.wp_ensure_bind, wp_voteWeight_bind, wp_getVote_bind,
    wp_setVote_bind, wp_setProposal_bind]
  refine ⟨fun _ => rfl, fun p hp => ⟨fun _ => rfl, fun hVoting => ⟨fun _ => rfl, fun hEnd =>
    ⟨fun _ => rfl, fun hWeight => ?_⟩⟩⟩⟩
  exact ⟨p, hp, hVoting, UInt64.not_lt.mp hEnd, hWeight, rfl⟩

/-- The proposal a submission stores. -/
def submittedProposal (sha256 : List UInt8 → Hash) (config : ChainConfig) (signer : Address)
    (action : ProposalAction) (title description : String) (deposit height : UInt64) :
    Proposal where
  id := sha256 (Creation.message (.proposal signer title height))
  proposer := signer
  action := action
  title := title
  description := description
  deposit := deposit
  status := .voting
  yesVotes := 0
  noVotes := 0
  abstainVotes := 0
  votingStartHeight := height
  votingEndHeight := height + config.votingPeriodBlocks
  createdAt := height

/-- How a submission ends, as far as proposals and votes go. -/
def SubmitEnd (s : StateStore) (p : Proposal) (o : Outcome ExecutionError (Hash × List Event))
    (t : StateStore) : Prop :=
  match o with
  | .ok _ => SameGovernance (withProposal s p) t
  | .err _ => t = s
  | .panic => False

theorem submitProposal_wp (s : StateStore) (signer : Address) (action : ProposalAction)
    (title description : String) (deposit height : UInt64) :
    (Governance.executeSubmitProposal sha256 config signer action title description deposit
      height).Wp (SubmitEnd s (submittedProposal sha256 config signer action title description
        deposit height)) s := by
  simp only [Governance.executeSubmitProposal, Prog.bind_eq, Prog.wp_ensure_bind,
    wp_loadAccount_bind, wp_debited_bind, wp_setAccount_bind, wp_setProposal_bind]
  refine ⟨fun _ => rfl, fun _ => ⟨fun _ => rfl, fun x hx => ⟨fun _ => rfl, fun _ => ?_⟩⟩⟩
  refine ⟨fun id => ?_, fun id a => ?_⟩
  · show proposalOf ((withProposal (withAccount s _) _).insert .proposalList _) id = _
    rw [proposalOf, Store.get?_insert_ne (by simp), ← proposalOf, proposalOf_withProposal,
      proposalOf_withProposal, proposalOf, get?_withAccount (by simp), ← proposalOf]
    rfl
  · show storedVote ((withProposal (withAccount s _) _).insert .proposalList _) id a = _
    rw [storedVote, Store.get?_insert_ne (by simp), withProposal, Store.get?_insert_ne (by simp),
      get?_withAccount (by simp), storedVote, withProposal, Store.get?_insert_ne (by simp)]

theorem files_attestor (x : Attestor) : (Key.attestor x.address).Files x := rfl

/-- The store with an attestor written. -/
def withAttestor (s : StateStore) (x : Attestor) : StateStore :=
  s.insert (.attestor x.address) ⟨x, files_attestor x⟩

/-- The store after the action of a passed proposal, unless the action fails. -/
def actedStore (s : StateStore) : ProposalAction → Option StateStore
  | .treasurySpend recipient amount _ => some (creditedStore s recipient 0 amount)
  | .slashValidator a bps _ => (validatorOf s a).map fun v =>
      withValidator s
        { v with stake := saturatingSub v.stake (StakingModule.slashOf v.stake bps) }
  | .suspendAttestor a => some ((attestorOf s a).elim s fun x =>
      withAttestor s { x with status := .suspended })
  | _ => some s

theorem run_executeProposalAction (s : StateStore) (action : ProposalAction) :
    (Governance.executeProposalAction action).run s =
      match actedStore s action with
      | some t => (.ok (), t)
      | none => (.err .validatorNotFound, s) := by
  cases action
  case slashValidator a bps reason =>
    have hRun : (Governance.executeProposalAction (.slashValidator a bps reason)).run s =
        ((Prog.require (validatorOf s a) .validatorNotFound).bind fun v => setValidator
          { v with stake := saturatingSub v.stake (StakingModule.slashOf v.stake bps) }).run s :=
      rfl
    rw [hRun, actedStore]
    cases validatorOf s a <;> rfl
  case suspendAttestor a =>
    have hRun : (Governance.suspendAttestor a).Wp (fun o t => (o, t) =
        (.ok (), (attestorOf s a).elim s fun x =>
          withAttestor s { x with status := .suspended })) s := by
      rw [Governance.suspendAttestor, Prog.bind_eq, wp_getAttestor_bind]
      cases attestorOf s a <;> rfl
    exact hRun
  all_goals rfl

/-- The vote on the proposal is over at the height. -/
def Ended (height : UInt64) (s : StateStore) (id : Hash) (p : Proposal) : Prop :=
  proposalOf s id = some p ∧ p.status = .voting ∧ p.votingEndHeight < height

/-- Whether the proposal has enough votes. -/
def passes (config : ChainConfig) (s : StateStore) (p : Proposal) : Bool :=
  Governance.quorumMet config p (totalStaked s) && Governance.thresholdMet config p

/-- The store in which a proposal is closed: the store after its action, the deposit paid back
and the proposal with its last status. -/
def closedStore (config : ChainConfig) (s : StateStore) (p : Proposal) (height : UInt64) :
    Option StateStore :=
  if passes config s p then
    (actedStore s p.action).map fun t =>
      withProposal (creditedStore t p.proposer height p.deposit) { p with status := .executed }
  else
    let t := if 0 < p.deposit / 2 then creditedStore s p.proposer height (p.deposit / 2) else s
    some (withProposal t { p with status := .rejected })

theorem run_applyRejected (id : Hash) (p : Proposal) (height : UInt64) (s : StateStore) :
    (Governance.applyRejected id p height).run s =
      (.ok ({ p with status := .rejected }, [Event.proposalRejected id]),
        if 0 < p.deposit / 2 then creditedStore s p.proposer height (p.deposit / 2) else s) := by
  unfold Governance.applyRejected Prog.when
  dsimp only
  split <;> rfl

theorem run_applyPassed (id : Hash) (p : Proposal) (height : UInt64) (s : StateStore) :
    (Governance.applyPassed id p height).run s =
      match actedStore s p.action with
      | some t => (.ok ({ p with status := .executed },
          [Event.proposalPassed id, Event.proposalExecuted id]),
          creditedStore t p.proposer height p.deposit)
      | none => (.err .validatorNotFound, s) := by
  have hAction := run_executeProposalAction s p.action
  cases hActed : actedStore s p.action with
  | none =>
      rw [hActed] at hAction
      rw [Governance.applyPassed, Prog.bind_eq, Prog.run_bind, hAction]
      rfl
  | some t =>
      rw [hActed] at hAction
      exact Prog.run_bind_of_ok hAction

/-- What executing an ended proposal does. -/
theorem run_executeExecuteProposal {height : UInt64} {p : Proposal} (h : Ended height s id p) :
    (Governance.executeExecuteProposal config id height).run s =
      match closedStore config s p height with
      | some t => (.ok (if passes config s p then
          [Event.proposalPassed id, Event.proposalExecuted id] else [Event.proposalRejected id]), t)
      | none => (.err .validatorNotFound, s) := by
  obtain ⟨hp, hVoting, hEnd⟩ := h
  have hWp : (Governance.executeExecuteProposal config id height).Wp (fun o t => (o, t) =
      match closedStore config s p height with
      | some t => (.ok (if passes config s p then
          [Event.proposalPassed id, Event.proposalExecuted id] else [Event.proposalRejected id]), t)
      | none => (.err .validatorNotFound, s)) s := by
    simp only [Governance.executeExecuteProposal, Prog.bind_eq, wp_getProposal_bind,
      Prog.wp_require_bind, Prog.wp_ensure_bind, wp_calculateTotalStaked_bind, hp]
    refine ⟨fun hNone => (Option.some_ne_none p hNone).elim, fun q hq => ?_⟩
    obtain rfl := Option.some.inj hq
    refine ⟨fun hNot => absurd hVoting hNot, fun _ =>
      ⟨fun hNot => absurd hEnd (by simpa using hNot), fun _ => ?_⟩⟩
    rw [closedStore]
    show Prog.Wp (if passes config s p then _ else _) _ _
    cases hPass : passes config s p with
    | false =>
        rw [if_neg (by simp), if_neg (by simp), Prog.Wp,
          Prog.run_bind_of_ok (run_applyRejected id p height s)]
        rfl
    | true =>
        have hRun := run_applyPassed id p height s
        rw [if_pos rfl, if_pos rfl, Prog.Wp]
        cases hActed : actedStore s p.action with
        | none =>
            rw [hActed] at hRun
            rw [Prog.run_bind, hRun]
            rfl
        | some t =>
            rw [hActed] at hRun
            rw [Prog.run_bind_of_ok hRun]
            rfl
  exact hWp

/-- Only ended proposals are executed. -/
theorem executeProposal_wp (s : StateStore) (id : Hash) (height : UInt64) :
    (Governance.executeExecuteProposal config id height).Wp (fun _ t =>
      t = s ∨ ∃ p, Ended height s id p ∧ closedStore config s p height = some t) s := by
  by_cases hEnded : ∃ p, Ended height s id p
  · obtain ⟨p, hp⟩ := hEnded
    rw [Prog.Wp, run_executeExecuteProposal config hp]
    cases hClosed : closedStore config s p height with
    | none => exact .inl rfl
    | some t => exact .inr ⟨p, hp, hClosed⟩
  · simp only [Governance.executeExecuteProposal, Prog.bind_eq, wp_getProposal_bind,
      Prog.wp_require_bind, Prog.wp_ensure_bind]
    refine ⟨fun _ => .inl trivial, fun p hp => ⟨fun _ => .inl trivial, fun hVoting =>
      ⟨fun _ => .inl trivial, fun hEnd => ?_⟩⟩⟩
    exact absurd ⟨p, hp, hVoting, UInt64.not_le.mp hEnd⟩ hEnded

theorem sameGovernance_insert {k : Key} (hProposal : ∀ id, k ≠ .proposal id)
    (hVote : ∀ id a, k ≠ .vote id a) (s : StateStore) (v : k.Value) :
    SameGovernance s (s.insert k v) := by
  refine ⟨fun id => ?_, fun id a => ?_⟩
  · rw [proposalOf, Store.get?_insert_ne (hProposal id), proposalOf]
  · rw [storedVote, Store.get?_insert_ne (hVote id a), storedVote]

theorem sameGovernance_creditedStore (s : StateStore) (a : Address) (n amount : UInt64) :
    SameGovernance s (creditedStore s a n amount) :=
  sameGovernance_insert (by simp) (by simp) s _

theorem sameGovernance_actedStore {action : ProposalAction} (h : actedStore s action = some t) :
    SameGovernance s t := by
  cases action
  case treasurySpend recipient amount reason =>
    obtain rfl := Option.some.inj h
    exact sameGovernance_creditedStore _ _ _ _
  case slashValidator a bps reason =>
    obtain ⟨v, _, rfl⟩ := Option.map_eq_some_iff.mp h
    exact sameGovernance_insert (by simp) (by simp) s _
  case suspendAttestor a =>
    obtain rfl := Option.some.inj h
    cases attestorOf s a with
    | none => exact .refl s
    | some x => exact sameGovernance_insert (by simp) (by simp) s _
  all_goals
    obtain rfl := Option.some.inj h
    exact .refl _

theorem governanceEffect_closedStore {new : Hash → Prop} {cast : Hash → VoteOption → Prop}
    {config : ChainConfig} {height : UInt64} {p : Proposal} (hEnded : Ended height s id p)
    (h : closedStore config s p height = some t) : GovernanceEffect new cast s t := by
  obtain ⟨hp, hVoting, _⟩ := hEnded
  obtain rfl := id_of_proposalOf hp
  unfold closedStore at h
  split at h
  · obtain ⟨u, hu, rfl⟩ := Option.map_eq_some_iff.mp h
    refine .closed p .executed hp hVoting (by simp) (SameGovernance.withProposal ?_ _)
    exact (sameGovernance_actedStore hu).trans (sameGovernance_creditedStore _ _ _ _)
  · obtain rfl := Option.some.inj h
    refine .closed p .rejected hp hVoting (by simp) (SameGovernance.withProposal ?_ _)
    split
    · exact sameGovernance_creditedStore _ _ _ _
    · exact .refl s

/-- What an action does to proposals and votes. -/
theorem governanceEffect_dispatchAction (sha256 : List UInt8 → Hash) (ex : Executor)
    (action : TransactionAction) (signer : Address)
    (timestamp height : UInt64) (s : StateStore) :
    (ex.dispatchAction sha256 action signer timestamp height).Wp (fun o t =>
      GovernanceEffect (fun id => o.toOption.isSome ∧ ∃ a title d n,
        action = .submitProposal a title d n ∧
        id = sha256 (Creation.message (.proposal signer title height)))
        (fun id o => action = .voteProposal id o) s t) s := by
  have hKeeps := dispatchAction_keeps sha256 ex action signer timestamp height (s := s)
  cases action
  case submitProposal a title d n =>
    refine Prog.wp_bind.mpr ((submitProposal_wp ex.chainConfig s signer a title d n height).mono
      fun o t h => ?_)
    cases o with
    | ok r =>
        refine .submitted _ ⟨rfl, a, title, d, n, rfl, rfl⟩ rfl (fun o => ?_) h
        cases o <;> rfl
    | err e =>
        obtain rfl : t = s := h
        exact .kept (.refl t)
    | panic => exact h.elim
  case voteProposal id option =>
    refine Prog.wp_bind_pure.mpr ((voteProposal_wp s signer id option height).mono fun o t h => ?_)
    cases o with
    | ok r =>
        obtain ⟨p, hp, hVoting, _, _, rfl⟩ := h
        exact .voted p ⟨id, signer, option, voteWeightOf s signer, height⟩ rfl rfl hp hVoting
          (.refl _)
    | err e =>
        obtain rfl : t = s := h
        exact .kept (.refl t)
    | panic => exact h.elim
  case executeProposal id =>
    refine Prog.wp_bind_pure.mpr ((executeProposal_wp ex.chainConfig s id height).mono
      fun o t h => ?_)
    rcases h with rfl | ⟨p, hp, hClosed⟩
    · exact .kept (.refl t)
    · exact governanceEffect_closedStore hp hClosed
  all_goals exact .kept (sameGovernance_of_sameOn
    (sameOn_of_keeps (run_keeps hKeeps) (by simp [writtenBy])))

/-- What a call does to proposals and votes. -/
theorem governanceEffect_call (s : StateStore) (c : Execution.Call) :
    GovernanceEffect (fun id => c.succeeds sha256 ex s = true ∧ ∃ a title d n,
      c.tx.transaction.action = .submitProposal a title d n ∧
      id = sha256 (Creation.message (.proposal c.tx.transaction.signer title c.height)))
      (fun id o => c.tx.transaction.action = .voteProposal id o) s (c.next sha256 ex s) := by
  refine Execution.Call.effect (F := [.proposal, .vote, .validator, .delegation])
    (by simp [feeFamilies]) (by simp)
    (R := fun b s t => GovernanceEffect (fun id => b = true ∧ ∃ a title d n,
      c.tx.transaction.action = .submitProposal a title d n ∧
      id = sha256 (Creation.message (.proposal c.tx.transaction.signer title c.height)))
      (fun id o => c.tx.transaction.action = .voteProposal id o) s t) (.kept (.refl s))
    (fun hs h ht => h.congr (sameGovernance_of_sameOn (hs.mono (by simp))) (hs.mono (by simp))
      (sameGovernance_of_sameOn (ht.mono (by simp)))) fun s₁ _ => ?_
  exact governanceEffect_dispatchAction sha256 ex c.tx.transaction.action
    c.tx.transaction.signer c.tx.transaction.timestamp c.height s₁

end Handlers

/-! ## The tallies are the sums of the votes -/

/-- The tallies of the proposal are the sums of the stored votes, and there are no votes if it
is not stored. -/
structure Tallied (id : Hash) (s : StateStore) : Prop where
  tallies : ∀ p, proposalOf s id = some p → ∀ o, (tallyOf p o).toNat = voteSum id o s
  orphans : proposalOf s id = none → ∀ a, storedVote s id a = none

section Tallied

variable {id : Hash}
variable {p : Proposal}

theorem Tallied.same (h : Tallied id s) (hSame : SameGovernance s t) : Tallied id t := by
  refine ⟨fun p hp o => ?_, fun hNone a => ?_⟩
  · rw [hSame.proposals] at hp
    rw [h.tallies p hp o, voteSum_congr (hSame.votes id)]
  · rw [hSame.proposals] at hNone
    rw [hSame.votes, h.orphans hNone]

theorem Tallied.submitted (h : Tallied id s) (hFresh : proposalOf s p.id = none)
    (hTally : ∀ o, tallyOf p o = 0) : Tallied id (withProposal s p) := by
  refine ⟨fun q hq o => ?_, fun hNone a => ?_⟩
  · rw [voteSum_congr (storedVote_withProposal s p id)]
    rw [proposalOf_withProposal] at hq
    split at hq
    · rename_i hEq
      obtain rfl := Option.some.inj hq
      rw [hTally, voteSum_eq_zero (h.orphans (hEq ▸ hFresh))]
      rfl
    · exact h.tallies q hq o
  · rw [proposalOf_withProposal] at hNone
    split at hNone
    · cases hNone
    · rw [storedVote_withProposal, h.orphans hNone]

/-- Closing a proposal does not touch its tallies. -/
theorem Tallied.closed (h : Tallied id s) (hp : proposalOf s p.id = some p)
    (status : Governance.ProposalStatus) : Tallied id (withProposal s { p with status }) := by
  refine ⟨fun q hq o => ?_, fun hNone a => ?_⟩
  · rw [voteSum_congr (storedVote_withProposal s _ id)]
    rw [proposalOf_withProposal] at hq
    split at hq
    · rename_i hEq
      obtain rfl := Option.some.inj hq
      obtain rfl : id = p.id := hEq
      rw [← h.tallies p hp o]
      cases o <;> rfl
    · exact h.tallies q hq o
  · rw [proposalOf_withProposal] at hNone
    split at hNone
    · cases hNone
    · rw [storedVote_withProposal, h.orphans hNone]

/-- Withdrawing the earlier vote takes out what it counted. -/
theorem tallyOf_withdrawVote {old : Option Vote} {o : VoteOption}
    (h : countFor o old ≤ (tallyOf p o).toNat) :
    (tallyOf (Governance.withdrawVote p old) o).toNat + countFor o old = (tallyOf p o).toNat := by
  cases old with
  | none => rfl
  | some v =>
      rw [Governance.withdrawVote, tallyOf_adjustTally]
      by_cases hEq : o = v.option
      · subst hEq
        have hCount : countFor v.option (some v) = v.weight.toNat := by simp [countFor]
        rw [hCount] at h ⊢
        rw [if_pos rfl, toNat_saturatingSub]
        omega
      · have hCount : countFor o (some v) = 0 := by simp [countFor, Ne.symm hEq]
        rw [if_neg hEq, hCount]
        rfl

/-- A vote that fits keeps the tallies exact. -/
theorem Tallied.voted (h : Tallied id s) {v : Vote} (hp : proposalOf s v.proposalId = some p)
    (hFits : voteSum v.proposalId v.option (withVote s v) < 2 ^ 64) :
    Tallied id
      (withProposal (withVote s v) (votedOn p (storedVote s v.proposalId v.voter) v)) := by
  have hId : (votedOn p (storedVote s v.proposalId v.voter) v).id = v.proposalId :=
    (id_votedOn p _ v).trans (id_of_proposalOf hp)
  refine ⟨fun q hq o => ?_, fun hNone a => ?_⟩
  · rw [voteSum_congr (storedVote_withProposal _ _ id)]
    rw [proposalOf_withProposal, proposalOf_withVote, hId] at hq
    split at hq
    · rename_i hEq
      obtain rfl := Option.some.inj hq
      subst hEq
      have hOld := h.tallies p hp o
      have hLe : countFor o (storedVote s v.proposalId v.voter) ≤ (tallyOf p o).toNat :=
        hOld ▸ countFor_le s v.proposalId o v.voter
      have hRest := tallyOf_withdrawVote hLe
      have hSum := voteSum_withVote s v o
      rw [votedOn, tallyOf_adjustTally]
      by_cases hOption : o = v.option
      · subst hOption
        have hCount : countFor v.option (some v) = v.weight.toNat := by simp [countFor]
        rw [if_pos rfl, toNat_saturatingAdd]
        omega
      · have hCount : countFor o (some v) = 0 := by simp [countFor, Ne.symm hOption]
        rw [if_neg hOption]
        omega
    · rename_i hNe
      rw [h.tallies q hq o]
      refine (voteSum_congr (fun a => ?_) o).symm
      rw [storedVote_withVote, if_neg fun hBoth => hNe hBoth.1]
  · rw [proposalOf_withProposal, proposalOf_withVote, hId] at hNone
    split at hNone
    · cases hNone
    · rename_i hNe
      rw [storedVote_withProposal, storedVote_withVote, if_neg fun hBoth => hNe hBoth.1,
        h.orphans hNone]

theorem Tallied.effect {new : Hash → Prop} {cast : Hash → VoteOption → Prop} (h : Tallied id s)
    (hEffect : GovernanceEffect new cast s t) (hFresh : ∀ id, new id → proposalOf s id = none)
    (hFits : ∀ id o, cast id o → voteSum id o t < 2 ^ 64) : Tallied id t := by
  cases hEffect with
  | kept hSame => exact h.same hSame
  | submitted p hNew hStatus hTally hSame =>
      exact (h.submitted (hFresh p.id hNew) hTally).same hSame
  | voted p v hCast hWeight hProposal hVoting hSame =>
      have hFit := hFits _ _ hCast
      rw [voteSum_congr (hSame.votes v.proposalId),
        voteSum_congr (storedVote_withProposal _ _ v.proposalId)] at hFit
      exact (h.voted hProposal hFit).same hSame
  | closed p status hProposal hVoting hStatus hSame => exact (h.closed hProposal status).same hSame

end Tallied

/-- A proposal that is not voted on any more stays as it is. -/
theorem GovernanceEffect.stays {new : Hash → Prop} {cast : Hash → VoteOption → Prop}
    (h : GovernanceEffect new cast s t) (hFresh : ∀ id, new id → proposalOf s id = none)
    {id : Hash} {p : Proposal} (hp : proposalOf s id = some p) (hClosed : p.status ≠ .voting) :
    proposalOf t id = some p := by
  -- Whatever is written, it is not the record of this proposal.
  have hOther : ∀ {u q}, SameGovernance (withProposal u q) t → proposalOf u id = proposalOf s id →
      id ≠ q.id → proposalOf t id = some p := by
    intro u q hSame hu hNe
    rw [hSame.proposals, proposalOf_withProposal, if_neg hNe, hu, hp]
  cases h with
  | kept hSame => rw [hSame.proposals, hp]
  | submitted q hNew hStatus hTally hSame =>
      refine hOther hSame rfl fun hEq => ?_
      rw [hEq, hFresh q.id hNew] at hp
      cases hp
  | voted q v hCast hWeight hProposal hVoting hSame =>
      refine hOther hSame (proposalOf_withVote s v id) fun hEq => hClosed ?_
      rw [id_votedOn, id_of_proposalOf hProposal] at hEq
      rw [hEq, hProposal] at hp
      exact Option.some.inj hp ▸ hVoting
  | closed q status hProposal hVoting hStatus hSame =>
      refine hOther hSame rfl fun hEq => hClosed ?_
      obtain rfl : id = q.id := hEq
      rw [hProposal] at hp
      exact Option.some.inj hp ▸ hVoting

/-! ## Runs -/

/-- A step of a run: a transaction, or a change of other records. -/
inductive GovernanceStep where
  | call (c : Execution.Call)
  | elsewhere (t : StateStore)

/-- The store after a step. -/
def GovernanceStep.next (sha256 : List UInt8 → Hash) (ex : Executor) (s : StateStore) :
    GovernanceStep → StateStore
  | .call c => c.next sha256 ex s
  | .elsewhere t => t

/-- No proposal is submitted under the identifier of another one, a tally that a vote adds to
fits into 64 bits, and nothing but transactions writes proposals and votes. -/
def GovernanceStep.Regular (sha256 : List UInt8 → Hash) (ex : Executor) (s : StateStore) :
    GovernanceStep → Prop
  | .call c =>
      (∀ a title d n, c.tx.transaction.action = .submitProposal a title d n →
        c.succeeds sha256 ex s = true →
        proposalOf s (sha256 (Creation.message
          (.proposal c.tx.transaction.signer title c.height))) = none) ∧
      ∀ id o, c.tx.transaction.action = .voteProposal id o →
        voteSum id o (c.next sha256 ex s) < 2 ^ 64
  | .elsewhere t => SameGovernance s t

/-- A regular step, as an effect. -/
theorem GovernanceStep.Regular.effect {step : GovernanceStep} (h : step.Regular sha256 ex s) :
    ∃ new cast, GovernanceEffect new cast s (step.next sha256 ex s) ∧
      (∀ id, new id → proposalOf s id = none) ∧
      ∀ id o, cast id o → voteSum id o (step.next sha256 ex s) < 2 ^ 64 := by
  cases step with
  | call c =>
      refine ⟨_, _, governanceEffect_call s c, fun id hNew => ?_, h.2⟩
      obtain ⟨hSucceeds, a, title, d, n, hAction, rfl⟩ := hNew
      exact h.1 a title d n hAction hSucceeds
  | elsewhere t =>
      exact ⟨fun _ => False, fun _ _ => False, .kept h, fun _ hFalse => hFalse.elim,
        fun _ _ hFalse => hFalse.elim⟩

theorem tallied_after {l : List GovernanceStep} {id : Hash} (hs : Tallied id s)
    (h : Along (GovernanceStep.next sha256 ex) (GovernanceStep.Regular sha256 ex) s l) :
    Tallied id (after (GovernanceStep.next sha256 ex) s l) := by
  refine h.rule (fun s step hs hStep => ?_) hs
  obtain ⟨new, cast, hEffect, hFresh, hFits⟩ := hStep.effect
  exact hs.effect hEffect hFresh hFits

theorem closed_after {l : List GovernanceStep} {id : Hash} {p : Proposal}
    (hp : proposalOf s id = some p) (hClosed : p.status ≠ .voting)
    (h : Along (GovernanceStep.next sha256 ex) (GovernanceStep.Regular sha256 ex) s l) :
    proposalOf (after (GovernanceStep.next sha256 ex) s l) id = some p := by
  refine h.rule (I := fun s => proposalOf s id = some p) (fun s step hs hStep => ?_) hp
  obtain ⟨new, cast, hEffect, hFresh, _⟩ := hStep.effect
  exact hEffect.stays hFresh hs hClosed

/-- In every state of a run that starts without proposals and votes the tallies are the sums
of the stored votes, no voter has two votes on one proposal, and a proposal that is not voted on
any more is the same at the end of the run. -/
theorem tallies_exact {l : List GovernanceStep} (hProposals : ∀ id, proposalOf s id = none)
    (hVotes : ∀ id a, storedVote s id a = none)
    (h : Along (GovernanceStep.next sha256 ex) (GovernanceStep.Regular sha256 ex) s l)
    {l₁ l₂ : List GovernanceStep} (hl : l = l₁ ++ l₂) {t : StateStore}
    (ht : t = after (GovernanceStep.next sha256 ex) s l₁) :
    (∀ id p, proposalOf t id = some p →
      p.yesVotes.toNat = voteSum id .yes t ∧ p.noVotes.toNat = voteSum id .no t ∧
        p.abstainVotes.toNat = voteSum id .abstain t) ∧
      (∀ id a v id' a' v', storedVote t id a = some v → storedVote t id' a' = some v' →
        v.proposalId = v'.proposalId → v.voter = v'.voter → id = id' ∧ a = a') ∧
      ∀ id p, proposalOf t id = some p → p.status ≠ .voting →
        proposalOf (after (GovernanceStep.next sha256 ex) s l) id = some p := by
  subst hl ht
  obtain ⟨hFirst, hRest⟩ := along_append.mp h
  have hTallied : ∀ id, Tallied id (after (GovernanceStep.next sha256 ex) s l₁) :=
    fun id => tallied_after ⟨fun p hp => by simp [hProposals] at hp, fun _ a => hVotes id a⟩ hFirst
  refine ⟨fun id p hp => ?_, fun id a v id' a' v' hv hv' hId hVoter => ?_,
    fun id p hp hClosed => ?_⟩
  · exact ⟨(hTallied id).tallies p hp .yes, (hTallied id).tallies p hp .no,
      (hTallied id).tallies p hp .abstain⟩
  · obtain ⟨h₁, h₂⟩ := identifiers_of_storedVote hv
    obtain ⟨h₁', h₂'⟩ := identifiers_of_storedVote hv'
    exact ⟨h₁ ▸ h₁' ▸ hId, h₂ ▸ h₂' ▸ hVoter⟩
  · rw [show after (GovernanceStep.next sha256 ex) s (l₁ ++ l₂) = _ from List.foldl_append]
    exact closed_after hp hClosed hRest

/-- The trader, who is also a validator. -/
def stakedTraderStore : StateStore :=
  withValidator traderStore ⟨Address.ofByte 1, 2500000, 0, .active, none, 0⟩

theorem get?_stakedTraderStore {k : Key} (hAccount : ∀ a, k ≠ .account a)
    (hValidator : ∀ a, k ≠ .validator a) : stakedTraderStore.get? k = none := by
  rw [stakedTraderStore, withValidator, Store.get?_insert_ne (hValidator _).symm,
    get?_traderStore hAccount]

/-- The trader submits a proposal, votes for it, then against it, and closes it. -/
def ballot : List GovernanceStep :=
  [.call (traderCall 0 (.submitProposal (.textProposal "" "") "" "" 100000)),
    .call (traderCall 1 (.voteProposal Hash.zero .yes)),
    .call (traderCall 2 (.voteProposal Hash.zero .no)),
    .call { traderCall 3 (.executeProposal Hash.zero) with height := 20000 }]

/-- The steps of the development network, with a hash function that is constant. -/
def governanceNext : StateStore → GovernanceStep → StateStore :=
  GovernanceStep.next (fun _ => Hash.zero) Executor.devnet

theorem tallies_exact_revote :
    (proposalOf (after governanceNext stakedTraderStore ballot) Hash.zero).map
        (fun p => (p.status, p.yesVotes.toNat, p.noVotes.toNat)) =
      some (.rejected, voteSum Hash.zero .yes (after governanceNext stakedTraderStore ballot),
        voteSum Hash.zero .no (after governanceNext stakedTraderStore ballot)) := by
  have hRegular : Along governanceNext (GovernanceStep.Regular (fun _ => Hash.zero)
      Executor.devnet) stakedTraderStore ballot := by
    refine ⟨⟨fun a title d n hAction _ => ?_, fun id o hAction => ?_⟩,
      ⟨fun a title d n hAction => ?_, fun id o hAction => ?_⟩,
      ⟨fun a title d n hAction => ?_, fun id o hAction => ?_⟩,
      ⟨fun a title d n hAction => ?_, fun id o hAction => ?_⟩, trivial⟩
    · rw [proposalOf, get?_stakedTraderStore (by simp) (by simp)]
      rfl
    · cases hAction
    · cases hAction
    · cases hAction
      decide +kernel
    · cases hAction
    · cases hAction
      decide +kernel
    · cases hAction
    · cases hAction
  have hRejected : (proposalOf (after governanceNext stakedTraderStore ballot) Hash.zero).map
      (·.status) = some .rejected := by
    decide +kernel
  obtain ⟨p, hp, hStatus⟩ := Option.map_eq_some_iff.mp hRejected
  obtain ⟨hTallies, _⟩ := tallies_exact (s := stakedTraderStore)
    (fun id => by rw [proposalOf, get?_stakedTraderStore (by simp) (by simp)]; rfl)
    (fun id a => by rw [storedVote, get?_stakedTraderStore (by simp) (by simp)]; rfl) hRegular
    (List.append_nil ballot).symm rfl
  obtain ⟨hYes, hNo, _⟩ := hTallies Hash.zero p hp
  show Option.map _ (proposalOf _ _) = _
  rw [hp]
  simp only [Option.map_some]
  rw [hStatus, hYes, hNo]
  rfl

end Polay.Validator
