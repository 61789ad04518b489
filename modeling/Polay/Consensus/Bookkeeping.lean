import Polay.Consensus.Steps
import Polay.Lib.Trace

/-!
# The votes a machine holds

A machine holds votes for its round and, in buffers, for later rounds. `held`
looks at both as one book with a page for every round. A call does one of three
things to it: nothing, enter a vote that has no entry yet, or turn to a later
page and drop the earlier ones. So along a run every page from the current round
on has exactly the first vote that each validator sent for its round.
-/

namespace Polay.Consensus

open Polay.Types Lib.Machine Lib.Trace

namespace ConsensusStateMachine

variable {m m' : ConsensusStateMachine} {t t' : VoteType} {v : Vote} {r r' : UInt32}

/-! ## The book -/

/-- The votes of one kind held for a round, the current one or a later one. -/
def held (m : ConsensusStateMachine) (t : VoteType) (r : UInt32) : VoteMap :=
  if r = m.round then m.votes t else (m.futureVotes t)[r]?.getD .empty

/-- Nothing is buffered for the current round or an earlier one. -/
def NoStale (m : ConsensusStateMachine) : Prop :=
  ∀ t r, r ≤ m.round → (m.futureVotes t)[r]? = none

/-- The machines hold the same votes. -/
structure SameBook (m m' : ConsensusStateMachine) : Prop where
  round : m'.round = m.round
  votes : ∀ t, m'.votes t = m.votes t
  future : ∀ t, m'.futureVotes t = m.futureVotes t

theorem SameBook.refl (m : ConsensusStateMachine) : SameBook m m :=
  ⟨rfl, fun _ => rfl, fun _ => rfl⟩

theorem SameBook.held_eq (h : SameBook m m') (t : VoteType) (r : UInt32) :
    m'.held t r = m.held t r := by
  unfold held
  rw [h.round, h.votes, h.future]

theorem SameBook.noStale (h : SameBook m m') (hm : m.NoStale) : m'.NoStale := by
  intro t r hr
  rw [h.future]
  exact hm t r (h.round ▸ hr)

theorem held_of_lt (h : m.round < r) : m.held t r = (m.futureVotes t)[r]?.getD .empty := by
  have hNe : r ≠ m.round := fun hEq => absurd h (by rw [hEq]; exact UInt32.lt_irrefl _)
  rw [held, if_neg hNe]

/-! ### Entering a round -/

theorem futureVotes_enterRound (m : ConsensusStateMachine) (r : UInt32) (t : VoteType) :
    (m.enterRound r).futureVotes t =
      ((m.futureVotes t).erase r).filter fun k _ => decide (r < k) := by
  cases t <;> rfl

theorem votes_enterRound (m : ConsensusStateMachine) (r : UInt32) (t : VoteType) :
    (m.enterRound r).votes t = (m.futureVotes t)[r]?.getD .empty := by
  cases t <;> rfl

theorem getElem?_futureVotes_enterRound (m : ConsensusStateMachine) (r k : UInt32)
    (t : VoteType) : ((m.enterRound r).futureVotes t)[k]? =
      if r < k then (m.futureVotes t)[k]? else none := by
  rw [futureVotes_enterRound, Std.ExtTreeMap.getElem?_filter', Std.ExtTreeMap.getElem?_erase]
  by_cases hLt : r < k
  · have hNe : ¬ compare r k = .eq := fun hEq => by
      rw [Std.LawfulEqOrd.eq_of_compare hEq] at hLt
      exact UInt32.lt_irrefl _ hLt
    rw [if_neg hNe, if_pos hLt]
    cases (m.futureVotes t)[k]? <;> simp [hLt]
  · simp [hLt]

theorem noStale_enterRound (m : ConsensusStateMachine) (r : UInt32) : (m.enterRound r).NoStale := by
  intro t k hk
  rw [getElem?_futureVotes_enterRound]
  exact if_neg (UInt32.not_lt.mpr hk)

/-- Pages from the new round on stay as they are. -/
theorem held_enterRound (hLater : m.round < r) (hr : r ≤ r') :
    (m.enterRound r).held t r' = m.held t r' := by
  rw [held_of_lt (UInt32.lt_of_lt_of_le hLater hr)]
  by_cases hEq : r' = r
  · subst hEq
    rw [held, if_pos (show r' = (m.enterRound r').round from rfl), votes_enterRound]
  · have hLt : r < r' := UInt32.lt_of_le_of_ne hr (Ne.symm hEq)
    rw [held_of_lt (m := m.enterRound r) hLt, getElem?_futureVotes_enterRound, if_pos hLt]

/-- Entering a round, even the current one again, brings no new votes. -/
theorem held_of_held_enterRound (hm : m.NoStale) (hr : m.round ≤ r) {a : Address}
    (h : ((m.enterRound r).held t r').votes[a]? = some v) :
    (m.held t r').votes[a]? = some v := by
  have hFuture : ∀ k, ((m.futureVotes t)[k]?.getD .empty).votes[a]? = some v →
      (m.held t k).votes[a]? = some v := by
    intro k hk
    by_cases hLt : m.round < k
    · rwa [held_of_lt hLt]
    · rw [hm t k (UInt32.not_lt.mp hLt)] at hk
      simp [VoteMap.empty] at hk
  apply hFuture
  by_cases hEq : r' = r
  · subst hEq
    rwa [held, if_pos (show r' = (m.enterRound r').round from rfl), votes_enterRound] at h
  · rw [held, if_neg (show r' ≠ (m.enterRound r).round from hEq),
      getElem?_futureVotes_enterRound] at h
    split at h
    · exact h
    · simp [VoteMap.empty] at h

/-! ### Entering a vote -/

/-- The machine with a vote entered for its round. -/
def enterVote (m : ConsensusStateMachine) (v : Vote) (t : VoteType) : ConsensusStateMachine :=
  if m.round < v.round then m.bufferVote v t else m.recordVote v t

theorem round_enterVote (m : ConsensusStateMachine) (v : Vote) (t : VoteType) :
    (m.enterVote v t).round = m.round := by
  unfold enterVote
  split <;> cases t <;> rfl

theorem futureVotes_bufferVote (m : ConsensusStateMachine) (v : Vote) (t t' : VoteType)
    (r : UInt32) : ((m.bufferVote v t).futureVotes t')[r]? =
      if t' = t ∧ r = v.round then some (((m.futureVotes t)[v.round]?.getD .empty).insert v)
      else (m.futureVotes t')[r]? := by
  have hCompare : compare v.round r = .eq ↔ r = v.round := by
    rw [Std.compare_eq_iff_eq, eq_comm]
  cases t <;> cases t' <;>
    simp [bufferVote, futureVotes, Std.ExtTreeMap.getElem?_insert, hCompare]

theorem held_enterVote (h : m.round ≤ v.round) (t' : VoteType) (r : UInt32) :
    (m.enterVote v t).held t' r =
      if t' = t ∧ r = v.round then (m.held t r).insert v else m.held t' r := by
  unfold enterVote
  by_cases hLt : m.round < v.round
  · rw [if_pos hLt]
    have hNe : v.round ≠ m.round := fun hEq => UInt32.lt_irrefl _ (hEq ▸ hLt)
    have hRound : (m.bufferVote v t).round = m.round := by cases t <;> rfl
    by_cases hr : r = m.round
    · subst hr
      rw [if_neg fun hBoth => hNe hBoth.2.symm, held, held, if_pos hRound.symm, if_pos rfl]
      cases t <;> cases t' <;> rfl
    · rw [held, if_neg (hRound ▸ hr), held, if_neg hr, held, if_neg hr, futureVotes_bufferVote]
      by_cases hBoth : t' = t ∧ r = v.round
      · rw [if_pos hBoth, if_pos hBoth, hBoth.2]
        rfl
      · rw [if_neg hBoth, if_neg hBoth]
  · have hEq : v.round = m.round := UInt32.le_antisymm (UInt32.not_lt.mp hLt) h
    rw [if_neg hLt]
    have hRound : (m.recordVote v t).round = m.round := by cases t <;> rfl
    by_cases hr : r = m.round
    · subst hr
      rw [held, if_pos hRound.symm, held, if_pos rfl, held, if_pos rfl, hEq]
      cases t <;> cases t' <;> simp [votes, recordVote]
    · rw [if_neg fun hBoth => hr (hBoth.2.trans hEq), held, if_neg (hRound ▸ hr), held, if_neg hr]
      cases t <;> cases t' <;> rfl

theorem noStale_enterVote (hm : m.NoStale) : (m.enterVote v t).NoStale := by
  intro t' r hr
  rw [round_enterVote] at hr
  unfold enterVote
  by_cases hLt : m.round < v.round
  · have hNe : ¬ (t' = t ∧ r = v.round) := fun hBoth =>
      UInt32.not_le.mpr hLt (hBoth.2 ▸ hr)
    rw [if_pos hLt, futureVotes_bufferVote, if_neg hNe]
    exact hm t' r hr
  · have hSame : (m.recordVote v t).futureVotes t' = m.futureVotes t' := by
      cases t <;> cases t' <;> rfl
    rw [if_neg hLt, hSame]
    exact hm t' r hr

/-- The vote is for this height and a round that is not over, comes from a validator, and is
the first of its kind from this validator for the round. -/
structure Takes (m : ConsensusStateMachine) (t : VoteType) (v : Vote) : Prop where
  admits : m.Admits t v
  round : m.round ≤ v.round
  first : (m.held t v.round).votes[v.voter]? = none

/-- What a vote does. -/
inductive VoteStep (m : ConsensusStateMachine) (t : VoteType) (v : Vote) :
    Option ConsensusAction → ConsensusStateMachine → Prop
  | refused (hNot : ¬ m.Takes t v) : VoteStep m t v none m
  | waiting (hTakes : m.Takes t v) (hRound : m.round < v.round)
      (hFew : (m.enterVote v t).shouldSkipToRound v.round = false) :
      VoteStep m t v none (m.enterVote v t)
  | skipped (hTakes : m.Takes t v) (hRound : m.round < v.round)
      (hMany : (m.enterVote v t).shouldSkipToRound v.round = true) :
      VoteStep m t v (some (.scheduleTimeout .propose proposeTimeoutMs))
        ((m.enterVote v t).enterRound v.round)
  | counted (hTakes : m.Takes t v) (hRound : v.round = m.round) :
      VoteStep m t v ((m.enterVote v t).afterVote t).1 ((m.enterVote v t).afterVote t).2

theorem onFutureVote_voteStep (hAdmits : m.Admits t v) (hLater : m.round < v.round) :
    VoteStep m t v (m.onFutureVote v t).1.toOption.join (m.onFutureVote v t).2 := by
  have hHeld : m.held t v.round = (m.futureVotes t)[v.round]?.getD .empty := held_of_lt hLater
  have hEnter : m.enterVote v t = m.bufferVote v t := if_pos hLater
  unfold onFutureVote
  by_cases hKnown : ((m.futureVotes t)[v.round]?.getD .empty).containsKey v.voter
  · rw [if_pos hKnown]
    refine .refused fun hTakes => ?_
    have hFirst := hTakes.first
    rw [hHeld, ← VoteMap.containsKey_eq_false, hKnown] at hFirst
    cases hFirst
  · rw [if_neg hKnown]
    have hFirst : (m.held t v.round).votes[v.voter]? = none := by
      rw [hHeld, ← VoteMap.containsKey_eq_false]
      simpa using hKnown
    have hTakes : m.Takes t v := ⟨hAdmits, UInt32.le_of_lt hLater, hFirst⟩
    dsimp only
    rw [← hEnter]
    by_cases hMany : (m.enterVote v t).shouldSkipToRound v.round = true
    · rw [if_pos hMany]
      exact .skipped hTakes hLater hMany
    · rw [if_neg hMany]
      exact .waiting hTakes hLater (by simpa using hMany)

/-- **Inversion of a vote.** -/
theorem onVote_voteStep (m : ConsensusStateMachine) (v : Vote) (t : VoteType) :
    VoteStep m t v (m.onVote v t).1.toOption.join (m.onVote v t).2 := by
  unfold onVote
  cases hBasics : m.validateVoteBasics v t with
  | some =>
      refine .refused fun hTakes => ?_
      rw [validateVoteBasics_eq_none.mpr hTakes.admits] at hBasics
      cases hBasics
  | none =>
      have hAdmits := validateVoteBasics_eq_none.mp hBasics
      dsimp only
      by_cases hPast : v.round < m.round
      · rw [if_pos hPast]
        exact .refused fun hTakes => UInt32.not_le.mpr hPast hTakes.round
      rw [if_neg hPast]
      have hRound : m.round ≤ v.round := UInt32.not_lt.mp hPast
      by_cases hLater : m.round < v.round
      · rw [if_pos hLater]
        exact onFutureVote_voteStep hAdmits hLater
      rw [if_neg hLater]
      have hEq : v.round = m.round := UInt32.le_antisymm (UInt32.not_lt.mp hLater) hRound
      have hHeld : m.held t v.round = m.votes t := by rw [held, if_pos hEq]
      by_cases hKnown : (m.votes t).containsKey v.voter
      · rw [if_pos hKnown]
        refine .refused fun hTakes => ?_
        have hFirst := hTakes.first
        rw [hHeld, ← VoteMap.containsKey_eq_false, hKnown] at hFirst
        cases hFirst
      · rw [if_neg hKnown]
        have hFirst : (m.held t v.round).votes[v.voter]? = none := by
          rw [hHeld, ← VoteMap.containsKey_eq_false]
          simpa using hKnown
        have hEnter : m.enterVote v t = m.recordVote v t := if_neg hLater
        have hStep := VoteStep.counted ⟨hAdmits, hRound, hFirst⟩ hEq
        rw [hEnter] at hStep
        exact hStep

theorem call_voteStep (m : ConsensusStateMachine) (v : Vote) (t : VoteType) :
    VoteStep m t v (m.call (.vote t v)).1 (m.call (.vote t v)).2 := by
  cases t with
  | prevote => exact onVote_voteStep m v .prevote
  | precommit => exact onVote_voteStep m v .precommit

theorem sameBook_afterVote (m : ConsensusStateMachine) (t : VoteType) :
    SameBook m (m.afterVote t).2 := by
  cases t with
  | prevote =>
      unfold afterVote afterPrevote
      dsimp only
      split
      · split
        · split <;> exact ⟨rfl, fun t => by cases t <;> rfl, fun t => by cases t <;> rfl⟩
        · exact .refl m
      · exact .refl m
  | precommit =>
      unfold afterVote afterPrecommit
      dsimp only
      split
      · split
        · exact ⟨rfl, fun t => by cases t <;> rfl, fun t => by cases t <;> rfl⟩
        · exact .refl m
      · exact .refl m

/-- What a call does to the book. -/
inductive BookStep (m : ConsensusStateMachine) : Call → ConsensusStateMachine → Prop
  | same {c : Call} {m' : ConsensusStateMachine} (hNone : ∀ t v, c = .vote t v → ¬ m.Takes t v)
      (hSame : SameBook m m') : BookStep m c m'
  | entered {t : VoteType} {v : Vote} {m' : ConsensusStateMachine} (hTakes : m.Takes t v)
      (hSame : SameBook (m.enterVote v t) m') : BookStep m (.vote t v) m'
  | skipped {t : VoteType} {v : Vote} (hTakes : m.Takes t v) (hRound : m.round < v.round) :
      BookStep m (.vote t v) ((m.enterVote v t).enterRound v.round)
  | moved {c : Call} {r : UInt32} {m' : ConsensusStateMachine} (hNone : ∀ t v, c ≠ .vote t v)
      (hRound : m.round < r) (hSame : SameBook (m.enterRound r) m') : BookStep m c m'
  | restarted {c : Call} (hNone : ∀ t v, c ≠ .vote t v) (hLast : m.round = u32Max) :
      BookStep m c (m.enterRound m.round)

theorem sameBook_of_fields (hRound : m'.round = m.round) (hPrevotes : m'.prevotes = m.prevotes)
    (hPrecommits : m'.precommits = m.precommits)
    (hFuture : m'.futurePrevotes = m.futurePrevotes)
    (hFuture' : m'.futurePrecommits = m.futurePrecommits) : SameBook m m' := by
  refine ⟨hRound, fun t => ?_, fun t => ?_⟩
  · cases t
    · exact hPrevotes
    · exact hPrecommits
  · cases t
    · exact hFuture
    · exact hFuture'

theorem VoteStep.bookStep {a : Option ConsensusAction} (h : VoteStep m t v a m') :
    BookStep m (.vote t v) m' := by
  cases h with
  | refused hNot =>
      refine .same (fun t' v' hEq => ?_) (.refl m)
      cases hEq
      exact hNot
  | waiting hTakes => exact .entered hTakes (.refl _)
  | skipped hTakes hRound => exact .skipped hTakes hRound
  | counted hTakes => exact .entered hTakes (sameBook_afterVote _ t)

theorem call_bookStep (m : ConsensusStateMachine) (c : Call) : BookStep m c (m.call c).2 := by
  by_cases hVote : ∃ t v, c = .vote t v
  · obtain ⟨t, v, rfl⟩ := hVote
    exact (call_voteStep m v t).bookStep
  have hNone : ∀ t v, c ≠ .vote t v := fun t v hEq => hVote ⟨t, v, hEq⟩
  have hRefused : ∀ t v, c = .vote t v → ¬ m.Takes t v := fun t v hEq => absurd hEq (hNone t v)
  have hStep := call_step m c
  generalize (m.call c).1 = action at hStep
  generalize (m.call c).2 = m' at hStep
  cases hStep with
  | rejected | commitTimeout => exact .same hRefused (.refl m)
  | rejectedAhead hRound => exact .moved hNone hRound (.refl _)
  | accepted | proposeTimeout | prevoteTimeout =>
      exact .same hRefused (sameBook_of_fields rfl rfl rfl rfl rfl)
  | acceptedAhead hAccepts hRound =>
      exact .moved hNone hRound (sameBook_of_fields rfl rfl rfl rfl rfl)
  | precommitTimeout =>
      by_cases hLast : m.round = u32Max
      · have hNext : m.nextRound = m.round := by rw [nextRound, if_pos hLast, hLast]
        rw [hNext]
        exact .restarted hNone hLast
      · exact .moved hNone (lt_nextRound hLast) (.refl _)
  | buffered | skipped | recorded | precommitted | committed => exact absurd rfl (hNone _ _)

theorem BookStep.noStale {c : Call} (h : BookStep m c m') (hm : m.NoStale) : m'.NoStale := by
  cases h with
  | same hNone hSame => exact hSame.noStale hm
  | entered hTakes hSame => exact hSame.noStale (noStale_enterVote hm)
  | skipped | restarted => exact noStale_enterRound _ _
  | moved hNone hRound hSame => exact hSame.noStale (noStale_enterRound _ _)

/-- Every vote on a page after a call was on it before, or is the vote of the call. -/
theorem BookStep.of_held {c : Call} (h : BookStep m c m') (hm : m.NoStale) {a : Address}
    (hHeld : (m'.held t r).votes[a]? = some v) :
    (m.held t r).votes[a]? = some v ∨ c = .vote t v ∧ v.round = r ∧ v.voter = a ∧ m.Takes t v := by
  have hEnter : ∀ {t' : VoteType} {w : Vote}, m.Takes t' w →
      ((m.enterVote w t').held t r).votes[a]? = some v →
      (m.held t r).votes[a]? = some v ∨ t' = t ∧ w = v ∧ v.round = r ∧ v.voter = a := by
    intro t' w hTakes hGet
    rw [held_enterVote hTakes.round] at hGet
    split at hGet
    next hBoth =>
      obtain ⟨rfl, rfl⟩ := hBoth
      rw [VoteMap.getElem?_insert] at hGet
      split at hGet
      next hVoter =>
        obtain rfl := Option.some.inj hGet
        exact .inr ⟨rfl, rfl, rfl, hVoter⟩
      next => exact .inl hGet
    next => exact .inl hGet
  cases h with
  | same hNone hSame => exact .inl (hSame.held_eq t r ▸ hHeld)
  | @entered t' w _ hTakes hSame =>
      rw [hSame.held_eq] at hHeld
      rcases hEnter hTakes hHeld with hOld | ⟨rfl, rfl, hRound, hVoter⟩
      · exact .inl hOld
      · exact .inr ⟨rfl, hRound, hVoter, hTakes⟩
  | @skipped t' w hTakes hRound =>
      have hLe : (m.enterVote w t').round ≤ w.round := by rw [round_enterVote]; exact hTakes.round
      rcases hEnter hTakes (held_of_held_enterRound (noStale_enterVote hm) hLe hHeld) with
        hOld | ⟨rfl, rfl, hRound, hVoter⟩
      · exact .inl hOld
      · exact .inr ⟨rfl, hRound, hVoter, hTakes⟩
  | moved hNone hRound hSame =>
      rw [hSame.held_eq] at hHeld
      exact .inl (held_of_held_enterRound hm (UInt32.le_of_lt hRound) hHeld)
  | restarted => exact .inl (held_of_held_enterRound hm (UInt32.le_refl _) hHeld)

/-! ## What was received -/

/-- A vote passed to the handler of a kind, and the round the machine was in. -/
structure Heard where
  round : UInt32
  kind : VoteType
  vote : Vote

/-- The vote of a call. -/
def heard (m : ConsensusStateMachine) : Call → Option Heard
  | .vote t v => some ⟨m.round, t, v⟩
  | _ => none

/-- The state after a call. -/
def afterCall (m : ConsensusStateMachine) (c : Call) : ConsensusStateMachine := (m.call c).2

/-- The vote is of kind `t` for round `r` of the height, comes from the validator `a`, and
arrived when the round was not over. -/
def Heard.IsFor (height : UInt64) (s : ValidatorSet) (t : VoteType) (r : UInt32) (a : Address)
    (x : Heard) : Prop :=
  x.kind = t ∧ x.vote.voteType = t ∧ x.vote.height = height ∧ x.vote.round = r ∧
    x.vote.voter = a ∧ s.contains a = true ∧ x.round ≤ r

instance (height : UInt64) (s : ValidatorSet) (t : VoteType) (r : UInt32) (a : Address) :
    DecidablePred (Heard.IsFor height s t r a) := fun x => by
  unfold Heard.IsFor
  infer_instance

/-- The first vote of kind `t` for round `r` from `a`. -/
def firstHeard (height : UInt64) (s : ValidatorSet) (log : List Heard) (t : VoteType)
    (r : UInt32) (a : Address) : Option Vote :=
  (log.find? fun x => decide (x.IsFor height s t r a)).map Heard.vote

/-- The pages from the current round on have the first votes, and there are no other pages. -/
structure Exact (height : UInt64) (s : ValidatorSet) (log : List Heard)
    (m : ConsensusStateMachine) : Prop where
  height_eq : m.height = height
  set_eq : m.validatorSet = s
  noStale : m.NoStale
  held : ∀ t r a, m.round ≤ r → (m.held t r).votes[a]? = firstHeard height s log t r a

theorem exact_new (height : UInt64) (s : ValidatorSet) (a : Address) :
    Exact height s [] (.new height s a) where
  height_eq := rfl
  set_eq := rfl
  noStale t r _ := by cases t <;> simp [new, futureVotes]
  held t r x _ := by
    have hEmpty : (ConsensusStateMachine.new height s a).held t r = .empty := by
      unfold ConsensusStateMachine.held
      cases t <;> simp [new, futureVotes, votes]
    rw [hEmpty]
    simp [VoteMap.empty, firstHeard]

section Log

variable {height : UInt64} {s : ValidatorSet} {log : List Heard} {a : Address}

/-- A vote that is not the first one does not matter. -/
theorem firstHeard_concat (x : Heard) :
    firstHeard height s (log ++ [x]) t r a =
      if firstHeard height s log t r a = none ∧ x.IsFor height s t r a then some x.vote
      else firstHeard height s log t r a := by
  unfold firstHeard
  rw [List.find?_append]
  cases hFind : log.find? fun x => decide (x.IsFor height s t r a) with
  | some => simp
  | none =>
      by_cases hFor : x.IsFor height s t r a
      · simp [hFor]
      · simp [hFor]

/-- The vote of a call is for a page from the current round on exactly if the machine admits
it for that page. -/
theorem isFor_iff (hHeight : m.height = height) (hSet : m.validatorSet = s) (t' : VoteType) :
    Heard.IsFor height s t r a ⟨m.round, t', v⟩ ↔
      t' = t ∧ v.round = r ∧ v.voter = a ∧ m.Admits t v ∧ m.round ≤ v.round := by
  subst hHeight hSet
  unfold Heard.IsFor
  constructor
  · rintro ⟨rfl, hType, hHeight, rfl, rfl, hMember, hRound⟩
    exact ⟨rfl, rfl, rfl, ⟨hHeight, hType, ValidatorSet.contains_iff.mp hMember⟩, hRound⟩
  · rintro ⟨rfl, rfl, rfl, hAdmits, hRound⟩
    exact ⟨rfl, hAdmits.type_eq, hAdmits.height_eq, rfl, rfl,
      ValidatorSet.contains_iff.mpr hAdmits.member, hRound⟩

theorem Exact.step (h : Exact height s log m) {c : Call} (hStep : BookStep m c m')
    (hHeight : m'.height = m.height) (hSet : m'.validatorSet = m.validatorSet)
    (hRound : m'.round ≠ u32Max) : Exact height s (log ++ (m.heard c).toList) m' := by
  refine ⟨hHeight.trans h.height_eq, hSet.trans h.set_eq, hStep.noStale h.noStale, ?_⟩
  have hEnter : ∀ {t' : VoteType} {w : Vote}, m.Takes t' w → ∀ t r a, m.round ≤ r →
      ((m.enterVote w t').held t r).votes[a]? =
        firstHeard height s (log ++ [⟨m.round, t', w⟩]) t r a := by
    intro t' w hTakes t r a hr
    have hFor : Heard.IsFor height s t r a ⟨m.round, t', w⟩ ↔ _ :=
      isFor_iff h.height_eq h.set_eq t'
    rw [held_enterVote hTakes.round, firstHeard_concat, ← h.held t r a hr]
    by_cases hPage : t = t' ∧ r = w.round
    · obtain ⟨rfl, rfl⟩ := hPage
      rw [if_pos ⟨rfl, rfl⟩, VoteMap.getElem?_insert]
      by_cases hVoter : w.voter = a
      · subst hVoter
        rw [if_pos rfl,
          if_pos ⟨hTakes.first, hFor.mpr ⟨rfl, rfl, rfl, hTakes.admits, hTakes.round⟩⟩]
      · rw [if_neg hVoter, if_neg fun hAll => hVoter (hFor.mp hAll.2).2.2.1]
    · rw [if_neg hPage, if_neg fun hAll => hPage ?_]
      obtain ⟨hKind, hPageRound, _⟩ := hFor.mp hAll.2
      exact ⟨hKind.symm, hPageRound.symm⟩
  cases hStep with
  | @same c _ hNone hSame =>
      intro t r a hr
      rw [hSame.round] at hr
      rw [hSame.held_eq, h.held t r a hr]
      cases c with
      | proposal | timeout => simp [heard]
      | vote t' w =>
          show _ = firstHeard height s (log ++ [⟨m.round, t', w⟩]) t r a
          rw [firstHeard_concat, if_neg]
          rintro ⟨hEmpty, hFor⟩
          obtain ⟨rfl, rfl, rfl, hAdmits, hLe⟩ := (isFor_iff h.height_eq h.set_eq t').mp hFor
          rw [← h.held t' w.round w.voter hr] at hEmpty
          exact hNone t' w rfl ⟨hAdmits, hLe, hEmpty⟩
  | entered hTakes hSame =>
      intro t r a hr
      rw [hSame.round, round_enterVote] at hr
      rw [hSame.held_eq]
      exact hEnter hTakes t r a hr
  | @skipped t' w hTakes hLater =>
      intro t r a hr
      have hLater' : (m.enterVote w t').round < w.round := by rw [round_enterVote]; exact hLater
      rw [held_enterRound hLater' hr]
      exact hEnter hTakes t r a (UInt32.le_trans hTakes.round hr)
  | @moved c r' _ hNone hLater hSame =>
      intro t r a hr
      rw [hSame.round] at hr
      have hNothing : m.heard c = none := by
        cases c with
        | vote t v => exact absurd rfl (hNone t v)
        | proposal | timeout => rfl
      rw [hSame.held_eq, held_enterRound hLater hr, hNothing,
        h.held t r a (UInt32.le_trans (UInt32.le_of_lt hLater) hr)]
      simp
  | restarted hNone hLast => exact absurd hLast hRound

end Log

/-- The book is exact along every run in which the round stays below the last one. -/
theorem Exact.run {height : UInt64} {s : ValidatorSet} {log : List Heard} {cs : List Call}
    (h : Exact height s log m)
    (hRounds : Along afterCall (fun m c => (m.afterCall c).round ≠ u32Max) m cs) :
    Exact height s (log ++ collect afterCall heard m cs) (after afterCall m cs) := by
  induction cs generalizing m log with
  | nil => simpa [collect, after] using h
  | cons c rest ih =>
      obtain ⟨hHeight, hSet⟩ := (call_step m c).fixed
      have hNext := h.step (call_bookStep m c) hHeight hSet hRounds.1
      have hRest := ih hNext hRounds.2
      rwa [List.append_assoc] at hRest

/-- **Votes are kept exactly.** Along every run of a new machine in which the round stays below
the last one, the round never goes back; for its round the machine holds the first vote of
each kind that each validator sent for it, if that arrived before the round was over; the
buffers hold the same for later rounds and nothing else. -/
theorem votes_exact (height : UInt64) (s : ValidatorSet) (addr : Address) (cs : List Call)
    (hRounds : Along afterCall (fun m c => (m.afterCall c).round ≠ u32Max)
      (.new height s addr) cs) :
    let m := after afterCall (.new height s addr) cs
    let log := collect afterCall heard (.new height s addr) cs
    Along afterCall (fun m c => m.round ≤ (m.afterCall c).round) (.new height s addr) cs ∧
      (∀ t a, (m.votes t).votes[a]? = firstHeard height s log t m.round a) ∧
      (∀ t r a, m.round < r →
        ((m.futureVotes t)[r]?.getD .empty).votes[a]? = firstHeard height s log t r a) ∧
      ∀ t r, r ≤ m.round → (m.futureVotes t)[r]? = none := by
  intro m log
  have hExact : Exact height s log m := (exact_new height s addr).run hRounds
  refine ⟨hRounds.mono fun m c _ => (call_step m c).round_le, fun t a => ?_, fun t r a hr => ?_,
    hExact.noStale⟩
  · rw [← hExact.held t m.round a (UInt32.le_refl _), held, if_pos rfl]
  · rw [← hExact.held t r a (UInt32.le_of_lt hr), held_of_lt hr]

/-- Prevotes for round 1 of two validators, who hold more than a third of the stake, and a
second one of the first of them. -/
def prevotesAhead : List Call :=
  [.vote .prevote { Consensus.firstVote .prevote (.ofByte 7) (.ofByte 2) with round := 1 },
    .vote .prevote { Consensus.firstVote .prevote (.ofByte 7) (.ofByte 3) with round := 1 },
    .vote .prevote { Consensus.firstVote .prevote (.ofByte 8) (.ofByte 2) with round := 1 }]

theorem votes_exact_ahead :
    let m := after afterCall (.new 1 fourValidators (.ofByte 1)) prevotesAhead
    m.round = 1 ∧ (m.votes .prevote).votes[Address.ofByte 2]? =
      firstHeard 1 fourValidators
        (collect afterCall heard (.new 1 fourValidators (.ofByte 1)) prevotesAhead) .prevote 1
        (.ofByte 2) := by
  intro m
  have hRound : m.round = 1 := by decide +kernel
  have hExact := votes_exact 1 fourValidators (.ofByte 1) prevotesAhead
    ⟨by decide +kernel, by decide +kernel, by decide +kernel, trivial⟩
  refine ⟨hRound, ?_⟩
  rw [hExact.2.1 .prevote (.ofByte 2)]
  exact congrArg (firstHeard 1 fourValidators _ .prevote · (.ofByte 2)) hRound

end ConsensusStateMachine

end Polay.Consensus
