import Polay.Consensus.Steps

/-!
# Voting once per step

An honest node should send at most one prevote and one precommit for each round:
two votes of one kind, height and round for different blocks are evidence of
misbehaviour. The machine keeps this only under a discipline on its inputs,
because `onProposal` prevotes whatever step the machine is in and resets the step
to `Prevote`. `SafeCall` states that discipline, one call at a time, on the state
before the call.
-/

namespace Polay.Consensus

open Polay.Types Lib.Machine

/-- All votes of one kind for one height and round are for the same block. -/
def NoEquivocation (actions : List ConsensusAction) : Prop :=
  ∀ t v w, sendAction t v ∈ actions → sendAction t w ∈ actions →
    v.height = w.height → v.round = w.round → v.blockHash = w.blockHash

namespace ConsensusStateMachine

/-- What a machine in the `Prevote` step prevoted for: the stored proposal under
its lock, or nil if it timed out without one. -/
def sentPrevoteHash (m : ConsensusStateMachine) : Hash :=
  match m.proposal with
  | some p => m.prevoteHash p.block.hash
  | none => Hash.zero

/-- Inputs that do not make the machine vote twice: an acceptable proposal for
the current round comes before the node has prevoted, or asks for the same
prevote again; and no precommit timeout fires in the last round there is. -/
def SafeCall (m : ConsensusStateMachine) : Call → Prop
  | .proposal p => m.Accepts p → p.round = m.round →
      m.step = .newRound ∨ m.step = .propose ∨
        (m.step = .prevote ∧ m.prevoteHash p.block.hash = m.sentPrevoteHash)
  | .vote _ _ => True
  | .timeout => m.step = .precommit → m.round ≠ u32Max

/-- Every call of a run is safe in the state it is made in. -/
def SafeRun (m : ConsensusStateMachine) : List Call → Prop
  | [] => True
  | c :: cs => m.SafeCall c ∧ (m.call c).2.SafeRun cs

/-- What the votes sent so far say about the state: they are for this height and
for rounds already entered, they do not conflict, and the step says which votes
of the current round are still to come. -/
structure VotedOnce (actions : List ConsensusAction) (m : ConsensusStateMachine) : Prop where
  past : ∀ t v, sendAction t v ∈ actions → v.height = m.height ∧ v.round ≤ m.round
  consistent : NoEquivocation actions
  fresh : m.step = .newRound ∨ m.step = .propose →
    m.proposal = none ∧ ∀ t v, sendAction t v ∈ actions → v.round ≠ m.round
  prevoting : m.step = .prevote →
    (∀ v, sendAction .precommit v ∈ actions → v.round ≠ m.round) ∧
    ∀ v, sendAction .prevote v ∈ actions → v.round = m.round → v.blockHash = m.sentPrevoteHash

namespace VotedOnce

variable {actions : List ConsensusAction} {m m' : ConsensusStateMachine}

theorem init (height : UInt64) (s : ValidatorSet) (a : Address) :
    VotedOnce [] (new height s a) where
  past := by simp
  consistent := by simp [NoEquivocation]
  fresh _ := ⟨rfl, by simp⟩
  prevoting h := by cases h

/-- Only five fields matter. -/
theorem of_same (hInv : VotedOnce actions m) (hHeight : m'.height = m.height)
    (hRound : m'.round = m.round) (hStep : m'.step = m.step)
    (hProposal : m'.proposal = m.proposal) (hLocked : m'.lockedBlock = m.lockedBlock) :
    VotedOnce actions m' where
  past t v hv := by simpa [hHeight, hRound] using hInv.past t v hv
  consistent := hInv.consistent
  fresh h := by simpa [hProposal, hRound] using hInv.fresh (hStep ▸ h)
  prevoting h := by
    simpa [hRound, sentPrevoteHash, hProposal, prevoteHash, hLocked] using
      hInv.prevoting (hStep ▸ h)

/-- Entering a later round starts a round without votes. -/
theorem enterRound (hInv : VotedOnce actions m) {r : UInt32} (hLater : m.round < r) :
    VotedOnce actions (m.enterRound r) where
  past t v hv :=
    ⟨(hInv.past t v hv).1, UInt32.le_trans (hInv.past t v hv).2 (UInt32.le_of_lt hLater)⟩
  consistent := hInv.consistent
  fresh _ := ⟨rfl, fun t v hv =>
    UInt32.ne_of_lt (UInt32.lt_of_le_of_lt (hInv.past t v hv).2 hLater)⟩
  prevoting h := by cases h

/-- A machine that has left the voting steps of its round. -/
theorem leave (hInv : VotedOnce actions m) (hHeight : m'.height = m.height)
    (hRound : m'.round = m.round) (hStep : m'.step = .precommit ∨ m'.step = .commit) :
    VotedOnce actions m' where
  past t v hv := by simpa [hHeight, hRound] using hInv.past t v hv
  consistent := hInv.consistent
  fresh h := by grind
  prevoting h := by grind

/-- Actions that send no vote change nothing. -/
theorem append_other (hInv : VotedOnce actions m) {a : ConsensusAction}
    (hOther : ∀ t v, a ≠ sendAction t v) : VotedOnce (actions ++ [a]) m := by
  have hMem : ∀ t v, sendAction t v ∈ actions ++ [a] → sendAction t v ∈ actions := by
    intro t v hv
    simpa [(hOther t v).symm] using hv
  exact
    { past := fun t v hv => hInv.past t v (hMem t v hv)
      consistent := fun t v w hv hw => hInv.consistent t v w (hMem t v hv) (hMem t w hw)
      fresh := fun h => ⟨(hInv.fresh h).1, fun t v hv => (hInv.fresh h).2 t v (hMem t v hv)⟩
      prevoting := fun h => ⟨fun v hv => (hInv.prevoting h).1 v (hMem _ v hv),
        fun v hv => (hInv.prevoting h).2 v (hMem _ v hv)⟩ }

/-- Sending one more vote is no equivocation when the votes of its kind already
sent in this round agree with it. -/
theorem consistent_append (hInv : VotedOnce actions m) {t : VoteType} {h : Hash}
    (hAgree : ∀ v, sendAction t v ∈ actions → v.round = m.round → v.blockHash = h) :
    NoEquivocation (actions ++ [sendAction t (m.ownVote t h)]) := by
  have hOwn : ∀ t' v, sendAction t' v = sendAction t (m.ownVote t h) →
      t' = t ∧ v = m.ownVote t h := by
    intro t' v hEq
    cases t' <;> cases t <;> simp_all [sendAction]
  intro t' v w hv hw hHeight hRound
  simp only [List.mem_append, List.mem_singleton] at hv hw
  rcases hv with hv | hv <;> rcases hw with hw | hw
  · exact hInv.consistent t' v w hv hw hHeight hRound
  · obtain ⟨rfl, rfl⟩ := hOwn t' w hw
    exact hAgree v hv hRound
  · obtain ⟨rfl, rfl⟩ := hOwn t' v hv
    exact (hAgree w hw hRound.symm).symm
  · rw [(hOwn t' v hv).2, (hOwn t' w hw).2]

/-- Sending a vote that agrees with the earlier ones and leaving the voting
steps. -/
theorem send_precommit (hInv : VotedOnce actions m) {h : Hash}
    (hNone : ∀ v, sendAction .precommit v ∈ actions → v.round ≠ m.round)
    (hHeight : m'.height = m.height) (hRound : m'.round = m.round)
    (hStep : m'.step = .precommit) :
    VotedOnce (actions ++ [.sendPrecommit (m.ownVote .precommit h)]) m' where
  past t v hv := by
    simp only [List.mem_append, List.mem_singleton] at hv
    rcases hv with hv | hv
    · simpa [hHeight, hRound] using hInv.past t v hv
    · cases t with
      | prevote => cases hv
      | precommit =>
          cases hv
          exact ⟨hHeight.symm, hRound ▸ UInt32.le_refl _⟩
  consistent := hInv.consistent_append fun v hv hEq => absurd hEq (hNone v hv)
  fresh h := by grind
  prevoting h := by grind

/-- Sending a prevote that agrees with the earlier ones. -/
theorem send_prevote (hInv : VotedOnce actions m) {h : Hash}
    (hNone : ∀ v, sendAction .precommit v ∈ actions → v.round ≠ m.round)
    (hAgree : ∀ v, sendAction .prevote v ∈ actions → v.round = m.round → v.blockHash = h)
    (hHeight : m'.height = m.height) (hRound : m'.round = m.round)
    (hStep : m'.step = .prevote) (hSent : m'.sentPrevoteHash = h) :
    VotedOnce (actions ++ [.sendPrevote (m.ownVote .prevote h)]) m' where
  past t v hv := by
    simp only [List.mem_append, List.mem_singleton] at hv
    rcases hv with hv | hv
    · simpa [hHeight, hRound] using hInv.past t v hv
    · cases t with
      | precommit => cases hv
      | prevote =>
          cases hv
          exact ⟨hHeight.symm, hRound ▸ UInt32.le_refl _⟩
  consistent := hInv.consistent_append hAgree
  fresh h := by grind
  prevoting _ := by
    refine ⟨fun v hv => ?_, fun v hv hEq => ?_⟩
    · rw [hRound]
      exact hNone v (by simpa [sendAction] using hv)
    · simp only [List.mem_append, List.mem_singleton] at hv
      rcases hv with hv | hv
      · rw [hSent]
        exact hAgree v hv (hEq.trans hRound)
      · cases hv
        exact hSent.symm

/-- Prevoting for an accepted proposal. -/
theorem accept (hInv : VotedOnce actions m) (p : Proposal)
    (hSafe : m.step = .newRound ∨ m.step = .propose ∨
      (m.step = .prevote ∧ m.prevoteHash p.block.hash = m.sentPrevoteHash)) :
    VotedOnce (actions ++ [(m.acceptProposal p).1]) (m.acceptProposal p).2 := by
  have hSent : (m.acceptProposal p).2.sentPrevoteHash = m.prevoteHash p.block.hash := rfl
  rcases hSafe with hStep | hStep | ⟨hStep, hSame⟩
  · have hFresh := (hInv.fresh (.inl hStep)).2
    exact hInv.send_prevote (hFresh .precommit)
      (fun v hv hEq => absurd hEq (hFresh .prevote v hv)) rfl rfl rfl hSent
  · have hFresh := (hInv.fresh (.inr hStep)).2
    exact hInv.send_prevote (hFresh .precommit)
      (fun v hv hEq => absurd hEq (hFresh .prevote v hv)) rfl rfl rfl hSent
  · obtain ⟨hNone, hAgree⟩ := hInv.prevoting hStep
    exact hInv.send_prevote hNone (fun v hv hEq => (hAgree v hv hEq).trans hSame.symm)
      rfl rfl rfl hSent

end VotedOnce

/-- One safe call keeps the votes consistent. -/
theorem VotedOnce.step {actions : List ConsensusAction} {m m' : ConsensusStateMachine}
    {c : Call} {a : Option ConsensusAction} (hInv : VotedOnce actions m) (hStep : Step m c a m')
    (hSafe : m.SafeCall c) : VotedOnce (actions ++ a.toList) m' := by
  cases hStep with
  | rejected => simpa using hInv
  | rejectedAhead hRound => simpa using hInv.enterRound hRound
  | accepted hAccepts hRound => exact hInv.accept _ (hSafe hAccepts hRound)
  | acceptedAhead hAccepts hRound => exact (hInv.enterRound hRound).accept _ (.inr (.inl rfl))
  | @buffered t v hAdmits hRound =>
      rw [Option.toList_none, List.append_nil]
      cases t <;> exact hInv.of_same rfl rfl rfl rfl rfl
  | @skipped t v hAdmits hRound =>
      have hBuffered : VotedOnce actions (m.bufferVote v t) := by
        cases t <;> exact hInv.of_same rfl rfl rfl rfl rfl
      have hLater : (m.bufferVote v t).round < v.round := by cases t <;> exact hRound
      exact (hBuffered.enterRound hLater).append_other (by rintro ⟨⟩ v <;> simp [sendAction])
  | @recorded t v hAdmits hRound hNew =>
      rw [Option.toList_none, List.append_nil]
      cases t <;> exact hInv.of_same rfl rfl rfl rfl rfl
  | @precommitted v h hAdmits hRound hNew hStep hQuorum =>
      have hNone : ∀ u, sendAction .precommit u ∈ actions → u.round ≠ m.round := by
        rcases hStep with hStep | hStep
        · exact (hInv.prevoting hStep).1
        · exact (hInv.fresh (.inr hStep)).2 .precommit
      by_cases hZero : h.isZero = true
      · rw [if_pos hZero]
        exact hInv.send_precommit hNone rfl rfl rfl
      · rw [if_neg hZero]
        exact hInv.send_precommit hNone rfl rfl rfl
  | @committed v h hAdmits hRound hNew hStep hNonNil hQuorum =>
      have hLeft : VotedOnce actions { m.recordVote v .precommit with step := .commit } :=
        hInv.leave rfl rfl (.inr rfl)
      exact hLeft.append_other (by rintro ⟨⟩ v <;> simp [sendAction])
  | proposeTimeout hStep =>
      obtain ⟨hProposal, hFresh⟩ := hInv.fresh hStep
      exact hInv.send_prevote (hFresh .precommit)
        (fun v hv hEq => absurd hEq (hFresh .prevote v hv)) rfl rfl rfl
        (by simp [sentPrevoteHash, hProposal])
  | prevoteTimeout hStep => exact hInv.send_precommit (hInv.prevoting hStep).1 rfl rfl rfl
  | precommitTimeout hStep =>
      exact (hInv.enterRound (lt_nextRound (hSafe hStep))).append_other
        (by rintro ⟨⟩ v <;> simp [sendAction])
  | commitTimeout hStep =>
      exact hInv.append_other (by rintro ⟨⟩ v <;> simp [sendAction])

/-- A safe run keeps the votes consistent. -/
theorem VotedOnce.run {actions : List ConsensusAction} {m : ConsensusStateMachine}
    (hInv : VotedOnce actions m) (cs : List Call) (hSafe : m.SafeRun cs) :
    VotedOnce (actions ++ (m.runCalls cs).1) (m.runCalls cs).2 := by
  induction cs generalizing actions m with
  | nil => simpa [runCalls] using hInv
  | cons c cs ih =>
      have hNext := ih (hInv.step (m.call_step c) hSafe.1) hSafe.2
      simpa [runCalls, List.append_assoc] using hNext

/-- **No equivocation under disciplined inputs.** A fresh machine whose calls are
all safe never sends two conflicting votes. -/
theorem noEquivocation_of_safeRun (height : UInt64) (s : ValidatorSet) (a : Address)
    (cs : List Call) (hSafe : (new height s a).SafeRun cs) :
    NoEquivocation ((new height s a).runCalls cs).1 := by
  simpa using ((VotedOnce.init height s a).run cs hSafe).consistent

/-- A round that goes well is safe: a node prevotes for the first proposal, sees
three prevotes, precommits, sees three precommits and commits. -/
theorem noEquivocation_goodRound :
    let start := new 1 fourValidators (.ofByte 1)
    let calls := .proposal (firstProposal (.ofByte 7)) ::
      (threeVotes .prevote (.ofByte 7) ++ threeVotes .precommit (.ofByte 7))
    start.SafeRun calls ∧ (start.runCalls calls).1.length = 3 ∧
      NoEquivocation (start.runCalls calls).1 := by
  intro start calls
  have hSafe : start.SafeRun calls :=
    ⟨fun _ _ => .inl rfl, trivial, trivial, trivial, trivial, trivial, trivial, trivial⟩
  exact ⟨hSafe, by decide +kernel, noEquivocation_of_safeRun _ _ _ _ hSafe⟩

/-- Two proposals of the round's proposer make the machine prevote for both
blocks. -/
theorem equivocation_on_second_proposal :
    ¬NoEquivocation ((new 1 fourValidators (.ofByte 1)).runCalls
      [.proposal (firstProposal (.ofByte 7)), .proposal (firstProposal (.ofByte 8))]).1 := by
  intro hNone
  have hEq := hNone .prevote (firstVote .prevote (.ofByte 7) (.ofByte 1))
    (firstVote .prevote (.ofByte 8) (.ofByte 1)) (by decide +kernel) (by decide +kernel) rfl rfl
  revert hEq
  decide

end ConsensusStateMachine

end Polay.Consensus
