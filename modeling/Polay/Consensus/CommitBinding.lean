import Polay.Consensus.Bookkeeping

/-!
# The stored block and the committed block

A node that commits applies the block of its stored proposal, and a proposer that
re-proposes sends its stored valid proposal; neither compares the block's hash
with the hash the votes are for. What keeps the two together is what is delivered
to the node: as long as no quorum of the votes for a round is for another block
than the one proposed in that round, every commit is for the stored block.
-/

namespace Polay.Consensus

open Polay.Types Lib.Machine Lib.Quorum

/-- Any call of a method that changes the machine. -/
inductive MachineCall where
  | event (c : Call)
  | advanceHeight (newHeight : UInt64)
  | updateValidatorSet (newSet : ValidatorSet)

/-- What was delivered at a height: proposals, and votes with the handler they
were passed to. -/
structure Delivered where
  proposals : List Proposal
  votes : List (VoteType × Vote)

namespace Delivered

def nothing : Delivered := ⟨[], []⟩

/-- The delivered votes for a height and round back a block with a quorum. -/
def Backs (d : Delivered) (s : ValidatorSet) (t : VoteType) (height : UInt64)
    (round : UInt32) (h : Hash) : Prop :=
  ∃ q : Finset Address, s.quorumThreshold.toNat ≤ weight s.power q ∧
    ∀ a ∈ q, ∃ v, (t, v) ∈ d.votes ∧ v.height = height ∧ v.round = round ∧
      v.voter = a ∧ v.blockHash = h

/-- A backed block has a vote, because no quorum is empty. -/
theorem Backs.exists_vote {d : Delivered} {s : ValidatorSet} {t : VoteType}
    {height : UInt64} {round : UInt32} {h : Hash} (hBacks : d.Backs s t height round h) :
    ∃ v, (t, v) ∈ d.votes ∧ v.blockHash = h := by
  obtain ⟨q, hQuorum, hVotes⟩ := hBacks
  rcases q.eq_empty_or_nonempty with rfl | ⟨a, ha⟩
  · rw [s.toNat_quorumThreshold, weight, Finset.sum_empty] at hQuorum
    omega
  · obtain ⟨v, hMem, -, -, -, hHash⟩ := hVotes a ha
    exact ⟨v, hMem, hHash⟩

/-- The proposals delivered for a height and round are all for one block. -/
def Proposes (d : Delivered) (height : UInt64) (round : UInt32) (h : Hash) : Prop :=
  ∀ p ∈ d.proposals, p.height = height → p.round = round → p.block.hash = h

end Delivered

namespace ConsensusStateMachine

variable {m : ConsensusStateMachine}

/-- The action of a call and the state it leaves. -/
def perform (m : ConsensusStateMachine) :
    MachineCall → Option ConsensusAction × ConsensusStateMachine
  | .event c => m.call c
  | .advanceHeight newHeight => (none, m.advanceHeight newHeight)
  | .updateValidatorSet newSet => (none, m.updateValidatorSet newSet)

/-! ## The property -/

/-- The stored valid proposal is for the valid block's hash. -/
def ValidMatches (m : ConsensusStateMachine) : Prop :=
  ∀ r h p, m.validBlock = some (r, h) → m.validProposal = some p → p.block.hash = h

/-- A returned commit is for the stored proposal's block. -/
def CommitMatches (a : Option ConsensusAction) (m : ConsensusStateMachine) : Prop :=
  ∀ height h proof p, a = some (.commitBlock height h proof) → m.proposal = some p →
    p.block.hash = h

/-- In every state of a run the valid proposal matches, and so does every commit. -/
def BindsRun (m : ConsensusStateMachine) : List MachineCall → Prop
  | [] => m.ValidMatches
  | c :: cs => m.ValidMatches ∧ CommitMatches (m.perform c).1 (m.perform c).2 ∧
      (m.perform c).2.BindsRun cs

/-! ## The condition -/

/-- The proposal comes from the proposer of its round or repeats the valid block. -/
def mayPropose (m : ConsensusStateMachine) (p : Proposal) : Bool :=
  (m.validatorSet.getProposer p.height p.round).map ValidatorWeight.address ==
      some p.proposer || m.isValidReproposal p.block.hash

/-- What was delivered, with one more call. A proposal that nobody had to listen to
does not count, and a new height starts afresh. -/
def deliver (m : ConsensusStateMachine) (d : Delivered) : MachineCall → Delivered
  | .event (.proposal p) =>
      if m.mayPropose p then { d with proposals := p :: d.proposals } else d
  | .event (.vote t v) => { d with votes := (t, v) :: d.votes }
  | .event .timeout => d
  | .advanceHeight _ => .nothing
  | .updateValidatorSet _ => d

/-- When a vote for the current round arrives, a block that the delivered votes of
its kind back is the one that was proposed in the round. -/
def VoteFits (m : ConsensusStateMachine) (d : Delivered) : MachineCall → Prop
  | .event (.vote t v) => v.height = m.height → v.round = m.round →
      ∀ h, h ≠ Hash.zero → d.Backs m.validatorSet t m.height m.round h →
        d.Proposes m.height m.round h
  | _ => True

/-- Every vote of a run fits what was delivered up to it. -/
def VotesFit (m : ConsensusStateMachine) (d : Delivered) : List MachineCall → Prop
  | [] => True
  | c :: cs =>
      m.VoteFits (m.deliver d c) c ∧ (m.perform c).2.VotesFit (m.deliver d c) cs

/-! ## Where the state comes from -/

variable {m' : ConsensusStateMachine} {d : Delivered} {c : Call}
variable {a : Option ConsensusAction} {t : VoteType} {v : Vote} {h : Hash}

/-- The stored proposal and the votes of the book were delivered for the machine's
height and for their round. -/
structure Traced (d : Delivered) (m : ConsensusStateMachine) : Prop where
  noStale : m.NoStale
  proposal : ∀ p, m.proposal = some p →
    p ∈ d.proposals ∧ p.height = m.height ∧ p.round = m.round
  held : ∀ t r a v, (m.held t r).votes[a]? = some v →
    (t, v) ∈ d.votes ∧ v.height = m.height ∧ v.round = r ∧ v.voter = a

theorem traced_new (height : UInt64) (s : ValidatorSet) (a : Address) :
    Traced .nothing (new height s a) where
  noStale := (exact_new height s a).noStale
  proposal := by
    intro p hProposal
    cases hProposal
  held := by
    intro t r x v hHeld
    rw [(exact_new height s a).held t r x (UInt32.zero_le)] at hHeld
    cases hHeld

theorem mayPropose_of_accepts {p : Proposal} (hAccepts : m.Accepts p)
    (hRound : p.round = m.round) : m.mayPropose p = true := by
  rw [mayPropose, Bool.or_eq_true, beq_iff_eq, hAccepts.height_eq, hRound]
  exact hAccepts.proposer_ok

/-- A stored proposal was stored before and the round is the same, or it is the one
of the call. -/
theorem Step.proposal_spec (hStep : Step m c a m') {p : Proposal}
    (hProposal : m'.proposal = some p) :
    (m.proposal = some p ∧ m'.round = m.round) ∨
      (c = .proposal p ∧ m.mayPropose p = true ∧ p.height = m.height ∧
        p.round = m'.round) := by
  cases hStep with
  | rejectedAhead => cases hProposal
  | accepted hAccepts hRound =>
      cases hProposal
      exact .inr ⟨rfl, mayPropose_of_accepts hAccepts hRound, hAccepts.height_eq, hRound⟩
  | acceptedAhead hAccepts =>
      cases hProposal
      have hMay : (m.enterRound p.round).mayPropose p = true :=
        mayPropose_of_accepts hAccepts rfl
      exact .inr ⟨rfl, hMay, hAccepts.height_eq, rfl⟩
  | @buffered t | @recorded t => cases t <;> exact .inl ⟨hProposal, rfl⟩
  | @skipped t => cases t <;> cases hProposal
  | precommitted =>
      split at hProposal <;> split <;> exact .inl ⟨hProposal, rfl⟩
  | precommitTimeout => cases hProposal
  | _ => exact .inl ⟨hProposal, rfl⟩

/-- A call leaves nothing that was not delivered. -/
theorem Traced.call (hTraced : Traced d m) (c : Call) :
    Traced (m.deliver d (.event c)) (m.call c).2 := by
  have hHeight := (m.call_step c).fixed.1
  refine ⟨(call_bookStep m c).noStale hTraced.noStale, fun p hProposal => ?_,
    fun t r x v hHeld => ?_⟩
  · rw [hHeight]
    rcases (m.call_step c).proposal_spec hProposal with
      ⟨hOld, hRound⟩ | ⟨rfl, hMay, hOwn, hRound⟩
    · obtain ⟨hMem, hAt, hAtRound⟩ := hTraced.proposal p hOld
      refine ⟨?_, hAt, hAtRound.trans hRound.symm⟩
      cases c with
      | proposal =>
          rw [deliver]
          split
          · exact List.mem_cons_of_mem _ hMem
          · exact hMem
      | vote | timeout => exact hMem
    · refine ⟨?_, hOwn, hRound⟩
      rw [deliver, if_pos hMay]
      exact List.mem_cons_self
  · rw [hHeight]
    rcases (call_bookStep m c).of_held hTraced.noStale hHeld with
      hOld | ⟨rfl, hRound, hVoter, hTakes⟩
    · obtain ⟨hMem, hRest⟩ := hTraced.held t r x v hOld
      refine ⟨?_, hRest⟩
      cases c with
      | proposal =>
          rw [deliver]
          split <;> exact hMem
      | vote => exact List.mem_cons_of_mem _ hMem
      | timeout => exact hMem
    · exact ⟨List.mem_cons_self, hTakes.admits.height_eq, hRound, hVoter⟩

theorem Traced.perform (hTraced : Traced d m) (c : MachineCall) :
    Traced (m.deliver d c) (m.perform c).2 := by
  cases c with
  | event c => exact hTraced.call c
  | advanceHeight newHeight => exact traced_new newHeight m.validatorSet m.localAddress
  | updateValidatorSet newSet =>
      have hSame : SameBook m (m.updateValidatorSet newSet) :=
        sameBook_of_fields rfl rfl rfl rfl rfl
      refine ⟨hSame.noStale hTraced.noStale, hTraced.proposal, fun t r x v hHeld => ?_⟩
      exact hTraced.held t r x v (hSame.held_eq t r ▸ hHeld)

/-- A quorum that the machine finds is one of delivered votes. -/
theorem Traced.backs (hTraced : Traced d m) (hAdmits : m.Admits t v)
    (hRound : v.round = m.round) (hFound : (m.recordVote v t).findQuorum t = some h) :
    (m.deliver d (.event (.vote t v))).Backs m.validatorSet t m.height m.round h := by
  have hSet : (m.recordVote v t).validatorSet = m.validatorSet := by cases t <;> rfl
  have hVotes : (m.recordVote v t).votes t = (m.votes t).insert v := by cases t <;> rfl
  have hQuorum := hasQuorum_of_findQuorum hFound
  rw [hSet, hVotes] at hQuorum
  refine ⟨_, hQuorum, fun x hx => ?_⟩
  obtain ⟨w, hGet, hHash⟩ := VoteMap.mem_support.mp hx
  rw [VoteMap.getElem?_insert] at hGet
  split at hGet
  next hVoter =>
    cases hGet
    exact ⟨v, List.mem_cons_self, hAdmits.height_eq, hRound, hVoter, hHash⟩
  next =>
    have hHeld : (m.held t m.round).votes[x]? = some w := by
      rw [ConsensusStateMachine.held, if_pos rfl, hGet]
    obtain ⟨hMem, hAt, hAtRound, hVoter⟩ := hTraced.held t m.round x w hHeld
    exact ⟨w, List.mem_cons_of_mem _ hMem, hAt, hAtRound, hVoter, hHash⟩

/-! ## One call -/

/-- The stored proposal is for the hash whose quorum a fitting vote completes. -/
theorem Traced.stored_matches (hTraced : Traced d m) (hAdmits : m.Admits t v)
    (hRound : v.round = m.round) (hFound : (m.recordVote v t).findQuorum t = some h)
    (hNonNil : h ≠ Hash.zero)
    (hFits : m.VoteFits (m.deliver d (.event (.vote t v))) (.event (.vote t v)))
    {p : Proposal} (hProposal : m.proposal = some p) : p.block.hash = h := by
  obtain ⟨hMem, hAt, hAtRound⟩ := hTraced.proposal p hProposal
  exact hFits hAdmits.height_eq hRound h hNonNil (hTraced.backs hAdmits hRound hFound)
    p hMem hAt hAtRound

/-- The action is not a commit. -/
private theorem commitMatches_of_not_commit {a : Option ConsensusAction}
    (hNot : ∀ height h proof, a ≠ some (.commitBlock height h proof)) : CommitMatches a m :=
  fun height h proof _ hEq _ => absurd hEq (hNot height h proof)

/-- A call whose vote fits keeps both halves of the property. -/
theorem Step.matches (hStep : Step m c a m') (hTraced : Traced d m)
    (hValid : m.ValidMatches) (hFits : m.VoteFits (m.deliver d (.event c)) (.event c)) :
    m'.ValidMatches ∧ CommitMatches a m' := by
  cases hStep with
  | accepted | acceptedAhead =>
      exact ⟨hValid, commitMatches_of_not_commit (by simp [acceptProposal])⟩
  | @buffered t | @skipped t | @recorded t =>
      cases t <;> exact ⟨hValid, commitMatches_of_not_commit (by simp)⟩
  | @precommitted v h hAdmits hRound hNew hStep hFound =>
      refine ⟨?_, commitMatches_of_not_commit (by simp)⟩
      by_cases hZero : h.isZero = true
      · rw [if_pos hZero]
        exact hValid
      · rw [if_neg hZero]
        rintro r k p hBlock hProposal
        cases hBlock
        exact hTraced.stored_matches hAdmits hRound hFound (by simpa using hZero) hFits
          hProposal
  | @committed v h hAdmits hRound hNew hStep hNonNil hFound =>
      refine ⟨hValid, ?_⟩
      rintro height k proof p hEq hProposal
      cases hEq
      exact hTraced.stored_matches hAdmits hRound hFound hNonNil hFits hProposal
  | _ => exact ⟨hValid, commitMatches_of_not_commit (by simp)⟩

theorem perform_matches {c : MachineCall} (hTraced : Traced d m) (hValid : m.ValidMatches)
    (hFits : m.VoteFits (m.deliver d c) c) :
    (m.perform c).2.ValidMatches ∧ CommitMatches (m.perform c).1 (m.perform c).2 := by
  cases c with
  | event c => exact (m.call_step c).matches hTraced hValid hFits
  | advanceHeight =>
      refine ⟨?_, commitMatches_of_not_commit (by simp [perform])⟩
      intro r h p hBlock
      cases hBlock
  | updateValidatorSet =>
      exact ⟨hValid, commitMatches_of_not_commit (by simp [perform])⟩

/-! ## Runs -/

theorem Traced.bindsRun (hTraced : Traced d m) (hValid : m.ValidMatches)
    {cs : List MachineCall} (hFit : m.VotesFit d cs) : m.BindsRun cs := by
  induction cs generalizing m d with
  | nil => exact hValid
  | cons c cs ih =>
      obtain ⟨hNext, hCommit⟩ := perform_matches hTraced hValid hFit.1
      exact ⟨hValid, hCommit, ih (hTraced.perform c) hNext hFit.2⟩

/-- **The committed block is the stored block as long as quorums are for what was
proposed.** In a run of any calls from a fresh machine whose votes all fit, every
commit is for the stored proposal and every stored valid proposal is for the
valid block. -/
theorem bindsRun_of_votesFit (height : UInt64) (s : ValidatorSet) (a : Address)
    (cs : List MachineCall) (hFit : (new height s a).VotesFit .nothing cs) :
    (new height s a).BindsRun cs :=
  (traced_new height s a).bindsRun (by intro r h p hBlock; cases hBlock) hFit

/-- Validator `03…03` proposes out of turn, the proposer of the round proposes, and
three validators prevote and precommit its block. -/
def orderlyRound : List Call :=
  .proposal { firstProposal (.ofByte 8) with proposer := .ofByte 3 } ::
    .proposal (firstProposal (.ofByte 7)) ::
    (threeVotes .prevote (.ofByte 7) ++ threeVotes .precommit (.ofByte 7))

/-- The round ends in a commit of the stored block. -/
theorem bindsRun_of_votesFit_orderly :
    ((new 1 fourValidators (.ofByte 1)).runCalls orderlyRound).2.step = .commit ∧
      (new 1 fourValidators (.ofByte 1)).BindsRun (orderlyRound.map .event) := by
  have hFits : ∀ (m : ConsensusStateMachine) (d : Delivered) (c : MachineCall),
      (∀ p ∈ d.proposals, p.block.hash = .ofByte 7) →
      (∀ x ∈ d.votes, x.2.blockHash = .ofByte 7) → m.VoteFits d c := by
    intro m d c hProposals hVotes
    unfold VoteFits
    split
    · intro _ _ h _ hBacks p hMem _ _
      obtain ⟨v, hVote, rfl⟩ := hBacks.exists_vote
      exact (hProposals p hMem).trans (hVotes _ hVote).symm
    · trivial
  refine ⟨by decide +kernel, bindsRun_of_votesFit _ _ _ _ ?_⟩
  refine ⟨trivial, trivial, ?_, ?_, ?_, ?_, ?_, ?_, trivial⟩ <;>
    exact hFits _ _ _ (by decide +kernel) (by decide +kernel)

/-- A faulty proposer sends one block to this node and another to the rest: the
node commits the hash the others voted for while it stores the first block. -/
theorem commit_of_other_block :
    ¬(new 1 fourValidators (.ofByte 1)).BindsRun
      (.event (.proposal (firstProposal (.ofByte 7))) ::
        (threeVotes .precommit (.ofByte 8)).map .event) := by
  rintro ⟨-, -, -, -, -, -, -, hCommit, -⟩
  have hEq := hCommit 1 (.ofByte 8)
    { height := 1, round := 0, blockHash := .ofByte 8,
      votes := [firstVote .precommit (.ofByte 8) (.ofByte 2),
        firstVote .precommit (.ofByte 8) (.ofByte 3),
        firstVote .precommit (.ofByte 8) (.ofByte 4)] }
    (firstProposal (.ofByte 7)) (by decide +kernel) (by decide +kernel)
  revert hEq
  decide

end ConsensusStateMachine

end Polay.Consensus
