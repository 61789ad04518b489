import Polay.Consensus.NodeInvariant

/-!
# Agreement

Nodes that are not faulty never commit different blocks at one height. The
argument is the classical one. A precommit for a block locks its sender, and a
lock only ever moves to a block with a prevote quorum of a later round. Suppose a
block has precommits from a quorum in round `r`. A later prevote for another
block by one of these nodes needs a lock on it, hence a prevote quorum for it in
a round after `r`; going back to the first such quorum, its members had not
precommitted in round `r` and have left that round, which contradicts the first
quorum.
-/

namespace Polay.Consensus

open Polay.Types Lib.Machine Lib.Quorum ConsensusStateMachine

/-! ## The state of the network -/

/-- Some quorum left round `r` without precommitting `h` in it, so that `h` can no
longer get a quorum of precommits there. -/
def Escaped (s : ValidatorSet) (faulty : Finset Address) (n : Network) (r : UInt32) (h : Hash) :
    Prop :=
  ∃ voters, voters ⊆ s.members \ (s.members ∩ faulty) ∧ Certificate s faulty voters ∧
    ∀ x ∈ voters, ¬Voted n.log .precommit r h x ∧ r < (n.nodes x).round

/-- The invariant of the network. -/
structure NetInv (s : ValidatorSet) (faulty : Finset Address) (n : Network) : Prop where
  node : ∀ a, a ∉ faulty → NodeInv s faulty n.log a (n.nodes a)
  honest : ∀ a action, (a, action) ∈ n.log → a ∉ faulty
  escaped : ∀ r h x, h ≠ Hash.zero → Voted n.log .precommit r h x →
    ∀ r' h', Voted n.log .prevote r' h' x → r < r' → h' ≠ Hash.zero → h' ≠ h →
      Escaped s faulty n r h
  committed : ∀ a k h proof, (a, .commitBlock k h proof) ∈ n.log →
    h ≠ Hash.zero ∧ ∃ r, Certificate s faulty (honestVoters s faulty n.log .precommit r h)

section Steps

variable {s : ValidatorSet} {faulty : Finset Address} {n n' : Network} {a : Address}
variable {x : Address} {c : Call} {r : UInt32} {h : Hash}

/-- What a node sent was for rounds it has entered. -/
theorem NetInv.round_le (hInv : NetInv s faulty n) {t : VoteType} (hVoted : Voted n.log t r h x) :
    r ≤ (n.nodes x).round := by
  obtain ⟨v, hMem, hRound, -⟩ := hVoted
  exact hRound ▸ (hInv.node x (hInv.honest x _ hMem)).sent_le t v hMem

/-- An escape lasts while rounds grow and the escaped nodes send no precommit of
the round they left. -/
theorem Escaped.mono (hEscaped : Escaped s faulty n r h)
    (hRounds : ∀ x, (n.nodes x).round ≤ (n'.nodes x).round)
    (hVotes : ∀ x, r < (n.nodes x).round → Voted n'.log .precommit r h x →
      Voted n.log .precommit r h x) :
    Escaped s faulty n' r h := by
  obtain ⟨voters, hSub, hCert, hAll⟩ := hEscaped
  refine ⟨voters, hSub, hCert, fun x hx => ?_⟩
  obtain ⟨hNot, hRound⟩ := hAll x hx
  exact ⟨fun hVoted => hNot (hVotes x hRound hVoted),
    UInt32.lt_of_lt_of_le hRound (hRounds x)⟩

/-- A lock on another block than one precommitted earlier shows an escape. -/
theorem NetInv.escaped_of_lock (hInv : NetInv s faulty n) (hHonest : a ∉ faulty) {k : UInt32}
    {g : Hash} (hNonNil : h ≠ Hash.zero) (hVoted : Voted n.log .precommit r h a)
    (hLock : (n.nodes a).lockedBlock = some (k, g)) (hOther : g ≠ h) :
    Escaped s faulty n r h := by
  have hNode := hInv.node a hHonest
  obtain ⟨v, hMem, hRound, hHash⟩ := hVoted
  obtain ⟨k', g', hLock', hLe, hSame⟩ := hNode.locked v hMem (hHash ▸ hNonNil)
  rw [hLock] at hLock'
  cases hLock'
  have hLater : r < k := by
    have hNe : k ≠ v.round := fun hEq => hOther ((hSame hEq).trans hHash)
    rw [hRound] at hLe hNe
    grind
  obtain ⟨-, hNonNil', hCert⟩ := hNode.lock_certified k g hLock
  by_cases hMeet : ∃ x ∈ honestVoters s faulty n.log .prevote k g,
      Voted n.log .precommit r h x
  · obtain ⟨x, hx, hPrecommit⟩ := hMeet
    exact hInv.escaped r h x hNonNil hPrecommit k g (mem_honestVoters.mp hx).2.2 hLater
      hNonNil' hOther
  · refine ⟨_, honestVoters_subset, hCert, fun x hx => ⟨fun hPrecommit => hMeet ⟨x, hx,
      hPrecommit⟩, ?_⟩⟩
    exact UInt32.lt_of_lt_of_le hLater (hInv.round_le (mem_honestVoters.mp hx).2.2)

/-- How the log of votes grows: by the actor's own vote, if it sends one. -/
theorem voted_act {t : VoteType} (hVoted : Voted (n.act a c).log t r h x) :
    Voted n.log t r h x ∨ (x = a ∧ ∃ v, ((n.nodes a).call c).1 = some (sendAction t v) ∧
      v.round = r ∧ v.blockHash = h) := by
  obtain ⟨v, hMem, hRound, hHash⟩ := hVoted
  rw [Network.act, List.mem_append] at hMem
  rcases hMem with hMem | hMem
  · exact .inl ⟨v, hMem, hRound, hHash⟩
  · simp only [List.mem_map, Option.mem_toList, Prod.mk.injEq] at hMem
    obtain ⟨action, hAction, rfl, rfl⟩ := hMem
    exact .inr ⟨rfl, v, hAction, hRound, hHash⟩

theorem round_le_act (c : Call) (x : Address) :
    (n.nodes x).round ≤ ((n.act a c).nodes x).round := by
  by_cases hEq : x = a
  · subst hEq
    simpa [Network.act] using ((n.nodes x).call_step c).round_le
  · simp [Network.act, hEq]

theorem log_subset_act (c : Call) : n.log ⊆ (n.act a c).log :=
  List.subset_append_left _ _

/-- The nodes' invariants survive a step of one of them. -/
theorem NetInv.node_act (hInv : NetInv s faulty n) (hHonest : a ∉ faulty)
    (hAuthentic : n.Authentic faulty c) (hRound : ((n.act a c).nodes a).round ≠ u32Max)
    (b : Address) (hb : b ∉ faulty) :
    NodeInv s faulty (n.act a c).log b ((n.act a c).nodes b) := by
  by_cases hEq : b = a
  · subst hEq
    have hNodes : (n.act b c).nodes b = ((n.nodes b).call c).2 := by simp [Network.act]
    rw [hNodes] at hRound ⊢
    exact (hInv.node b hb).step hAuthentic ((n.nodes b).call_step c) hRound
  · have hNodes : (n.act a c).nodes b = n.nodes b := by simp [Network.act, hEq]
    rw [hNodes]
    refine (hInv.node b hb).mono (log_subset_act c) fun t v hv => ?_
    rw [Network.act, List.mem_append] at hv
    rcases hv with hv | hv
    · exact hv
    · simp only [List.mem_map, Prod.mk.injEq] at hv
      obtain ⟨action, -, hActor, -⟩ := hv
      exact absurd hActor.symm hEq

/-- The precommits of a round that a node has left do not change. -/
theorem precommit_act (hLeft : r < (n.nodes x).round)
    (hVoted : Voted (n.act a c).log .precommit r h x) : Voted n.log .precommit r h x := by
  rcases voted_act hVoted with hOld | ⟨rfl, v, hAction, hRound, -⟩
  · exact hOld
  · have hStep := (n.nodes x).call_step c
    rw [hAction] at hStep
    have := hStep.precommit_round
    grind

/-- Escapes are preserved: a new prevote for another block comes with a lock on
it, and a new precommit is for a round with no later prevotes. -/
theorem NetInv.escaped_act (hInv : NetInv s faulty n) (hHonest : a ∉ faulty) (c : Call)
    {r' : UInt32} {h' : Hash} (hNonNil : h ≠ Hash.zero)
    (hPrecommit : Voted (n.act a c).log .precommit r h x)
    (hPrevote : Voted (n.act a c).log .prevote r' h' x) (hLater : r < r')
    (hNonNil' : h' ≠ Hash.zero) (hOther : h' ≠ h) : Escaped s faulty (n.act a c) r h := by
  have hMono : Escaped s faulty n r h → Escaped s faulty (n.act a c) r h := fun hEscaped =>
    hEscaped.mono (round_le_act c) fun y hLeft hVoted => precommit_act hLeft hVoted
  have hStep := (n.nodes a).call_step c
  rcases voted_act hPrecommit with hOldPc | ⟨rfl, v, hAction, hRound, -⟩
  · rcases voted_act hPrevote with hOldPv | ⟨rfl, w, hAction, hRound, hHash⟩
    · exact hMono (hInv.escaped r h x hNonNil hOldPc r' h' hOldPv hLater hNonNil' hOther)
    · rw [hAction] at hStep
      obtain ⟨pv, hMem, hPvRound, hPvHash⟩ := hOldPc
      obtain ⟨k, g, hLock, -⟩ :=
        (hInv.node x hHonest).locked pv hMem (hPvHash ▸ hNonNil)
      have hSame : w.blockHash = g := hStep.prevote_spec.2 (hHash ▸ hNonNil') k g hLock
      exact hMono (hInv.escaped_of_lock hHonest hNonNil ⟨pv, hMem, hPvRound, hPvHash⟩ hLock
        (by rw [← hSame, hHash]; exact hOther))
  · -- the sender's prevotes are for rounds up to the one it precommits in
    rw [hAction] at hStep
    have hCurrent := hStep.precommit_round
    rcases voted_act hPrevote with hOldPv | ⟨-, w, hAction', -, -⟩
    · have := hInv.round_le hOldPv
      grind
    · rw [hAction] at hAction'
      cases hAction'

/-- Commits rest on precommit certificates. -/
theorem NetInv.committed_act (hInv : NetInv s faulty n) (hHonest : a ∉ faulty)
    (hAuthentic : n.Authentic faulty c) (hRound : ((n.act a c).nodes a).round ≠ u32Max)
    {b : Address} {k : UInt64} {proof : CommitProof}
    (hMem : (b, .commitBlock k h proof) ∈ (n.act a c).log) :
    h ≠ Hash.zero ∧
      ∃ r, Certificate s faulty (honestVoters s faulty (n.act a c).log .precommit r h) := by
  have hNode := hInv.node_act hHonest hAuthentic hRound a hHonest
  rw [Network.act, List.mem_append] at hMem
  rcases hMem with hMem | hMem
  · obtain ⟨hNonNil, r, hCert⟩ := hInv.committed b k h proof hMem
    exact ⟨hNonNil, r, hCert.mono (honestVoters_mono (log_subset_act c))⟩
  · simp only [List.mem_map, Option.mem_toList, Prod.mk.injEq] at hMem
    obtain ⟨action, hAction, -, rfl⟩ := hMem
    have hNodes : (n.act a c).nodes a = ((n.nodes a).call c).2 := by simp [Network.act]
    have hStep := (n.nodes a).call_step c
    rw [hNodes] at hNode
    obtain ⟨hNonNil, hQuorum⟩ := hStep.commit_spec hAction
    rw [hNode.set_eq] at hQuorum
    exact ⟨hNonNil, _,
      certificate_of_hasQuorum (fun x v => hNode.filed .precommit x v) hQuorum⟩

/-- One event keeps the invariant of the network. -/
theorem NetInv.act (hInv : NetInv s faulty n) (hHonest : a ∉ faulty)
    (hAuthentic : n.Authentic faulty c) (hRound : ((n.act a c).nodes a).round ≠ u32Max) :
    NetInv s faulty (n.act a c) where
  node := hInv.node_act hHonest hAuthentic hRound
  honest b action hMem := by
    rw [Network.act, List.mem_append] at hMem
    rcases hMem with hMem | hMem
    · exact hInv.honest b action hMem
    · simp only [List.mem_map, Prod.mk.injEq] at hMem
      obtain ⟨_, -, rfl, -⟩ := hMem
      exact hHonest
  escaped r h x hNonNil hPrecommit r' h' hPrevote hLater hNonNil' hOther :=
    hInv.escaped_act hHonest c hNonNil hPrecommit hPrevote hLater hNonNil' hOther
  committed b k h proof hMem := hInv.committed_act hHonest hAuthentic hRound hMem

end Steps

/-! ## Agreement -/

theorem NetInv.of_reachable {height : UInt64} {s : ValidatorSet} {faulty : Finset Address}
    {n : Network} (hReach : Network.Reachable height s faulty n) : NetInv s faulty n := by
  induction hReach with
  | init =>
      exact
        { node := fun a _ => NodeInv.init height a
          honest := by simp [Network.init]
          escaped := by simp [Network.init, Voted]
          committed := by simp [Network.init] }
  | act hReach hHonest hAuthentic hRound ih => exact ih.act hHonest hAuthentic hRound

/-- Two certificates of precommits, the second in the same or a later round, are
for the same block. -/
theorem NetInv.agree_of_le {s : ValidatorSet} {faulty : Finset Address} {n : Network}
    (hFew : Network.FewFaulty s faulty) (hInv : NetInv s faulty n) {r r' : UInt32}
    {h h' : Hash} (hLe : r ≤ r') (hNonNil : h ≠ Hash.zero) (hNonNil' : h' ≠ Hash.zero)
    (hCert : Certificate s faulty (honestVoters s faulty n.log .precommit r h))
    (hCert' : Certificate s faulty (honestVoters s faulty n.log .precommit r' h')) :
    h = h' := by
  by_contra hNe
  obtain ⟨y, -, hy⟩ := hCert'.inter hFew honestVoters_subset honestVoters_subset hCert'
  obtain ⟨-, hyHonest, w, hw, hwRound, hwHash⟩ := mem_honestVoters.mp hy
  by_cases hEq : r = r'
  · subst hEq
    obtain ⟨x, hx, hx'⟩ := hCert.inter hFew honestVoters_subset honestVoters_subset hCert'
    obtain ⟨-, hHonest, v, hv, hRound, hHash⟩ := mem_honestVoters.mp hx
    obtain ⟨-, -, v', hv', hRound', hHash'⟩ := mem_honestVoters.mp hx'
    apply hNe
    rw [← hHash, ← hHash']
    exact (hInv.node x hHonest).once v v' hv hv' (hRound.trans hRound'.symm) (hHash ▸ hNonNil)
      (hHash' ▸ hNonNil')
  · have hLater : r < r' := by grind
    have hPrevotes := (hInv.node y hyHonest).certified w hw (hwHash ▸ hNonNil')
    rw [hwRound, hwHash] at hPrevotes
    obtain ⟨x, hx, hx'⟩ := hCert.inter hFew honestVoters_subset honestVoters_subset hPrevotes
    have hPrecommit := (mem_honestVoters.mp hx).2.2
    obtain ⟨voters, hSub, hQuorum, hAll⟩ := hInv.escaped r h x hNonNil hPrecommit r' h'
      (mem_honestVoters.mp hx').2.2 hLater hNonNil' fun hSame => hNe hSame.symm
    obtain ⟨z, hz, hz'⟩ := hCert.inter hFew honestVoters_subset hSub hQuorum
    exact (hAll z hz').1 (mem_honestVoters.mp hz).2.2

/-- **Agreement.** While the faulty validators hold less than a third of the
stake and nobody votes in the name of others, all blocks committed at a height
are the same, in whatever rounds they are committed. -/
theorem agreement {height : UInt64} {s : ValidatorSet} {faulty : Finset Address} {n : Network}
    (hFew : Network.FewFaulty s faulty) (hReach : Network.Reachable height s faulty n)
    {a b : Address} {k k' : UInt64} {h h' : Hash} {proof proof' : CommitProof}
    (hCommit : (a, .commitBlock k h proof) ∈ n.log)
    (hCommit' : (b, .commitBlock k' h' proof') ∈ n.log) : h = h' := by
  have hInv := NetInv.of_reachable hReach
  obtain ⟨hNonNil, r, hCert⟩ := hInv.committed a k h proof hCommit
  obtain ⟨hNonNil', r', hCert'⟩ := hInv.committed b k' h' proof' hCommit'
  by_cases hLe : r ≤ r'
  · exact hInv.agree_of_le hFew hLe hNonNil hNonNil' hCert hCert'
  · exact (hInv.agree_of_le hFew (by grind) hNonNil' hNonNil hCert' hCert).symm

/-! ### A network of three

Validator `01…01` holds a quorum of the stake, `02…02` is faulty and proposes
first, `03…03` only listens. -/

def unequalValidators : ValidatorSet where
  validators := [⟨.ofByte 1, 300⟩, ⟨.ofByte 2, 50⟩, ⟨.ofByte 3, 50⟩]
  totalStake := 400
  nodup := by decide
  total_eq := by decide

/-- The first validator handles the proposal, its own prevote and its own
precommit; then the third handles that precommit. -/
def twoCommits : Network :=
  ((((Network.init 1 unequalValidators).act (.ofByte 1)
    (.proposal (firstProposal (.ofByte 7)))).act (.ofByte 1)
    (.vote .prevote (firstVote .prevote (.ofByte 7) (.ofByte 1)))).act (.ofByte 1)
    (.vote .precommit (firstVote .precommit (.ofByte 7) (.ofByte 1)))).act (.ofByte 3)
    (.vote .precommit (firstVote .precommit (.ofByte 7) (.ofByte 1)))

theorem reachable_twoCommits :
    Network.Reachable 1 unequalValidators {.ofByte 2} twoCommits := by
  refine .act (.act (.act (.act .init ?_ trivial ?_) ?_ ?_ ?_) ?_ ?_ ?_) ?_ ?_ ?_
  · decide
  · decide +kernel
  · decide
  · exact fun _ => ⟨firstVote .prevote (.ofByte 7) (.ofByte 1), by decide +kernel, rfl, rfl, rfl⟩
  · decide +kernel
  · decide
  · exact fun _ => ⟨firstVote .precommit (.ofByte 7) (.ofByte 1), by decide +kernel, rfl, rfl,
      rfl⟩
  · decide +kernel
  · decide
  · exact fun _ => ⟨firstVote .precommit (.ofByte 7) (.ofByte 1), by decide +kernel, rfl, rfl,
      rfl⟩
  · decide +kernel

theorem agreement_twoCommits :
    let proof : CommitProof :=
      ⟨1, 0, .ofByte 7, [firstVote .precommit (.ofByte 7) (.ofByte 1)]⟩
    Network.FewFaulty unequalValidators {.ofByte 2} ∧
      Network.Reachable 1 unequalValidators {.ofByte 2} twoCommits ∧
      (.ofByte 1, .commitBlock 1 (.ofByte 7) proof) ∈ twoCommits.log ∧
      (.ofByte 3, .commitBlock 1 (.ofByte 7) proof) ∈ twoCommits.log ∧
      Hash.ofByte 7 = Hash.ofByte 7 := by
  intro proof
  have hFew : Network.FewFaulty unequalValidators {.ofByte 2} := by
    unfold Network.FewFaulty
    decide +kernel
  have hCommit : (.ofByte 1, .commitBlock 1 (.ofByte 7) proof) ∈ twoCommits.log := by
    decide +kernel
  have hCommit' : (.ofByte 3, .commitBlock 1 (.ofByte 7) proof) ∈ twoCommits.log := by
    decide +kernel
  exact ⟨hFew, reachable_twoCommits, hCommit, hCommit',
    agreement hFew reachable_twoCommits hCommit hCommit'⟩

end Polay.Consensus
