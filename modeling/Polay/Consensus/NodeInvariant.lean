import Polay.Consensus.Network

/-!
# The invariant of an honest node

What holds of one node that is not faulty, whatever it has handled: the votes it
holds were sent by their voters unless these are faulty, it precommits one block
per round at most, each block it precommits had a prevote quorum, and its lock
never falls behind its precommits. The invariant is relative to the log of all
actions, and only grows stronger with it.
-/

namespace Polay.Consensus

open Polay.Types Lib.Machine Lib.Quorum ConsensusStateMachine

/-! ## The state of one node -/

section Node

variable (s : ValidatorSet) (faulty : Finset Address)

/-- A vote held for round `r`: its voter is a member, and sent it unless faulty. -/
structure Filed (log : List (Address × ConsensusAction)) (t : VoteType) (r : UInt32)
    (v : Vote) : Prop where
  member : v.voter ∈ s.members
  sent : v.voter ∉ faulty → Voted log t r v.blockHash v.voter

/-- The invariant of a node that is not faulty, relative to the log. -/
structure NodeInv (log : List (Address × ConsensusAction)) (a : Address)
    (m : ConsensusStateMachine) : Prop where
  set_eq : m.validatorSet = s
  sent_le : ∀ t v, (a, sendAction t v) ∈ log → v.round ≤ m.round
  filed : ∀ t (x : Address) (v : Vote), (m.votes t).votes[x]? = some v →
    Filed s faulty log t m.round v
  buffered : ∀ t (r : UInt32) (votes : VoteMap), (m.futureVotes t)[r]? = some votes →
    ∀ (x : Address) (v : Vote), votes.votes[x]? = some v → Filed s faulty log t r v
  locked : ∀ v, (a, .sendPrecommit v) ∈ log → v.blockHash ≠ Hash.zero →
    ∃ r h, m.lockedBlock = some (r, h) ∧ v.round ≤ r ∧ (r = v.round → h = v.blockHash)
  once : ∀ v w, (a, .sendPrecommit v) ∈ log → (a, .sendPrecommit w) ∈ log →
    v.round = w.round → v.blockHash ≠ Hash.zero → w.blockHash ≠ Hash.zero →
    v.blockHash = w.blockHash
  certified : ∀ v, (a, .sendPrecommit v) ∈ log → v.blockHash ≠ Hash.zero →
    Certificate s faulty (honestVoters s faulty log .prevote v.round v.blockHash)
  lock_certified : ∀ r h, m.lockedBlock = some (r, h) → r ≤ m.round ∧ h ≠ Hash.zero ∧
    Certificate s faulty (honestVoters s faulty log .prevote r h)
  lock_quorum : ∀ h, m.lockedBlock = some (m.round, h) → HasQuorum s m.prevotes h

end Node

section NodeSteps

variable {s : ValidatorSet} {faulty : Finset Address}
  {log log' : List (Address × ConsensusAction)} {a : Address} {m m' : ConsensusStateMachine}

variable {t : VoteType}

theorem Filed.mono {r : UInt32} {v : Vote} (hSub : log ⊆ log') (hFiled : Filed s faulty log t r v) :
    Filed s faulty log' t r v :=
  ⟨hFiled.member, fun hHonest => (hFiled.sent hHonest).mono hSub⟩

/-- The honest part of a quorum of filed votes is a certificate. -/
theorem certificate_of_hasQuorum {votes : VoteMap} {r : UInt32} {h : Hash}
    (hFiled : ∀ (x : Address) (v : Vote), votes.votes[x]? = some v → Filed s faulty log t r v)
    (hQuorum : HasQuorum s votes h) : Certificate s faulty (honestVoters s faulty log t r h) := by
  have hSub : votes.support h ⊆ honestVoters s faulty log t r h ∪ (s.members ∩ faulty) := by
    intro x hx
    obtain ⟨v, hGet, hHash⟩ := VoteMap.mem_support.mp hx
    have hVoter := votes.voter_key x v hGet
    obtain ⟨hMember, hSent⟩ := hFiled x v hGet
    rw [hVoter] at hMember hSent
    rw [Finset.mem_union, mem_honestVoters, Finset.mem_inter]
    by_cases hFaulty : x ∈ faulty
    · exact .inr ⟨hMember, hFaulty⟩
    · exact .inl ⟨hMember, hFaulty, hHash ▸ hSent hFaulty⟩
  have hWeight := weight_le_of_subset_union (w := s.power) hSub
  rw [HasQuorum, s.toNat_quorumThreshold] at hQuorum
  unfold Certificate
  omega

/-- A delivered vote that passes the checks can be filed. -/
theorem filed_of_authentic {n : Network} {v : Vote} (hAuthentic : n.Authentic faulty (.vote t v))
    (hSet : m.validatorSet = s) (hAdmits : m.Admits t v) : Filed s faulty n.log t v.round v where
  member := hSet ▸ hAdmits.member
  sent hHonest := by
    obtain ⟨w, hMem, -, hRound, hHash⟩ := hAuthentic hHonest
    exact ⟨w, hAdmits.type_eq ▸ hMem, hRound, hHash⟩

namespace NodeInv

variable {v : Vote}

theorem init (height : UInt64) (a : Address) : NodeInv s faulty [] a (.new height s a) where
  set_eq := rfl
  sent_le := by simp
  filed t x v hGet := by cases t <;> simp [votes, ConsensusStateMachine.new, VoteMap.empty] at hGet
  buffered t r votes hGet := by cases t <;> simp [futureVotes, ConsensusStateMachine.new] at hGet
  locked := by simp
  once := by simp
  certified := by simp
  lock_certified r h hLock := by cases hLock
  lock_quorum h hLock := by cases hLock

/-- Other nodes' actions only add to what can be relied on. -/
theorem mono (hInv : NodeInv s faulty log a m) (hSub : log ⊆ log')
    (hOwn : ∀ t v, (a, sendAction t v) ∈ log' → (a, sendAction t v) ∈ log) :
    NodeInv s faulty log' a m where
  set_eq := hInv.set_eq
  sent_le t v hv := hInv.sent_le t v (hOwn t v hv)
  filed t x v hGet := (hInv.filed t x v hGet).mono hSub
  buffered t r votes hVotes x v hGet := (hInv.buffered t r votes hVotes x v hGet).mono hSub
  locked v hv := hInv.locked v (hOwn .precommit v hv)
  once v w hv hw := hInv.once v w (hOwn .precommit v hv) (hOwn .precommit w hw)
  certified v hv hNonNil :=
    (hInv.certified v (hOwn .precommit v hv) hNonNil).mono (honestVoters_mono hSub)
  lock_certified r h hLock := by
    obtain ⟨hRound, hNonNil, hCert⟩ := hInv.lock_certified r h hLock
    exact ⟨hRound, hNonNil, hCert.mono (honestVoters_mono hSub)⟩
  lock_quorum := hInv.lock_quorum

/-- The step, the proposal and the valid block do not matter. -/
theorem of_same (hInv : NodeInv s faulty log a m) (hSet : m'.validatorSet = m.validatorSet)
    (hRound : m'.round = m.round) (hPrevotes : m'.prevotes = m.prevotes)
    (hPrecommits : m'.precommits = m.precommits)
    (hFuturePrevotes : m'.futurePrevotes = m.futurePrevotes)
    (hFuturePrecommits : m'.futurePrecommits = m.futurePrecommits)
    (hLocked : m'.lockedBlock = m.lockedBlock) : NodeInv s faulty log a m' where
  set_eq := hSet ▸ hInv.set_eq
  sent_le := hRound ▸ hInv.sent_le
  filed t := by
    have hVotes : m'.votes t = m.votes t := by cases t <;> assumption
    rw [hVotes, hRound]
    exact hInv.filed t
  buffered t := by
    have hVotes : m'.futureVotes t = m.futureVotes t := by cases t <;> assumption
    rw [hVotes]
    exact hInv.buffered t
  locked := hLocked ▸ hInv.locked
  once := hInv.once
  certified := hInv.certified
  lock_certified := by rw [hLocked, hRound]; exact hInv.lock_certified
  lock_quorum := by rw [hLocked, hRound, hPrevotes]; exact hInv.lock_quorum

/-- Entering a later round loads buffered votes and keeps the lock. -/
theorem enterRound (hInv : NodeInv s faulty log a m) {r : UInt32} (hLater : m.round < r) :
    NodeInv s faulty log a (m.enterRound r) where
  set_eq := hInv.set_eq
  sent_le t v hv := UInt32.le_trans (hInv.sent_le t v hv) (UInt32.le_of_lt hLater)
  filed t x v hGet := by
    have hVotes : ((m.enterRound r).votes t) = (m.futureVotes t)[r]?.getD .empty := by
      cases t <;> rfl
    rw [hVotes] at hGet
    cases hLoad : (m.futureVotes t)[r]? with
    | none => simp [hLoad, VoteMap.empty] at hGet
    | some votes =>
        rw [hLoad, Option.getD_some] at hGet
        exact hInv.buffered t r votes hLoad x v hGet
  buffered t k votes hVotes := by
    have hFuture : (m.enterRound r).futureVotes t =
        ((m.futureVotes t).erase r).filter fun k _ => decide (r < k) := by cases t <;> rfl
    rw [hFuture, Std.ExtTreeMap.getElem?_filter] at hVotes
    have hKept : (m.futureVotes t)[k]? = some votes := by
      have hErased := Option.eq_some_of_pfilter_eq_some hVotes
      rw [Std.ExtTreeMap.getElem?_erase] at hErased
      split at hErased
      · cases hErased
      · exact hErased
    exact hInv.buffered t k votes hKept
  locked := hInv.locked
  once := hInv.once
  certified := hInv.certified
  lock_certified k h hLock := by
    obtain ⟨hRound, hRest⟩ := hInv.lock_certified k h hLock
    exact ⟨UInt32.le_trans hRound (UInt32.le_of_lt hLater), hRest⟩
  lock_quorum h hLock := by
    -- a lock of the new round would be ahead of the round it was made in
    have hRound := (hInv.lock_certified r h hLock).1
    grind

/-- A vote for a later round is kept for it. -/
theorem bufferVote (hInv : NodeInv s faulty log a m) {t : VoteType}
    (hFiled : Filed s faulty log t v.round v) : NodeInv s faulty log a (m.bufferVote v t) where
  set_eq := by cases t <;> exact hInv.set_eq
  sent_le := by cases t <;> exact hInv.sent_le
  filed u := by
    cases t <;> cases u <;> first | exact hInv.filed .prevote | exact hInv.filed .precommit
  buffered u r votes hVotes x w hGet := by
    by_cases hKind : u = t
    · subst hKind
      have hFuture : (m.bufferVote v u).futureVotes u = (m.futureVotes u).insert v.round
          (((m.futureVotes u)[v.round]?.getD .empty).insert v) := by cases u <;> rfl
      rw [hFuture, Std.ExtTreeMap.getElem?_insert] at hVotes
      split at hVotes
      next hEq =>
        have hRound : v.round = r := Std.LawfulEqOrd.eq_of_compare hEq
        cases hVotes
        rw [VoteMap.getElem?_insert] at hGet
        split at hGet
        · cases hGet
          exact hRound ▸ hFiled
        · cases hOld : (m.futureVotes u)[v.round]? with
          | none => simp [hOld, VoteMap.empty] at hGet
          | some old =>
              rw [hOld, Option.getD_some] at hGet
              exact hRound ▸ hInv.buffered u v.round old hOld x w hGet
      next => exact hInv.buffered u r votes hVotes x w hGet
    · have hFuture : (m.bufferVote v t).futureVotes u = m.futureVotes u := by
        cases t <;> cases u <;> first | rfl | exact absurd rfl hKind
      exact hInv.buffered u r votes (hFuture ▸ hVotes) x w hGet
  locked := by cases t <;> exact hInv.locked
  once := hInv.once
  certified := hInv.certified
  lock_certified := by cases t <;> exact hInv.lock_certified
  lock_quorum := by cases t <;> exact hInv.lock_quorum

/-- A vote of a new voter does not take a quorum away. -/
theorem hasQuorum_insert {votes : VoteMap} {h : Hash} (hNew : votes.votes[v.voter]? = none)
    (hQuorum : HasQuorum s votes h) : HasQuorum s (votes.insert v) h := by
  have hSub : votes.support h ⊆ (votes.insert v).support h := by
    intro x hx
    obtain ⟨w, hGet, hHash⟩ := VoteMap.mem_support.mp hx
    refine VoteMap.mem_support.mpr ⟨w, ?_, hHash⟩
    rw [VoteMap.getElem?_insert, if_neg, hGet]
    intro hEq
    rw [hEq, hGet] at hNew
    cases hNew
  exact le_trans hQuorum (weight_mono hSub)

/-- A vote for the current round is counted in it. -/
theorem recordVote (hInv : NodeInv s faulty log a m) {t : VoteType}
    (hFiled : Filed s faulty log t m.round v) (hNew : (m.votes t).votes[v.voter]? = none) :
    NodeInv s faulty log a (m.recordVote v t) where
  set_eq := by cases t <;> exact hInv.set_eq
  sent_le := by cases t <;> exact hInv.sent_le
  filed u x w hGet := by
    have hRound : (m.recordVote v t).round = m.round := by cases t <;> rfl
    rw [hRound]
    by_cases hKind : u = t
    · subst hKind
      have hVotes : (m.recordVote v u).votes u = (m.votes u).insert v := by cases u <;> rfl
      rw [hVotes, VoteMap.getElem?_insert] at hGet
      split at hGet
      · cases hGet
        exact hFiled
      · exact hInv.filed u x w hGet
    · have hVotes : (m.recordVote v t).votes u = m.votes u := by
        cases t <;> cases u <;> first | rfl | exact absurd rfl hKind
      exact hInv.filed u x w (hVotes ▸ hGet)
  buffered := by cases t <;> exact hInv.buffered
  locked := by cases t <;> exact hInv.locked
  once := hInv.once
  certified := hInv.certified
  lock_certified := by cases t <;> exact hInv.lock_certified
  lock_quorum h hLock := by
    cases t with
    | prevote => exact hasQuorum_insert hNew (hInv.lock_quorum h hLock)
    | precommit => exact hInv.lock_quorum h hLock

/-- Locking on a block with a prevote quorum in the current round. -/
theorem lockOn (hInv : NodeInv s faulty log a m) {h : Hash} (hNonNil : h ≠ Hash.zero)
    (hQuorum : HasQuorum s m.prevotes h) : NodeInv s faulty log a (m.lockOn h) where
  set_eq := hInv.set_eq
  sent_le := hInv.sent_le
  filed := hInv.filed
  buffered := hInv.buffered
  locked v hv hVote := by
    refine ⟨m.round, h, rfl, hInv.sent_le .precommit v hv, fun hRound => ?_⟩
    -- an earlier precommit of this round was for a block with a quorum in the same votes
    obtain ⟨r, k, hLock, hLe, hSame⟩ := hInv.locked v hv hVote
    have hBack := (hInv.lock_certified r k hLock).1
    have hEq : r = v.round := by
      rw [← hRound]
      rw [← hRound] at hLe
      grind
    rw [hEq, ← hRound] at hLock
    have hOld : k = h := (hInv.lock_quorum k hLock).unique
      (fun x w hGet => (m.prevotes.voter_key x w hGet) ▸ (hInv.filed .prevote x w hGet).member)
      hQuorum
    rw [← hOld, hSame hEq]
  once := hInv.once
  certified := hInv.certified
  lock_certified r k hLock := by
    cases hLock
    exact ⟨UInt32.le_refl _, hNonNil,
      certificate_of_hasQuorum (fun x v => hInv.filed .prevote x v) hQuorum⟩
  lock_quorum k hLock := by
    cases hLock
    exact hQuorum

/-- Sending a prevote for a round already entered. -/
theorem send_prevote (hInv : NodeInv s faulty log a m) (hRound : v.round ≤ m.round) :
    NodeInv s faulty (log ++ [(a, .sendPrevote v)]) a m := by
  have hSub : log ⊆ log ++ [(a, .sendPrevote v)] := List.subset_append_left _ _
  have hOwn : ∀ w, (a, ConsensusAction.sendPrecommit w) ∈ log ++ [(a, .sendPrevote v)] →
      (a, ConsensusAction.sendPrecommit w) ∈ log := by simp
  exact
    { set_eq := hInv.set_eq
      sent_le := by
        intro t w hw
        rw [List.mem_append, List.mem_singleton] at hw
        rcases hw with hw | hw
        · exact hInv.sent_le t w hw
        · cases t with
          | prevote =>
              cases hw
              exact hRound
          | precommit => cases hw
      filed := fun t x w hGet => (hInv.filed t x w hGet).mono hSub
      buffered := fun t r votes hVotes x w hGet =>
        (hInv.buffered t r votes hVotes x w hGet).mono hSub
      locked := fun w hw => hInv.locked w (hOwn w hw)
      once := fun w w' hw hw' => hInv.once w w' (hOwn w hw) (hOwn w' hw')
      certified := fun w hw hNonNil =>
        (hInv.certified w (hOwn w hw) hNonNil).mono (honestVoters_mono hSub)
      lock_certified := fun r h hLock =>
        ⟨(hInv.lock_certified r h hLock).1, (hInv.lock_certified r h hLock).2.1,
          (hInv.lock_certified r h hLock).2.2.mono (honestVoters_mono hSub)⟩
      lock_quorum := hInv.lock_quorum }

/-- Sending a precommit for the current round, nil or for the lock. -/
theorem send_precommit (hInv : NodeInv s faulty log a m) (hRound : v.round = m.round)
    (hLock : v.blockHash ≠ Hash.zero → m.lockedBlock = some (m.round, v.blockHash)) :
    NodeInv s faulty (log ++ [(a, .sendPrecommit v)]) a m := by
  have hSub : log ⊆ log ++ [(a, .sendPrecommit v)] := List.subset_append_left _ _
  have hCases : ∀ w, (a, ConsensusAction.sendPrecommit w) ∈ log ++ [(a, .sendPrecommit v)] →
      (a, ConsensusAction.sendPrecommit w) ∈ log ∨ w = v := by simp
  -- an earlier precommit of this round is for the locked block
  have hAgree : ∀ w, (a, ConsensusAction.sendPrecommit w) ∈ log → w.round = v.round →
      w.blockHash ≠ Hash.zero → v.blockHash ≠ Hash.zero → w.blockHash = v.blockHash := by
    intro w hw hEq hNonNil hNonNil'
    obtain ⟨r, h, hOld, -, hSame⟩ := hInv.locked w hw hNonNil
    rw [hLock hNonNil'] at hOld
    cases hOld
    exact (hSame (hRound.symm.trans hEq.symm)).symm
  exact
    { set_eq := hInv.set_eq
      sent_le := by
        intro t w hw
        rw [List.mem_append, List.mem_singleton] at hw
        rcases hw with hw | hw
        · exact hInv.sent_le t w hw
        · cases t with
          | prevote => cases hw
          | precommit =>
              cases hw
              exact hRound ▸ UInt32.le_refl _
      filed := fun t x w hGet => (hInv.filed t x w hGet).mono hSub
      buffered := fun t r votes hVotes x w hGet =>
        (hInv.buffered t r votes hVotes x w hGet).mono hSub
      locked := by
        intro w hw hNonNil
        rcases hCases w hw with hw | rfl
        · exact hInv.locked w hw hNonNil
        · exact ⟨m.round, w.blockHash, hLock hNonNil, hRound ▸ UInt32.le_refl _, fun _ => rfl⟩
      once := by
        intro w w' hw hw' hEq hNonNil hNonNil'
        rcases hCases w hw with hOld | hNew <;> rcases hCases w' hw' with hOld' | hNew'
        · exact hInv.once w w' hOld hOld' hEq hNonNil hNonNil'
        · subst hNew'
          exact hAgree w hOld hEq hNonNil hNonNil'
        · subst hNew
          exact (hAgree w' hOld' hEq.symm hNonNil' hNonNil).symm
        · rw [hNew, hNew']
      certified := by
        intro w hw hNonNil
        rcases hCases w hw with hw | rfl
        · exact (hInv.certified w hw hNonNil).mono (honestVoters_mono hSub)
        · have hCert := (hInv.lock_certified _ _ (hLock hNonNil)).2.2
          rw [← hRound] at hCert
          exact hCert.mono (honestVoters_mono hSub)
      lock_certified := fun r h hLock =>
        ⟨(hInv.lock_certified r h hLock).1, (hInv.lock_certified r h hLock).2.1,
          (hInv.lock_certified r h hLock).2.2.mono (honestVoters_mono hSub)⟩
      lock_quorum := hInv.lock_quorum }

/-- Returning an action that sends no vote. -/
theorem other (hInv : NodeInv s faulty log a m) {action : ConsensusAction}
    (hOther : ∀ t v, action ≠ sendAction t v) :
    NodeInv s faulty (log ++ [(a, action)]) a m := by
  refine hInv.mono (List.subset_append_left _ _) fun t v hv => ?_
  simpa [(hOther t v).symm] using hv

/-- Returning a commit. -/
theorem other_commit (hInv : NodeInv s faulty log a m) (k : UInt64) (h : Hash)
    (proof : CommitProof) : NodeInv s faulty (log ++ [(a, .commitBlock k h proof)]) a m :=
  hInv.other (by rintro ⟨⟩ v <;> simp [sendAction])

end NodeInv

end NodeSteps

/-! ## One step of a node -/

/-- A step of an honest node keeps its invariant. -/
theorem NodeInv.step {s : ValidatorSet} {faulty : Finset Address} {n : Network} {a : Address}
    {m' : ConsensusStateMachine} {c : Call} {action : Option ConsensusAction}
    (hInv : NodeInv s faulty n.log a (n.nodes a)) (hAuthentic : n.Authentic faulty c)
    (hStep : Step (n.nodes a) c action m') (hRound : m'.round ≠ u32Max) :
    NodeInv s faulty (n.log ++ action.toList.map fun x => (a, x)) a m' := by
  cases hStep with
  | rejected => simpa using hInv
  | rejectedAhead hLater => simpa using hInv.enterRound hLater
  | accepted | proposeTimeout =>
      exact (hInv.send_prevote (UInt32.le_refl _)).of_same rfl rfl rfl rfl rfl rfl rfl
  | acceptedAhead hAccepts hLater =>
      exact ((hInv.enterRound hLater).send_prevote (UInt32.le_refl _)).of_same rfl rfl rfl rfl
        rfl rfl rfl
  | buffered hAdmits hLater =>
      simpa using hInv.bufferVote (filed_of_authentic hAuthentic hInv.set_eq hAdmits)
  | @skipped t v hAdmits hLater =>
      have hBuffered := hInv.bufferVote (filed_of_authentic hAuthentic hInv.set_eq hAdmits)
      have hLater' : ((n.nodes a).bufferVote v t).round < v.round := by cases t <;> exact hLater
      exact (hBuffered.enterRound hLater').other (by rintro ⟨⟩ u <;> simp [sendAction])
  | recorded hAdmits hSame hNew =>
      have hFiled := filed_of_authentic hAuthentic hInv.set_eq hAdmits
      simpa using hInv.recordVote (hSame ▸ hFiled) hNew
  | @precommitted v h hAdmits hSame hNew hStep hQuorum =>
      have hFiled := filed_of_authentic hAuthentic hInv.set_eq hAdmits
      have hRecorded := hInv.recordVote (t := .prevote) (hSame ▸ hFiled) hNew
      have hHas := hRecorded.set_eq ▸ hasQuorum_of_findQuorum hQuorum
      by_cases hZero : h.isZero = true
      · rw [if_pos hZero]
        have hNil : h = Hash.zero := Hash.isZero_eq_true.mp hZero
        exact (hRecorded.send_precommit rfl fun hNonNil => absurd hNil hNonNil).of_same rfl rfl
          rfl rfl rfl rfl rfl
      · rw [if_neg hZero]
        have hNonNil : h ≠ Hash.zero := by simpa using hZero
        exact ((hRecorded.lockOn hNonNil hHas).send_precommit rfl fun _ => rfl).of_same rfl rfl
          rfl rfl rfl rfl rfl
  | @committed v h hAdmits hSame hNew hStep hNonNil hQuorum =>
      have hFiled := filed_of_authentic hAuthentic hInv.set_eq hAdmits
      have hRecorded := hInv.recordVote (t := .precommit) (hSame ▸ hFiled) hNew
      have hOther := hRecorded.other_commit (n.nodes a).height h
        (((n.nodes a).recordVote v .precommit).commitProof h)
      exact hOther.of_same rfl rfl rfl rfl rfl rfl rfl
  | prevoteTimeout hStep =>
      exact (hInv.send_precommit rfl fun hNonNil => absurd rfl hNonNil).of_same rfl rfl rfl rfl
        rfl rfl rfl
  | precommitTimeout hStep =>
      have hNotLast : (n.nodes a).round ≠ u32Max := by
        intro hLast
        apply hRound
        show (n.nodes a).nextRound = u32Max
        rw [nextRound, if_pos hLast]
      exact (hInv.enterRound (lt_nextRound hNotLast)).other
        (by rintro ⟨⟩ u <;> simp [sendAction])
  | commitTimeout hStep => exact hInv.other (by rintro ⟨⟩ u <;> simp [sendAction])

end Polay.Consensus
