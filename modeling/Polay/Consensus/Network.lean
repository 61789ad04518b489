import Polay.Consensus.Steps

/-!
# A network of machines

Every node that is not faulty runs the machine for the same height and validator
set. Events reach the nodes in any order, any number of times; faulty validators
send whatever they like. The one thing they cannot do is speak for others: a vote
in the name of a node that is not faulty is delivered only if that node's own
machine sent it.
-/

namespace Polay.Consensus

open Polay.Types Lib.Machine Lib.Quorum

/-- The machines of all nodes and every action they returned, oldest first. -/
structure Network where
  nodes : Address → ConsensusStateMachine
  log : List (Address × ConsensusAction)

namespace Network

/-- Every node at the start of the height. -/
def init (height : UInt64) (s : ValidatorSet) : Network where
  nodes := .new height s
  log := []

/-- Node `a` handles one event. -/
def act (n : Network) (a : Address) (c : Call) : Network where
  nodes := Function.update n.nodes a ((n.nodes a).call c).2
  log := n.log ++ ((n.nodes a).call c).1.toList.map fun action => (a, action)

/-- A vote in the name of a node that is not faulty repeats one that node sent;
only the signature, which the runtime fills in, may differ. -/
def Authentic (faulty : Finset Address) (n : Network) : Call → Prop
  | .vote _ v => v.voter ∉ faulty →
      ∃ w, (v.voter, sendAction v.voteType w) ∈ n.log ∧ w.height = v.height ∧
        w.round = v.round ∧ w.blockHash = v.blockHash
  | _ => True

/-- The states the network can reach while no round counter is exhausted. -/
inductive Reachable (height : UInt64) (s : ValidatorSet) (faulty : Finset Address) :
    Network → Prop
  | init : Reachable height s faulty (init height s)
  | act {n : Network} {a : Address} {c : Call} (hReach : Reachable height s faulty n)
      (hHonest : a ∉ faulty) (hAuthentic : n.Authentic faulty c)
      (hRound : ((n.act a c).nodes a).round ≠ u32Max) :
      Reachable height s faulty (n.act a c)

/-- The faulty validators hold less than a third of the stake. -/
def FewFaulty (s : ValidatorSet) (faulty : Finset Address) : Prop :=
  3 * weight s.power (s.members ∩ faulty) < s.totalStake.toNat

end Network

/-! ## What the log says -/

/-- Node `x` sent a vote of the given kind for `h` in round `r`. -/
def Voted (log : List (Address × ConsensusAction)) (t : VoteType) (r : UInt32) (h : Hash)
    (x : Address) : Prop :=
  ∃ v, (x, sendAction t v) ∈ log ∧ v.round = r ∧ v.blockHash = h

theorem Voted.mono {log log' : List (Address × ConsensusAction)} {t : VoteType} {r : UInt32}
    {h : Hash} {x : Address} (hSub : log ⊆ log') (hVoted : Voted log t r h x) :
    Voted log' t r h x := by
  obtain ⟨v, hMem, hRound, hHash⟩ := hVoted
  exact ⟨v, hSub hMem, hRound, hHash⟩

open Classical in
/-- The validators that are not faulty and sent such a vote. -/
noncomputable def honestVoters (s : ValidatorSet) (faulty : Finset Address)
    (log : List (Address × ConsensusAction)) (t : VoteType) (r : UInt32) (h : Hash) :
    Finset Address :=
  (s.members \ (s.members ∩ faulty)).filter (Voted log t r h)

/-- Together with the faulty validators, these have a quorum. -/
def Certificate (s : ValidatorSet) (faulty : Finset Address) (voters : Finset Address) : Prop :=
  2 * s.totalStake.toNat < 3 * (weight s.power voters + weight s.power (s.members ∩ faulty))

section

variable {s : ValidatorSet} {faulty : Finset Address} {log log' : List (Address × ConsensusAction)}
  {t : VoteType} {r : UInt32} {h : Hash}

theorem mem_honestVoters {x : Address} :
    x ∈ honestVoters s faulty log t r h ↔
      x ∈ s.members ∧ x ∉ faulty ∧ Voted log t r h x := by
  simp only [honestVoters, Finset.mem_filter, Finset.mem_sdiff, Finset.mem_inter]
  tauto

theorem honestVoters_subset :
    honestVoters s faulty log t r h ⊆ s.members \ (s.members ∩ faulty) := by
  classical
  exact Finset.filter_subset _ _

theorem honestVoters_mono (hSub : log ⊆ log') :
    honestVoters s faulty log t r h ⊆ honestVoters s faulty log' t r h := by
  intro x hx
  rw [mem_honestVoters] at hx ⊢
  exact ⟨hx.1, hx.2.1, hx.2.2.mono hSub⟩

theorem Certificate.mono {voters voters' : Finset Address} (hSub : voters ⊆ voters')
    (hCert : Certificate s faulty voters) : Certificate s faulty voters' := by
  have := weight_mono (w := s.power) hSub
  unfold Certificate at *
  omega

/-- Two certificates share a voter. -/
theorem Certificate.inter {voters voters' : Finset Address} (hFew : Network.FewFaulty s faulty)
    (hSub : voters ⊆ s.members \ (s.members ∩ faulty))
    (hSub' : voters' ⊆ s.members \ (s.members ∩ faulty))
    (hCert : Certificate s faulty voters) (hCert' : Certificate s faulty voters') :
    ∃ x, x ∈ voters ∧ x ∈ voters' :=
  exists_mem_of_certificates s.weight_members hFew Finset.inter_subset_left hSub hSub' hCert
    hCert'

end

end Polay.Consensus
