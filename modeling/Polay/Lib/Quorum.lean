import Mathlib

/-!
# Weighted quorums

Voters carry weights, a quorum holds more than two thirds of the total weight
and the faulty voters less than one third of it. Any two quorums then share a
voter that is not faulty. A set is a *certificate up to* the faulty voters when
it becomes a quorum once all of them are added; this is what remains of a quorum
after its faulty members are left out.
-/

namespace Polay.Lib.Quorum

variable {α : Type} (w : α → Nat)

/-- The weight of a set of voters. -/
def weight (s : Finset α) : Nat := ∑ a ∈ s, w a

variable {w} {total : Nat} {faulty s t : Finset α}

theorem weight_mono (h : s ⊆ t) : weight w s ≤ weight w t :=
  Finset.sum_le_sum_of_subset h

variable [DecidableEq α]

theorem weight_union_add_weight_inter (s t : Finset α) :
    weight w (s ∪ t) + weight w (s ∩ t) = weight w s + weight w t :=
  Finset.sum_union_inter

/-- What a quorum keeps of its weight when its faulty members are left out. -/
theorem weight_le_of_subset_union (h : s ⊆ t ∪ faulty) :
    weight w s ≤ weight w t + weight w faulty := by
  have hMono := weight_mono (w := w) h
  have hUnion := weight_union_add_weight_inter (w := w) t faulty
  omega

/-- **Quorum intersection.** Two sets that are quorums up to the faulty voters
share a voter, as long as both live among voters of the given total weight. -/
theorem exists_mem_of_certificates {voters : Finset α}
    (hTotal : weight w voters = total) (hFaulty : 3 * weight w faulty < total)
    (hFaultySub : faulty ⊆ voters) (hs : s ⊆ voters \ faulty) (ht : t ⊆ voters \ faulty)
    (hsQuorum : 2 * total < 3 * (weight w s + weight w faulty))
    (htQuorum : 2 * total < 3 * (weight w t + weight w faulty)) :
    ∃ a, a ∈ s ∧ a ∈ t := by
  have hInter := weight_union_add_weight_inter (w := w) s t
  have hUnion : weight w (s ∪ t) ≤ weight w (voters \ faulty) :=
    weight_mono (Finset.union_subset hs ht)
  have hSplit : weight w (voters \ faulty) + weight w faulty = total := by
    rw [← hTotal]
    exact Finset.sum_sdiff hFaultySub
  have hPos : 0 < weight w (s ∩ t) := by omega
  obtain ⟨a, ha⟩ : (s ∩ t).Nonempty := by
    by_contra hEmpty
    rw [Finset.not_nonempty_iff_eq_empty] at hEmpty
    simp [hEmpty, weight] at hPos
  exact ⟨a, Finset.mem_inter.mp ha⟩

end Polay.Lib.Quorum
