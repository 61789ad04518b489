import Polay.Validator.Election

/-!
# Penalties

A slash reports what it took from the stake of the validator and, on top, what it took from
the delegations, although these are part of the stake, and it leaves the supply figures as
they are.

A slash takes stake and sets a jail term; a transition to an epoch lifts the terms that have
ended. A run is any sequence of the two at heights that do not decrease. The slash
overwrites the status of the validator, so a tombstoned validator that is slashed is only
jailed afterwards, and is active again after the next transition past the term.
-/

namespace Polay.Validator

open Lib Lib.Machine Lib.Trace Polay.Types State Execution
open Consensus

variable {em : EpochManager} {s t : StateStore}

/-! ## What a slash burns -/

/-- The reported amount is what the stake lost, and it was burned. -/
structure Burns (s : StateStore) (v : Address) (event : SlashEvent) (t : StateStore) : Prop where
  stake : stakeAt t v + event.amount.toNat = stakeAt s v
  supply : (supplyFigures t).totalSupply.toNat + event.amount.toNat =
    (supplyFigures s).totalSupply.toNat
  burned : (supplyFigures t).totalBurned.toNat =
    (supplyFigures s).totalBurned.toNat + event.amount.toNat

theorem slashTotal_eq_zero {bps : UInt16} {l : List Delegation}
    (h : ∀ x ∈ l, StakingModule.slashOf x.amount bps = 0) : slashTotal bps 0 l = 0 := by
  induction l with
  | nil => rfl
  | cons x rest ih =>
      rw [slashTotal, List.foldl_cons, h x List.mem_cons_self, saturatingAdd_zero]
      exact ih fun y hy => h y (List.mem_cons_of_mem x hy)

theorem slashOf_eq_zero {n : UInt64} {bps : UInt16} (h : n.toNat * bps.toNat < 10000) :
    StakingModule.slashOf n bps = 0 := by
  unfold StakingModule.slashOf
  rw [Nat.div_eq_of_lt h]
  rfl

/-- A slash accounts for what it burns exactly if it takes nothing: the supply figures stay
as they are. -/
theorem processSlashing_burns_iff {v : Address} {x : ValidatorInfo} {bps : UInt16}
    (hv : validatorOf s v = some x) (hBps : bps.toNat ≤ 10000)
    (hBacked : delegatedTo s v ≤ x.stake.toNat) (reason : String) (height : UInt64) :
    (∃ event t, (StakingModule.processSlashing v bps reason height).run s = (.ok event, t) ∧
      Burns s v event t) ↔ x.stake.toNat * bps.toNat < 10000 := by
  have hRun := run_processSlashing_eq hv bps reason height
  have hSupply : supplyFigures (slashStore v x bps height s) = supplyFigures s := by
    rw [supplyFigures, supplyOf, get?_slashStore x bps height (by simp),
      get?_withValidator (by simp)]
    rfl
  have hStake : stakeAt (slashStore v x bps height s) v = kept bps.toNat x.stake.toNat := by
    rw [stakeAt_slashStore hv hBps, if_pos rfl]
  constructor
  · rintro ⟨event, t, hEnd, hBurns⟩
    rw [hRun] at hEnd
    obtain ⟨hEvent, rfl⟩ := Prod.mk.inj hEnd
    obtain rfl := Outcome.ok.inj hEvent
    have hNothing := hBurns.supply
    have hLost := hBurns.stake
    rw [hSupply] at hNothing
    rw [hStake, stakeAt_eq hv, kept] at hLost
    have hShare : x.stake.toNat * bps.toNat / 10000 ≤ x.stake.toNat := by
      apply Nat.div_le_of_le_mul
      rw [Nat.mul_comm 10000]
      exact Nat.mul_le_mul_left _ hBps
    exact (Nat.div_eq_zero_iff_lt (by decide)).mp (by omega)
  · intro hSmall
    have hEach : ∀ d ∈ (delegatorList s v).filterMap fun d => delegationOf s d v,
        StakingModule.slashOf d.amount bps = 0 := by
      intro y hy
      obtain ⟨d, _, hd⟩ := List.mem_filterMap.mp hy
      have hAmount : y.amount.toNat ≤ x.stake.toNat := by
        have hLe := (amountAt_le s d v).trans hBacked
        rw [amountAt, hd] at hLe
        exact hLe
      exact slashOf_eq_zero ((Nat.mul_le_mul_right _ hAmount).trans_lt hSmall)
    have hAmount : saturatingAdd (StakingModule.slashOf x.stake bps)
        (slashTotal bps 0 ((delegatorList s v).filterMap fun d => delegationOf s d v)) = 0 := by
      rw [slashTotal_eq_zero hEach, slashOf_eq_zero hSmall, saturatingAdd_zero]
    refine ⟨_, _, hRun, ?_, ?_, ?_⟩
    · rw [hStake, hAmount, stakeAt_eq hv, kept, Nat.div_eq_of_lt hSmall]
      rfl
    · rw [hSupply, hAmount]
      rfl
    · rw [hSupply, hAmount]
      rfl

/-- A validator whose stake of 1000 contains a delegation of 400, and the supply. -/
def oneBacked : StateStore :=
  withSupply (withDelegation (withValidator ((∅ : StateStore).insert
    (.delegators (Address.ofByte 1)) ⟨[Address.ofByte 2], trivial⟩)
      ⟨Address.ofByte 1, 1000, 0, .active, none, 0⟩)
      ⟨Address.ofByte 2, Address.ofByte 1, 400, 0, 0⟩)
    { SupplyInfo.default with totalSupply := 5000, totalStaked := 1000 }

/-- A tenth of the stake is 100. The slash reports 140, and the supply figures stay. -/
theorem slash_counts_delegations_twice :
    ((StakingModule.processSlashing (Address.ofByte 1) 1000 "downtime" 1).run oneBacked).1 =
        .ok ⟨Address.ofByte 1, 140, "downtime", 1⟩ ∧
      stakeAt oneBacked (Address.ofByte 1) = 1000 ∧
      stakeAt ((StakingModule.processSlashing (Address.ofByte 1) 1000 "downtime" 1).run
        oneBacked).2 (Address.ofByte 1) = 900 ∧
      supplyOf ((StakingModule.processSlashing (Address.ofByte 1) 1000 "downtime" 1).run
        oneBacked).2 = supplyOf oneBacked := by
  decide +kernel

/-- A slash by less than a token takes nothing and accounts for it. -/
theorem processSlashing_burns_iff_oneBacked :
    (∃ event t, (StakingModule.processSlashing (Address.ofByte 1) 5 "downtime" 1).run
      oneBacked = (.ok event, t) ∧ Burns oneBacked (Address.ofByte 1) event t) ↔ 1000 * 5 < 10000 :=
  processSlashing_burns_iff (x := ⟨Address.ofByte 1, 1000, 0, .active, none, 0⟩) (by decide +kernel)
    (by decide) (by decide +kernel) "downtime" 1

/-! ## Slashes and transitions -/

/-- What can happen to the status of a validator. -/
inductive PenaltyStep where
  | slash (validator : Address) (fractionBps : UInt16) (reason : String) (height : UInt64)
  | transition (height : UInt64)

namespace PenaltyStep

def height : PenaltyStep → UInt64
  | .slash _ _ _ height => height
  | .transition height => height

/-- The store after a step. -/
def next (em : EpochManager) (s : StateStore) : PenaltyStep → StateStore
  | .slash validator fractionBps reason height =>
      ((StakingModule.processSlashing validator fractionBps reason height).run s).2
  | .transition height => ((em.processEpochTransition height).run s).2

end PenaltyStep

variable {v : Address} {height : UInt64} {til : Nat} {step : PenaltyStep}

/-- The status of a validator. -/
def statusOf (s : StateStore) (a : Address) : Option ValidatorStatus :=
  (validatorOf s a).map ValidatorInfo.status

/-- The stored jail term of a validator. -/
def termOf (s : StateStore) (a : Address) : Option UInt64 :=
  (validatorOf s a).bind ValidatorInfo.jailedUntil

/-- A slash touches one validator record. -/
theorem validatorOf_slash (s : StateStore) (v : Address) (bps : UInt16) (reason : String)
    (height : UInt64) (a : Address) :
    validatorOf (PenaltyStep.next em s (.slash v bps reason height)) a =
      if a = v then (validatorOf s v).map fun x => StakingModule.slashed x bps height
      else validatorOf s a := by
  show validatorOf ((StakingModule.processSlashing v bps reason height).run s).2 a = _
  cases hv : validatorOf s v with
  | none =>
      have hRun : ((StakingModule.processSlashing v bps reason height).run s).2 = s := by
        show (((Prog.require (validatorOf s v) _).bind _).run s).2 = _
        rw [hv]
        rfl
      rw [hRun]
      split
      · rename_i hEq
        rw [hEq, hv, Option.map_none]
      · rfl
  | some x =>
      rw [run_processSlashing hv, validatorOf, get?_slashStore x bps height (by simp)]
      show validatorOf (withValidator s _) a = _
      rw [validatorOf_withValidator, (slashed_eq x bps height).1, address_of_validatorOf hv,
        Option.map_some]

/-- A transition only frees validators. -/
theorem validatorOf_transition (em : EpochManager) (s : StateStore) (height : UInt64)
    (a : Address) :
    validatorOf (PenaltyStep.next em s (.transition height)) a = validatorOf s a ∨
      validatorOf (PenaltyStep.next em s (.transition height)) a =
        (validatorOf s a).map (freed height) := by
  have hEnd := processEpochTransition_end em height s
  rw [Prog.Wp] at hEnd
  show validatorOf ((em.processEpochTransition height).run s).2 a = _ ∨
    validatorOf ((em.processEpochTransition height).run s).2 a = _
  generalize (em.processEpochTransition height).run s = r at hEnd ⊢
  obtain ⟨o, t⟩ := r
  have hLifted (h : Lifted height s t) : validatorOf t a = validatorOf s a ∨
      validatorOf t a = (validatorOf s a).map (freed height) := by
    rw [h.records]
    split
    · exact .inr rfl
    · exact .inl rfl
  cases hEnd with
  | noEpochs _ => exact .inl rfl
  | noSet lifted _ => exact hLifted lifted
  | overflow seated | done seated => exact hLifted seated.lifted

/-- After a slash the validator is jailed or out of stake, with a full term. -/
theorem slashed_status (x : ValidatorInfo) (bps : UInt16) (height : UInt64) :
    (StakingModule.slashed x bps height).status ≠ .active ∧
      (StakingModule.slashed x bps height).jailedUntil =
        some (saturatingAdd height StakingModule.defaultJailDurationBlocks) := by
  unfold StakingModule.slashed
  dsimp only
  split
  · exact ⟨by simp, rfl⟩
  · exact ⟨by simp [ValidatorInfo.jail], rfl⟩

/-! ## What one step keeps -/

/-- The step does not slash a tombstoned validator, and its jail term fits into 64 bits. -/
def PenaltyStep.Lawful (s : StateStore) : PenaltyStep → Prop
  | .slash validator _ _ height => statusOf s validator ≠ some .tombstoned ∧
      height.toNat + StakingModule.defaultJailDurationBlocks.toNat < 2 ^ 64
  | .transition _ => True

theorem tombstoned_next (hStep : step.Lawful s) {a : Address}
    (h : statusOf s a = some .tombstoned) : statusOf (step.next em s) a = some .tombstoned := by
  cases step with
  | slash v bps reason height =>
      have hNe : a ≠ v := fun hEq => hStep.1 (hEq ▸ h)
      rw [statusOf, validatorOf_slash, if_neg hNe]
      exact h
  | transition height =>
      rcases validatorOf_transition em s height a with hSame | hFreed
      · rw [statusOf, hSame]
        exact h
      · obtain ⟨x, hx, hStatus⟩ := Option.map_eq_some_iff.mp h
        have hNot : termPassed height x = false := by simp [termPassed, hStatus]
        rw [statusOf, hFreed, hx, Option.map_some, freed, hNot]
        exact congrArg some hStatus

/-- A validator is kept out of the set until a height. -/
def Barred (v : Address) (til : Nat) (s : StateStore) : Prop :=
  ∃ x, validatorOf s v = some x ∧ x.status ≠ .active ∧
    (x.status = .jailed → ∃ u, x.jailedUntil = some u ∧ til ≤ u.toNat)

theorem not_termPassed {x : ValidatorInfo}
    (hx : x.status = .jailed → ∃ u, x.jailedUntil = some u ∧ til ≤ u.toNat)
    (hBefore : height.toNat < til) : termPassed height x = false := by
  rw [Bool.eq_false_iff]
  intro hPassed
  unfold termPassed at hPassed
  rw [Bool.and_eq_true, beq_iff_eq] at hPassed
  obtain ⟨u, hu, hLe⟩ := hx hPassed.1
  have hEnded := hPassed.2
  rw [hu, Option.any_some, decide_eq_true_iff, UInt64.le_iff_toNat_le] at hEnded
  omega

/-- A slash bars the validator for the jail duration. -/
theorem barred_slash (em : EpochManager) {x : ValidatorInfo} (hx : validatorOf s v = some x)
    (bps : UInt16) (reason : String)
    (hFits : height.toNat + StakingModule.defaultJailDurationBlocks.toNat < 2 ^ 64)
    (hTil : til ≤ height.toNat + StakingModule.defaultJailDurationBlocks.toNat) :
    Barred v til (PenaltyStep.next em s (.slash v bps reason height)) := by
  obtain ⟨hInactive, hUntil⟩ := slashed_status x bps height
  refine ⟨StakingModule.slashed x bps height, ?_, hInactive, fun _ => ⟨_, hUntil, ?_⟩⟩
  · rw [validatorOf_slash, if_pos rfl, hx, Option.map_some]
  · rw [toNat_saturatingAdd]
    omega

theorem Barred.next (h : Barred v til s) (hStep : step.Lawful s)
    (hBefore : step.height.toNat < til)
    (hSince : til ≤ step.height.toNat + StakingModule.defaultJailDurationBlocks.toNat) :
    Barred v til (step.next em s) := by
  obtain ⟨x, hx, hStatus, hTerm⟩ := h
  cases step with
  | slash a bps reason height =>
      by_cases hEq : v = a
      · rw [← hEq]
        exact barred_slash em hx bps reason hStep.2 hSince
      · exact ⟨x, by rw [validatorOf_slash, if_neg hEq, hx], hStatus, hTerm⟩
  | transition height =>
      have hNot : termPassed height x = false := not_termPassed hTerm hBefore
      refine ⟨x, ?_, hStatus, hTerm⟩
      rcases validatorOf_transition em s height v with hSame | hFreed
      · rw [hSame, hx]
      · rw [hFreed, hx, Option.map_some, freed, if_neg (by rw [hNot]; exact Bool.false_ne_true)]

/-- A barred validator is not elected. -/
theorem Barred.not_elected (h : Barred v til s) (hBefore : height.toNat < til)
    {set : ValidatorSet} {events : List Event} {t : StateStore}
    (hRun : (em.processEpochTransition height).run s = (.ok (set, events), t)) :
    v ∉ set.validators.map ValidatorWeight.address := by
  have hEnd := processEpochTransition_end em height s
  rw [Prog.Wp, hRun] at hEnd
  obtain ⟨x, hx, hStatus, hTerm⟩ := h
  cases hEnd with
  | done seated _ =>
      intro hMem
      obtain ⟨w, hw, rfl⟩ := List.mem_map.mp hMem
      rw [seated.set_eq] at hw
      obtain ⟨c, hc, _, hStored, _⟩ := mem_candidates_of_elected hw
      rw [hx] at hStored
      obtain rfl := Option.some.inj hStored
      have hElectable := (List.mem_filter.mp hc).2
      simp [electable, hStatus, not_termPassed hTerm hBefore] at hElectable

/-- No stored jail term reaches further than a full term after the steps to come. -/
def TermsWithin (s : StateStore) (steps : List PenaltyStep) : Prop :=
  ∀ a til, termOf s a = some til → ∀ step ∈ steps,
    til.toNat ≤ step.height.toNat + StakingModule.defaultJailDurationBlocks.toNat

theorem TermsWithin.next {rest : List PenaltyStep} (h : TermsWithin s (step :: rest))
    (hHeights : ∀ later ∈ rest, step.height ≤ later.height) :
    TermsWithin (step.next em s) rest := by
  intro a til hTil later hLater
  have hOld (hSame : termOf s a = some til) := h a til hSame later (List.mem_cons_of_mem _ hLater)
  cases step with
  | slash v bps reason height =>
      rw [termOf, validatorOf_slash] at hTil
      split at hTil
      · obtain ⟨y, hy, hUntil⟩ := Option.bind_eq_some_iff.mp hTil
        obtain ⟨x, _, rfl⟩ := Option.map_eq_some_iff.mp hy
        rw [(slashed_status x bps height).2] at hUntil
        have hHeight := UInt64.le_iff_toNat_le.mp (hHeights later hLater)
        have hHeight : height.toNat ≤ later.height.toNat := hHeight
        rw [← Option.some.inj hUntil, toNat_saturatingAdd]
        omega
      · exact hOld hTil
  | transition height =>
      rcases validatorOf_transition em s height a with hSame | hFreed
      · rw [termOf, hSame] at hTil
        exact hOld hTil
      · rw [termOf, hFreed] at hTil
        obtain ⟨y, hy, hUntil⟩ := Option.bind_eq_some_iff.mp hTil
        obtain ⟨x, hx, rfl⟩ := Option.map_eq_some_iff.mp hy
        refine hOld (Option.bind_eq_some_iff.mpr ⟨x, hx, ?_⟩)
        unfold freed at hUntil
        split at hUntil
        · cases hUntil
        · exact hUntil

theorem TermsWithin.after {l rest : List PenaltyStep} (h : TermsWithin s (l ++ rest))
    (hHeights : (l ++ rest).Pairwise fun a b => a.height ≤ b.height) :
    TermsWithin (after (PenaltyStep.next em) s l) rest := by
  induction l generalizing s with
  | nil => exact h
  | cons step l ih =>
      obtain ⟨hFirst, hRest⟩ := List.pairwise_cons.mp hHeights
      exact ih (h.next hFirst) hRest

/-! ## Runs -/

/-- The penalties of a run last. -/
structure PenaltiesLast (em : EpochManager) (s : StateStore) (steps : List PenaltyStep) :
    Prop where
  /-- Once tombstoned, a validator is never active again. -/
  tombstoned : ∀ l₁ l₂ l₃ a, steps = l₁ ++ (l₂ ++ l₃) →
    statusOf (after (PenaltyStep.next em) s l₁) a = some .tombstoned →
    statusOf (after (PenaltyStep.next em) s (l₁ ++ l₂)) a ≠ some .active
  /-- A slashed validator is not elected before the jail duration is over. -/
  jailed : ∀ l₁ l₂ l₃ v bps reason height later,
    steps = l₁ ++ (.slash v bps reason height :: (l₂ ++ .transition later :: l₃)) →
    validatorOf (after (PenaltyStep.next em) s l₁) v ≠ none →
    later.toNat < height.toNat + StakingModule.defaultJailDurationBlocks.toNat →
    ∀ set events t, (em.processEpochTransition later).run
      (after (PenaltyStep.next em) s (l₁ ++ .slash v bps reason height :: l₂)) =
        (.ok (set, events), t) →
    v ∉ set.validators.map ValidatorWeight.address
  /-- A slash does not shorten a jail term. -/
  terms : ∀ l₁ l₂ v bps reason height til, steps = l₁ ++ .slash v bps reason height :: l₂ →
    termOf (after (PenaltyStep.next em) s l₁) v = some til →
    ∃ til', termOf (after (PenaltyStep.next em) s (l₁ ++ [.slash v bps reason height])) v =
      some til' ∧ til ≤ til'

/-- If no tombstoned validator is slashed and the stored terms are not longer than a slash
would make them, the penalties of a run last. -/
theorem penalties_last {steps : List PenaltyStep}
    (hHeights : steps.Pairwise fun a b => a.height ≤ b.height) (hTerms : TermsWithin s steps)
    (hSteps : Along (PenaltyStep.next em) (fun s step => step.Lawful s) s steps) :
    PenaltiesLast em s steps where
  tombstoned := by
    intro l₁ l₂ l₃ a hEq hBefore
    rw [hEq, along_append, along_append] at hSteps
    have hAfter := hSteps.2.1.rule (I := fun s => statusOf s a = some .tombstoned)
      (fun s step hs hStep => tombstoned_next hStep hs) hBefore
    have hSame : after (PenaltyStep.next em) s (l₁ ++ l₂) =
        after (PenaltyStep.next em) (after (PenaltyStep.next em) s l₁) l₂ := List.foldl_append
    rw [hSame, hAfter]
    simp
  jailed := by
    intro l₁ l₂ l₃ v bps reason height later hEq hExists hLater set events t hRun
    rw [hEq, along_append] at hSteps
    obtain ⟨_, hSlash, hRest⟩ := hSteps
    rw [hEq] at hHeights
    obtain ⟨hFirst, hPairs⟩ := List.pairwise_cons.mp (List.pairwise_append.mp hHeights).2.1
    have hLast := (List.pairwise_append.mp hPairs).2.2
    let til := height.toNat + StakingModule.defaultJailDurationBlocks.toNat
    have hBetween : ∀ step ∈ l₂, step.height.toNat < til ∧
        til ≤ step.height.toNat + StakingModule.defaultJailDurationBlocks.toNat := by
      intro step hMem
      have hFrom := UInt64.le_iff_toNat_le.mp (hFirst step (List.mem_append_left _ hMem))
      have hTo := UInt64.le_iff_toNat_le.mp (hLast step hMem _ List.mem_cons_self)
      have hFrom : height.toNat ≤ step.height.toNat := hFrom
      have hTo : step.height.toNat ≤ later.toNat := hTo
      constructor
      · omega
      · exact Nat.add_le_add_right hFrom _
    generalize hs₁ : after (PenaltyStep.next em) s l₁ = s₁ at *
    obtain ⟨x, hx⟩ := Option.ne_none_iff_exists'.mp hExists
    have hBarred := barred_slash em hx bps reason hSlash.2 (Nat.le_refl til)
    have hStill := ((along_append.mp hRest).1.and (along_of_forall hBetween _)).rule
      (I := Barred v til) (fun s step hs hStep => hs.next hStep.1 hStep.2.1 hStep.2.2) hBarred
    have hSame : after (PenaltyStep.next em) s (l₁ ++ .slash v bps reason height :: l₂) =
        after (PenaltyStep.next em)
          (PenaltyStep.next em s₁ (.slash v bps reason height)) l₂ := by
      rw [← hs₁]
      exact List.foldl_append
    rw [hSame] at hRun
    exact hStill.not_elected hLater hRun
  terms := by
    intro l₁ l₂ v bps reason height til hEq hTil
    rw [hEq] at hTerms hHeights
    have hAfter : TermsWithin (after (PenaltyStep.next em) s l₁) _ := hTerms.after hHeights
    have hWithin := hAfter v til hTil _ List.mem_cons_self
    rw [after_concat]
    generalize after (PenaltyStep.next em) s l₁ = s₁ at *
    obtain ⟨x, hx, _⟩ := Option.bind_eq_some_iff.mp hTil
    refine ⟨saturatingAdd height StakingModule.defaultJailDurationBlocks, ?_, ?_⟩
    · rw [termOf, validatorOf_slash, if_pos rfl, hx]
      exact (slashed_status x bps height).2
    · have hBound := til.toNat_lt
      have hWithin : til.toNat ≤ height.toNat + _ := hWithin
      rw [UInt64.le_iff_toNat_le, toNat_saturatingAdd]
      omega

/-- A chain whose only validator is tombstoned. -/
def oneTombstoned : StateStore :=
  withValidator ((∅ : StateStore).insert .validatorAddresses ⟨[Address.ofByte 1], trivial⟩)
    ⟨Address.ofByte 1, 2000000, 0, .tombstoned, none, 0⟩

/-- A slash at height 1 and the first transition. -/
def slashThenElect : List PenaltyStep :=
  [.slash (Address.ofByte 1) 100 "downtime" 1, .transition 7200]

/-- The slash turns the tombstoned validator into a jailed one, and the transition
makes it active. -/
theorem slash_revives_tombstoned :
    statusOf oneTombstoned (Address.ofByte 1) = some .tombstoned ∧
      statusOf (after (PenaltyStep.next ⟨ChainConfig.default⟩) oneTombstoned slashThenElect)
        (Address.ofByte 1) = some .active := by
  decide +kernel

/-- A jailed validator is slashed once more, and stays out of the next election. -/
theorem penalties_last_oneJailed :
    PenaltiesLast ⟨ChainConfig.default⟩ oneJailed
      [.slash (Address.ofByte 1) 100 "downtime" 7000, .transition 7200] := by
  refine penalties_last (by simp [PenaltyStep.height]) (fun a til hTil => ?_)
    ⟨⟨by decide +kernel, by decide⟩, trivial, trivial⟩
  rw [termOf, oneJailed, validatorOf_withValidator] at hTil
  split at hTil
  · obtain rfl : 5 = til := Option.some.inj hTil
    simp [PenaltyStep.height, StakingModule.defaultJailDurationBlocks]
  · have hNone : validatorOf ((∅ : StateStore).insert .validatorAddresses
        ⟨[Address.ofByte 1], trivial⟩) a = none := by
      rw [validatorOf, Store.get?_insert_ne (by simp)]
      simp
    rw [hNone] at hTil
    cases hTil

end Polay.Validator
