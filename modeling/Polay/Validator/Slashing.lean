import Polay.Lib.Trace
import Polay.Validator.StakeBacking

/-!
# Slashing and the stake behind delegations

Slashing takes a fraction off the stake of a validator and off every listed
delegation to it, each rounded down on its own. The stake stays behind the
delegations exactly if the remainders that rounding leaves in the delegations
are within what the stake has in excess (`RoundingCovered`).

`stakeInvariant_of_covered` is about whole runs: transactions, the lists of
delegators, and slashes.
-/

namespace Polay.Validator

open Lib Lib.Machine Lib.Trace Polay.Types State Execution

/-! ## Slashing -/

section Slashing

variable {s : StateStore}
variable (validator : ValidatorInfo) {bps : UInt16} {v : Address}

/-- What a slash leaves of an amount. -/
def kept (f n : Nat) : Nat := n - n * f / 10000

/-- The delegators of a validator, as the staking module lists them. -/
def delegatorList (s : StateStore) (v : Address) : List Address :=
  ((s.get? (.delegators v)).map (·.val)).getD []

/-- Every delegation to the validator that is not empty is in its list. -/
def ListComplete (s : StateStore) (v : Address) : Prop :=
  ∀ d, amountAt s d v ≠ 0 → d ∈ delegatorList s v

theorem toNat_slashOf (amount : UInt64) (h : bps.toNat ≤ 10000) :
    (StakingModule.slashOf amount bps).toNat = amount.toNat * bps.toNat / 10000 := by
  have hLe : amount.toNat * bps.toNat / 10000 ≤ amount.toNat := by
    have hMul : amount.toNat * bps.toNat ≤ amount.toNat * 10000 := Nat.mul_le_mul_left _ h
    omega
  have := amount.toNat_lt
  rw [StakingModule.slashOf, UInt64.toNat_ofNat']
  exact Nat.mod_eq_of_lt (by omega)

theorem toNat_sub_slashOf (amount : UInt64) (h : bps.toNat ≤ 10000) :
    (saturatingSub amount (StakingModule.slashOf amount bps)).toNat =
      kept bps.toNat amount.toNat := by
  rw [toNat_saturatingSub, toNat_slashOf amount h, kept]

/-- What a slash leaves, without the rounding: the remainder of the division stays. -/
theorem mul_kept {f : Nat} (h : f ≤ 10000) (n : Nat) :
    10000 * kept f n = (10000 - f) * n + n * f % 10000 := by
  have hMul : n * f ≤ n * 10000 := Nat.mul_le_mul_left _ h
  have hSplit : (10000 - f) * n + n * f = 10000 * n := by
    rw [Nat.mul_comm n f, ← Nat.add_mul]
    congr 1
    omega
  unfold kept
  omega

/-- The store after one delegation was slashed. -/
def slashedStore (bps : UInt16) (s : StateStore) (x : Delegation) : StateStore :=
  if x.amount = 0 then s
  else withDelegation s
    { x with amount := saturatingSub x.amount (StakingModule.slashOf x.amount bps) }

/-- What a slash takes from delegations, as the source counts it. -/
def slashTotal (bps : UInt16) (total : UInt64) (l : List Delegation) : UInt64 :=
  l.foldl (fun total x => saturatingAdd total (StakingModule.slashOf x.amount bps)) total

theorem run_slashDelegations (bps : UInt16) (l : List Delegation) (total : UInt64)
    (s : StateStore) :
    (Prog.fold (StakingModule.slashDelegation bps) total l).run s =
      (.ok (slashTotal bps total l), l.foldl (slashedStore bps) s) := by
  induction l generalizing total s with
  | nil => rfl
  | cons x rest ih =>
      have hOne : (StakingModule.slashDelegation bps total x).run s =
          (.ok (saturatingAdd total (StakingModule.slashOf x.amount bps)),
            slashedStore bps s x) := by
        unfold StakingModule.slashDelegation slashedStore
        split
        · rename_i hZero
          rw [hZero, show StakingModule.slashOf 0 bps = 0 by simp [StakingModule.slashOf],
            saturatingAdd_zero]
          rfl
        · rfl
      rw [Prog.fold, Prog.run_bind_of_ok hOne, ih]
      rfl

theorem amountAt_withDelegation (s : StateStore) {x : Delegation} (hv : x.validator = v)
    (d : Address) :
    amountAt (withDelegation s x) d v =
      if d = x.delegator then x.amount.toNat else amountAt s d v := by
  subst hv
  unfold amountAt delegationOf withDelegation
  by_cases hEq : d = x.delegator
  · subst hEq
    rw [Std.ExtDTreeMap.get?_insert_self, if_pos rfl]
    rfl
  · rw [Store.get?_insert_ne (by simpa using Ne.symm hEq), if_neg hEq]

/-- Slashing writes delegations to the validator only. -/
theorem foldl_slashedStore_keeps (bps : UInt16) (l : List Delegation)
    (hl : ∀ x ∈ l, x.validator = v) (s : StateStore) {k : Key} (hk : ∀ d, k ≠ .delegation d v) :
    (l.foldl (slashedStore bps) s).get? k = s.get? k := by
  induction l generalizing s with
  | nil => rfl
  | cons x rest ih =>
      rw [List.foldl_cons, ih (fun y hy => hl y (List.mem_cons_of_mem _ hy))]
      unfold slashedStore
      split
      · rfl
      · refine Store.get?_insert_ne fun hEq => hk x.delegator ?_
        rw [← hEq, hl x (List.mem_cons_self ..)]

/-- Slashing one delegation, which has its old or its new amount, gives it the new one. -/
theorem amountAt_slashedStore (hBps : bps.toNat ≤ 10000) {x : Delegation} (hv : x.validator = v)
    (hNow : amountAt s x.delegator v = x.amount.toNat ∨
      amountAt s x.delegator v = kept bps.toNat x.amount.toNat)
    (d : Address) :
    amountAt (slashedStore bps s x) d v =
      if d = x.delegator then kept bps.toNat x.amount.toNat else amountAt s d v := by
  unfold slashedStore
  split
  · rename_i hZero
    have hNil : kept bps.toNat x.amount.toNat = x.amount.toNat := by simp [hZero, kept]
    rw [hNil] at hNow ⊢
    split
    · rename_i hEq
      rw [hEq]
      exact hNow.elim id id
    · rfl
  · rw [amountAt_withDelegation s (by exact hv), toNat_sub_slashOf x.amount hBps]

/-- Slashing brings every listed delegation to its target and keeps the others. -/
theorem amountAt_foldl_slashedStore (hBps : bps.toNat ≤ 10000) (target : Address → Nat)
    (l : List Delegation) (s : StateStore) (hl : ∀ x ∈ l, x.validator = v)
    (hTarget : ∀ x ∈ l, target x.delegator = kept bps.toNat x.amount.toNat)
    (hNow : ∀ x ∈ l, amountAt s x.delegator v = x.amount.toNat ∨
      amountAt s x.delegator v = target x.delegator)
    (d : Address) :
    amountAt (l.foldl (slashedStore bps) s) d v =
      if d ∈ l.map Delegation.delegator then target d else amountAt s d v := by
  induction l generalizing s with
  | nil => rfl
  | cons x rest ih =>
      have hx := hTarget x (List.mem_cons_self ..)
      have hStep : ∀ b, amountAt (slashedStore bps s x) b v =
          if b = x.delegator then target b else amountAt s b v := by
        intro b
        have hHead := hNow x (List.mem_cons_self ..)
        rw [hx] at hHead
        rw [amountAt_slashedStore hBps (hl x (List.mem_cons_self ..)) hHead]
        split
        · rename_i hEq
          rw [hEq, hx]
        · rfl
      rw [List.foldl_cons, ih _ (fun y hy => hl y (List.mem_cons_of_mem _ hy))
        (fun y hy => hTarget y (List.mem_cons_of_mem _ hy)), hStep d]
      · by_cases hEq : d = x.delegator
        · subst hEq
          simp
        · simp [hEq]
      · intro y hy
        rw [hStep]
        split
        · exact .inr rfl
        · exact hNow y (List.mem_cons_of_mem _ hy)

/-- The store after a slash of a validator. -/
def slashStore (v : Address) (validator : ValidatorInfo) (bps : UInt16) (height : UInt64)
    (s : StateStore) : StateStore :=
  ((delegatorList s v).filterMap fun d => delegationOf s d v).foldl (slashedStore bps)
    (withValidator s (StakingModule.slashed validator bps height))

/-- A slash returns what it took from the stake and from the listed delegations. -/
theorem run_processSlashing_eq {validator : ValidatorInfo} (hv : validatorOf s v = some validator)
    (bps : UInt16) (reason : String) (height : UInt64) :
    (StakingModule.processSlashing v bps reason height).run s =
      (.ok { validator := v
             amount := saturatingAdd (StakingModule.slashOf validator.stake bps)
               (slashTotal bps 0 ((delegatorList s v).filterMap fun d => delegationOf s d v))
             reason, height },
        slashStore v validator bps height s) := by
  let s₁ := withValidator s (StakingModule.slashed validator bps height)
  have hList : delegatorList s₁ v = delegatorList s v := by
    unfold delegatorList
    rw [get?_withValidator (by simp)]
  have hDelegation : (fun d => delegationOf s₁ d v) = fun d => delegationOf s d v := by
    funext d
    unfold delegationOf
    rw [get?_withValidator (by simp)]
  show ((Prog.require (validatorOf s v) _).bind _).run s = _
  rw [hv]
  show ((StakingModule.loadDelegations v (delegatorList s₁ v)).bind _).run s₁ = _
  rw [Prog.run_bind_of_ok (run_loadDelegations _ _ s₁), hList, hDelegation]
  exact Prog.run_bind_of_ok (run_slashDelegations bps _ 0 s₁)

theorem run_processSlashing {validator : ValidatorInfo} (hv : validatorOf s v = some validator)
    (bps : UInt16) (reason : String) (height : UInt64) :
    ((StakingModule.processSlashing v bps reason height).run s).2 =
      slashStore v validator bps height s := by
  rw [run_processSlashing_eq hv]

/-- Jailing changes neither the address nor the stake. -/
theorem slashed_eq (bps : UInt16) (height : UInt64) :
    (StakingModule.slashed validator bps height).address = validator.address ∧
      (StakingModule.slashed validator bps height).stake =
        saturatingSub validator.stake (StakingModule.slashOf validator.stake bps) := by
  unfold StakingModule.slashed
  simp only
  split <;> exact ⟨rfl, rfl⟩

theorem stake_slashed (hBps : bps.toNat ≤ 10000) (height : UInt64) :
    (StakingModule.slashed validator bps height).stake.toNat =
      kept bps.toNat validator.stake.toNat := by
  rw [(slashed_eq validator bps height).2, toNat_sub_slashOf validator.stake hBps]

/-- A complete slash leaves of every delegation what it leaves of an amount. -/
theorem amountAt_slashStore (hBps : bps.toNat ≤ 10000) (hComplete : ListComplete s v)
    (height : UInt64) (d : Address) :
    amountAt (slashStore v validator bps height s) d v = kept bps.toNat (amountAt s d v) := by
  let s₁ := withValidator s (StakingModule.slashed validator bps height)
  have hSame : ∀ b, amountAt s₁ b v = amountAt s b v := by
    intro b
    rw [amountAt, delegationOf, get?_withValidator (by simp), ← delegationOf, ← amountAt]
  have hMem : ∀ x ∈ (delegatorList s v).filterMap fun d => delegationOf s d v,
      x.validator = v ∧ amountAt s x.delegator v = x.amount.toNat := by
    intro x hx
    obtain ⟨b, _, hb⟩ := List.mem_filterMap.mp hx
    obtain ⟨rfl, hv⟩ := identifiers_of_delegationOf hb
    exact ⟨hv, by rw [amountAt, hb]; rfl⟩
  have hFold := amountAt_foldl_slashedStore hBps (fun b => kept bps.toNat (amountAt s b v))
    ((delegatorList s v).filterMap fun d => delegationOf s d v) s₁ (fun x hx => (hMem x hx).1)
    (fun x hx => by rw [(hMem x hx).2])
    (fun x hx => .inl (by rw [hSame, (hMem x hx).2])) d
  rw [slashStore, hFold, hSame]
  split
  · rfl
  · rename_i hNot
    -- A delegation that was not slashed is empty, since the list is complete.
    have hZero : amountAt s d v = 0 := by
      cases hd : delegationOf s d v with
      | none => rw [amountAt, hd]; rfl
      | some x =>
          by_contra hSome
          refine hNot (List.mem_map.mpr ⟨x, ?_, (identifiers_of_delegationOf hd).1⟩)
          exact List.mem_filterMap.mpr ⟨d, hComplete d hSome, hd⟩
    rw [hZero]
    simp [kept]

/-- The delegations to the slashed validator, and only they, shrink. -/
theorem delegatedTo_slashStore (hBps : bps.toNat ≤ 10000) (hComplete : ListComplete s v)
    (height : UInt64) :
    delegatedTo (slashStore v validator bps height s) v =
      Store.total (delegationFigure (kept bps.toNat) v) s := by
  refine Store.total_congr fun k => ?_
  by_cases hk : ∃ d, k = .delegation d v
  · obtain ⟨d, rfl⟩ := hk
    rw [figureAt_delegationFigure, amountAt_slashStore validator hBps hComplete]
    unfold amountAt Store.figureAt delegationOf
    cases s.get? (.delegation d v) with
    | none => simp [kept]
    | some x => exact (if_pos rfl).symm
  · have hNe : ∀ d, k ≠ .delegation d v := fun d hEq => hk ⟨d, hEq⟩
    rw [figureAt_eq_zero_of_ne hNe, figureAt_eq_zero_of_ne hNe]

theorem get?_slashStore (bps : UInt16) (height : UInt64) {k : Key} (hk : ∀ d, k ≠ .delegation d v) :
    (slashStore v validator bps height s).get? k =
      (withValidator s (StakingModule.slashed validator bps height)).get? k := by
  refine foldl_slashedStore_keeps bps _ (fun x hx => ?_) _ hk
  obtain ⟨d, _, hd⟩ := List.mem_filterMap.mp hx
  exact (identifiers_of_delegationOf hd).2

theorem total_delegationFigure_mul (c : Nat) (g : Nat → Nat) (v : Address) :
    Store.total (delegationFigure (fun n => c * g n) v) s =
      c * Store.total (delegationFigure g v) s := by
  rw [← Store.total_mul]
  congr 1
  funext k x
  cases k
  case delegation d u => exact (mul_ite_zero ..).symm
  all_goals rfl

theorem total_delegationFigure_add (g h : Nat → Nat) (v : Address) :
    Store.total (delegationFigure (fun n => g n + h n) v) s =
      Store.total (delegationFigure g v) s + Store.total (delegationFigure h v) s := by
  rw [← Store.total_add]
  congr 1
  funext k x
  cases k
  case delegation d u =>
    simp only [delegationFigure]
    split <;> rfl
  all_goals rfl

/-- The remainders that rounding leaves in the delegations are within what the stake has
more than the delegations, and its own remainder. -/
def RoundingCovered (s : StateStore) (v : Address) (bps : UInt16) : Prop :=
  ∀ validator, validatorOf s v = some validator →
    Store.total (delegationFigure (fun n => n * bps.toNat % 10000) v) s ≤
      (10000 - bps.toNat) * (validator.stake.toNat - delegatedTo s v) +
        validator.stake.toNat * bps.toNat % 10000

/-- What a slash leaves of the delegations, against what it leaves of the stake. -/
theorem RoundingCovered.total_kept_le (hCovered : RoundingCovered s v bps)
    (hBps : bps.toNat ≤ 10000) {validator : ValidatorInfo} (hv : validatorOf s v = some validator)
    (hBacked : delegatedTo s v ≤ validator.stake.toNat) :
    Store.total (delegationFigure (kept bps.toNat) v) s ≤
      kept bps.toNat validator.stake.toNat := by
  have hRest := hCovered validator hv
  have hStake := mul_kept hBps validator.stake.toNat
  have hTotal : 10000 * Store.total (delegationFigure (kept bps.toNat) v) s =
      (10000 - bps.toNat) * delegatedTo s v +
        Store.total (delegationFigure (fun n => n * bps.toNat % 10000) v) s := by
    rw [delegatedTo, ← total_delegationFigure_mul, ← total_delegationFigure_mul,
      ← total_delegationFigure_add]
    congr 2
    funext n
    exact mul_kept hBps n
  have hSplit : (10000 - bps.toNat) * (validator.stake.toNat - delegatedTo s v) =
      (10000 - bps.toNat) * validator.stake.toNat - (10000 - bps.toNat) * delegatedTo s v :=
    Nat.mul_sub ..
  have hLe : (10000 - bps.toNat) * delegatedTo s v ≤
      (10000 - bps.toNat) * validator.stake.toNat := Nat.mul_le_mul_left _ hBacked
  omega

theorem stakeAt_slashStore {validator : ValidatorInfo} (hv : validatorOf s v = some validator)
    (hBps : bps.toNat ≤ 10000) (height : UInt64) (a : Address) :
    stakeAt (slashStore v validator bps height s) a =
      if a = v then kept bps.toNat validator.stake.toNat else stakeAt s a := by
  have hAddress : (StakingModule.slashed validator bps height).address = v :=
    (slashed_eq validator bps height).1.trans (address_of_validatorOf hv)
  rw [stakeAt, validatorOf, get?_slashStore validator bps height (by simp), ← validatorOf,
    ← stakeAt, stakeAt_withValidator, hAddress, stake_slashed validator hBps]

/-- A complete slash whose rounding is covered keeps the stake behind the delegations. -/
theorem Backed.processSlashing (h : Backed s) (hBps : bps.toNat ≤ 10000)
    (hComplete : ListComplete s v) (hCovered : RoundingCovered s v bps) (reason : String)
    (height : UInt64) : Backed ((StakingModule.processSlashing v bps reason height).run s).2 := by
  cases hv : validatorOf s v with
  | none =>
      show Backed ((((Prog.require (validatorOf s v) _).bind _).run s).2)
      rw [hv]
      exact h
  | some validator =>
      rw [run_processSlashing hv]
      intro a
      have hOld := h a
      rw [stakeAt_slashStore hv hBps]
      by_cases hEq : a = v
      · subst hEq
        rw [stakeAt_eq hv] at hOld
        rw [if_pos rfl, delegatedTo_slashStore validator hBps hComplete]
        exact hCovered.total_kept_le hBps hv hOld
      · have hSame : delegatedTo (slashStore v validator bps height s) a = delegatedTo s a := by
          refine total_delegationFigure_congr fun d => ?_
          rw [get?_slashStore validator bps height (by simp [hEq]), get?_withValidator (by simp)]
        rw [if_neg hEq, hSame]
        exact hOld

end Slashing

/-! ## Runs -/

/-- What can happen to stakes and delegations. -/
inductive StakeStep where
  | transaction (tx : SignedTransaction) (height : UInt64) (proposer : Address)
  | registerDelegation (validator delegator : Address)
  | processSlashing (validator : Address) (fractionBps : UInt16) (reason : String)
      (height : UInt64)

namespace StakeStep

/-- The store after a step. -/
def next (sha256 : List UInt8 → Hash) (ex : Executor) (s : StateStore) : StakeStep → StateStore
  | .transaction tx height proposer =>
      ((ex.executeTransaction sha256 tx height proposer).run s).2
  | .registerDelegation validator delegator =>
      ((StakingModule.registerDelegation validator delegator : Exec StakingError Unit).run s).2
  | .processSlashing validator fractionBps reason height =>
      ((StakingModule.processSlashing validator fractionBps reason height).run s).2

/-- Slashes are by at most the whole and of validators whose list is complete. -/
def InScope (s : StateStore) : StakeStep → Prop
  | .processSlashing validator fractionBps _ _ =>
      fractionBps.toNat ≤ 10000 ∧ ListComplete s validator
  | _ => True

/-- What a step must not exceed for the stake to stay behind the delegations. -/
def Covered (ex : Executor) (s : StateStore) : StakeStep → Prop
  | .transaction tx height _ =>
      match tx.transaction.action with
      | .delegateStake validator amount => delegatedTo s validator + amount.toNat < 2 ^ 64
      | .executeProposal id =>
          ∀ p, Executes ex.chainConfig height s id p → SlashCovered s p.action
      | _ => True
  | .registerDelegation _ _ => True
  | .processSlashing validator fractionBps _ _ => RoundingCovered s validator fractionBps

end StakeStep

section Runs

variable {sha256 : List UInt8 → Hash} {ex : Executor} {s t : StateStore}

theorem StakeStep.Covered.harmless {tx : SignedTransaction} {height : UInt64}
    {proposer : Address} (h : (StakeStep.transaction tx height proposer).Covered ex s)
    (a : Address) : Harmless ex tx height 0 a s := by
  refine ⟨fun amount hEq => ?_, fun id hEq p hp => ?_⟩
  · simp only [StakeStep.Covered, hEq] at h
    rwa [Nat.zero_add]
  · simp only [StakeStep.Covered, hEq] at h
    exact (h p hp).spares a

theorem Backed.transaction (h : Backed s) {tx : SignedTransaction} {height : UInt64}
    {proposer : Address} (hCovered : (StakeStep.transaction tx height proposer).Covered ex s) :
    Backed ((ex.executeTransaction sha256 tx height proposer).run s).2 :=
  backed_iff_covers.mpr fun a => (backed_iff_covers.mp h a).transaction (hCovered.harmless a)

theorem registerDelegation_keeps (validator delegator : Address) (s : StateStore) :
    Store.Holds (Keeps [.stakingList] s) ((StakingModule.registerDelegation validator delegator :
      Exec StakingError Unit).run s).2 := by
  have hSafe : (StakingModule.registerDelegation validator delegator :
      Exec StakingError Unit).Safe (Keeps [.stakingList] s) True True false := by
    intro r _
    show (Prog.when _ _).Safe _ _ _ _
    unfold Prog.when
    split
    · exact put_keeps (k := .delegators _) (by simp [familyOf])
    · trivial
  exact run_keeps hSafe

theorem Backed.registerDelegation (h : Backed s) (validator delegator : Address) :
    Backed ((StakingModule.registerDelegation validator delegator :
      Exec StakingError Unit).run s).2 :=
  backed_iff_covers.mpr fun a => (backed_iff_covers.mp h a).of_keeps
    (registerDelegation_keeps validator delegator s) (by simp) (by simp)

/-- A step within scope that is covered keeps the stake behind the delegations. -/
theorem Backed.step (h : Backed s) {step : StakeStep} (hScope : step.InScope s)
    (hCovered : step.Covered ex s) : Backed (step.next sha256 ex s) := by
  cases step with
  | transaction tx height proposer => exact h.transaction hCovered
  | registerDelegation validator delegator => exact h.registerDelegation validator delegator
  | processSlashing validator bps reason height =>
      exact h.processSlashing hScope.1 hScope.2 hCovered reason height

/-- The delegations to every validator are within its stake, the checker confirms it,
and no delegation can take more off a stake than there is. -/
structure StakeInvariant (s : StateStore) : Prop where
  covered : ∀ a v, validatorOf s a = some v → delegatedTo s a ≤ v.stake.toNat
  checked : ∀ validators pairs, pairs.Nodup →
    (StateInvariantChecker.checkStakingInvariants validators pairs).run s =
      (.ok ⟨"staking_invariants", true, "all validator delegation sums within stake"⟩, s)
  undelegable : ∀ d a v x amount, validatorOf s a = some v → delegationOf s d a = some x →
    amount ≤ x.amount → amount ≤ v.stake

theorem Backed.invariant (h : Backed s) : StakeInvariant s where
  covered a v hv := by
    have hStake := h a
    rwa [stakeAt_eq hv] at hStake
  checked validators pairs hPairs := by
    refine StateInvariantChecker.checkStakingInvariants_passed (fun a v hv => ?_) validators hPairs
    have hStake := h a
    rwa [stakeAt_eq hv] at hStake
  undelegable _ a _ _ _ hv hx hAmount := (backed_iff_covers.mp h a).amount_le hv hx hAmount

theorem backed_genesis {g : Genesis} (h : IsGenesis ex g s) : Backed s := by
  obtain ⟨V, hEnrolled, _⟩ := enrolled_genesis h
  intro a
  have hEmpty : delegatedTo s a = delegatedTo ∅ a :=
    total_delegationFigure_congr fun d => by rw [hEnrolled.delegation]; simp
  rw [hEmpty]
  exact Nat.zero_le _

/-- In every state that covered steps reach from a genesis, the stake of every validator
is behind the delegations to it. -/
theorem stakeInvariant_of_covered {g : Genesis} {s₀ : StateStore} (hGenesis : IsGenesis ex g s₀)
    (steps : List StakeStep)
    (hSteps : Along (StakeStep.next sha256 ex)
      (fun s step => step.InScope s ∧ step.Covered ex s) s₀ steps) :
    StakeInvariant (after (StakeStep.next sha256 ex) s₀ steps) := by
  refine Backed.invariant (hSteps.rule (fun s step hs hStep => ?_) (backed_genesis hGenesis))
  exact hs.step hStep.1 hStep.2

/-- A genesis with two funded accounts. -/
def twoPlayers : Genesis where
  accounts :=
    [⟨"0101010101010101010101010101010101010101010101010101010101010101", 1000000⟩,
     ⟨"0202020202020202020202020202020202020202020202020202020202020202", 1000000⟩]
  validators := []
  attestors := []
  initialSupply := 2000000

/-- The store of the development network after `twoPlayers`. -/
def twoPlayersStore : StateStore :=
  ((ChainState.initFromGenesis ⟨ChainConfig.default⟩ twoPlayers).run ∅).2

/-- A transaction of the second player. -/
def secondPlayerTx (nonce : UInt64) (action : TransactionAction) : SignedTransaction :=
  let tx := playerTx nonce action
  { tx with transaction := { tx.transaction with signer := Address.ofByte 2 } }

/-- The steps of the development network, with a hash function that is constant. -/
def sampleNext : StateStore → StakeStep → StateStore :=
  StakeStep.next (fun _ => Hash.zero) Executor.devnet

/-- The first player becomes a validator and both delegate an amount to it. -/
def delegateTwice (amount : UInt64) : List StakeStep :=
  [.transaction (playerTx 0 (.registerValidator 500)) 1 Address.zero,
   .transaction (playerTx 1 (.delegateStake (Address.ofByte 1) amount)) 1 Address.zero,
   .transaction (secondPlayerTx 0 (.delegateStake (Address.ofByte 1) amount)) 1 Address.zero,
   .registerDelegation (Address.ofByte 1) (Address.ofByte 1),
   .registerDelegation (Address.ofByte 1) (Address.ofByte 2)]

/-- Whether a stored delegation to the validator is empty or listed. -/
def entryListed (s : StateStore) (v : Address) : Sigma Key.Value → Bool
  | ⟨.delegation d target, x⟩ =>
      target ≠ v || Delegation.amount x.val = 0 || d ∈ delegatorList s v
  | _ => true

theorem listComplete_of_entries {v : Address} (h : s.toList.all (entryListed s v) = true) :
    ListComplete s v := by
  intro d hSome
  cases hd : s.get? (.delegation d v) with
  | none =>
      rw [amountAt, delegationOf, hd] at hSome
      exact absurd rfl hSome
  | some x =>
      have hEntry := List.all_eq_true.mp h ⟨.delegation d v, x⟩
        (Std.ExtDTreeMap.mem_toList_iff_get?_eq_some.mpr hd)
      have hAmount : Delegation.amount x.val ≠ 0 := by
        intro hZero
        apply hSome
        rw [amountAt, delegationOf, hd]
        show (Delegation.amount x.val).toNat = 0
        rw [hZero]
        rfl
      simpa [entryListed, hAmount] using hEntry

theorem stakeInvariant_of_covered_half :
    StakeInvariant (after sampleNext twoPlayersStore
        (delegateTwice 500 ++ [.processSlashing (Address.ofByte 1) 5000 "double sign" 2])) ∧
      stakeAt (after sampleNext twoPlayersStore
        (delegateTwice 500 ++ [.processSlashing (Address.ofByte 1) 5000 "double sign" 2]))
        (Address.ofByte 1) = 500 := by
  have hGenesis : IsGenesis Executor.devnet twoPlayers twoPlayersStore :=
    Prod.ext (by decide +kernel) rfl
  refine ⟨stakeInvariant_of_covered hGenesis _ ?_, by decide +kernel⟩
  refine ⟨⟨trivial, trivial⟩, ⟨trivial, ?_⟩, ⟨trivial, ?_⟩, ⟨trivial, trivial⟩,
    ⟨trivial, trivial⟩, ⟨⟨by decide, listComplete_of_entries (by decide +kernel)⟩, ?_⟩, trivial⟩
  · show delegatedTo _ _ + _ < _
    decide +kernel
  · show delegatedTo _ _ + _ < _
    decide +kernel
  · intro v hv
    have hZero : Store.total (delegationFigure (fun n => n * (5000 : UInt16).toNat % 10000)
        (Address.ofByte 1)) (after sampleNext twoPlayersStore
        (delegateTwice 500)) = 0 := by decide +kernel
    exact hZero.le.trans (Nat.zero_le _)

/-- Half of a stake of two is one, and half of each of two delegations of one is nothing:
after the slash twice as much is delegated as is staked. -/
theorem slash_rounds_delegations :
    ∃ s₀ steps, IsGenesis Executor.devnet twoPlayers s₀ ∧
      Along sampleNext (fun s step => step.InScope s) s₀ steps ∧
      ¬ StakeInvariant (after sampleNext s₀ steps) ∧
      delegatedTo (after sampleNext s₀ steps)
        (Address.ofByte 1) = 2 ∧
      stakeAt (after sampleNext s₀ steps) (Address.ofByte 1) = 1 := by
  have hGenesis : IsGenesis Executor.devnet twoPlayers twoPlayersStore :=
    Prod.ext (by decide +kernel) rfl
  let steps := delegateTwice 1 ++ [.processSlashing (Address.ofByte 1) 5000 "double sign" 2]
  have hDelegated : delegatedTo (after sampleNext twoPlayersStore
      steps) (Address.ofByte 1) = 2 := by decide +kernel
  have hStake : stakeAt (after sampleNext twoPlayersStore
      steps) (Address.ofByte 1) = 1 := by decide +kernel
  refine ⟨twoPlayersStore, steps, hGenesis, ⟨trivial, trivial, trivial, trivial, trivial,
    ⟨by decide, listComplete_of_entries (by decide +kernel)⟩, trivial⟩, fun h => ?_, hDelegated,
    hStake⟩
  cases hv : validatorOf (after sampleNext twoPlayersStore steps)
      (Address.ofByte 1) with
  | none =>
      rw [stakeAt, hv] at hStake
      cases hStake
  | some v =>
      have hLe := h.covered _ v hv
      rw [stakeAt_eq hv] at hStake
      omega

end Runs

end Polay.Validator
