import Polay.Execution.Families
import Polay.Lib.Total

/-!
# The offline check of stakes

The invariant checker of the executor compares the delegations it is given with
the stake of their validator. `delegatedTo` is the sum the check approximates, over
all stored delegations. In a state in which that sum is within the stake of every
validator the check finds nothing, whatever delegations it is given.
-/

namespace Polay.Execution

open Lib Lib.Machine Polay.Types State

/-! ## The checker -/

/-- What a check found. -/
structure InvariantResult where
  name : String
  passed : Bool
  details : String
deriving DecidableEq

namespace StateInvariantChecker

/-- Count a delegation if it is to the validator. -/
def addDelegation (valAddr : Address) (delegationTotal : UInt64) (pair : Address × Address) :
    Handler UInt64 :=
  if pair.2 = valAddr then do
    let d ← getDelegation pair.1 pair.2
    match d with
    | some d => return saturatingAdd delegationTotal d.amount
    | none => return delegationTotal
  else return delegationTotal

/-- The finding about a validator with more delegated than staked. -/
def issueText (address : String) (delegationTotal stake : UInt64) : String :=
  s!"validator {address}: delegation_total={delegationTotal} > stake={stake}"

/-- Check one validator and add what was found. -/
def checkValidatorStake (delegationPairs : List (Address × Address)) (issues : List String)
    (valAddr : Address) : Handler (List String) := do
  let validator ← getValidator valAddr
  match validator with
  | none => return issues
  | some validator => do
      let delegationTotal ← Prog.fold (addDelegation valAddr) 0 delegationPairs
      if validator.stake < delegationTotal then
        return issues ++ [issueText valAddr.toHex delegationTotal validator.stake]
      else return issues

def checkStakingInvariants (validatorAddresses : List Address)
    (delegationPairs : List (Address × Address)) : Handler InvariantResult := do
  let issues ← Prog.fold (checkValidatorStake delegationPairs) [] validatorAddresses
  let passed := issues.isEmpty
  return {
    name := "staking_invariants"
    passed
    details :=
      if passed then "all validator delegation sums within stake"
      else "; ".intercalate issues }

end StateInvariantChecker

/-! ## Sums of delegations -/

/-- A figure of the amount of every delegation to a validator. -/
def delegationFigure (g : Nat → Nat) (validator : Address) : (k : Key) → k.Value → Nat
  | .delegation _ target, d => if target = validator then g (Delegation.amount d.val).toNat else 0
  | _, _ => 0

/-- The sum of all delegations to a validator. -/
def delegatedTo (s : StateStore) (validator : Address) : Nat :=
  Store.total (delegationFigure id validator) s

/-- A delegation is part of the sum. -/
theorem figureAt_le_delegatedTo (s : StateStore) (validator : Address) (k : Key) :
    Store.figureAt (delegationFigure id validator) s k ≤ delegatedTo s validator := by
  have hLe := Store.sum_figureAt_le (w := delegationFigure id validator) (s := s)
    (List.nodup_singleton k)
  rw [List.map_singleton, List.sum_singleton] at hLe
  exact hLe

theorem figureAt_delegation {s : StateStore} {delegator validator : Address} {d : Delegation}
    (h : (s.get? (.delegation delegator validator)).map (·.val) = some d) :
    Store.figureAt (delegationFigure id validator) s (.delegation delegator validator) =
      d.amount.toNat := by
  obtain ⟨r, hr, rfl⟩ := Option.map_eq_some_iff.mp h
  rw [Store.figureAt, hr]
  show (if validator = validator then _ else 0) = _
  rw [if_pos rfl]
  rfl

namespace StateInvariantChecker

variable {s : StateStore}
variable (valAddr : Address) {pairs : List (Address × Address)}

theorem run_getDelegation_bind {β : Type} (delegator validator : Address)
    (f : Option Delegation → Handler β) :
    ((getDelegation delegator validator).bind f).run s =
      (f ((s.get? (.delegation delegator validator)).map (·.val))).run s := rfl

theorem run_getValidator_bind {β : Type} (a : Address) (f : Option ValidatorInfo → Handler β) :
    ((getValidator a).bind f).run s = (f ((s.get? (.validator a)).map (·.val))).run s := rfl

/-- The keys of the listed delegations to a validator. -/
def delegationKeys (valAddr : Address) (pairs : List (Address × Address)) : List Key :=
  (pairs.filter fun p => p.2 = valAddr).map fun p => .delegation p.1 p.2

theorem nodup_delegationKeys (h : pairs.Nodup) : (delegationKeys valAddr pairs).Nodup := by
  refine (h.filter _).map ?_
  rintro ⟨d, v⟩ ⟨d', v'⟩ hEq
  simpa using hEq

theorem run_addDelegation (delegator valAddr : Address) (acc : UInt64) :
    (addDelegation valAddr acc (delegator, valAddr)).run s =
      (.ok (((s.get? (.delegation delegator valAddr)).map (·.val)).elim acc fun d =>
        saturatingAdd acc (Delegation.amount d)), s) := by
  simp only [addDelegation, if_true]
  rw [Prog.bind_eq, run_getDelegation_bind]
  cases (s.get? (.delegation delegator valAddr)).map (·.val) <;> rfl

/-- The loop over the delegations reads only, and adds up no more than is there. -/
theorem run_addDelegations (pairs : List (Address × Address)) (acc : UInt64) :
    ∃ total, (Prog.fold (addDelegation valAddr) acc pairs).run s = (.ok total, s) ∧
      total.toNat ≤ acc.toNat + ((delegationKeys valAddr pairs).map
        (Store.figureAt (delegationFigure id valAddr) s)).sum := by
  induction pairs generalizing acc with
  | nil => exact ⟨acc, rfl, by simp [delegationKeys]⟩
  | cons pair rest ih =>
      obtain ⟨d, v⟩ := pair
      by_cases hEq : v = valAddr
      · subst hEq
        have hKeys : delegationKeys v ((d, v) :: rest) =
            .delegation d v :: delegationKeys v rest := by
          simp [delegationKeys]
        cases hd : (s.get? (.delegation d v)).map (·.val) with
        | none =>
            obtain ⟨total, hRun, hTotal⟩ := ih acc
            refine ⟨total, ?_, ?_⟩
            · rw [Prog.fold, Prog.run_bind, run_addDelegation, hd]
              exact hRun
            · rw [hKeys, List.map_cons, List.sum_cons]
              omega
        | some x =>
            obtain ⟨total, hRun, hTotal⟩ := ih (saturatingAdd acc (Delegation.amount x))
            refine ⟨total, ?_, ?_⟩
            · rw [Prog.fold, Prog.run_bind, run_addDelegation, hd]
              exact hRun
            · rw [hKeys, List.map_cons, List.sum_cons, figureAt_delegation hd]
              rw [toNat_saturatingAdd] at hTotal
              omega
      · obtain ⟨total, hRun, hTotal⟩ := ih acc
        refine ⟨total, ?_, ?_⟩
        · simpa [Prog.fold, addDelegation, hEq] using hRun
        · simpa [delegationKeys, hEq] using hTotal

theorem run_checkValidatorStake (hPairs : pairs.Nodup) (valAddr : Address) (issues : List String)
    (h : ∀ v : ValidatorInfo, (s.get? (.validator valAddr)).map (·.val) = some v →
      delegatedTo s valAddr ≤ v.stake.toNat) :
    (checkValidatorStake pairs issues valAddr).run s = (.ok issues, s) := by
  unfold checkValidatorStake
  rw [Prog.bind_eq, run_getValidator_bind]
  cases hv : (s.get? (.validator valAddr)).map (·.val) with
  | none => rfl
  | some v =>
      obtain ⟨total, hRun, hTotal⟩ := run_addDelegations (s := s) valAddr pairs 0
      have hSum := Store.sum_figureAt_le (w := delegationFigure id valAddr) (s := s)
        (nodup_delegationKeys valAddr hPairs)
      have hStake := h v hv
      have hNot : ¬ ValidatorInfo.stake v < total := by
        rw [UInt64.not_lt, UInt64.le_iff_toNat_le]
        have hZero : (0 : UInt64).toNat = 0 := rfl
        unfold delegatedTo at hStake
        omega
      show ((Prog.fold (addDelegation valAddr) 0 pairs).bind _).run s = _
      rw [Prog.run_bind, hRun]
      show ((if ValidatorInfo.stake v < total then _ else _ : Handler _).run s) = _
      rw [if_neg hNot]
      rfl

/-- Where every validator has its delegations staked, the checker passes. -/
theorem checkStakingInvariants_passed
    (h : ∀ a, ∀ v : ValidatorInfo, (s.get? (.validator a)).map (·.val) = some v →
      delegatedTo s a ≤ v.stake.toNat)
    (validators : List Address) (hPairs : pairs.Nodup) :
    (checkStakingInvariants validators pairs).run s =
      (.ok ⟨"staking_invariants", true, "all validator delegation sums within stake"⟩, s) := by
  have hLoop : (Prog.fold (checkValidatorStake pairs) [] validators).run s = (.ok [], s) := by
    induction validators with
    | nil => rfl
    | cons a rest ih =>
        show ((checkValidatorStake pairs [] a).bind _).run s = _
        rw [Prog.run_bind, run_checkValidatorStake hPairs a [] (h a)]
        exact ih
  show ((Prog.fold (checkValidatorStake pairs) [] validators).bind _).run s = _
  rw [Prog.run_bind, hLoop]
  rfl

end StateInvariantChecker

end Polay.Execution
