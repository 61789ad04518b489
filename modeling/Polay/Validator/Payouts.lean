import Polay.Validator.Rewards

/-!
# What an epoch pays

The reward of an epoch is split twice, among the validators by their stake and then among the
delegators of each validator by what they delegated, and each split rounds down. So the
payouts never add up to more than the reward. They are credited one after the other, so an
account that is paid in several roles receives the sum.
-/

namespace Polay.Validator

open Lib Lib.Machine Polay.Types State Execution

variable {s t : StateStore}

/-! ## Both splits stay within the reward -/

/-- The delegators of a validator share its pool. -/
theorem paidOut_sharePayouts_le (pool : UInt64) {l : List Delegation}
    (hFits : (l.map fun d => d.amount.toNat).sum < 2 ^ 64) :
    paidOut (sharePayouts pool (wrappedAmount l) l) ≤ pool.toNat := by
  have hTotal : (wrappedAmount l).toNat = (l.map fun d => d.amount.toNat).sum :=
    (toNat_foldl_add _ l 0 (by simpa using hFits)).trans (Nat.zero_add _)
  unfold sharePayouts
  rw [paidOut_flatMap]
  calc (l.map fun d => paidOut (payout d.delegator (delegatorShare pool (wrappedAmount l) d))).sum
      ≤ (l.map fun d => pool.toNat * d.amount.toNat / (wrappedAmount l).toNat).sum := by
        refine List.sum_le_sum fun d _ => ?_
        rw [paidOut_payout, delegatorShare, UInt64.toNat_ofNat']
        exact Nat.mod_le _ _
    _ ≤ pool.toNat := sum_mul_div_le hTotal.ge pool.toNat

/-- Delegations that earn are some of those stored. -/
theorem sum_earning_le (epoch : UInt64) (l : List Delegation) :
    ((StakingModule.earning epoch l).map fun d => d.amount.toNat).sum ≤
      (l.map fun d => d.amount.toNat).sum := by
  have hSub : ((StakingModule.earning epoch l).map fun d => d.amount.toNat).Sublist
      (l.map fun d => d.amount.toNat) := List.filter_sublist.map _
  exact hSub.sum_le_sum fun _ _ => Nat.zero_le _

/-- A validator and its delegators share the part of the validator. -/
theorem paidOut_validatorPayouts_le {totalReward totalStake epoch : UInt64} {v : ValidatorInfo}
    (hRate : v.commissionBps.toNat ≤ 10000)
    (hFits : ((delegationsTo s v.address).map fun d => d.amount.toNat).sum < 2 ^ 64) :
    paidOut (validatorPayouts totalReward totalStake epoch s v) ≤
      totalReward.toNat * v.stake.toNat / totalStake.toNat := by
  unfold validatorPayouts
  split
  · exact Nat.zero_le _
  rw [paidOut_append, paidOut_payout]
  have hCommission := @commissionIn_le totalReward totalStake v hRate
  have hPart := rewardIn_le totalReward totalStake v
  have hPool : (poolIn totalReward totalStake v).toNat =
      (rewardIn totalReward totalStake v).toNat -
        (commissionIn totalReward totalStake v).toNat := toNat_saturatingSub _ _
  have hShares : paidOut (poolPayouts (poolIn totalReward totalStake v)
      (StakingModule.earning epoch (delegationsTo s v.address))) ≤
        (poolIn totalReward totalStake v).toNat := by
    unfold poolPayouts
    split
    · exact paidOut_sharePayouts_le _ ((sum_earning_le epoch _).trans_lt hFits)
    · exact Nat.zero_le _
  omega

/-- An epoch pays at most its reward. -/
theorem paidOut_epochPayouts_le {config : ChainConfig} {epoch : UInt64} {vs : List ValidatorInfo}
    (hRates : ∀ v ∈ vs, v.commissionBps.toNat ≤ 10000)
    (hStakes : (vs.map fun v => v.stake.toNat).sum < 2 ^ 64)
    (hDelegations : ∀ v ∈ vs,
      ((delegationsTo s v.address).map fun d => d.amount.toNat).sum < 2 ^ 64) :
    paidOut (epochPayouts config epoch s vs) ≤ (epochReward config s).toNat := by
  unfold epochPayouts
  split
  · exact Nat.zero_le _
  rw [paidOut_flatMap]
  calc (vs.map fun v => paidOut
        (validatorPayouts (epochReward config s) (wrappedStake vs) epoch s v)).sum
      ≤ (vs.map fun v => (epochReward config s).toNat * v.stake.toNat /
          (wrappedStake vs).toNat).sum :=
        List.sum_le_sum fun v hv => paidOut_validatorPayouts_le (hRates v hv) (hDelegations v hv)
    _ ≤ (epochReward config s).toNat := sum_mul_div_le (toNat_wrappedStake hStakes).ge _

/-! ## Every account receives what is listed for it -/

/-- What a list of payouts has for an account. -/
def payoutsTo (payouts : List (Address × UInt64)) (a : Address) : Nat :=
  paidOut (payouts.filter fun p => p.1 = a)

/-- Credits to one account add up. -/
theorem balanceOf_foldl_credited (n : UInt64) (l : List (Address × UInt64)) (s : StateStore)
    (a : Address) :
    balanceOf (l.foldl (fun s p => Executor.creditedStore s p.1 n p.2) s) a =
      min (balanceOf s a + payoutsTo l a) (2 ^ 64 - 1) := by
  induction l generalizing s with
  | nil =>
      have hFits := balanceOf_lt s a
      show balanceOf s a = min (balanceOf s a + 0) (2 ^ 64 - 1)
      omega
  | cons p l ih =>
      rw [List.foldl_cons, ih, balanceOf_creditedStore]
      by_cases hEq : p.1 = a
      · have hCons : payoutsTo (p :: l) a = p.2.toNat + payoutsTo l a := by
          simp [payoutsTo, paidOut, hEq]
        rw [if_pos hEq, hCons]
        omega
      · have hSkip : payoutsTo (p :: l) a = payoutsTo l a := by
          simp [payoutsTo, hEq]
        rw [if_neg hEq, hSkip]

theorem balanceOf_creditedPayouts (l : List (Address × UInt64)) (s : StateStore) (a : Address) :
    balanceOf (creditedPayouts s l) a = min (balanceOf s a + payoutsTo l a) (2 ^ 64 - 1) :=
  balanceOf_foldl_credited 0 l s a

/-! ## The distribution -/

/-- The distribution of an epoch returns payouts that add up to at most the reward of the
epoch. Each account has received the payouts listed for it, in whatever roles, and the supply
figures have grown by the sum of the payouts. -/
theorem distributeEpochRewards_exact {vs : List ValidatorInfo} {epoch : UInt64}
    {config : ChainConfig} (hRates : ∀ v ∈ vs, v.commissionBps.toNat ≤ 10000)
    (hStakes : (vs.map fun v => v.stake.toNat).sum < 2 ^ 64)
    (hDelegations : ∀ v ∈ vs,
      ((delegationsTo s v.address).map fun d => d.amount.toNat).sum < 2 ^ 64) :
    ∃ payouts t, (StakingModule.distributeEpochRewards vs epoch config).run s =
        (.ok payouts, t) ∧
      paidOut payouts ≤ (StakingModule.calculateEpochRewards (supplyFigures s).totalSupply
        config.inflationParams config.epochLength).toNat ∧
      (∀ a, balanceOf s a + payoutsTo payouts a < 2 ^ 64 →
        balanceOf t a = balanceOf s a + payoutsTo payouts a) ∧
      ((supplyFigures s).totalMinted.toNat + paidOut payouts < 2 ^ 64 →
        (supplyFigures t).totalMinted.toNat =
          (supplyFigures s).totalMinted.toNat + paidOut payouts) ∧
      ((supplyFigures s).totalSupply.toNat + paidOut payouts < 2 ^ 64 →
        (supplyFigures t).totalSupply.toNat =
          (supplyFigures s).totalSupply.toNat + paidOut payouts) := by
  have hBound : paidOut (epochPayouts config epoch s vs) ≤ _ :=
    paidOut_epochPayouts_le hRates hStakes hDelegations
  generalize hPayouts : epochPayouts config epoch s vs = payouts at hBound
  have hBalance := balanceOf_creditedPayouts payouts s
  have hSupply : supplyOf (creditedPayouts s payouts) = supplyOf s :=
    supplyOf_of_keeps (creditedPayouts_keeps s payouts) (by simp)
  rcases distributeEpochRewards_cases vs epoch config s with ⟨hOver, _⟩ | ⟨n, hn, hRun⟩
  · have hReward := (epochReward config s).toNat_lt
    rw [hPayouts] at hOver
    omega
  rw [hPayouts] at hn hRun
  refine ⟨payouts, _, hRun, hBound, fun a hFits => ?_, ?_⟩
  · have hSame : balanceOf (if 0 < n then withSupply (creditedPayouts s payouts)
        (StakingModule.supplyAfterRewards ((supplyOf s).getD SupplyInfo.default) n)
        else creditedPayouts s payouts) a = balanceOf (creditedPayouts s payouts) a := by
      split
      · rw [balanceOf, accountOf, withSupply, Store.get?_insert_ne (by simp)]
        rfl
      · rfl
    rw [hSame, hBalance]
    omega
  · by_cases hPos : 0 < n
    · rw [if_pos hPos, ← hn]
      have hFigures : supplyFigures (withSupply (creditedPayouts s payouts)
          (StakingModule.supplyAfterRewards (supplyFigures s) n)) =
          StakingModule.supplyAfterRewards (supplyFigures s) n := by
        rw [supplyFigures, supplyOf_withSupply, Option.getD_some]
      rw [show (supplyOf s).getD SupplyInfo.default = supplyFigures s from rfl, hFigures]
      have hAdd (m : UInt64) (hFits : m.toNat + n.toNat < 2 ^ 64) :
          (saturatingAdd m n).toNat = m.toNat + n.toNat := by
        rw [toNat_saturatingAdd]
        omega
      exact ⟨hAdd _, hAdd _⟩
    · have hNone : paidOut payouts = 0 := by
        rw [← hn, eq_zero_of_not_pos hPos]
        rfl
      have hFigures : supplyFigures (creditedPayouts s payouts) = supplyFigures s := by
        rw [supplyFigures, hSupply, supplyFigures]
      rw [if_neg hPos, hFigures, hNone]
      exact ⟨fun _ => rfl, fun _ => rfl⟩

/-- A validator that keeps a tenth of its reward. -/
def onePayee : ValidatorInfo := ⟨Address.ofByte 1, 100, 1000, .active, none, 0⟩

/-- A store with one delegation, which is in the list of the validator. -/
def oneDelegator : StateStore :=
  withSupply (withDelegation ((∅ : StateStore).insert (.delegators (Address.ofByte 1))
    ⟨[Address.ofByte 2], trivial⟩) ⟨Address.ofByte 2, Address.ofByte 1, 40, 0, 0⟩)
    { SupplyInfo.default with totalSupply := 1000000000000 }

/-- The delegator receives its share of the reward. -/
theorem distributeEpochRewards_exact_oneDelegator :
    ∃ payouts t, (StakingModule.distributeEpochRewards [onePayee] 1 ChainConfig.default).run
        oneDelegator = (.ok payouts, t) ∧
      payoutsTo payouts (Address.ofByte 2) = 32876712 ∧
      balanceOf t (Address.ofByte 2) = payoutsTo payouts (Address.ofByte 2) := by
  have hRates : ∀ v ∈ [onePayee], v.commissionBps.toNat ≤ 10000 := by decide
  have hStakes : ([onePayee].map fun v => v.stake.toNat).sum < 2 ^ 64 := by decide
  obtain ⟨payouts, t, hRun, _, hBalances, _⟩ := @distributeEpochRewards_exact
    oneDelegator [onePayee] 1 ChainConfig.default hRates hStakes
    (by decide +kernel)
  have hPayouts : Outcome.ok payouts =
      .ok [(Address.ofByte 1, 3652968), (Address.ofByte 2, 32876712)] :=
    (congrArg Prod.fst hRun).symm.trans (by decide +kernel)
  have hAmount : payoutsTo payouts (Address.ofByte 2) = 32876712 := by
    rw [Outcome.ok.inj hPayouts]
    decide
  have hBefore : balanceOf oneDelegator (Address.ofByte 2) = 0 := by decide +kernel
  have hAfter := hBalances (Address.ofByte 2) (by rw [hAmount, hBefore]; decide)
  rw [hBefore, Nat.zero_add] at hAfter
  exact ⟨payouts, t, hRun, hAmount, hAfter⟩

end Polay.Validator
