import Polay.Validator.Slashing
import Polay.Lib.Sums
import Polay.Validator.Tokens

/-!
# Minting

Tokens are minted in two places: the reward of a block and the rewards of an
epoch. `Minted n s t` says what either of them does: `n` tokens enter every figure that
counts accounts, and the supply figures count the same `n`, unless there is nothing
to count or the sum of the payouts overflows. The payouts of an epoch are at most
the reward of the epoch as long as the staking module lists no delegators.
-/

namespace Polay.Validator

open Lib Lib.Machine Polay.Types State Execution

variable {c : Weights} {w : (k : Key) → k.Value → Nat} {s t u : StateStore}

/-- Every token on an account counts once, and chain records count for nothing. -/
def CountsOnce (w : (k : Key) → k.Value → Nat) : Prop :=
  (∃ c, Counts c w ∧ ∀ a, c.balance a = 1) ∧ ∀ k, familyOf k = .chain → ∀ x, w k x = 0

theorem countsOnce_tokenFigure {c : Weights} (hUnit : ∀ a, c.balance a = 1) :
    CountsOnce (tokenFigure c) := by
  refine ⟨⟨c, counts_tokenFigure c, hUnit⟩, fun k hk x => ?_⟩
  cases k <;> first
    | rfl
    | exact absurd hk (by simp [familyOf])

/-- A credit is an income of the amount. -/
theorem CountsOnce.credit (hw : CountsOnce w) (s : StateStore) (a : Address) (t n : UInt64) :
    Flow w 0 n.toNat s (Executor.creditedStore s a t n) := by
  obtain ⟨⟨c, hC, hUnit⟩, _⟩ := hw
  have hFlow := hC.credit s a t n
  rwa [hUnit, Nat.one_mul] at hFlow

/-- Tokens enter and the supply figures count them. Figures that do not exist are not
created by a block; payouts whose sum overflows are not counted. -/
structure Minted (n : Nat) (s t : StateStore) : Prop where
  flow : ∀ w, CountsOnce w → Flow w 0 n s t
  supply : supplyOf t = supplyOf s ∧ (n = 0 ∨ supplyOf s = none ∨ 2 ^ 64 ≤ n) ∨
    ∃ d : UInt64, d.toNat = n ∧ supplyOf t =
      some (StakingModule.supplyAfterRewards ((supplyOf s).getD SupplyInfo.default) d)

theorem Minted.of_eq (hTotal : ∀ w, CountsOnce w → Store.total w t = Store.total w s)
    (hSupply : supplyOf t = supplyOf s) : Minted 0 s t :=
  ⟨fun w hw => .of_eq (hTotal w hw), .inl ⟨hSupply, .inl rfl⟩⟩

/-- Minting after a step that neither moves tokens nor writes the supply figures. -/
theorem Minted.after {n : Nat} (h : Minted n t u)
    (hTotal : ∀ w, CountsOnce w → Store.total w t = Store.total w s)
    (hSupply : supplyOf t = supplyOf s) : Minted n s u := by
  refine ⟨fun w hw => ?_, by rw [← hSupply]; exact h.supply⟩
  obtain ⟨hLe, hEq⟩ := h.flow w hw
  rw [hTotal w hw] at hLe hEq
  exact ⟨hLe, hEq⟩

/-- Minting before such a step. -/
theorem Minted.still {n : Nat} (h : Minted n s t)
    (hTotal : ∀ w, CountsOnce w → Store.total w u = Store.total w t)
    (hSupply : supplyOf u = supplyOf t) : Minted n s u :=
  ⟨fun w hw => (h.flow w hw).still (hTotal w hw), by rw [hSupply]; exact h.supply⟩

theorem supplyOf_of_keeps {F : List Family} (hKeeps : Store.Holds (Keeps F s) t)
    (hF : Family.supplyInfo ∉ F) : supplyOf t = supplyOf s := by
  rw [supplyOf, hKeeps .supplyInfo (by simpa [familyOf] using hF), supplyOf]

/-- The store with new supply figures. -/
def withSupply (s : StateStore) (info : SupplyInfo) : StateStore :=
  s.insert .supplyInfo ⟨info, trivial⟩

/-- The supply figures of a store. -/
def supplyFigures (s : StateStore) : SupplyInfo := (supplyOf s).getD SupplyInfo.default

@[simp] theorem supplyOf_withSupply (s : StateStore) (info : SupplyInfo) :
    supplyOf (withSupply s info) = some info := by
  rw [supplyOf, withSupply, Std.ExtDTreeMap.get?_insert_self]
  rfl

theorem CountsOnce.total_withSupply (hw : CountsOnce w) (s : StateStore) (info : SupplyInfo) :
    Store.total w (withSupply s info) = Store.total w s := by
  obtain ⟨⟨c, hC, _⟩, _⟩ := hw
  exact Store.total_insert_of_zero w hC.supplyInfo _

theorem supplyOf_insert {k : Key} (hk : k ≠ .supplyInfo) (x : k.Value) :
    supplyOf (s.insert k x) = supplyOf s := by
  rw [supplyOf, Store.get?_insert_ne hk, supplyOf]

@[simp] theorem wp_setActiveValidatorSet_bind {ε β : Type} {l : List Address}
    {f : Unit → Exec ε β} {Q : Outcome ε β → StateStore → Prop} :
    ((setActiveValidatorSet l).bind f).Wp Q s ↔
      (f ()).Wp Q (s.insert .activeValidatorSet ⟨l, trivial⟩) := Iff.rfl

@[simp] theorem wp_setEpochInfo_bind {ε β : Type} {info : EpochInfo}
    {f : Unit → Exec ε β} {Q : Outcome ε β → StateStore → Prop} :
    ((setEpochInfo info).bind f).Wp Q s ↔
      (f ()).Wp Q (s.insert (.epoch info.epoch) ⟨info, rfl⟩) := Iff.rfl

theorem creditedStore_keeps (s : StateStore) (a : Address) (n m : UInt64) :
    Store.Holds (Keeps [.account] s) (Executor.creditedStore s a n m) := by
  intro k hk
  refine get?_withAccount fun b hEq => hk ?_
  rw [hEq]
  exact List.mem_singleton.mpr rfl

/-! ## The reward of a block -/

section BlockReward

variable {ex : Executor}

/-- What the reward of a block mints. -/
def blockMint (ex : Executor) (proposer : Address) : UInt64 :=
  if ex.chainConfig.blockReward = 0 ∨ proposer = Address.zero then 0
  else ex.chainConfig.blockReward

/-- Writing a validator whose stake is the stored one. -/
theorem Counts.total_withValidator_same (hC : Counts c w) {v : ValidatorInfo} {a : Address}
    (ha : v.address = a) (hStake : stakeAt s a = v.stake.toNat) :
    Store.total w (withValidator s v) = Store.total w s := by
  have hWrite := hC.total_withValidator (s := s) ha
  rw [hStake] at hWrite
  omega

/-- Counting a block moves nothing. -/
theorem countBlock_wp (proposer : Address) (s : StateStore) :
    (Executor.countBlock proposer).Wp (fun _ t =>
      (∀ w, CountsOnce w → Store.total w t = Store.total w s) ∧ supplyOf t = supplyOf s) s := by
  simp only [Executor.countBlock, Prog.bind_eq, wp_getValidator_bind]
  cases hv : validatorOf s proposer with
  | none => exact ⟨fun _ _ => rfl, rfl⟩
  | some v =>
      have hAddress := address_of_validatorOf hv
      have hStake : stakeAt s proposer = v.stake.toNat := stakeAt_eq hv
      refine ⟨fun w hw => ?_, ?_⟩
      · obtain ⟨⟨c, hC, _⟩, _⟩ := hw
        exact hC.total_withValidator_same hAddress hStake
      show supplyOf (withValidator s _) = _
      rw [supplyOf, get?_withValidator (by simp), supplyOf]

@[simp] theorem wp_mintSupply_bind {β : Type} {reward : UInt64} {f : Unit → Handler β}
    {Q : Outcome ExecutionError β → StateStore → Prop} :
    ((Executor.mintSupply reward).bind f).Wp Q s ↔
      (f ()).Wp Q (((supplyOf s).map fun info =>
        withSupply s (Executor.supplyAfterReward info reward)).getD s) := by
  have hRun : (Executor.mintSupply reward).run s = (.ok (), ((supplyOf s).map fun info =>
      withSupply s (Executor.supplyAfterReward info reward)).getD s) := by
    show (match (s.get? .supplyInfo).map Subtype.val with
      | some supply => setSupplyInfo (Executor.supplyAfterReward supply reward)
      | none => Pure.pure ()).run s = _
    unfold supplyOf
    cases s.get? .supplyInfo <;> rfl
  rw [Prog.wp_bind, Prog.Wp, hRun]
  rfl

/-- The reward of a block is minted. -/
theorem applyBlockReward_wp (proposer : Address) (s : StateStore) :
    (ex.applyBlockReward proposer).Wp (fun _ t => Minted (blockMint ex proposer).toNat s t) s := by
  unfold Executor.applyBlockReward blockMint
  dsimp only
  split
  · exact .of_eq (fun _ _ => rfl) rfl
  · simp only [Prog.bind_eq, wp_creditOrCreate_bind, wp_mintSupply_bind]
    have hCredit := fun w (hw : CountsOnce w) =>
      hw.credit s proposer 0 ex.chainConfig.blockReward
    have hSupply : supplyOf (Executor.creditedStore s proposer 0 ex.chainConfig.blockReward) =
        supplyOf s := supplyOf_of_keeps (creditedStore_keeps s proposer 0 _) (by simp)
    rw [hSupply]
    refine (countBlock_wp proposer _).mono fun o t ht => Minted.still ?_ ht.1 ht.2
    cases hInfo : supplyOf s with
    | none => exact ⟨hCredit, .inl ⟨hSupply, .inr (.inl hInfo)⟩⟩
    | some info =>
        refine ⟨fun w hw => (hCredit w hw).still (hw.total_withSupply _ _), .inr ⟨_, rfl, ?_⟩⟩
        rw [hInfo]
        exact supplyOf_withSupply _ _

end BlockReward

/-! ## The rewards of an epoch -/

section Payouts

variable {totalReward totalStake : UInt64} {vs : List ValidatorInfo}
variable (payouts : List (Address × UInt64))

/-- What is paid out, in all. -/
def paidOut (payouts : List (Address × UInt64)) : Nat := (payouts.map fun p => p.2.toNat).sum

/-- The payouts were credited and nothing else was written. -/
structure Paid (s : StateStore) (payouts : List (Address × UInt64)) (t : StateStore) :
    Prop where
  flow : ∀ w, CountsOnce w → Flow w 0 (paidOut payouts) s t
  keeps : Store.Holds (Keeps [.account] s) t

/-- The store after payouts were credited one after the other. -/
def creditedPayouts (s : StateStore) (payouts : List (Address × UInt64)) : StateStore :=
  payouts.foldl (fun s p => Executor.creditedStore s p.1 0 p.2) s

theorem creditedPayouts_append (s : StateStore) (l m : List (Address × UInt64)) :
    creditedPayouts s (l ++ m) = creditedPayouts (creditedPayouts s l) m := List.foldl_append

theorem creditedPayouts_keeps (s : StateStore) (l : List (Address × UInt64)) :
    Store.Holds (Keeps [.account] s) (creditedPayouts s l) := by
  induction l generalizing s with
  | nil => exact fun _ _ => rfl
  | cons p l ih =>
      intro k hk
      exact (ih _ k hk).trans (creditedStore_keeps s p.1 0 p.2 k hk)

/-- Payouts are an income of each account they are credited to. -/
theorem Counts.flow_creditedPayouts (hC : Counts c w) (s : StateStore)
    (l : List (Address × UInt64)) :
    Flow w 0 (l.map fun p => c.balance p.1 * p.2.toNat).sum s (creditedPayouts s l) := by
  induction l generalizing s with
  | nil => exact .of_eq rfl
  | cons p l ih =>
      have hRest := ih (Executor.creditedStore s p.1 0 p.2)
      rw [List.map_cons, List.sum_cons]
      exact (hC.credit s p.1 0 p.2).andThen hRest

theorem paid_creditedPayouts (s : StateStore) (l : List (Address × UInt64)) :
    Paid s l (creditedPayouts s l) := by
  refine ⟨fun w hw => ?_, creditedPayouts_keeps s l⟩
  obtain ⟨⟨c, hC, hUnit⟩, _⟩ := hw
  have hFlow := hC.flow_creditedPayouts s l
  simp only [hUnit, Nat.one_mul] at hFlow
  exact hFlow

/-- One payout, unless it is zero. -/
def payout (a : Address) (n : UInt64) : List (Address × UInt64) :=
  if 0 < n then [(a, n)] else []

theorem paidOut_append (l m : List (Address × UInt64)) :
    paidOut (l ++ m) = paidOut l + paidOut m := by
  simp [paidOut]

theorem paidOut_payout (a : Address) (n : UInt64) : paidOut (payout a n) = n.toNat := by
  unfold payout
  split
  · simp [paidOut]
  · rename_i hZero
    rw [eq_zero_of_not_pos hZero]
    rfl

theorem paidOut_flatMap {α : Type} (f : α → List (Address × UInt64)) (l : List α) :
    paidOut (l.flatMap f) = (l.map fun a => paidOut (f a)).sum := by
  induction l with
  | nil => rfl
  | cons a l ih => rw [List.flatMap_cons, paidOut_append, ih, List.map_cons, List.sum_cons]

theorem run_payOut (a : Address) (n : UInt64) (t : StateStore) :
    (StakingModule.payOut payouts a n).run t =
      (.ok (payouts ++ payout a n), creditedPayouts t (payout a n)) := by
  unfold StakingModule.payOut payout
  split
  · rfl
  · rw [List.append_nil]
    rfl

/-- The part of a delegator in the pool of its validator. -/
def delegatorShare (pool total : UInt64) (d : Delegation) : UInt64 :=
  UInt64.ofNat (pool.toNat * d.amount.toNat / total.toNat)

/-- The payouts to delegators. -/
def sharePayouts (pool total : UInt64) (l : List Delegation) : List (Address × UInt64) :=
  l.flatMap fun d => payout d.delegator (delegatorShare pool total d)

theorem run_payDelegators {pool total : UInt64} (hTotal : total ≠ 0) (l : List Delegation)
    (payouts : List (Address × UInt64)) (t : StateStore) :
    (Prog.fold (StakingModule.payDelegator pool total) payouts l).run t =
      (.ok (payouts ++ sharePayouts pool total l),
        creditedPayouts t (sharePayouts pool total l)) := by
  induction l generalizing payouts t with
  | nil =>
      show (Outcome.ok payouts, t) = (.ok (payouts ++ []), t)
      rw [List.append_nil]
  | cons d l ih =>
      have hOne : (StakingModule.payDelegator pool total payouts d).run t =
          (.ok (payouts ++ payout d.delegator (delegatorShare pool total d)),
            creditedPayouts t (payout d.delegator (delegatorShare pool total d))) := by
        unfold StakingModule.payDelegator StakingModule.proRata
        rw [if_neg hTotal]
        exact run_payOut payouts d.delegator _ t
      rw [Prog.fold, Prog.run_bind_of_ok hOne, ih, List.append_assoc, ← creditedPayouts_append]
      rfl

/-- The delegations listed for a validator. -/
def delegationsTo (s : StateStore) (v : Address) : List Delegation :=
  (delegatorList s v).filterMap fun d => delegationOf s d v

theorem run_getDelegationsForValidator {ε : Type} (v : Address) (s : StateStore) :
    (StakingModule.getDelegationsForValidator v : Exec ε _).run s =
      (.ok (delegationsTo s v), s) := by
  show (StakingModule.loadDelegations v (delegatorList s v)).run s = _
  rw [run_loadDelegations]
  rfl

theorem delegationsTo_of_keeps (h : Store.Holds (Keeps [.account] s) t) (v : Address) :
    delegationsTo t v = delegationsTo s v := by
  have hList : delegatorList t v = delegatorList s v := by
    rw [delegatorList, h (.delegators v) (by simp [familyOf]), delegatorList]
  have hEach : ∀ d, delegationOf t d v = delegationOf s d v := by
    intro d
    rw [delegationOf, h (.delegation d v) (by simp [familyOf]), delegationOf]
  unfold delegationsTo
  rw [hList]
  exact congrArg (fun f => List.filterMap f (delegatorList s v)) (funext hEach)

/-- The part of a validator in the reward of an epoch. -/
def rewardIn (totalReward totalStake : UInt64) (v : ValidatorInfo) : UInt64 :=
  UInt64.ofNat (totalReward.toNat * v.stake.toNat / totalStake.toNat)

/-- The commission of a validator on its part of the reward of an epoch. -/
def commissionIn (totalReward totalStake : UInt64) (v : ValidatorInfo) : UInt64 :=
  v.commissionOn (UInt64.ofNat (totalReward.toNat * v.stake.toNat / totalStake.toNat))

theorem commissionIn_of_stake_eq_zero {v : ValidatorInfo} (h : v.stake = 0) :
    commissionIn totalReward totalStake v = 0 := by
  simp [commissionIn, ValidatorInfo.commissionOn, h]

/-- What is left of that part for the delegators. -/
def poolIn (totalReward totalStake : UInt64) (v : ValidatorInfo) : UInt64 :=
  saturatingSub (rewardIn totalReward totalStake v) (commissionIn totalReward totalStake v)

/-- The sum of delegations, as the distribution adds it up. -/
def wrappedAmount (l : List Delegation) : UInt64 := l.foldl (fun total d => total + d.amount) 0

/-- The payouts of a validator to its delegators. -/
def poolPayouts (pool : UInt64) (eligible : List Delegation) : List (Address × UInt64) :=
  if 0 < wrappedAmount eligible ∧ 0 < pool then
    sharePayouts pool (wrappedAmount eligible) eligible else []

/-- The payouts of one validator: its commission and the parts of its delegators. -/
def validatorPayouts (totalReward totalStake epoch : UInt64) (s : StateStore)
    (v : ValidatorInfo) : List (Address × UInt64) :=
  if v.stake = 0 then []
  else payout v.address (commissionIn totalReward totalStake v) ++
    poolPayouts (poolIn totalReward totalStake v)
      (StakingModule.earning epoch (delegationsTo s v.address))

theorem run_payValidator (hTotal : totalStake ≠ 0) (epoch : UInt64) (v : ValidatorInfo)
    (payouts : List (Address × UInt64)) (s : StateStore) :
    (StakingModule.payValidator totalReward totalStake epoch payouts v).run s =
      (.ok (payouts ++ validatorPayouts totalReward totalStake epoch s v),
        creditedPayouts s (validatorPayouts totalReward totalStake epoch s v)) := by
  unfold StakingModule.payValidator StakingModule.proRata validatorPayouts
  by_cases hZero : v.stake = 0
  · rw [if_pos hZero, if_pos hZero, List.append_nil]
    rfl
  rw [if_neg hZero, if_neg hZero, if_neg hTotal]
  show (Prog.bind (StakingModule.payOut payouts v.address
    (commissionIn totalReward totalStake v)) _).run s = _
  rw [Prog.run_bind_of_ok (run_payOut _ _ _ s), Prog.bind_eq,
    Prog.run_bind_of_ok (run_getDelegationsForValidator v.address _),
    delegationsTo_of_keeps (creditedPayouts_keeps s _)]
  show (if 0 < wrappedAmount (StakingModule.earning epoch (delegationsTo s v.address)) ∧
    0 < poolIn totalReward totalStake v then _ else _ : Exec StakingError _).run _ = _
  unfold poolPayouts
  split
  · rename_i hPool
    have hAmount : wrappedAmount (StakingModule.earning epoch (delegationsTo s v.address)) ≠ 0 := by
      intro hEq
      rw [hEq] at hPool
      exact absurd hPool.1 (UInt64.lt_irrefl 0)
    rw [← List.append_assoc, creditedPayouts_append]
    exact run_payDelegators hAmount _ _ _
  · rw [List.append_nil]
    rfl

theorem validatorPayouts_of_keeps (h : Store.Holds (Keeps [.account] s) t)
    (totalReward totalStake epoch : UInt64) (v : ValidatorInfo) :
    validatorPayouts totalReward totalStake epoch t v =
      validatorPayouts totalReward totalStake epoch s v := by
  unfold validatorPayouts
  rw [delegationsTo_of_keeps h]

/-- Paying all validators. -/
theorem run_payValidators (totalReward : UInt64) (hTotal : totalStake ≠ 0) (epoch : UInt64)
    (vs : List ValidatorInfo) (payouts : List (Address × UInt64)) (s : StateStore) :
    (Prog.fold (StakingModule.payValidator totalReward totalStake epoch) payouts vs).run s =
      (.ok (payouts ++ vs.flatMap (validatorPayouts totalReward totalStake epoch s)),
        creditedPayouts s (vs.flatMap (validatorPayouts totalReward totalStake epoch s))) := by
  induction vs generalizing payouts s with
  | nil =>
      show (Outcome.ok payouts, s) = (.ok (payouts ++ []), s)
      rw [List.append_nil]
  | cons v vs ih =>
      have hSame := validatorPayouts_of_keeps (creditedPayouts_keeps s
        (validatorPayouts totalReward totalStake epoch s v)) totalReward totalStake epoch
      rw [Prog.fold, Prog.run_bind_of_ok (run_payValidator hTotal epoch v payouts s), ih,
        funext hSame, List.flatMap_cons, List.append_assoc, ← creditedPayouts_append]

theorem totalPayout_eq (acc : UInt64) :
    (∃ n, StakingModule.totalPayout acc payouts = some n ∧
      n.toNat = acc.toNat + paidOut payouts) ∨
    (StakingModule.totalPayout acc payouts = none ∧ 2 ^ 64 ≤ acc.toNat + paidOut payouts) := by
  induction payouts generalizing acc with
  | nil => exact .inl ⟨acc, rfl, by simp [paidOut]⟩
  | cons p rest ih =>
      have hCons : paidOut (p :: rest) = p.2.toNat + paidOut rest := by simp [paidOut]
      cases hAdd : checkedAdd acc p.2 with
      | none =>
          refine .inr ⟨by simp [StakingModule.totalPayout, hAdd], ?_⟩
          unfold checkedAdd at hAdd
          split at hAdd
          · cases hAdd
          · omega
      | some m =>
          have hSum := checkedAdd_eq_some.mp hAdd
          have hStep : StakingModule.totalPayout acc (p :: rest) =
              StakingModule.totalPayout m rest := by
            simp [StakingModule.totalPayout, hAdd]
          rw [hStep, hCons]
          rcases ih m with ⟨n, hn, hValue⟩ | ⟨hNone, hOver⟩
          · exact .inl ⟨n, hn, by omega⟩
          · exact .inr ⟨hNone, by omega⟩

/-- The stake of some validators as the distribution adds it up. -/
def wrappedStake (vs : List ValidatorInfo) : UInt64 :=
  vs.foldl (fun total v => total + v.stake) 0

/-- The reward of an epoch in a state. -/
def epochReward (config : ChainConfig) (s : StateStore) : UInt64 :=
  StakingModule.calculateEpochRewards ((supplyOf s).getD SupplyInfo.default).totalSupply
    config.inflationParams config.epochLength

/-- The commissions on the reward of an epoch. -/
def commissions (reward : UInt64) (vs : List ValidatorInfo) : Nat :=
  if wrappedStake vs = 0 then 0
  else (vs.map fun v => (commissionIn reward (wrappedStake vs) v).toNat).sum

/-- The payouts of an epoch. -/
def epochPayouts (config : ChainConfig) (epoch : UInt64) (s : StateStore)
    (vs : List ValidatorInfo) : List (Address × UInt64) :=
  if wrappedStake vs = 0 then []
  else vs.flatMap (validatorPayouts (epochReward config s) (wrappedStake vs) epoch s)

/-- The last part of the distribution: the supply figures count the payouts. -/
def mintPayouts (payouts : List (Address × UInt64)) (distributed : UInt64) :
    Exec StakingError (List (Address × UInt64)) := do
  Prog.when (0 < distributed) (do
    let supply ← getSupplyInfo
    setSupplyInfo (StakingModule.supplyAfterRewards (supply.getD SupplyInfo.default) distributed))
  return payouts

theorem run_mintPayouts (n : UInt64) (t : StateStore) :
    (mintPayouts payouts n).run t =
      (.ok payouts, if 0 < n then withSupply t (StakingModule.supplyAfterRewards
        ((supplyOf t).getD SupplyInfo.default) n) else t) := by
  unfold mintPayouts
  by_cases hPos : 0 < n
  · rw [Prog.when, if_pos hPos, if_pos hPos]
    rfl
  · rw [Prog.when, if_neg hPos, if_neg hPos]
    rfl

/-- The distribution credits the payouts and counts them in the supply figures. It fails after
the credits if their sum overflows. -/
theorem distributeEpochRewards_cases (vs : List ValidatorInfo) (epoch : UInt64)
    (config : ChainConfig) (s : StateStore) :
    (2 ^ 64 ≤ paidOut (epochPayouts config epoch s vs) ∧
      (StakingModule.distributeEpochRewards vs epoch config).run s =
        (.err .arithmeticOverflow, creditedPayouts s (epochPayouts config epoch s vs))) ∨
    ∃ n : UInt64, n.toNat = paidOut (epochPayouts config epoch s vs) ∧
      (StakingModule.distributeEpochRewards vs epoch config).run s =
        (.ok (epochPayouts config epoch s vs),
          if 0 < n then
            withSupply (creditedPayouts s (epochPayouts config epoch s vs))
              (StakingModule.supplyAfterRewards ((supplyOf s).getD SupplyInfo.default) n)
          else creditedPayouts s (epochPayouts config epoch s vs)) := by
  unfold epochPayouts
  by_cases hTotal : wrappedStake vs = 0
  · rw [if_pos hTotal]
    refine .inr ⟨0, rfl, ?_⟩
    unfold StakingModule.distributeEpochRewards
    show (if wrappedStake vs = 0 then _ else _ : Exec StakingError _).run s = _
    rw [if_pos hTotal]
    rfl
  rw [if_neg hTotal]
  have hPay := run_payValidators (epochReward config s) hTotal epoch vs [] s
  generalize vs.flatMap (validatorPayouts (epochReward config s) (wrappedStake vs) epoch s) =
    payouts at hPay
  have hSupply : supplyOf (creditedPayouts s payouts) = supplyOf s :=
    supplyOf_of_keeps (creditedPayouts_keeps s payouts) (by simp)
  have hRun : (StakingModule.distributeEpochRewards vs epoch config).run s =
      (Prog.bind (Prog.require (StakingModule.totalPayout 0 payouts) .arithmeticOverflow)
        (mintPayouts payouts)).run (creditedPayouts s payouts) := by
    unfold StakingModule.distributeEpochRewards
    show (if wrappedStake vs = 0 then _ else _ : Exec StakingError _).run s = _
    rw [if_neg hTotal]
    exact Prog.run_bind_of_ok hPay
  rw [hRun]
  rcases totalPayout_eq payouts 0 with ⟨n, hn, hValue⟩ | ⟨hNone, hOver⟩
  · refine .inr ⟨n, by simpa using hValue, ?_⟩
    rw [hn, ← hSupply]
    exact run_mintPayouts payouts n _
  · rw [hNone]
    exact .inl ⟨by simpa using hOver, rfl⟩

/-- Without delegators the commissions are all that is paid. -/
theorem paidOut_epochPayouts_of_none {epoch : UInt64} {config : ChainConfig}
    (hNone : ∀ v ∈ vs, delegatorList s v.address = []) :
    paidOut (epochPayouts config epoch s vs) = commissions (epochReward config s) vs := by
  unfold epochPayouts commissions
  split
  · rfl
  rw [paidOut_flatMap]
  refine congrArg List.sum (List.map_congr_left fun v hv => ?_)
  have hEmpty : delegationsTo s v.address = [] := by rw [delegationsTo, hNone v hv]; rfl
  unfold validatorPayouts
  split
  · rename_i hZero
    rw [commissionIn_of_stake_eq_zero hZero]
    rfl
  · rw [hEmpty, paidOut_append, paidOut_payout]
    rfl

/-- Distributing the rewards of an epoch mints what is paid out; that is the commissions if
the validators have no list of delegators. -/
theorem distributeEpochRewards_wp (vs : List ValidatorInfo) (epoch : UInt64)
    (config : ChainConfig) (s : StateStore) :
    (StakingModule.distributeEpochRewards vs epoch config).Wp (fun _ t => ∃ n, Minted n s t ∧
      ((∀ v ∈ vs, delegatorList s v.address = []) →
        n = commissions (epochReward config s) vs)) s := by
  have hPaid := paid_creditedPayouts s (epochPayouts config epoch s vs)
  have hSupply := supplyOf_of_keeps hPaid.keeps (by simp)
  rw [Prog.Wp]
  refine ⟨paidOut (epochPayouts config epoch s vs), ?_, paidOut_epochPayouts_of_none⟩
  rcases distributeEpochRewards_cases vs epoch config s with ⟨hOver, hRun⟩ | ⟨n, hn, hRun⟩
  · rw [hRun]
    exact ⟨hPaid.flow, .inl ⟨hSupply, .inr (.inr hOver)⟩⟩
  · rw [hRun]
    dsimp only
    split
    · refine ⟨fun w hw => (hPaid.flow w hw).still (hw.total_withSupply _ _), .inr ⟨n, hn, ?_⟩⟩
      exact supplyOf_withSupply _ _
    · rename_i hZero
      have hNone : paidOut (epochPayouts config epoch s vs) = 0 := by
        rw [← hn, eq_zero_of_not_pos hZero]
        rfl
      exact ⟨hPaid.flow, .inl ⟨hSupply, .inl hNone⟩⟩

/-! ### How much an epoch pays -/

theorem toNat_wrappedStake (h : (vs.map fun v => v.stake.toNat).sum < 2 ^ 64) :
    (wrappedStake vs).toNat = (vs.map fun v => v.stake.toNat).sum :=
  (toNat_foldl_add _ vs 0 (by simpa using h)).trans (Nat.zero_add _)

theorem rewardIn_le (totalReward totalStake : UInt64) (v : ValidatorInfo) :
    (rewardIn totalReward totalStake v).toNat ≤
      totalReward.toNat * v.stake.toNat / totalStake.toNat := by
  rw [rewardIn, UInt64.toNat_ofNat']
  exact Nat.mod_le _ _

/-- A commission of at most the whole reward. -/
theorem commissionIn_le {v : ValidatorInfo} (hRate : v.commissionBps.toNat ≤ 10000) :
    (commissionIn totalReward totalStake v).toNat ≤ (rewardIn totalReward totalStake v).toNat := by
  show (v.commissionOn (rewardIn totalReward totalStake v)).toNat ≤ _
  generalize rewardIn totalReward totalStake v = part
  have hShare : part.toNat * v.commissionBps.toNat / 10000 ≤ part.toNat := by
    apply Nat.div_le_of_le_mul
    rw [Nat.mul_comm 10000]
    exact Nat.mul_le_mul_left _ hRate
  rw [ValidatorInfo.commissionOn, UInt64.toNat_ofNat']
  exact (Nat.mod_le _ _).trans hShare

/-- The commissions of an epoch are at most its reward. -/
theorem commissions_le {reward : UInt64} (hFits : (vs.map fun v => v.stake.toNat).sum < 2 ^ 64)
    (hRate : ∀ v ∈ vs, v.commissionBps.toNat ≤ 10000) : commissions reward vs ≤ reward.toNat := by
  unfold commissions
  split
  · exact Nat.zero_le _
  calc (vs.map fun v => (commissionIn reward (wrappedStake vs) v).toNat).sum
      ≤ (vs.map fun v => reward.toNat * v.stake.toNat / (wrappedStake vs).toNat).sum :=
        List.sum_le_sum fun v hv => (commissionIn_le (hRate v hv)).trans (rewardIn_le _ _ v)
    _ ≤ reward.toNat := sum_mul_div_le (toNat_wrappedStake hFits).ge reward.toNat

end Payouts

/-! ## The transition to an epoch -/

section Transition

variable {V : List Address} (em : EpochManager) (height : UInt64) (v : ValidatorInfo)

/-- The stakes and the commission rates are the same. -/
def SameTerms (s t : StateStore) : Prop :=
  ∀ a, (validatorOf t a).map (fun v => (v.stake, v.commissionBps)) =
    (validatorOf s a).map fun v => (v.stake, v.commissionBps)

theorem SameTerms.stakeAt_eq (h : SameTerms s t) (a : Address) : stakeAt t a = stakeAt s a := by
  have hTerms := congrArg (fun r => (r.map fun p => p.1.toNat).getD 0) (h a)
  simp only [Option.map_map] at hTerms
  exact hTerms

theorem Counts.total_of_sameTerms (hC : Counts c w) (hSame : SameTerms s t)
    (hKeeps : Store.Holds (Keeps [.validator] s) t) : Store.total w t = Store.total w s := by
  refine Store.total_congr fun k => ?_
  by_cases hk : ∃ a, k = .validator a
  · obtain ⟨a, rfl⟩ := hk
    rw [hC.figureAt_validator, hC.figureAt_validator, hSame.stakeAt_eq]
  · have hFamily : familyOf k ∉ [Family.validator] := by
      intro hMem
      cases k <;> simp [familyOf] at hMem hk
    rw [Store.figureAt, hKeeps k hFamily, Store.figureAt]

theorem validatorOf_of_mem_listed {v : ValidatorInfo} (hv : v ∈ listedValidators V s) :
    validatorOf s v.address = some v := by
  obtain ⟨a, _, ha⟩ := List.mem_filterMap.mp hv
  rwa [address_of_validatorOf ha]

theorem nodup_address_listed (hV : V.Nodup) (s : StateStore) :
    ((listedValidators V s).map ValidatorInfo.address).Nodup := by
  refine (List.nodup_map_iff_inj_on (nodup_listedValidators hV s)).mpr ?_
  intro v hv v' hv' hEq
  have hSame := validatorOf_of_mem_listed hv
  rw [hEq, validatorOf_of_mem_listed hv'] at hSame
  exact (Option.some.inj hSame).symm

/-- The jail term of a validator has ended. -/
def termPassed (height : UInt64) (v : ValidatorInfo) : Bool :=
  v.status == .jailed && v.jailedUntil.any fun til => til ≤ height

/-- A validator after its jail term was lifted, if it has ended. -/
def freed (height : UInt64) (v : ValidatorInfo) : ValidatorInfo :=
  if termPassed height v then { v with status := .active, jailedUntil := none } else v

theorem freed_freed : freed height (freed height v) = freed height v := by
  by_cases hPassed : termPassed height v
  · have hEq : freed height v = { v with status := .active, jailedUntil := none } :=
      if_pos hPassed
    rw [hEq]
    rfl
  · have hSame : freed height v = v := if_neg hPassed
    rw [hSame, hSame]

@[simp] theorem address_freed : (freed height v).address = v.address := by
  unfold freed
  split <;> rfl

@[simp] theorem stake_freed : (freed height v).stake = v.stake := by
  unfold freed
  split <;> rfl

@[simp] theorem commissionBps_freed : (freed height v).commissionBps = v.commissionBps := by
  unfold freed
  split <;> rfl

theorem unjailElapsed_cons (rest : List ValidatorInfo) :
    EpochManager.unjailElapsed height (v :: rest) =
      if termPassed height v then (setValidator (freed height v)).bind fun _ =>
        (EpochManager.unjailElapsed height rest).bind fun events =>
          pure (Event.validatorUnjailed v.address :: events)
      else EpochManager.unjailElapsed height rest := by
  unfold freed
  cases hStatus : v.status <;> cases hTerm : v.jailedUntil <;>
    simp [EpochManager.unjailElapsed, termPassed, hStatus, hTerm]
  split <;> rfl

/-- Lifting jail terms frees the listed validators whose term has ended. -/
theorem unjailElapsed_wp (vs : List ValidatorInfo)
    (hvs : ∀ v ∈ vs, validatorOf s v.address = some v ∨
      validatorOf s v.address = some (freed height v)) :
    (EpochManager.unjailElapsed height vs).Wp (fun o t => (∃ events, o = .ok events) ∧
      (∀ a, validatorOf t a = if a ∈ vs.map ValidatorInfo.address then
        (validatorOf s a).map (freed height) else validatorOf s a) ∧
      Store.Holds (Keeps [.validator] s) t) s := by
  induction vs generalizing s with
  | nil => exact ⟨⟨[], rfl⟩, fun _ => rfl, fun k _ => rfl⟩
  | cons v rest ih =>
      have hRest := fun v' hv' => hvs v' (List.mem_cons_of_mem v hv')
      have hFreed : (validatorOf s v.address).map (freed height) = some (freed height v) := by
        rcases hvs v List.mem_cons_self with hv | hv
        · rw [hv, Option.map_some]
        · rw [hv, Option.map_some, freed_freed]
      rw [unjailElapsed_cons]
      by_cases hPassed : termPassed height v
      · rw [if_pos hPassed, wp_setValidator_bind]
        have hWrite (a : Address) : validatorOf (withValidator s (freed height v)) a =
            if a = v.address then some (freed height v) else validatorOf s a := by
          rw [validatorOf_withValidator, address_freed]
        have hLater := ih (s := withValidator s (freed height v)) fun v' hv' => by
          rw [hWrite]
          split
          · rename_i hEq
            rw [← hEq] at hFreed
            rcases hRest v' hv' with h' | h'
            · rw [h', Option.map_some] at hFreed
              exact .inr hFreed.symm
            · rw [h', Option.map_some, freed_freed] at hFreed
              exact .inr hFreed.symm
          · exact hRest v' hv'
        refine Prog.wp_bind.mpr (hLater.mono fun o t ht => ?_)
        obtain ⟨⟨events, rfl⟩, hRecords, hKeeps⟩ := ht
        refine ⟨⟨_, rfl⟩, fun a => ?_, fun k hk => ?_⟩
        · refine (hRecords a).trans ?_
          rw [hWrite]
          by_cases hEq : a = v.address
          · rw [if_pos hEq, Option.map_some, freed_freed, ite_self, hEq,
              if_pos (List.mem_map_of_mem List.mem_cons_self), hFreed]
          · simp [hEq]
        · refine (hKeeps k hk).trans (get?_withValidator fun a hEq => hk ?_)
          rw [hEq]
          exact List.mem_singleton.mpr rfl
      · rw [if_neg hPassed]
        refine (ih hRest).mono fun o t ht => ⟨ht.1, fun a => ?_, ht.2.2⟩
        rw [ht.2.1]
        by_cases hEq : a = v.address
        · have hSame : freed height v = v := if_neg hPassed
          have hStored : validatorOf s v.address = some v := by
            rcases hvs v List.mem_cons_self with hv | hv
            · exact hv
            · rwa [hSame] at hv
          rw [hEq, hStored, Option.map_some, hSame, ite_self, ite_self]
        · simp [hEq]

/-- So the terms of all validators stay. -/
theorem sameTerms_of_freed {height : UInt64} {l : List Address}
    (h : ∀ a, validatorOf t a = if a ∈ l then (validatorOf s a).map (freed height)
      else validatorOf s a) : SameTerms s t := by
  intro a
  rw [h]
  split
  · simp [Option.map_map, Function.comp_def]
  · rfl

/-- The commission rates of a store are at most the whole reward. -/
def RatesBounded (s : StateStore) : Prop :=
  ∀ a v, validatorOf s a = some v → v.commissionBps.toNat ≤ 10000

theorem RatesBounded.of_sameTerms (h : RatesBounded s) (hSame : SameTerms s t) :
    RatesBounded t := by
  intro a v hv
  have hTerms := hSame a
  rw [hv, Option.map_some] at hTerms
  obtain ⟨v', hv', hEq⟩ := Option.map_eq_some_iff.mp hTerms.symm
  rw [← (Prod.mk.inj hEq).2]
  exact h a v' hv'

/-- The stake of all validators. -/
def stakedTokens (s : StateStore) : Nat := Store.total (tokenFigure ⟨0, 0, 0, 1⟩) s

theorem sum_stakeAt_le {l : List Address} (hl : l.Nodup) (s : StateStore) :
    (l.map (stakeAt s)).sum ≤ stakedTokens s := by
  have hKeys : (l.map Key.validator).Nodup := hl.map fun a b hEq => by simpa using hEq
  have hSum := Store.sum_figureAt_le (w := tokenFigure ⟨0, 0, 0, 1⟩) (s := s) hKeys
  rw [List.map_map] at hSum
  have hEach : Store.figureAt (tokenFigure ⟨0, 0, 0, 1⟩) s ∘ Key.validator = stakeAt s := by
    funext a
    rw [Function.comp_apply, (counts_tokenFigure _).figureAt_validator]
    exact Nat.one_mul _
  rwa [hEach] at hSum

theorem selectEligible_subset (vs : List ValidatorInfo) :
    ∃ l, (em.selectEligible vs).Sublist l ∧
      l.Perm (vs.filter fun v => v.status = .active ∧ em.config.minStake ≤ v.stake) :=
  ⟨_, List.take_sublist _ _, List.mergeSort_perm _ _⟩

/-- The selected validators are different listed ones. -/
theorem selectEligible_listed (hV : V.Nodup) (s : StateStore) :
    (∀ v ∈ em.selectEligible (listedValidators V s), validatorOf s v.address = some v) ∧
      ((em.selectEligible (listedValidators V s)).map ValidatorInfo.address).Nodup := by
  obtain ⟨l, hSub, hPerm⟩ := selectEligible_subset em (listedValidators V s)
  have hMem : ∀ v ∈ l, validatorOf s v.address = some v :=
    fun v hv => validatorOf_of_mem_listed (List.mem_filter.mp (hPerm.mem_iff.mp hv)).1
  have hNodup : (l.map ValidatorInfo.address).Nodup := (hPerm.map _).nodup_iff.mpr
    ((nodup_address_listed hV s).sublist (List.filter_sublist.map _))
  exact ⟨fun v hv => hMem v (hSub.subset hv), (hSub.map _).nodup hNodup⟩

/-- What is paid in an epoch is bounded, if the selected validators are those of `s`. -/
theorem commissions_selected_le (reward : UInt64) (hV : V.Nodup) (hRates : RatesBounded s)
    (hFits : stakedTokens s < 2 ^ 64) :
    commissions reward (em.selectEligible (listedValidators V s)) ≤ reward.toNat := by
  obtain ⟨hStored, hNodup⟩ := selectEligible_listed em hV s
  have hSum := sum_stakeAt_le hNodup s
  rw [List.map_map] at hSum
  have hStakes : (em.selectEligible (listedValidators V s)).map
      (stakeAt s ∘ ValidatorInfo.address) =
      (em.selectEligible (listedValidators V s)).map fun v => v.stake.toNat :=
    List.map_congr_left fun v hv => stakeAt_eq (hStored v hv)
  rw [hStakes] at hSum
  exact commissions_le (hSum.trans_lt hFits) fun v hv => hRates _ v (hStored v hv)

/-- The rewards of an epoch are minted. They are at most the reward of the epoch if no
validator has a list of delegators. -/
theorem processEpochTransition_wp (s : StateStore) :
    (em.processEpochTransition height).Wp (fun _ t => ∃ n, Minted n s t ∧
      ((∀ a, delegatorList s a = []) → RatesBounded s → (validatorList s).Nodup →
        stakedTokens s < 2 ^ 64 → n ≤ (epochReward em.config s).toNat)) s := by
  have hNothing : ∀ t, Minted 0 s t → ∃ n, Minted n s t ∧
      ((∀ a, delegatorList s a = []) → RatesBounded s → (validatorList s).Nodup →
        stakedTokens s < 2 ^ 64 → n ≤ (epochReward em.config s).toNat) :=
    fun t ht => ⟨0, ht, fun _ _ _ _ => Nat.zero_le _⟩
  unfold EpochManager.processEpochTransition
  rw [Prog.bind_eq, Prog.wp_assert_bind]
  refine ⟨fun _ => hNothing s (.of_eq (fun _ _ => rfl) rfl), fun _ => ?_⟩
  dsimp only
  rw [Prog.bind_eq, Prog.wp_bind, Prog.Wp, run_getValidatorSet]
  dsimp only [Prog.After]
  have hUnjail := unjailElapsed_wp (s := s) height (listedValidators (validatorList s) s)
    fun v hv => .inl (validatorOf_of_mem_listed hv)
  refine Prog.wp_bind.mpr (hUnjail.mono fun o s₁ hs₁ => ?_)
  obtain ⟨⟨unjailed, rfl⟩, hFreed, hKeeps⟩ := hs₁
  have hTerms := sameTerms_of_freed hFreed
  have hTotal (w) (hw : CountsOnce w) : Store.total w s₁ = Store.total w s := by
    obtain ⟨⟨c, hC, _⟩, _⟩ := hw
    exact hC.total_of_sameTerms hTerms hKeeps
  have hSupply : supplyOf s₁ = supplyOf s := supplyOf_of_keeps hKeeps (by simp)
  dsimp only [Prog.After]
  rw [Prog.bind_eq, Prog.wp_bind, Prog.Wp, run_getValidatorSet]
  dsimp only [Prog.After]
  generalize hEligible : em.selectEligible (listedValidators (validatorList s₁) s₁) = eligible
  rw [Prog.bind_eq, Prog.wp_unwrap_bind]
  refine ⟨fun _ => hNothing s₁ (.of_eq hTotal hSupply), fun set _ => ?_⟩
  rw [Prog.bind_eq, wp_setActiveValidatorSet_bind]
  generalize hs₂ : s₁.insert .activeValidatorSet
    ⟨eligible.map ValidatorInfo.address, trivial⟩ = s₂
  have hTotal₂ (w) (hw : CountsOnce w) : Store.total w s₂ = Store.total w s := by
    rw [← hs₂, Store.total_insert_of_zero w (hw.2 _ rfl), hTotal w hw]
  have hSame (k : Key) (hk : k ≠ .activeValidatorSet) : s₂.get? k = s₁.get? k := by
    rw [← hs₂]
    exact Store.get?_insert_ne (Ne.symm hk)
  have hSupply₂ : supplyOf s₂ = supplyOf s := by
    rw [← hSupply, ← hs₂, supplyOf_insert (by simp)]
  have hLists : ∀ a, delegatorList s₂ a = delegatorList s a := by
    intro a
    rw [delegatorList, hSame _ (by simp), hKeeps _ (by simp [familyOf]), delegatorList]
  have hPaid := distributeEpochRewards_wp eligible (height / em.config.epochLength) em.config s₂
  have hEnd : ∀ t, (∃ n, Minted n s₂ t ∧
      ((∀ v ∈ eligible, delegatorList s₂ v.address = []) →
        n = commissions (epochReward em.config s₂) eligible)) → ∃ n, Minted n s t ∧
        ((∀ a, delegatorList s a = []) → RatesBounded s → (validatorList s).Nodup →
          stakedTokens s < 2 ^ 64 → n ≤ (epochReward em.config s).toNat) := by
    rintro t ⟨n, hMinted, hAmount⟩
    refine ⟨n, hMinted.after hTotal₂ hSupply₂, fun hNone hRates hNodup hFits => ?_⟩
    have hStaked : stakedTokens s₁ = stakedTokens s :=
      (counts_tokenFigure _).total_of_sameTerms hTerms hKeeps
    have hRoster : validatorList s₁ = validatorList s := by
      rw [validatorList, hKeeps _ (by simp [familyOf]), validatorList]
    have hReward : epochReward em.config s₂ = epochReward em.config s := by
      rw [epochReward, hSupply₂, epochReward]
    rw [hAmount fun v _ => (hLists v.address).trans (hNone _), hReward, ← hEligible, hRoster]
    exact commissions_selected_le em _ hNodup (hRates.of_sameTerms hTerms) (hStaked ▸ hFits)
  refine Prog.wp_bind.mpr (hPaid.mono fun o t ht => ?_)
  cases o with
  | ok rewards =>
      dsimp only [Prog.After]
      rw [Prog.bind_eq, wp_setEpochInfo_bind]
      obtain ⟨n, hMinted, hBound⟩ := hEnd t ht
      refine ⟨n, hMinted.still (fun w hw => Store.total_insert_of_zero w (hw.2 _ rfl) _) ?_,
        hBound⟩
      exact supplyOf_insert (by simp) _
  | err e => exact hEnd t ht
  | panic => exact hEnd t ht

end Transition

end Polay.Validator
