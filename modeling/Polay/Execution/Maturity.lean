import Polay.Execution.Unbonding
import Polay.Lib.Total

/-!
# Payouts of the unbonding queue

The payout of a height pays every delegator the sum of its entries that complete up to
that height, removes these entries from the queue and from the index, and touches no
other record. After it nothing is due, so a second payout changes nothing.
-/

namespace Polay.Execution

open Lib Lib.Machine Polay.Types State

variable {s : StateStore} {H : UInt64} {a : Address}
variable {l : List (UnbondingEntry × UInt8)}

/-- What an entry of the queue owes a delegator at a height. -/
def dueFigure (H : UInt64) (a : Address) : (k : Key) → k.Value → Nat
  | .unbonding d h _, e => if d = a ∧ h ≤ H then (UnbondingEntry.amount e.val).toNat else 0
  | _, _ => 0

/-- The sum of a delegator's entries that complete up to a height. -/
def dueTo (H : UInt64) (s : StateStore) (a : Address) : Nat := Store.total (dueFigure H a) s

/-- A delegator has an entry that completes up to a height. -/
def HasDue (H : UInt64) (s : StateStore) (a : Address) : Prop :=
  ∃ n i, n ≤ H ∧ (unbondingOf s a n i).isSome = true

/-! ## Accounts after payouts -/

/-- What a list of entries pays an account. -/
def paidTo (a : Address) (l : List (UnbondingEntry × UInt8)) : Nat :=
  (l.map fun e => if e.1.delegator = a then e.1.amount.toNat else 0).sum

theorem paidTo_cons (e : UnbondingEntry × UInt8) (l : List (UnbondingEntry × UInt8)) :
    paidTo a (e :: l) = (if e.1.delegator = a then e.1.amount.toNat else 0) + paidTo a l := rfl

/-- An account with more tokens. -/
def raised (x : AccountState) (n : Nat) : AccountState :=
  { x with balance := UInt64.ofNat (x.balance.toNat + n) }

theorem accountOf_released (s : StateStore) (e : UnbondingEntry × UInt8) (a : Address) :
    accountOf (released s e) a =
      accountOf (Executor.creditedStore s e.1.delegator 0 e.1.amount) a := by
  unfold accountOf released
  rw [Store.get?_erase_ne (by simp), Store.get?_erase_ne (by simp)]

/-- Payouts to others leave an account alone. -/
theorem accountOf_foldl_released_ne (hNe : ∀ e ∈ l, e.1.delegator ≠ a) :
    accountOf (l.foldl released s) a = accountOf s a := by
  induction l generalizing s with
  | nil => rfl
  | cons e l ih =>
      obtain ⟨hFirst, hRest⟩ := List.forall_mem_cons.mp hNe
      rw [List.foldl_cons, ih hRest, accountOf_released, Executor.accountOf_creditedStore,
        if_neg (Ne.symm hFirst)]

/-- Payouts that fit raise an account by what they pay it. -/
theorem accountOf_foldl_released {x : AccountState} (hx : accountOf s a = some x)
    (hFits : x.balance.toNat + paidTo a l < 2 ^ 64) :
    accountOf (l.foldl released s) a = some (raised x (paidTo a l)) := by
  induction l generalizing s x with
  | nil =>
      have hSame : raised x 0 = x := by simp [raised]
      rw [List.foldl_nil, hx]
      exact congrArg some hSame.symm
  | cons e l ih =>
      rw [paidTo_cons] at hFits ⊢
      by_cases hEq : e.1.delegator = a
      · rw [if_pos hEq] at hFits ⊢
        have hCredit : accountOf (released s e) a = some (x.credit e.1.amount) := by
          rw [accountOf_released, Executor.accountOf_creditedStore, if_pos hEq.symm, hEq, hx]
          rfl
        have hBalance : (x.credit e.1.amount).balance.toNat =
            x.balance.toNat + e.1.amount.toNat := by
          show (saturatingAdd x.balance e.1.amount).toNat = _
          rw [toNat_saturatingAdd]
          omega
        rw [List.foldl_cons, ih hCredit (by omega)]
        unfold raised
        rw [hBalance, Nat.add_assoc]
        rfl
      · rw [if_neg hEq, Nat.zero_add] at hFits ⊢
        rw [List.foldl_cons]
        refine ih ?_ hFits
        rw [accountOf_released, Executor.accountOf_creditedStore, if_neg (Ne.symm hEq), hx]

/-- An account that does not exist is created by its first payout. -/
theorem accountOf_foldl_released_new (hNone : accountOf s a = none) (hFits : paidTo a l < 2 ^ 64) :
    accountOf (l.foldl released s) a =
      if ∃ e ∈ l, e.1.delegator = a then
        some (raised (AccountState.new a 0) (paidTo a l)) else none := by
  induction l generalizing s with
  | nil =>
      rw [if_neg (by simp), List.foldl_nil, hNone]
  | cons e l ih =>
      rw [paidTo_cons] at hFits ⊢
      by_cases hEq : e.1.delegator = a
      · rw [if_pos hEq] at hFits ⊢
        rw [if_pos ⟨e, List.mem_cons_self, hEq⟩]
        have hCredit : accountOf (released s e) a =
            some ((AccountState.new a 0).credit e.1.amount) := by
          rw [accountOf_released, Executor.accountOf_creditedStore, if_pos hEq.symm, hEq, hNone]
          rfl
        have hBalance : ((AccountState.new a 0).credit e.1.amount).balance.toNat =
            e.1.amount.toNat := by
          show (saturatingAdd 0 e.1.amount).toNat = _
          rw [toNat_saturatingAdd, UInt64.toNat_zero]
          omega
        rw [List.foldl_cons, accountOf_foldl_released hCredit (by omega)]
        unfold raised
        rw [hBalance]
        simp [AccountState.credit, AccountState.new, AccountState.withBalance]
      · rw [if_neg hEq, Nat.zero_add] at hFits ⊢
        have hSkip : accountOf (released s e) a = none := by
          rw [accountOf_released, Executor.accountOf_creditedStore, if_neg (Ne.symm hEq), hNone]
        rw [List.foldl_cons, ih hSkip hFits]
        simp only [List.mem_cons, exists_eq_or_imp, hEq, false_or]

/-! ## What is due -/

theorem figureAt_dueFigure (d : Address) (n : UInt64) (i : UInt8) :
    Store.figureAt (dueFigure H a) s (.unbonding d n i) =
      (unbondingOf s d n i).elim 0 fun e => if d = a ∧ n ≤ H then e.amount.toNat else 0 := by
  unfold Store.figureAt unbondingOf
  cases s.get? (.unbonding d n i) <;> rfl

/-- The key of an entry in the queue. -/
def queueKey (k : Address × UInt64 × UInt8) : Key := .unbonding k.1 k.2.1 k.2.2

theorem queueKey_injective : Function.Injective queueKey := by
  rintro ⟨d, n, i⟩ ⟨d', n', i'⟩ hEq
  simpa [queueKey] using hEq

/-- What is due is what the mature entries pay. -/
theorem paidTo_matureEntries (h : Mirrored s) (H : UInt64) (a : Address) :
    paidTo a (matureEntries H s) = dueTo H s a := by
  have hFigure : ∀ e ∈ matureEntries H s,
      Store.figureAt (dueFigure H a) s (queueKey (entryKey e)) =
        if e.1.delegator = a then e.1.amount.toNat else 0 := by
    rintro ⟨e, i⟩ he
    obtain ⟨hDue, hEntry⟩ := mem_matureEntries.mp he
    rw [h] at hEntry
    rw [queueKey, entryKey, figureAt_dueFigure, hEntry]
    simp [hDue]
  have hZero : ∀ k, k ∉ ((matureEntries H s).map entryKey).map queueKey →
      Store.figureAt (dueFigure H a) s k = 0 := by
    intro k hk
    cases k
    case unbonding d n i =>
      rw [figureAt_dueFigure]
      cases hEntry : unbondingOf s d n i with
      | none => rfl
      | some e =>
          refine if_neg fun hDue => hk (List.mem_map.mpr ⟨(d, n, i), ?_, rfl⟩)
          exact (mem_entryKeys h).mpr ⟨hDue.2, by rw [hEntry]; rfl⟩
    all_goals exact Store.figureAt_eq_zero _ fun _ => rfl
  have hNodup : (((matureEntries H s).map entryKey).map queueKey).Nodup :=
    (nodup_matureEntries H s).map queueKey_injective
  unfold dueTo paidTo
  rw [Store.total_eq_sum_map hNodup hZero, List.map_map, List.map_map]
  exact congrArg List.sum (List.map_congr_left fun e he => (hFigure e he).symm)

theorem exists_mature_iff (h : Mirrored s) :
    (∃ e ∈ matureEntries H s, e.1.delegator = a) ↔ HasDue H s a := by
  constructor
  · rintro ⟨e, he, rfl⟩
    exact ⟨_, _, (mem_entryKeys h).mp (List.mem_map.mpr ⟨e, he, rfl⟩)⟩
  · rintro ⟨n, i, hDue⟩
    obtain ⟨e, he, hKey⟩ := List.mem_map.mp ((mem_entryKeys h).mpr hDue)
    exact ⟨e, he, congrArg Prod.fst hKey⟩

theorem indexedOf_unbonded (h : Mirrored s) (H : UInt64) (d : Address) (n : UInt64) (i : UInt8) :
    indexedOf (unbonded H s) n d i = if n ≤ H then none else indexedOf s n d i := by
  rw [h.unbonded H, unbondingOf_unbonded h, h]

/-- After a payout nothing is due. -/
theorem matureEntries_unbonded (h : Mirrored s) (H : UInt64) :
    matureEntries H (unbonded H s) = [] := by
  rw [List.eq_nil_iff_forall_not_mem]
  rintro ⟨e, i⟩ he
  obtain ⟨hDue, hEntry⟩ := mem_matureEntries.mp he
  rw [indexedOf_unbonded h, if_pos hDue] at hEntry
  cases hEntry

/-! ## The payout -/

/-- A payout of the entries due at a height `H`: every account gets the sum of its entries
that are due, if its balance can hold it, these entries are gone from the queue and from the
index, and no other record has changed. The index still mirrors the queue, and a second
payout at the same height does nothing. -/
structure PaysDue (H : UInt64) (s t : StateStore) : Prop where
  paid : ∀ a x, accountOf s a = some x → x.balance.toNat + dueTo H s a < 2 ^ 64 →
    accountOf t a = some { x with balance := UInt64.ofNat (x.balance.toNat + dueTo H s a) }
  created : ∀ a, accountOf s a = none → HasDue H s a → dueTo H s a < 2 ^ 64 →
    accountOf t a = some { AccountState.new a 0 with balance := UInt64.ofNat (dueTo H s a) }
  untouched : ∀ a, ¬ HasDue H s a → accountOf t a = accountOf s a
  queue : ∀ d n i, unbondingOf t d n i = if n ≤ H then none else unbondingOf s d n i
  index : ∀ d n i, indexedOf t n d i = if n ≤ H then none else indexedOf s n d i
  other : ∀ k, familyOf k ∉ [Family.account, Family.unbonding] → t.get? k = s.get? k
  mirrored : Mirrored t
  again : (Staking.processMatureUnbondings H).run t = (.ok [], t)

/-- **The payout of a height is exact.** -/
theorem processMatureUnbondings_exact (h : Mirrored s) (H : UInt64) :
    ∃ events t, (Staking.processMatureUnbondings H).run s = (.ok events, t) ∧ PaysDue H s t := by
  refine ⟨_, _, run_processMatureUnbondings H s, ?_⟩
  exact {
    paid := by
      intro a x hx hFits
      rw [← paidTo_matureEntries h] at hFits ⊢
      exact accountOf_foldl_released hx hFits
    created := by
      intro a hNone hDue hFits
      rw [← paidTo_matureEntries h] at hFits ⊢
      rw [unbonded, accountOf_foldl_released_new hNone hFits,
        if_pos ((exists_mature_iff h).mpr hDue), raised]
      simp [AccountState.new, AccountState.withBalance]
    untouched := by
      intro a hNot
      exact accountOf_foldl_released_ne fun e he hEq =>
        hNot ((exists_mature_iff h).mp ⟨e, he, hEq⟩)
    queue := unbondingOf_unbonded h H
    index := indexedOf_unbonded h H
    other := unbonded_keeps H s
    mirrored := h.unbonded H
    again := by
      have hNothing : unbonded H (unbonded H s) = unbonded H s := by
        show (matureEntries H (unbonded H s)).foldl released _ = _
        rw [matureEntries_unbonded h]
        rfl
      rw [run_processMatureUnbondings, matureEntries_unbonded h, hNothing]
      rfl }

/-- A queue with an entry for height 3 and one of another account for height 9. -/
def twoEntries : StateStore :=
  withUnbonding (withUnbonding ∅ ⟨Address.ofByte 1, Address.ofByte 2, 5, 0, 3⟩ 0)
    ⟨Address.ofByte 4, Address.ofByte 2, 7, 0, 9⟩ 0

theorem mirrored_twoEntries : Mirrored twoEntries :=
  (Mirrored.withUnbonding (fun d n i => by simp [indexedOf, unbondingOf]) _ _).withUnbonding _ _

/-- The first entry is paid out at its height and the second one waits. -/
theorem processMatureUnbondings_exact_twoEntries :
    ∃ events t, (Staking.processMatureUnbondings 3).run twoEntries = (.ok events, t) ∧
      PaysDue 3 twoEntries t ∧
      (accountOf t (Address.ofByte 1)).map AccountState.balance = some 5 ∧
      (unbondingOf t (Address.ofByte 4) 9 0).isSome = true := by
  obtain ⟨events, t, hRun, hPays⟩ := processMatureUnbondings_exact mirrored_twoEntries 3
  refine ⟨events, t, hRun, hPays, ?_, ?_⟩
  · have hDue : dueTo 3 twoEntries (Address.ofByte 1) = 5 := by decide +kernel
    rw [hPays.created _ (by decide +kernel) ⟨3, 0, by decide, by decide +kernel⟩
      (by rw [hDue]; decide), hDue]
    rfl
  · rw [hPays.queue, if_neg (by decide)]
    decide +kernel

end Polay.Execution
