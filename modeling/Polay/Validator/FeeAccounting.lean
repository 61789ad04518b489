import Polay.Execution.Calls
import Polay.Validator.Operations

/-!
# Accounts of a fee

The fee stage reads and writes accounts in several steps, and the signer, the
sponsor, the treasury and the proposer may be the same account in any
combination. The balance of every account changes by the sum of the parts it has,
so nothing is lost or counted twice: all balances together change by what is
burnt, and the supply figures by the amounts that were taken and split.
-/

namespace Polay.Validator

open Lib Lib.Machine Polay.Types State Execution
open Execution.Executor (feePayer)

variable {ex : Executor} {tx : SignedTransaction} {proposer : Address} {s t : StateStore}

/-- The weight of one account. -/
def only (a : Address) : Address → Nat := fun x => if x = a then 1 else 0

theorem total_only_balance (s : StateStore) (a : Address) :
    Store.total (tokenFigure ⟨only a, 0, 0, 0⟩) s = balanceOf s a := by
  rw [Store.total_eq_figureAt (k := .account a), (counts_tokenFigure _).figureAt_account]
  · simp [only]
  · intro k hk x
    cases k
    case account b =>
      have hNe : b ≠ a := fun hEq => hk (hEq ▸ rfl)
      simp [tokenFigure, only, hNe]
    all_goals simp [tokenFigure]

/-- The figures of the record have room for a fee and its parts. -/
structure CountersFit (ex : Executor) (fee : UInt64) (info : SupplyInfo) : Prop where
  fees : info.totalFeesCollected.toNat + fee.toNat < 2 ^ 64
  burned : info.totalBurned.toNat + (burnShare ex fee).toNat < 2 ^ 64
  supply : (burnShare ex fee).toNat ≤ info.totalSupply.toNat
  treasury : info.treasuryBalance.toNat + (treasuryShare ex fee).toNat < 2 ^ 64

/-- A fee from `s` to `t`, to the token. -/
structure ExactFee (ex : Executor) (tx : SignedTransaction) (proposer : Address)
    (s t : StateStore) : Prop where
  burnt : accountTokens t + (burnShare ex (ex.actualFee tx.transaction)).toNat = accountTokens s
  split : (burnShare ex (ex.actualFee tx.transaction)).toNat +
    (treasuryShare ex (ex.actualFee tx.transaction)).toNat +
    (ex.validatorShare (ex.actualFee tx.transaction)).toNat =
      (ex.actualFee tx.transaction).toNat
  fees : ((supplyOf t).getD SupplyInfo.default).totalFeesCollected.toNat =
    ((supplyOf s).getD SupplyInfo.default).totalFeesCollected.toNat +
      (ex.actualFee tx.transaction).toNat
  burned : ((supplyOf t).getD SupplyInfo.default).totalBurned.toNat =
    ((supplyOf s).getD SupplyInfo.default).totalBurned.toNat +
      (burnShare ex (ex.actualFee tx.transaction)).toNat
  supply : ((supplyOf t).getD SupplyInfo.default).totalSupply.toNat +
    (burnShare ex (ex.actualFee tx.transaction)).toNat =
      ((supplyOf s).getD SupplyInfo.default).totalSupply.toNat
  treasury : ((supplyOf t).getD SupplyInfo.default).treasuryBalance.toNat =
    ((supplyOf s).getD SupplyInfo.default).treasuryBalance.toNat +
      (treasuryShare ex (ex.actualFee tx.transaction)).toNat
  signerNonce : (nonceOf t tx.signer).toNat = (nonceOf s tx.signer).toNat + 1
  otherNonces : ∀ a, a ≠ tx.signer → nonceOf t a = nonceOf s a
  balance : ∀ a, balanceOf t a +
      (if a = feePayer tx then (ex.actualFee tx.transaction).toNat else 0) =
    balanceOf s a +
      (if a = treasuryAccount ex then (treasuryShare ex (ex.actualFee tx.transaction)).toNat
        else 0) +
      (if a = proposer then (ex.validatorShare (ex.actualFee tx.transaction)).toNat else 0)
  others : ∀ a, a ≠ feePayer tx → a ≠ treasuryAccount ex → a ≠ proposer →
    balanceOf t a = balanceOf s a

/-- Two accounts do not hold more than all accounts. -/
theorem balanceOf_add_le {a b : Address} (hNe : a ≠ b) (s : StateStore) :
    balanceOf s a + balanceOf s b ≤ accountTokens s := by
  have hKeys : [Key.account a, Key.account b].Nodup := by simpa using hNe
  have hLe := Store.sum_figureAt_le (w := tokenFigure ⟨1, 0, 0, 0⟩) (s := s) hKeys
  simpa [(counts_tokenFigure ⟨1, 0, 0, 0⟩).figureAt_account, accountTokens] using hLe

/-- The balance of one account, if all balances together fit. The payer has what the
others receive, so no credit of another account meets the bound. -/
theorem balanceOf_collectFee (hCharges : ex.Charges tx s) {fees : List StateChange}
    (hRun : (ex.collectFee tx proposer).run s = (.ok fees, t)) (hFits : accountTokens s < 2 ^ 64)
    (a : Address) :
    balanceOf t a + (if a = feePayer tx then (ex.actualFee tx.transaction).toNat else 0) =
      balanceOf s a +
        (if a = treasuryAccount ex then (treasuryShare ex (ex.actualFee tx.transaction)).toNat
          else 0) +
        (if a = proposer then (ex.validatorShare (ex.actualFee tx.transaction)).toNat else 0) := by
  have hFlow := (counts_tokenFigure ⟨only a, 0, 0, 0⟩).collectFee hCharges hRun
  obtain ⟨_, payer, hPayer, hEnough⟩ := hCharges.2
  have hSplit := shares_eq ex (ex.actualFee tx.transaction)
  have hBalance : (ex.actualFee tx.transaction).toNat ≤ balanceOf s (feePayer tx) := by
    rw [balanceOf_eq hPayer]
    exact UInt64.le_iff_toNat_le.mp hEnough
  have hOnly : ∀ b n, only a b * n = if a = b then n else 0 := by
    intro b n
    by_cases hEq : b = a
    · simp [only, hEq]
    · simp [only, hEq, Ne.symm hEq]
  have hEq := hFlow.eq
  rw [total_only_balance, total_only_balance, feeIncome, hOnly, hOnly, hOnly] at hEq
  rw [hEq, Nat.add_assoc]
  have hRoom : balanceOf s a + (ex.actualFee tx.transaction).toNat <
      2 ^ 64 + if a = feePayer tx then (ex.actualFee tx.transaction).toNat else 0 := by
    by_cases hSame : a = feePayer tx
    · have hLe := (payer.balance).toNat_lt
      rw [if_pos hSame, hSame, balanceOf_eq hPayer]
      omega
    · have hLe := balanceOf_add_le hSame s
      rw [if_neg hSame]
      omega
  refine Nat.lt_of_le_of_lt ?_ hRoom
  split <;> split <;> omega

/-- The supply figures count what was taken, burnt and kept by the treasury. -/
theorem supplyOf_exact (hCharges : ex.Charges tx s) {fees : List StateChange}
    (hRun : (ex.collectFee tx proposer).run s = (.ok fees, t)) :
    (supplyOf t).getD SupplyInfo.default = (supplyOf s).getD SupplyInfo.default ∧
        ex.actualFee tx.transaction = 0 ∨
      (supplyOf t).getD SupplyInfo.default =
        Executor.supplyAfterFee ((supplyOf s).getD SupplyInfo.default)
          (ex.actualFee tx.transaction) (burnShare ex (ex.actualFee tx.transaction))
          (treasuryShare ex (ex.actualFee tx.transaction)) := by
  rw [supplyOf_collectFee hCharges hRun]
  by_cases hPos : 0 < ex.actualFee tx.transaction
  · rw [if_pos hPos]
    exact .inr rfl
  · rw [if_neg hPos]
    exact .inl ⟨rfl, eq_zero_of_not_pos hPos⟩

/-- **The accounts of a fee are exact**, whichever of the accounts involved are the same. -/
theorem collectFee_exact (sha256 : List UInt8 → Hash) (height : UInt64)
    (hGoes : ∀ e, ((ex.executeTransaction sha256 tx height proposer).run s).1 ≠ .err e)
    (hFits : accountTokens s < 2 ^ 64) (hNonces : ∀ a, nonceOf s a < u64Max)
    (hCounters : CountersFit ex (ex.actualFee tx.transaction)
      ((supplyOf s).getD SupplyInfo.default)) :
    ∃ fees t, (ex.collectFee tx proposer).run s = (.ok fees, t) ∧
      ExactFee ex tx proposer s t := by
  have hCharges : ex.Charges tx s := by
    have hTx := ex.executeTransaction_run sha256 tx height proposer s
    revert hGoes hTx
    generalize (ex.executeTransaction sha256 tx height proposer).run s = r
    intro hGoes hTx
    cases hTx with
    | rejected e _ => exact absurd rfl (hGoes e)
    | failed _ _ _ _ hCharges => exact hCharges
    | panicked _ _ _ hCharges => exact hCharges
    | succeeded _ _ _ _ _ _ _ hCharges => exact hCharges
  obtain ⟨fees, t, hRun, hCollected⟩ := ex.collectFee_ok proposer hCharges
  have hBurnt := (countsOnce_tokenFigure (c := ⟨1, 0, 0, 0⟩) fun _ => rfl).collectFee
    hCharges hRun
  have hBalance := balanceOf_collectFee hCharges hRun hFits
  have hSplit := shares_eq ex (ex.actualFee tx.transaction)
  obtain ⟨hFees, hBurned, hSupply, hTreasury⟩ := hCounters
  have hSigner : (nonceOf s tx.signer + 1).toNat = (nonceOf s tx.signer).toNat + 1 := by
    have hLt := UInt64.lt_iff_toNat_lt.mp (hNonces tx.signer)
    rw [UInt64.toNat_add]
    exact Nat.mod_eq_of_lt (Nat.succ_lt_succ hLt)
  have hOthers : ∀ a, a ≠ feePayer tx → a ≠ treasuryAccount ex → a ≠ proposer →
      balanceOf t a = balanceOf s a := by
    intro a hPayer hTreasury hProposer
    have hA := hBalance a
    rw [if_neg hPayer, if_neg hTreasury, if_neg hProposer] at hA
    exact hA
  have hFigures : ((supplyOf t).getD SupplyInfo.default).totalFeesCollected.toNat =
        ((supplyOf s).getD SupplyInfo.default).totalFeesCollected.toNat +
          (ex.actualFee tx.transaction).toNat ∧
      ((supplyOf t).getD SupplyInfo.default).totalBurned.toNat =
        ((supplyOf s).getD SupplyInfo.default).totalBurned.toNat +
          (burnShare ex (ex.actualFee tx.transaction)).toNat ∧
      ((supplyOf t).getD SupplyInfo.default).totalSupply.toNat +
          (burnShare ex (ex.actualFee tx.transaction)).toNat =
        ((supplyOf s).getD SupplyInfo.default).totalSupply.toNat ∧
      ((supplyOf t).getD SupplyInfo.default).treasuryBalance.toNat =
        ((supplyOf s).getD SupplyInfo.default).treasuryBalance.toNat +
          (treasuryShare ex (ex.actualFee tx.transaction)).toNat := by
    rcases supplyOf_exact hCharges hRun with ⟨hSame, hZero⟩ | hSame
    · have hNone : (ex.actualFee tx.transaction).toNat = 0 := by rw [hZero]; rfl
      rw [hSame]
      omega
    · rw [hSame]
      simp only [Executor.supplyAfterFee, SupplyInfo.recomputeCirculating, toNat_saturatingAdd,
        toNat_saturatingSub]
      omega
  refine ⟨fees, t, hRun, ⟨hBurnt.2 hFits, hSplit, hFigures.1, hFigures.2.1, hFigures.2.2.1,
    hFigures.2.2.2, ?_, ?_, hBalance, hOthers⟩⟩
  · rw [hCollected.nonce, Function.update_self, hSigner]
  · intro a hNe
    rw [hCollected.nonce, Function.update_of_ne hNe]

/-- A network whose treasury is the account of the trader. -/
def ownTreasury : Executor :=
  ⟨{ ChainConfig.default with treasuryAddress :=
      "0101010101010101010101010101010101010101010101010101010101010101" }, by decide⟩

/-- The trader is signer, payer, treasury and proposer at once, and loses what is burnt. -/
theorem collectFee_exact_ownTreasury :
    let tx := (traderCall 0 (.transfer (Address.ofByte 2) 5)).tx
    let s := withSupply traderStore { SupplyInfo.default with totalSupply := 1000000 }
    ∃ fees t, (ownTreasury.collectFee tx (Address.ofByte 1)).run s = (.ok fees, t) ∧
      ExactFee ownTreasury tx (Address.ofByte 1) s t := by
  intro tx s
  have hGoes : (((ownTreasury.executeTransaction (fun _ => Hash.zero) tx 1
      (Address.ofByte 1)).run s).1.toOption).isSome = true := by decide +kernel
  refine collectFee_exact (fun _ => Hash.zero) 1 (fun e he => ?_) ?_ (fun a => ?_) ?_
  · rw [he] at hGoes
    simp [Outcome.toOption] at hGoes
  · decide +kernel
  · have hAccount : accountOf s a = accountOf traderStore a := by
      rw [accountOf, show s.get? (.account a) = _ from Store.get?_insert_ne (by simp), accountOf]
    rw [nonceOf, hAccount, traderStore, accountOf_withAccount ∅ (a := Address.ofByte 1) rfl]
    split
    · decide
    · simp [accountOf, u64Max]
  · constructor <;> decide +kernel

end Polay.Validator
