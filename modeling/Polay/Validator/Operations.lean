import Polay.Validator.Genesis
import Polay.Validator.Rewards

/-!
# Operations on a chain

A chain is driven by blocks, by the records and the rewards after a block, by
epochs, and by the staking module when a validator is slashed. `ChainOp.next`
runs one of these on a store; a sequence of them is a run. `ChainOp.block_rule`
reduces a block to the payout of matured unbondings and its turns. The supply
figures change with fees and rewards only, and the sums a genesis document lists
are those of its store.
-/

namespace Polay.Validator

open Lib Lib.Machine Polay.Types State Execution
open Execution.Executor (feePayer)

/-- An operation on the state of a chain. -/
inductive ChainOp where
  | block (txs : List SignedTransaction) (height : UInt64) (proposer : Address)
  | apply (block : Block) (receipts : List TransactionReceipt)
  | reward (proposer : Address)
  | epoch (height : UInt64)
  | slash (validator : Address) (fractionBps : UInt16) (reason : String) (height : UInt64)

/-- The state after an operation. -/
def ChainOp.next (sha256 : List UInt8 → Hash) (ex : Executor) (s : StateStore) :
    ChainOp → StateStore
  | .block txs height proposer => ((ex.executeBlock sha256 txs height proposer).run s).2
  | .apply b receipts =>
      ((ChainState.applyBlock b receipts : Exec ValidatorError Unit).run s).2
  | .reward proposer => ((ex.applyBlockReward proposer).run s).2
  | .epoch height => ((EpochManager.processEpochTransition ⟨ex.chainConfig⟩ height).run s).2
  | .slash validator fractionBps reason height =>
      ((StakingModule.processSlashing validator fractionBps reason height).run s).2

section Blocks

variable {sha256 : List UInt8 → Hash} {ex : Executor} {s : StateStore}

/-- What every turn that charges a transaction preserves, the loop preserves. -/
theorem steps_rule {I : StateStore → Prop} {P : Executor.BlockStep → Prop} {height : UInt64}
    {proposer : Address}
    (hTx : ∀ st, P st → ex.Charges st.tx st.before → I st.before →
      I ((ex.executeTransaction sha256 st.tx height proposer).run st.before).2)
    {txs : List SignedTransaction} {gas : UInt64} {t : StateStore}
    (hSteps : ∀ st ∈ ex.steps sha256 height proposer gas t txs, P st) (ht : I t) :
    I (Executor.storeAfter t (ex.steps sha256 height proposer gas t txs)) := by
  induction txs generalizing gas t with
  | nil => exact ht
  | cons tx rest ih =>
      let r := ex.next sha256 height proposer gas t tx
      let st : Executor.BlockStep := ⟨gas, t, tx, r.1.2, r.2⟩
      have hIsStep : ex.IsStep sha256 height proposer st := ⟨rfl, rfl⟩
      refine ih (fun st' hst' => hSteps st' (List.mem_cons_of_mem _ hst')) ?_
      show I st.after
      by_cases hCharged : ex.Charged st
      · rw [(hIsStep.after_charged hCharged).1]
        exact hTx st (hSteps st List.mem_cons_self) hCharged.2 ht
      · rw [hIsStep.after_eq hCharged]
        exact ht

/-- What the payout and every turn that charges a transaction preserve, a block preserves. -/
theorem ChainOp.block_rule {I : StateStore → Prop} {P : Executor.BlockStep → Prop}
    {txs : List SignedTransaction} {height : UInt64} {proposer : Address}
    (hSteps : ∀ st ∈ ex.blockSteps sha256 txs height proposer s, P st)
    (hStart : I (unbonded height s))
    (hTx : ∀ st, P st → ex.Charges st.tx st.before → I st.before →
      I ((ex.executeTransaction sha256 st.tx height proposer).run st.before).2) :
    I (ChainOp.next sha256 ex s (.block txs height proposer)) := by
  show I ((ex.executeBlock sha256 txs height proposer).run s).2
  rw [Executor.run_executeBlock]
  exact steps_rule hTx hSteps hStart

end Blocks

/-! ## The supply figures -/

section Supply

variable {sha256 : List UInt8 → Hash} {ex : Executor} {s t : StateStore}
variable {tx : SignedTransaction} {height : UInt64} {proposer : Address}

/-- The supply figures after the fee of a transaction. -/
def supplyAfterTx (ex : Executor) (tx : SignedTransaction) (info : SupplyInfo) : SupplyInfo :=
  if 0 < ex.actualFee tx.transaction then
    Executor.supplyAfterFee info (ex.actualFee tx.transaction)
      (burnShare ex (ex.actualFee tx.transaction)) (treasuryShare ex (ex.actualFee tx.transaction))
  else info

theorem supplyOf_distributed (fee : UInt64) (proposer : Address) (s : StateStore) :
    supplyOf (ex.distributed fee proposer s) =
      some (Executor.supplyAfterFee ((supplyOf s).getD SupplyInfo.default) fee
        (burnShare ex fee) (treasuryShare ex fee)) := by
  have hCredit : ∀ (t : StateStore) (c : Prop) [Decidable c] (a : Address) (n : UInt64),
      supplyOf (if c then Executor.creditedStore t a 0 n else t) = supplyOf t := by
    intro t c _ a n
    split
    · exact supplyOf_of_keeps (creditedStore_keeps t a 0 n) (by simp)
    · rfl
  unfold Executor.distributed
  dsimp only
  refine (supplyOf_withSupply _ _).trans ?_
  change some (Executor.supplyAfterFee ((supplyOf _).getD SupplyInfo.default) _ _ _) = _
  rw [hCredit, hCredit]
  rfl

/-- The fee stage writes the supply figures if there is a fee. -/
theorem supplyOf_collectFee (hCharges : ex.Charges tx s) {fees : List StateChange}
    (hRun : (ex.collectFee tx proposer).run s = (.ok fees, t)) :
    supplyOf t = if 0 < ex.actualFee tx.transaction then
      some (Executor.supplyAfterFee ((supplyOf s).getD SupplyInfo.default)
        (ex.actualFee tx.transaction) (burnShare ex (ex.actualFee tx.transaction))
        (treasuryShare ex (ex.actualFee tx.transaction)))
      else supplyOf s := by
  obtain ⟨_, s', hRun', _, hOther⟩ := ex.collectFee_run proposer hCharges
  rw [hRun] at hRun'
  obtain rfl := (Prod.mk.inj hRun').2
  have hSame : supplyOf s' = supplyOf s := by
    rw [supplyOf, hOther _ (by simp), supplyOf]
  split
  · rw [supplyOf_distributed, hSame]
  · exact hSame

/-- The fee stage takes the burnt share. -/
theorem CountsOnce.collectFee {w : (k : Key) → k.Value → Nat} (hw : CountsOnce w)
    (hCharges : ex.Charges tx s) {fees : List StateChange}
    (hRun : (ex.collectFee tx proposer).run s = (.ok fees, t)) :
    Store.total w t + (burnShare ex (ex.actualFee tx.transaction)).toNat ≤ Store.total w s ∧
      (Store.total w s < 2 ^ 64 →
        Store.total w t + (burnShare ex (ex.actualFee tx.transaction)).toNat =
          Store.total w s) := by
  obtain ⟨⟨c, hC, hUnit⟩, _⟩ := hw
  have hFlow := hC.collectFee hCharges hRun
  have hShares := shares_eq ex (ex.actualFee tx.transaction)
  rw [feeIncome, hUnit, hUnit, hUnit, Nat.one_mul, Nat.one_mul, Nat.one_mul] at hFlow
  have hLe := hFlow.le
  refine ⟨by omega, fun hFits => ?_⟩
  have hEq := hFlow.eq (by omega)
  omega

/-- A transaction that is charged changes the supply figures by its fee only. -/
theorem supplyOf_transaction {info : SupplyInfo} (hInfo : supplyOf s = some info)
    (hCharges : ex.Charges tx s) :
    supplyOf ((ex.executeTransaction sha256 tx height proposer).run s).2 =
      some (supplyAfterTx ex tx info) := by
  obtain ⟨s₁, hStages⟩ := (ex.executeTransaction_run sha256 tx height proposer s).stages_of_charges
    hCharges
  have hFee : supplyOf s₁ = some (supplyAfterTx ex tx info) := by
    obtain ⟨changes, hRun⟩ := hStages.ran
    rw [supplyOf_collectFee hCharges hRun, hInfo]
    unfold supplyAfterTx
    split <;> rfl
  have hAction : supplyOf ((ex.action sha256 tx height).run s₁).2 = supplyOf s₁ := by
    have hKeeps := dispatchAction_keeps sha256 ex tx.transaction.action tx.signer
      tx.transaction.timestamp height (s := s₁)
    refine supplyOf_of_keeps (run_keeps hKeeps) ?_
    cases tx.transaction.action <;> simp [writtenBy]
  rw [supplyOf_of_keeps hStages.spent (by simp), hAction, hFee]

theorem applyBlock_keeps {ε : Type} (block : Block) (receipts : List TransactionReceipt)
    (s : StateStore) :
    Store.Holds (Keeps [.chain] s)
      ((ChainState.applyBlock block receipts : Exec ε Unit).run s).2 :=
  run_keeps (applyBlock_free (free_keeps (List.Subset.refl _) s) block receipts)

end Supply

/-! ## The sums of genesis -/

section Genesis

variable {cs : ChainState} {g : Genesis} {s s₁ s₂ s₃ t : StateStore} {addrs : List Address}

/-- The tokens on accounts. -/
def accountTokens (s : StateStore) : Nat := Store.total (tokenFigure ⟨1, 0, 0, 0⟩) s

/-- The tokens in the queue of unbondings. -/
def pendingTokens (s : StateStore) : Nat := Store.total (tokenFigure ⟨0, 0, 1, 0⟩) s

/-- The stakes a document lists. -/
def listedStake (g : Genesis) : Nat := (g.validators.map fun gv => gv.stake.toNat).sum

/-- New validators add their stakes. -/
theorem stakedTokens_loaded {gvs : List GenesisValidator}
    (h : (ChainState.createGenesisValidators gvs).run s = (.ok addrs, t))
    (hFresh : ∀ a ∈ addrs, validatorOf s a = none) (hNodup : addrs.Nodup) :
    stakedTokens t = stakedTokens s + (gvs.map fun gv => gv.stake.toNat).sum := by
  induction gvs generalizing s addrs with
  | nil =>
      cases h
      simp
  | cons gv rest ih =>
      obtain ⟨a, s₁, more, -, hStore, hParse, hRest, rfl⟩ :=
        createGenesisValidators_cons_eq_ok h
      have hSame (b : Address) : validatorOf s₁ b =
          validatorOf (withValidator s (genesisRecord gv a)) b := by
        rw [hStore, validatorOf, get?_listedStore (by simp), validatorOf]
      obtain ⟨hNew, hMore⟩ := List.nodup_cons.mp hNodup
      have hLater := ih hRest (fun b hb => ?_) hMore
      · have hFirstTotal : stakedTokens s₁ = stakedTokens s + gv.stake.toNat := by
          have hList : stakedTokens s₁ =
              stakedTokens (withValidator s (genesisRecord gv a)) := by
            refine Store.total_congr fun k => ?_
            by_cases hk : k = .validatorAddresses
            · rw [hk, Store.figureAt_eq_zero _ fun _ => rfl, Store.figureAt_eq_zero _ fun _ => rfl]
            · rw [Store.figureAt, hStore, get?_listedStore hk, Store.figureAt]
          have hWrite := (counts_tokenFigure ⟨0, 0, 0, 1⟩).total_withValidator (s := s)
            (v := genesisRecord gv a) (a := a) rfl
          have hNone : stakeAt s a = 0 := by
            rw [stakeAt, hFresh a List.mem_cons_self]
            rfl
          rw [hNone] at hWrite
          rw [hList]
          simpa [stakedTokens, genesisRecord] using hWrite
        rw [hLater, hFirstTotal, List.map_cons, List.sum_cons]
        omega
      · rw [hSame, validatorOf_withValidator]
        have hOther : b ≠ (genesisRecord gv a).address := by
          rintro rfl
          exact hNew hb
        rw [if_neg hOther]
        exact hFresh b (List.mem_cons_of_mem _ hb)

/-- The stored stakes are the listed ones, if the validators are different. -/
theorem GenesisStages.stakedTokens_eq (h : GenesisStages cs g s₁ s₂ s₃ s addrs)
    (hDistinct : (g.validators.map fun gv => (parseAddress gv.address).toOption).Nodup) :
    stakedTokens s = listedStake g := by
  have hNodup : addrs.Nodup :=
    (nodup_of_distinct (validators_loaded h.validators).1).mp hDistinct
  have hNone (a : Address) : validatorOf s₁ a = none := by
    rw [validatorOf, h.accounts_keeps (.validator a) (by simp [familyOf])]
    simp
  have hLoaded := stakedTokens_loaded h.validators (fun a _ => hNone a) hNodup
  have hEmpty : stakedTokens s₁ = 0 := by
    refine Store.total_eq_zero fun k => ?_
    cases k
    case validator a =>
      rw [(counts_tokenFigure _).figureAt_validator, stakeAt, hNone]
      rfl
    all_goals exact Store.figureAt_eq_zero _ fun x => by simp [tokenFigure]
  have hTail : stakedTokens s = stakedTokens s₂ := by
    refine total_of_keeps h.tail_keeps fun k hk x => ?_
    cases k <;> first
      | rfl
      | exact absurd hk (by simp [familyOf])
  rw [hTail, hLoaded, hEmpty, Nat.zero_add]
  rfl

/-- The stake in the supply figures, if the listed stakes fit into 64 bits. -/
theorem toNat_genesisStake (h : listedStake g < 2 ^ 64) :
    (ChainState.genesisStake g).toNat = listedStake g :=
  (toNat_foldl_add GenesisValidator.stake g.validators 0 (by simpa [listedStake] using h)).trans
    (Nat.zero_add _)

end Genesis

end Polay.Validator
