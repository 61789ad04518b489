import Polay.Validator.Reachable

/-!
# Runs with their history

`ChainRun s₀ l s` says that the chain got from the state `s₀` into the state `s`
and that `l` are the turns of all block loops on the way, oldest first. A
`History` is a run from genesis; the states with a history are the reachable
ones. `ChainRun.rule` is the induction rule: what holds at the start and survives
the payout of matured unbondings, every turn and every operation between blocks,
holds along the run.
-/

namespace Polay.Validator

open Lib Lib.Machine Polay.Types State Execution

/-- A turn of the loop of a block, with the height and the proposer of the block. -/
structure Turn where
  height : UInt64
  proposer : Address
  step : Executor.BlockStep

/-- The turns of a block executed on a store. -/
def turnsOf (sha256 : List UInt8 → Hash) (ex : Executor) (txs : List SignedTransaction)
    (height : UInt64) (proposer : Address) (s : StateStore) : List Turn :=
  (ex.blockSteps sha256 txs height proposer s).map (Turn.mk height proposer)

/-- What a chain does from the state `s₀` on: the turns of its block loops and the
state it gets into. -/
inductive ChainRun (sha256 : List UInt8 → Hash) (ex : Executor) (s₀ : StateStore) :
    List Turn → StateStore → Prop
  | start : ChainRun sha256 ex s₀ [] s₀
  | block {l : List Turn} {s : StateStore} (h : ChainRun sha256 ex s₀ l s)
      (txs : List SignedTransaction) (height : UInt64) (proposer : Address) :
      ChainRun sha256 ex s₀ (l ++ turnsOf sha256 ex txs height proposer s)
        ((ex.executeBlock sha256 txs height proposer).run s).2
  | apply {l : List Turn} {s : StateStore} (h : ChainRun sha256 ex s₀ l s) (block : Block)
      (receipts : List TransactionReceipt) :
      ChainRun sha256 ex s₀ l
        ((ChainState.applyBlock block receipts : Exec ValidatorError Unit).run s).2
  | reward {l : List Turn} {s : StateStore} (h : ChainRun sha256 ex s₀ l s)
      (proposer : Address) :
      ChainRun sha256 ex s₀ l ((ex.applyBlockReward proposer).run s).2
  | epoch {l : List Turn} {s : StateStore} (h : ChainRun sha256 ex s₀ l s) (height : UInt64) :
      ChainRun sha256 ex s₀ l
        ((EpochManager.processEpochTransition ⟨ex.chainConfig⟩ height).run s).2

/-- The store a genesis document fills. -/
def IsGenesis (ex : Executor) (g : Genesis) (s : StateStore) : Prop :=
  (ChainState.initFromGenesis ⟨ex.chainConfig⟩ g).run ∅ = (.ok (), s)

/-- The turns on the way from genesis to a state. -/
def History (sha256 : List UInt8 → Hash) (ex : Executor) (l : List Turn) (s : StateStore) :
    Prop :=
  ∃ g s₀, IsGenesis ex g s₀ ∧ ChainRun sha256 ex s₀ l s

variable {sha256 : List UInt8 → Hash} {ex : Executor}

theorem ChainRun.reachable {s₀ : StateStore} (h₀ : Reachable sha256 ex s₀) {l : List Turn}
    {s : StateStore} (h : ChainRun sha256 ex s₀ l s) : Reachable sha256 ex s := by
  induction h with
  | start => exact h₀
  | block _ txs height proposer ih => exact ih.block txs height proposer
  | apply _ block receipts ih => exact ih.apply block receipts
  | reward _ proposer ih => exact ih.reward proposer
  | epoch _ height ih => exact ih.epoch height

/-- Every reachable state has a history. -/
theorem Reachable.exists_history {s : StateStore} (h : Reachable sha256 ex s) :
    ∃ l, History sha256 ex l s := by
  induction h with
  | @genesis g s h => exact ⟨[], g, s, h, .start⟩
  | block _ txs height proposer ih =>
      obtain ⟨l, g, s₀, hGenesis, hRun⟩ := ih
      exact ⟨_, g, s₀, hGenesis, hRun.block txs height proposer⟩
  | apply _ block receipts ih =>
      obtain ⟨l, g, s₀, hGenesis, hRun⟩ := ih
      exact ⟨l, g, s₀, hGenesis, hRun.apply block receipts⟩
  | reward _ proposer ih =>
      obtain ⟨l, g, s₀, hGenesis, hRun⟩ := ih
      exact ⟨l, g, s₀, hGenesis, hRun.reward proposer⟩
  | epoch _ height ih =>
      obtain ⟨l, g, s₀, hGenesis, hRun⟩ := ih
      exact ⟨l, g, s₀, hGenesis, hRun.epoch height⟩

/-! ## The induction rule -/

section Rule

variable {Inv : List Turn → StateStore → Prop}

/-- A turn that starts in the state `s`. -/
structure TurnFrom (sha256 : List UInt8 → Hash) (ex : Executor) (s : StateStore)
    (turn : Turn) : Prop where
  start : turn.step.before = s
  isStep : ex.IsStep sha256 turn.height turn.proposer turn.step
  backed : ListingsBacked s

/-- What every turn preserves, a whole loop preserves. -/
theorem invariant_steps
    (hTurn : ∀ l s turn, Inv l s → TurnFrom sha256 ex s turn →
      Inv (l ++ [turn]) turn.step.after)
    (height : UInt64) (proposer : Address) (txs : List SignedTransaction) {gas : UInt64}
    {l : List Turn} {s : StateStore} (hBacked : ListingsBacked s) (h : Inv l s) :
    Inv (l ++ (ex.steps sha256 height proposer gas s txs).map (Turn.mk height proposer))
      (Executor.storeAfter s (ex.steps sha256 height proposer gas s txs)) := by
  induction txs generalizing gas l s with
  | nil =>
      show Inv (l ++ []) s
      rwa [List.append_nil]
  | cons tx rest ih =>
      let r := ex.next sha256 height proposer gas s tx
      let turn : Turn := ⟨height, proposer, gas, s, tx, r.1.2, r.2⟩
      have hStep : ex.IsStep sha256 height proposer turn.step := ⟨rfl, rfl⟩
      have hNext : Inv (l ++ [turn]) r.2 := hTurn l s turn h ⟨rfl, hStep, hBacked⟩
      have hRest := @ih r.1.1 _ _ (hStep.listingsBacked hBacked) hNext
      rwa [List.append_assoc] at hRest

/-- What holds at the start of a run and everything a chain does preserves holds
along the run. -/
theorem ChainRun.rule
    (hUnbonded : ∀ l s height, Inv l s → Inv l (unbonded height s))
    (hTurn : ∀ l s turn, Inv l s → TurnFrom sha256 ex s turn →
      Inv (l ++ [turn]) turn.step.after)
    (hApply : ∀ l s block receipts, Inv l s →
      Inv l ((ChainState.applyBlock block receipts : Exec ValidatorError Unit).run s).2)
    (hReward : ∀ l s proposer, Inv l s → Inv l ((ex.applyBlockReward proposer).run s).2)
    (hEpoch : ∀ l s height, Inv l s →
      Inv l ((EpochManager.processEpochTransition ⟨ex.chainConfig⟩ height).run s).2)
    {s₀ : StateStore} (h₀ : Reachable sha256 ex s₀) (hStart : Inv [] s₀) {l : List Turn}
    {s : StateStore} (h : ChainRun sha256 ex s₀ l s) : Inv l s := by
  induction h with
  | start => exact hStart
  | @block l s hRun txs height proposer ih =>
      rw [Executor.run_executeBlock]
      have hBacked := (hRun.reachable h₀).listingsBacked.unbonded height
      exact invariant_steps hTurn height proposer txs hBacked (hUnbonded l s height ih)
  | apply _ block receipts ih => exact hApply _ _ block receipts ih
  | reward _ proposer ih => exact hReward _ _ proposer ih
  | epoch _ height ih => exact hEpoch _ _ height ih

/-- What holds of the empty store and survives payouts, turns and everything that writes only
the families of chain operations holds along every history. -/
theorem History.rule (hEmpty : Inv [] ∅)
    (hUnbonded : ∀ l s height, Inv l s → Inv l (unbonded height s))
    (hTurn : ∀ l s turn, Inv l s → TurnFrom sha256 ex s turn →
      Inv (l ++ [turn]) turn.step.after)
    (hBetween : ∀ l s t, Inv l s → Store.Holds (Keeps chainFamilies s) t → Inv l t)
    {l : List Turn} {s : StateStore} (h : History sha256 ex l s) : Inv l s := by
  obtain ⟨g, s₀, hGenesis, hRun⟩ := h
  have hInit := keeps_of_chainFrame (initFromGenesis_safe (s := ∅) ⟨ex.chainConfig⟩ g)
  rw [hGenesis] at hInit
  refine ChainRun.rule hUnbonded hTurn (fun l s block receipts hInv => ?_)
    (fun l s proposer hInv => ?_) (fun l s height hInv => ?_) (.genesis hGenesis)
    (hBetween [] ∅ s₀ hEmpty hInit) hRun
  · exact hBetween l s _ hInv (keeps_of_chainFrame (applyBlock_safe (lenient_chainFrame s) _ _))
  · exact hBetween l s _ hInv
      (keeps_of_chainFrame (applyBlockReward_safe (lenient_chainFrame s) _ _))
  · exact hBetween l s _ hInv
      (keeps_of_chainFrame (processEpochTransition_safe (lenient_chainFrame s) _ _))

end Rule

end Polay.Validator
