import Polay.Execution.Families
import Polay.Validator.Epoch

/-!
# Reachable states

A chain state is reached from genesis by executing blocks, recording them,
paying block rewards and processing epoch transitions. In every such state the
asset class of each listing exists: blocks keep this invariant, and nothing else
touches listings or asset classes. Because of it no action module fails after
its first write, so a failed action leaves the store as the fee stage left it.
-/

namespace Polay.Validator

open Lib Lib.Machine Polay.Types State Execution

/-- The states a chain can get into. -/
inductive Reachable (sha256 : List UInt8 → Hash) (ex : Executor) : StateStore → Prop
  | genesis {g : Genesis} {s : StateStore}
      (h : (ChainState.initFromGenesis ⟨ex.chainConfig⟩ g).run ∅ = (.ok (), s)) :
      Reachable sha256 ex s
  | block {s : StateStore} (h : Reachable sha256 ex s) (txs : List SignedTransaction)
      (height : UInt64) (proposer : Address) :
      Reachable sha256 ex ((ex.executeBlock sha256 txs height proposer).run s).2
  | apply {s : StateStore} (h : Reachable sha256 ex s) (block : Block)
      (receipts : List TransactionReceipt) :
      Reachable sha256 ex
        ((ChainState.applyBlock block receipts : Exec ValidatorError Unit).run s).2
  | reward {s : StateStore} (h : Reachable sha256 ex s) (proposer : Address) :
      Reachable sha256 ex ((ex.applyBlockReward proposer).run s).2
  | epoch {s : StateStore} (h : Reachable sha256 ex s) (height : UInt64) :
      Reachable sha256 ex ((EpochManager.processEpochTransition ⟨ex.chainConfig⟩ height).run s).2

/-! ## What chain operations leave alone -/

/-- Listings and asset classes are those of the store `s`. -/
def Untouched (s : StateStore) (k : Key) (r : Option k.Value) : Prop :=
  match k, r with
  | .listing i, r => r = s.get? (.listing i)
  | .assetClass i, r => r = s.get? (.assetClass i)
  | _, _ => True

theorem holds_untouched (s : StateStore) : Store.Holds (Untouched s) s := by
  intro k
  cases k
  case listing i => rfl
  case assetClass i => rfl
  all_goals trivial

/-- The families that operations between blocks write. -/
def chainFamilies : List Family :=
  [.account, .validator, .attestor, .supplyInfo, .chain, .stakingList]

/-- Records outside the chain families are those of the store `s`. -/
def ChainFrame (s : StateStore) (k : Key) (r : Option k.Value) : Prop :=
  match familyOf k with
  | .account | .validator | .attestor | .supplyInfo | .chain | .stakingList => True
  | _ => r = s.get? k

theorem holds_chainFrame (s : StateStore) : Store.Holds (ChainFrame s) s := by
  intro k
  unfold ChainFrame
  split
  all_goals trivial

/-- A program with the chain frame keeps the records outside the chain families. -/
theorem keeps_of_chainFrame {ε α : Type} {s : StateStore} {p : Exec ε α}
    (h : p.Safe (ChainFrame s) True True false) :
    Store.Holds (Keeps chainFamilies s) (p.run s).2 := by
  intro k hk
  have hHolds := (h.sound (holds_chainFrame s)).holds k
  unfold ChainFrame at hHolds
  cases hFamily : familyOf k <;> simp [hFamily, chainFamilies] at hk hHolds
  all_goals exact hHolds

theorem free_untouched (s : StateStore) : Free chainFamilies (Untouched s) := by
  intro k r hk
  cases k
  case listing | assetClass => simp [familyOf, chainFamilies] at hk
  all_goals trivial

theorem listingsBacked_of_chainFrame {ε α : Type} {s : StateStore} {p : Exec ε α}
    (hs : ListingsBacked s) (h : p.Safe (ChainFrame s) True True false) :
    ListingsBacked (p.run s).2 := by
  have hHolds := holds_of_keeps (free_untouched s) (holds_untouched s) (keeps_of_chainFrame h)
  exact hs.congr (fun i => hHolds (.listing i)) fun i => hHolds (.assetClass i)

section Operations

variable {s : StateStore} {w : Bool}

theorem registerInValidatorList_safe {ε : Type} {R : (k : Key) → Option k.Value → Prop}
    (hR : ∀ r, R .validatorAddresses r) (addr : Address) :
    (registerInValidatorList addr : Exec ε Unit).Safe R True True w := by
  simp [registerInValidatorList, loadValidatorList, saveValidatorList, storeGet, storePut,
    Prog.when, hR]

theorem chainFrame_validatorAddresses (r : Option Key.validatorAddresses.Value) :
    ChainFrame s .validatorAddresses r := trivial

theorem createGenesisValidator_safe (gv : GenesisValidator) :
    (ChainState.createGenesisValidator gv).Safe (ChainFrame s) True True w := by
  simp [ChainState.createGenesisValidator, setValidator, storePut, ChainFrame, familyOf,
    registerInValidatorList_safe chainFrame_validatorAddresses]

theorem createGenesisValidators_safe (gvs : List GenesisValidator) :
    (ChainState.createGenesisValidators gvs).Safe (ChainFrame s) True True w := by
  induction gvs generalizing w with
  | nil => trivial
  | cons gv rest ih =>
      refine (createGenesisValidator_safe gv).bind fun _ => ?_
      rw [Prog.bind_eq, Prog.safe_ofExcept_bind]
      exact ⟨fun _ _ _ => trivial, fun _ _ => ih.bind fun _ => trivial⟩

theorem backfillValidators_safe {R : (k : Key) → Option k.Value → Prop}
    (hR : ∀ r, R .validatorAddresses r) (gvs : List GenesisValidator) :
    (ChainState.backfillValidators gvs).Safe R True True w := by
  induction gvs generalizing w with
  | nil => trivial
  | cons gv rest ih =>
      show ((Prog.ofExcept _).bind _).Safe _ _ _ _
      rw [Prog.safe_ofExcept_bind]
      exact ⟨fun _ _ _ => trivial, fun _ _ =>
        (registerInValidatorList_safe hR _).bind fun _ => ih.bind fun _ => trivial⟩

theorem initFromGenesis_safe (cs : ChainState) (g : Genesis) :
    (cs.initFromGenesis g).Safe (ChainFrame s) True True false := by
  have hTail : ∀ addrs : List Address, Prog.Safe (ChainFrame s) True True (ε := ValidatorError)
      (do
        setActiveValidatorSet addrs
        setEpochInfo (cs.genesisEpoch g addrs)
        Prog.each ChainState.createGenesisAttestor g.attestors
        setChainHeight 0
        setLatestHash Hash.zero
        setSupplyInfo (ChainState.genesisSupply g)) true := by
    intro addrs
    refine ⟨trivial, trivial, ?_⟩
    show ((Prog.each _ _).bind _).Safe _ _ _ _
    refine Prog.Safe.bind (Prog.Safe.each fun ga _ => ?_) fun _ =>
      ⟨trivial, trivial, trivial, trivial⟩
    simp [ChainState.createGenesisAttestor, setAttestor, storePut, ChainFrame, familyOf]
  intro r _
  show Prog.Safe _ _ _ (if _ then _ else _) _
  rw [Prog.safe_ite]
  refine ⟨fun _ => ?_, fun _ => ?_⟩
  · intro r _
    show ((Prog.when _ _)).Safe _ _ _ _
    unfold Prog.when
    rw [Prog.safe_ite]
    exact ⟨fun _ => (backfillValidators_safe chainFrame_validatorAddresses _).bind fun _ =>
      ⟨trivial, trivial, trivial⟩, fun _ => trivial⟩
  · refine Prog.Safe.bind (Prog.Safe.of_true (Prog.Safe.each fun ga _ => ?_) _) fun _ =>
      (createGenesisValidators_safe _).bind hTail
    simp [ChainState.createGenesisAccount, setAccount, storePut, ChainFrame, familyOf]

end Operations

/-! ## Operations between blocks -/

/-- A relation that allows what is done between blocks: anything to accounts, supply
figures and chain records, lifting a jail term and counting a block. -/
structure Lenient (R : (k : Key) → Option k.Value → Prop) : Prop where
  free : Free [.account, .supplyInfo, .chain] R
  unjail : ∀ v : ValidatorInfo, R (.validator v.address) (some ⟨v, rfl⟩) →
    R (.validator v.address) (some ⟨{ v with status := .active, jailedUntil := none }, rfl⟩)
  count : ∀ (v : ValidatorInfo) (n : UInt64), R (.validator v.address) (some ⟨v, rfl⟩) →
    R (.validator v.address) (some ⟨{ v with blocksProduced := n }, rfl⟩)

/-- A relation that allows what rewards and epochs do. Unlike a lenient one it may speak
about the blocks. -/
structure Tolerant (R : (k : Key) → Option k.Value → Prop) : Prop where
  free : Free [.account, .supplyInfo] R
  activeSet : ∀ r, R .activeValidatorSet r
  epoch : ∀ n r, R (.epoch n) r
  unjail : ∀ v : ValidatorInfo, R (.validator v.address) (some ⟨v, rfl⟩) →
    R (.validator v.address) (some ⟨{ v with status := .active, jailedUntil := none }, rfl⟩)
  count : ∀ (v : ValidatorInfo) (n : UInt64), R (.validator v.address) (some ⟨v, rfl⟩) →
    R (.validator v.address) (some ⟨{ v with blocksProduced := n }, rfl⟩)

theorem Lenient.tolerant {R : (k : Key) → Option k.Value → Prop} (hR : Lenient R) :
    Tolerant R where
  free := fun k r hk => hR.free k r
    ((by simp : [Family.account, .supplyInfo] ⊆ [.account, .supplyInfo, .chain]) hk)
  activeSet := fun r => hR.free _ r (by simp [familyOf])
  epoch := fun _ r => hR.free _ r (by simp [familyOf])
  unjail := hR.unjail
  count := hR.count

theorem lenient_chainFrame (s : StateStore) : Lenient (ChainFrame s) where
  free := by
    intro k r hk
    unfold ChainFrame
    split
    case h_7 hAccount _ _ hSupply hChain _ =>
      simp only [List.mem_cons, List.not_mem_nil, or_false] at hk
      rcases hk with hk | hk | hk
      · exact absurd hk hAccount
      · exact absurd hk hSupply
      · exact absurd hk hChain
    all_goals trivial
  unjail _ _ := trivial
  count _ _ _ := trivial

section Lenient

variable {R : (k : Key) → Option k.Value → Prop} {w : Bool}
variable {ε : Type}

theorem Tolerant.account (hR : Tolerant R) (a : Address) (r : Option (Key.account a).Value) :
    R (.account a) r := hR.free _ _ (by simp [familyOf])

theorem Tolerant.supplyInfo (hR : Tolerant R) (r : Option Key.supplyInfo.Value) :
    R .supplyInfo r := hR.free _ _ (by simp [familyOf])

/-- A stored validator is filed under its own address. -/
theorem stored_validator {a : Address} (v : ValidatorInfo) (hv : v.address = a)
    (h : R (.validator a) (some ⟨v, hv⟩)) : R (.validator v.address) (some ⟨v, rfl⟩) := by
  subst hv
  exact h

theorem recordReceipts_safe (hR : Free [.chain] R) (height : UInt64) (idx : Nat)
    (receipts : List TransactionReceipt) :
    (ChainState.recordReceipts height idx receipts : Exec ε Unit).Safe R True True true := by
  induction receipts generalizing idx with
  | nil => trivial
  | cons receipt rest ih => exact ⟨hR _ _ (by simp [familyOf]), hR _ _ (by simp [familyOf]), ih _⟩

/-- Recording a block writes chain records only. -/
theorem applyBlock_free (hR : Free [.chain] R) (block : Block)
    (receipts : List TransactionReceipt) :
    (ChainState.applyBlock block receipts : Exec ε Unit).Safe R True True false := by
  have hChain (k : Key) (hk : familyOf k = .chain) (r : Option k.Value) : R k r :=
    hR k r (by simp [hk])
  refine ⟨hChain _ rfl _, (recordReceipts_safe hR _ _ _).bind fun _ => ?_⟩
  show ((Prog.when _ _).bind _).Safe _ _ _ _
  rw [Prog.safe_when_bind]
  exact ⟨fun _ => ⟨hChain _ rfl _, hChain _ rfl _, hChain _ rfl _, trivial⟩,
    fun _ => ⟨hChain _ rfl _, hChain _ rfl _, trivial⟩⟩

theorem applyBlock_safe (hR : Lenient R) (block : Block) (receipts : List TransactionReceipt) :
    (ChainState.applyBlock block receipts : Exec ε Unit).Safe R True True false :=
  applyBlock_free (fun k r hk => hR.free k r (by simp_all)) block receipts

theorem Tolerant.applyBlockReward (hR : Tolerant R) (ex : Executor) (proposer : Address) :
    (ex.applyBlockReward proposer).Safe R True True false := by
  unfold Executor.applyBlockReward
  rw [Prog.safe_ite]
  refine ⟨fun _ => trivial, fun _ r _ => ⟨hR.account _ _, fun supply _ => ?_⟩⟩
  have hCount : (Executor.countBlock proposer).Safe R True True true := by
    intro v hv
    cases v with
    | none => trivial
    | some vi => exact ⟨hR.count vi.val _ (stored_validator vi.val vi.property hv), trivial⟩
  cases supply with
  | none => exact hCount
  | some supply => exact ⟨hR.supplyInfo _, hCount⟩

theorem applyBlockReward_safe (hR : Lenient R) (ex : Executor) (proposer : Address) :
    (ex.applyBlockReward proposer).Safe R True True false :=
  hR.tolerant.applyBlockReward ex proposer

theorem payOut_safe (hR : Tolerant R) (payouts : List (Address × UInt64)) (addr : Address)
    (amount : UInt64) : (StakingModule.payOut payouts addr amount).Safe R True True w := by
  unfold StakingModule.payOut
  rw [Prog.safe_ite]
  exact ⟨fun _ _ _ => ⟨hR.account _ _, trivial⟩, fun _ => trivial⟩

theorem payDelegator_safe (hR : Tolerant R) (pool total : UInt64)
    (payouts : List (Address × UInt64)) (d : Delegation) :
    (StakingModule.payDelegator pool total payouts d).Safe R True True w := by
  simp [StakingModule.payDelegator, payOut_safe hR]

theorem loadDelegations_safe (v : Address) (l : List Address) :
    (StakingModule.loadDelegations v l : Exec ε _).Safe R True True w := by
  induction l generalizing w with
  | nil => trivial
  | cons d rest ih => exact fun _ _ => ih.bind fun _ => trivial

theorem payValidator_safe (hR : Tolerant R) (reward stake epoch : UInt64)
    (payouts : List (Address × UInt64)) (v : ValidatorInfo) :
    (StakingModule.payValidator reward stake epoch payouts v).Safe R True True true := by
  unfold StakingModule.payValidator
  rw [Prog.safe_ite]
  refine ⟨fun _ => trivial, fun _ => ?_⟩
  rw [Prog.bind_eq, Prog.safe_require_bind]
  refine ⟨fun _ _ => trivial, fun _ _ => (payOut_safe hR _ _ _).bind fun _ => ?_⟩
  refine Prog.Safe.bind (fun _ _ => loadDelegations_safe _ _) fun _ => ?_
  rw [Prog.safe_ite]
  exact ⟨fun _ => Prog.Safe.fold fun _ _ _ => payDelegator_safe hR _ _ _ _, fun _ => trivial⟩

theorem distributeEpochRewards_safe (hR : Tolerant R) (vs : List ValidatorInfo) (epoch : UInt64)
    (config : ChainConfig) :
    (StakingModule.distributeEpochRewards vs epoch config).Safe R True True true := by
  unfold StakingModule.distributeEpochRewards
  rw [Prog.safe_ite]
  refine ⟨fun _ => trivial, fun _ _ _ => ?_⟩
  show ((Prog.fold _ _ _).bind _).Safe _ _ _ _
  refine Prog.Safe.bind (Prog.Safe.fold fun _ _ _ => payValidator_safe hR _ _ _ _ _) fun _ => ?_
  rw [Prog.bind_eq, Prog.safe_require_bind]
  refine ⟨fun _ _ => trivial, fun _ _ => ?_⟩
  rw [Prog.bind_eq, Prog.safe_when_bind]
  exact ⟨fun _ _ _ => ⟨hR.supplyInfo _, trivial⟩, fun _ => trivial⟩

/-- Validators as they are stored. -/
def Loaded (R : (k : Key) → Option k.Value → Prop) (vs : List ValidatorInfo) : Prop :=
  ∀ v ∈ vs, R (.validator v.address) (some ⟨v, Key.files_validator v⟩)

theorem loadValidators_bind_safe {β : Type} (l : List Address) {f : List ValidatorInfo → Exec ε β}
    (h : ∀ vs, Loaded R vs → (f vs).Safe R True True w) :
    ((StakingModule.loadValidators l).bind f).Safe R True True w := by
  induction l generalizing f with
  | nil => exact h [] (by simp [Loaded])
  | cons a rest ih =>
      intro r hr
      show (((StakingModule.loadValidators rest).bind _).bind f).Safe _ _ _ _
      rw [Prog.bind_assoc]
      refine ih fun vs hvs => h _ ?_
      cases r with
      | none => exact hvs
      | some v =>
          intro v' hv'
          rcases List.mem_cons.mp hv' with rfl | hMem
          · exact stored_validator v.val v.property hr
          · exact hvs v' hMem

theorem getValidatorSet_bind_safe {β : Type} {f : List ValidatorInfo → Exec ε β}
    (h : ∀ vs, Loaded R vs → (f vs).Safe R True True w) :
    ((StakingModule.getValidatorSet).bind f).Safe R True True w :=
  fun _ _ => loadValidators_bind_safe _ h

theorem Tolerant.unjailElapsed (hR : Tolerant R) (height : UInt64) {vs : List ValidatorInfo}
    (hvs : Loaded R vs) : (EpochManager.unjailElapsed height vs).Safe R True True w := by
  induction vs generalizing w with
  | nil => trivial
  | cons v rest ih =>
      have hRest : Loaded R rest := fun v' hv' => hvs v' (List.mem_cons_of_mem v hv')
      have hHead := hR.unjail v (hvs v (List.mem_cons_self ..))
      unfold EpochManager.unjailElapsed
      split
      · rw [Prog.safe_ite]
        exact ⟨fun _ => ⟨hHead, (ih hRest).bind fun _ => trivial⟩, fun _ => ih hRest⟩
      · exact ih hRest

theorem unjailElapsed_safe (hR : Lenient R) (height : UInt64) {vs : List ValidatorInfo}
    (hvs : Loaded R vs) : (EpochManager.unjailElapsed height vs).Safe R True True w :=
  hR.tolerant.unjailElapsed height hvs

theorem Tolerant.processEpochTransition (hR : Tolerant R) (em : EpochManager)
    (height : UInt64) :
    (em.processEpochTransition height).Safe R True True false := by
  unfold EpochManager.processEpochTransition
  rw [Prog.bind_eq, Prog.safe_assert_bind]
  refine ⟨fun _ => trivial, fun _ => getValidatorSet_bind_safe fun vs hvs =>
    (hR.unjailElapsed height hvs).bind fun _ => getValidatorSet_bind_safe fun _ _ => ?_⟩
  rw [Prog.bind_eq, Prog.safe_unwrap_bind]
  exact ⟨fun _ => trivial, fun _ _ => ⟨hR.activeSet _,
    (distributeEpochRewards_safe hR _ _ _).bind fun _ => ⟨hR.epoch _ _, trivial⟩⟩⟩

theorem processEpochTransition_safe (hR : Lenient R) (em : EpochManager) (height : UInt64) :
    (em.processEpochTransition height).Safe R True True false :=
  hR.tolerant.processEpochTransition em height

end Lenient

/-! ## The invariant -/

theorem listingsBacked_empty : ListingsBacked (∅ : StateStore) := by
  intro i l h
  simp at h

/-- In every reachable state the asset class of each listing exists. -/
theorem Reachable.listingsBacked {sha256 : List UInt8 → Hash} {ex : Executor} {s : StateStore}
    (h : Reachable sha256 ex s) : ListingsBacked s := by
  induction h with
  | @genesis g s hInit =>
      have hSafe := listingsBacked_of_chainFrame listingsBacked_empty
        (initFromGenesis_safe ⟨ex.chainConfig⟩ g)
      rwa [hInit] at hSafe
  | block _ txs height proposer ih =>
      rw [Executor.run_executeBlock]
      exact ex.listingsBacked_blockStore sha256 ih txs height proposer
  | apply _ block receipts ih =>
      exact listingsBacked_of_chainFrame ih (applyBlock_safe (lenient_chainFrame _) _ _)
  | reward _ proposer ih =>
      exact listingsBacked_of_chainFrame ih (applyBlockReward_safe (lenient_chainFrame _) _ _)
  | epoch _ height ih =>
      exact listingsBacked_of_chainFrame ih (processEpochTransition_safe (lenient_chainFrame _) _ _)

/-- A failed action changes nothing but the fee: whatever the action, if the fee
is collected and the handler then returns an error, the transaction leaves the
store exactly as the fee stage left it. -/
theorem failed_action_keeps_fee_stage {sha256 : List UInt8 → Hash} {ex : Executor}
    {s s₁ s₂ : StateStore} (hReachable : Reachable sha256 ex s) (tx : SignedTransaction)
    (height : UInt64) (proposer : Address) {fees : List StateChange} {e : ExecutionError}
    (hFee : (ex.collectFee tx proposer).run s = (.ok fees, s₁))
    (hAction : (ex.dispatchAction sha256 tx.transaction.action tx.signer
      tx.transaction.timestamp height).run s₁ = (.err e, s₂)) :
    ((ex.executeTransaction sha256 tx height proposer).run s).2 = s₁ := by
  have hRun := ex.executeTransaction_run sha256 tx height proposer s
  generalize (ex.executeTransaction sha256 tx height proposer).run s = result at hRun
  cases hRun with
  | rejected e' hCharges =>
      obtain ⟨e'', he⟩ := ex.collectFee_err proposer hCharges
      rw [he] at hFee
      cases hFee
  | failed fees' s₁' e' s₂' _ hFee' hCollected hAction' =>
      cases hFee.symm.trans hFee'
      have hBacked := hCollected.listingsBacked hReachable.listingsBacked
      have hSame := ex.dispatchAction_err sha256 hBacked (congrArg Prod.fst hAction')
      exact (congrArg Prod.snd hAction').symm.trans hSame
  | panicked _ _ _ _ hFee' _ hAction' | succeeded _ _ _ _ _ _ _ _ hFee' _ hAction' =>
      cases hFee.symm.trans hFee'
      cases hAction.symm.trans hAction'

/-- A genesis with one funded account. -/
def onePlayer : Genesis where
  accounts := [⟨"0101010101010101010101010101010101010101010101010101010101010101", 1000000⟩]
  validators := []
  attestors := []
  initialSupply := 1000000

/-- The store of the development network after `onePlayer`. -/
def onePlayerStore : StateStore :=
  ((ChainState.initFromGenesis ⟨ChainConfig.default⟩ onePlayer).run ∅).2

/-- A transaction of the player of `onePlayer`. -/
def playerTx (nonce : UInt64) (action : TransactionAction) : SignedTransaction where
  transaction :=
    { chainId := "polay-devnet-1", nonce, signer := Address.ofByte 1, action
      maxFee := 1000000, timestamp := 7, session := none, sponsor := none }
  signature := Signature.zero
  txHash := Hash.zero
  signerPubkey := []

/-- A transfer of more than the player has. -/
def overdraft : SignedTransaction where
  transaction :=
    { chainId := "polay-devnet-1", nonce := 0, signer := Address.ofByte 1
      action := .transfer (Address.ofByte 2) 5000000, maxFee := 100000, timestamp := 0
      session := none, sponsor := none }
  signature := Signature.zero
  txHash := Hash.zero
  signerPubkey := []

theorem failed_action_keeps_fee_stage_overdraft :
    ((Executor.devnet.executeTransaction (fun _ => Hash.zero) overdraft 1
      Address.zero).run onePlayerStore).2 =
      ((Executor.devnet.collectFee overdraft Address.zero).run onePlayerStore).2 := by
  have hGenesis : Reachable (fun _ => Hash.zero) Executor.devnet onePlayerStore :=
    .genesis (g := onePlayer) (Prod.ext (by decide +kernel) rfl)
  have hFee : ((Executor.devnet.collectFee overdraft Address.zero).run onePlayerStore).1 =
      .ok [.feeDeducted (Address.ofByte 1) 27872, .nonceIncremented (Address.ofByte 1)] := by
    decide +kernel
  have hAction : ((Executor.devnet.dispatchAction (fun _ => Hash.zero)
      overdraft.transaction.action overdraft.signer overdraft.transaction.timestamp 1).run
      ((Executor.devnet.collectFee overdraft Address.zero).run onePlayerStore).2).1 =
      .err (.insufficientBalance 5000000 972128) := by
    decide +kernel
  generalize hStore : (Executor.devnet.collectFee overdraft Address.zero).run onePlayerStore =
    charged at hFee hAction ⊢
  obtain ⟨outcome, s₁⟩ := charged
  cases hFee
  generalize hRun : (Executor.devnet.dispatchAction _ _ _ _ _).run s₁ = result at hAction
  obtain ⟨outcome, s₂⟩ := result
  cases hAction
  exact failed_action_keeps_fee_stage hGenesis overdraft 1 Address.zero hStore hRun

end Polay.Validator
