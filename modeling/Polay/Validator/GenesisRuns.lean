import Polay.Validator.History

/-!
# What genesis writes

Genesis writes the accounts, then the validators together with the list the staking
module finds them through, and then everything else: the active set, the record of
epoch 0, the attestors, the height and the supply figures. `stages_of_genesis` cuts a
successful run there. Loading fails only where an address is no hexadecimal text of
32 bytes (`genesis_succeeds_iff`).
-/

namespace Polay.Validator

open Lib Lib.Machine Polay.Types State Execution

/-- The validator stored under an address. -/
def validatorOf (s : StateStore) (a : Address) : Option ValidatorInfo :=
  (s.get? (.validator a)).map (·.val)

/-- The stored delegation of a delegator to a validator. -/
def delegationOf (s : StateStore) (delegator validator : Address) : Option Delegation :=
  (s.get? (.delegation delegator validator)).map (·.val)

/-- The stored list of registered validators. -/
def validatorList (s : StateStore) : List Address :=
  ((s.get? .validatorAddresses).map fun x => x.val).getD []

/-- The stored active validator set. -/
def activeSetOf (s : StateStore) : Option (List Address) :=
  (s.get? .activeValidatorSet).map fun x => x.val

/-- The stored supply figures. -/
def supplyOf (s : StateStore) : Option SupplyInfo :=
  (s.get? .supplyInfo).map fun x => x.val

variable {V : List Address} {s t : StateStore}

/-! ## Writing a validator -/

/-- The store with a validator written. -/
def withValidator (s : StateStore) (v : ValidatorInfo) : StateStore :=
  s.insert (.validator v.address) ⟨v, Key.files_validator v⟩

theorem validatorOf_withValidator (s : StateStore) (v : ValidatorInfo) (a : Address) :
    validatorOf (withValidator s v) a = if a = v.address then some v else validatorOf s a :=
  Store.read_insert s (.validator a) (Option.map (·.val)) (by simp [eq_comm]) (by rintro ⟨⟩; rfl)

theorem get?_withValidator {v : ValidatorInfo} {k : Key} (h : ∀ a, k ≠ .validator a) :
    (withValidator s v).get? k = s.get? k :=
  Store.get?_insert_ne (h v.address).symm

/-- The store after an address was added to the list `V`. -/
def listedStore (V : List Address) (s : StateStore) (addr : Address) : StateStore :=
  if addr ∈ V then s else s.insert .validatorAddresses ⟨V ++ [addr], trivial⟩

theorem run_registerInValidatorList {ε : Type} (addr : Address) (s : StateStore) :
    (registerInValidatorList addr : Exec ε Unit).run s =
      (.ok (), listedStore (validatorList s) s addr) := by
  show (Prog.when (addr ∉ validatorList s) (saveValidatorList (validatorList s ++ [addr]))).run s
    = _
  unfold Prog.when listedStore
  by_cases hMem : addr ∈ validatorList s
  · rw [if_neg (not_not.mpr hMem), if_pos hMem]
    rfl
  · rw [if_pos hMem, if_neg hMem]
    rfl

theorem get?_listedStore {addr : Address} {k : Key} (h : k ≠ .validatorAddresses) :
    (listedStore V s addr).get? k = s.get? k := by
  unfold listedStore
  split
  · rfl
  · exact Store.get?_insert_ne (Ne.symm h)

theorem validatorList_listedStore {addr : Address} (hNew : addr ∉ V) :
    validatorList (listedStore V s addr) = V ++ [addr] := by
  rw [listedStore, if_neg hNew, validatorList, Std.ExtDTreeMap.get?_insert_self]
  rfl

/-! ## Accounts, validators and attestors -/

theorem run_ofExcept_eq_ok {ε α : Type} {r : Except ε α} {a : α}
    (h : (Prog.ofExcept r : Exec ε α).run s = (.ok a, t)) : r = .ok a ∧ s = t := by
  cases r with
  | error e => cases h
  | ok b =>
      cases h
      exact ⟨rfl, rfl⟩

theorem createGenesisAccount_eq_ok {ga : GenesisAccount}
    (h : (ChainState.createGenesisAccount ga).run s = (.ok (), t)) :
    ∃ a, parseAddress ga.address = .ok a ∧
      t = withAccount s (AccountState.withBalance a ga.balance 0) := by
  obtain ⟨a, s₁, hRead, hRun⟩ := Prog.run_bind_eq_ok.mp h
  obtain ⟨hParse, rfl⟩ := run_ofExcept_eq_ok hRead
  exact ⟨a, hParse, (congrArg Prod.snd hRun).symm⟩

/-- The record genesis writes for a validator. -/
def genesisRecord (gv : GenesisValidator) (a : Address) : ValidatorInfo :=
  { ValidatorInfo.new a gv.commissionBps with stake := gv.stake }

theorem createGenesisValidator_eq_ok {gv : GenesisValidator}
    (h : (ChainState.createGenesisValidator gv).run s = (.ok (), t)) :
    ∃ a, parseAddress gv.address = .ok a ∧
      t = listedStore (validatorList s) (withValidator s (genesisRecord gv a)) a := by
  obtain ⟨a, s₁, hRead, hRun⟩ := Prog.run_bind_eq_ok.mp h
  obtain ⟨hParse, rfl⟩ := run_ofExcept_eq_ok hRead
  have hStore : (registerInValidatorList a : Exec ValidatorError Unit).run
      (withValidator s (genesisRecord gv a)) = (.ok (), t) := hRun
  have hList : validatorList (withValidator s (genesisRecord gv a)) = validatorList s := by
    rw [validatorList, get?_withValidator (by simp), validatorList]
  rw [run_registerInValidatorList, hList] at hStore
  exact ⟨a, hParse, (congrArg Prod.snd hStore).symm⟩

/-- Loading goes through the validators one by one. -/
theorem createGenesisValidators_cons_eq_ok {gv : GenesisValidator}
    {rest : List GenesisValidator} {addrs : List Address}
    (h : (ChainState.createGenesisValidators (gv :: rest)).run s = (.ok addrs, t)) :
    ∃ a s₁ more, (ChainState.createGenesisValidator gv).run s = (.ok (), s₁) ∧
      s₁ = listedStore (validatorList s) (withValidator s (genesisRecord gv a)) a ∧
      parseAddress gv.address = .ok a ∧
      (ChainState.createGenesisValidators rest).run s₁ = (.ok more, t) ∧ addrs = a :: more := by
  obtain ⟨_, s₁, hFirst, hRun⟩ := Prog.run_bind_eq_ok.mp h
  obtain ⟨a, s₂, hRead, hRun⟩ := Prog.run_bind_eq_ok.mp hRun
  obtain ⟨hParse, rfl⟩ := run_ofExcept_eq_ok hRead
  obtain ⟨more, s₃, hRest, hRun⟩ := Prog.run_bind_eq_ok.mp hRun
  cases hRun
  obtain ⟨b, hFirstParse, hStore⟩ := createGenesisValidator_eq_ok hFirst
  obtain rfl : a = b := by simpa [hParse] using hFirstParse
  exact ⟨a, s₁, more, hFirst, hStore, hParse, hRest, rfl⟩

/-- An address that can be read. -/
def Readable (text : String) : Prop := ∃ a, parseAddress text = .ok a

/-- A program that starts by reading an address and cannot fail after that. -/
theorem ofExcept_succeeds_iff {text : String} {f : Address → Exec ValidatorError Unit}
    (hf : ∀ a s, ∃ t : StateStore, (f a).run s = (.ok (), t)) (s : StateStore) :
    (∃ t, ((Prog.ofExcept (parseAddress text)).bind f).run s = (.ok (), t)) ↔ Readable text := by
  constructor
  · rintro ⟨t, hRun⟩
    obtain ⟨a, s₁, hParse, _⟩ := Prog.run_bind_eq_ok.mp hRun
    exact ⟨a, (run_ofExcept_eq_ok hParse).1⟩
  · rintro ⟨a, hParse⟩
    rw [hParse]
    exact hf a s

theorem createGenesisValidators_succeeds_iff (gvs : List GenesisValidator) (s : StateStore) :
    (∃ addrs t, (ChainState.createGenesisValidators gvs).run s = (.ok addrs, t)) ↔
      ∀ gv ∈ gvs, Readable gv.address := by
  induction gvs generalizing s with
  | nil => exact ⟨fun _ => List.forall_mem_nil _, fun _ => ⟨[], s, rfl⟩⟩
  | cons gv rest ih =>
      rw [List.forall_mem_cons]
      constructor
      · rintro ⟨addrs, t, hRun⟩
        obtain ⟨a, s₁, more, _, _, hParse, hRest, _⟩ := createGenesisValidators_cons_eq_ok hRun
        exact ⟨⟨a, hParse⟩, (ih s₁).mp ⟨more, t, hRest⟩⟩
      · rintro ⟨hFirst, hAll⟩
        obtain ⟨s₁, hRun⟩ := (ofExcept_succeeds_iff (f := fun addr => do
          setValidator (genesisRecord gv addr)
          registerInValidatorList addr) (fun a s => ⟨_, run_registerInValidatorList a _⟩) s).mpr
          hFirst
        obtain ⟨addrs, t, hRest⟩ := (ih s₁).mpr hAll
        obtain ⟨a, hParse⟩ := hFirst
        refine ⟨a :: addrs, t, Prog.run_bind_eq_ok.mpr ⟨(), s₁, hRun, ?_⟩⟩
        rw [hParse]
        exact Prog.run_bind_eq_ok.mpr ⟨a, s₁, rfl, Prog.run_bind_eq_ok.mpr ⟨addrs, t, hRest, rfl⟩⟩

/-! ## Genesis as a whole -/

theorem createGenesisAccounts_keeps (l : List GenesisAccount) :
    (Prog.each ChainState.createGenesisAccount l).Safe (Keeps [.account] s) True True false :=
  each_keeps fun ga => by
    simp [ChainState.createGenesisAccount, setAccount, storePut, Keeps, familyOf]

theorem createGenesisAttestors_keeps (l : List GenesisAttestor) :
    (Prog.each ChainState.createGenesisAttestor l).Safe (Keeps [.attestor] s) True True false :=
  each_keeps fun ga => by
    simp [ChainState.createGenesisAttestor, setAttestor, storePut, Keeps, familyOf]

/-- The store with the active set and the record of epoch 0. -/
def withActiveSet (cs : ChainState) (g : Genesis) (addrs : List Address) (s : StateStore) :
    StateStore :=
  (s.insert .activeValidatorSet ⟨addrs, trivial⟩).insert (.epoch 0)
    ⟨cs.genesisEpoch g addrs, rfl⟩

/-- The store with the height, the latest hash and the supply figures of a new chain. -/
def withChainInfo (g : Genesis) (s : StateStore) : StateStore :=
  ((s.insert .chainHeight ⟨(0 : UInt64), trivial⟩).insert .latestHash
    ⟨Hash.zero, trivial⟩).insert .supplyInfo ⟨ChainState.genesisSupply g, trivial⟩

/-- What a successful genesis went through: the stores after the accounts, after the
validators and after the attestors. -/
structure GenesisStages (cs : ChainState) (g : Genesis) (s₁ s₂ s₃ s : StateStore)
    (addrs : List Address) : Prop where
  accounts : (Prog.each ChainState.createGenesisAccount g.accounts).run ∅ = (.ok (), s₁)
  validators : (ChainState.createGenesisValidators g.validators).run s₁ = (.ok addrs, s₂)
  attestors : (Prog.each ChainState.createGenesisAttestor g.attestors).run
    (withActiveSet cs g addrs s₂) = (.ok (), s₃)
  finish : s = withChainInfo g s₃

theorem stages_of_genesis {cs : ChainState} {g : Genesis}
    (h : (cs.initFromGenesis g).run ∅ = (.ok (), s)) :
    ∃ s₁ s₂ s₃ addrs, GenesisStages cs g s₁ s₂ s₃ s addrs := by
  obtain ⟨height, _, hHeight, hRun⟩ := Prog.run_bind_eq_ok.mp h
  cases hHeight
  obtain ⟨_, s₁, hAccounts, hRun⟩ := Prog.run_bind_eq_ok.mp hRun
  obtain ⟨addrs, s₂, hValidators, hRun⟩ := Prog.run_bind_eq_ok.mp hRun
  have hTail : ((Prog.each ChainState.createGenesisAttestor g.attestors).bind fun _ => do
      setChainHeight 0
      setLatestHash Hash.zero
      setSupplyInfo (ChainState.genesisSupply g)).run (withActiveSet cs g addrs s₂) =
        (.ok (), s) := hRun
  obtain ⟨_, s₃, hAttestors, hRun⟩ := Prog.run_bind_eq_ok.mp hTail
  exact ⟨s₁, s₂, s₃, addrs, hAccounts, hValidators, hAttestors, (congrArg Prod.snd hRun).symm⟩

/-- Genesis fails only where an address cannot be read. -/
theorem genesis_succeeds_iff (cs : ChainState) (g : Genesis) :
    (∃ s : StateStore, (cs.initFromGenesis g).run ∅ = (.ok (), s)) ↔
      (∀ ga ∈ g.accounts, Readable ga.address) ∧ (∀ gv ∈ g.validators, Readable gv.address) ∧
        ∀ ga ∈ g.attestors, Readable ga.address := by
  have hAccounts (s : StateStore) : (∃ t, (Prog.each ChainState.createGenesisAccount
      g.accounts).run s = (.ok (), t)) ↔ ∀ ga ∈ g.accounts, Readable ga.address :=
    Prog.each_succeeds_iff (fun _ => ofExcept_succeeds_iff fun _ _ => ⟨_, rfl⟩) _ s
  have hAttestors (s : StateStore) : (∃ t, (Prog.each ChainState.createGenesisAttestor
      g.attestors).run s = (.ok (), t)) ↔ ∀ ga ∈ g.attestors, Readable ga.address :=
    Prog.each_succeeds_iff (fun _ => ofExcept_succeeds_iff fun _ _ => ⟨_, rfl⟩) _ s
  constructor
  · rintro ⟨s, hRun⟩
    obtain ⟨s₁, s₂, s₃, addrs, hStages⟩ := stages_of_genesis hRun
    exact ⟨(hAccounts _).mp ⟨s₁, hStages.accounts⟩,
      (createGenesisValidators_succeeds_iff _ s₁).mp ⟨addrs, s₂, hStages.validators⟩,
      (hAttestors _).mp ⟨s₃, hStages.attestors⟩⟩
  · rintro ⟨hReadA, hReadV, hReadT⟩
    obtain ⟨s₁, hRun₁⟩ := (hAccounts ∅).mpr hReadA
    obtain ⟨addrs, s₂, hRun₂⟩ := (createGenesisValidators_succeeds_iff _ s₁).mpr hReadV
    obtain ⟨s₃, hRun₃⟩ := (hAttestors (withActiveSet cs g addrs s₂)).mpr hReadT
    refine ⟨withChainInfo g s₃, Prog.run_bind_eq_ok.mpr ⟨0, ∅, rfl, ?_⟩⟩
    refine Prog.run_bind_eq_ok.mpr ⟨(), s₁, hRun₁, ?_⟩
    refine Prog.run_bind_eq_ok.mpr ⟨addrs, s₂, hRun₂, ?_⟩
    exact Prog.run_bind_eq_ok (p := Prog.each ChainState.createGenesisAttestor g.attestors)
      (s := withActiveSet cs g addrs s₂) |>.mpr ⟨(), s₃, hRun₃, rfl⟩

namespace GenesisStages

variable {cs : ChainState} {g : Genesis} {s₁ s₂ s₃ : StateStore} {addrs : List Address}
  (h : GenesisStages cs g s₁ s₂ s₃ s addrs)

include h

/-- The accounts are written on an empty store. -/
theorem accounts_keeps : Store.Holds (Keeps [.account] ∅) s₁ := by
  have hKeeps := run_keeps (createGenesisAccounts_keeps g.accounts (s := ∅))
  rwa [h.accounts] at hKeeps

theorem attestors_keeps : Store.Holds (Keeps [.attestor] (withActiveSet cs g addrs s₂)) s₃ := by
  have hKeeps := run_keeps (createGenesisAttestors_keeps g.attestors
    (s := withActiveSet cs g addrs s₂))
  rwa [h.attestors] at hKeeps

/-- After the validators only other families are written. -/
theorem tail_keeps : Store.Holds (Keeps [.attestor, .supplyInfo, .chain] s₂) s := by
  intro k hk
  have hAttestor : familyOf k ∉ [Family.attestor] := fun hMem => hk (by simp_all)
  have hChain (k' : Key) (hFamily : familyOf k' = .chain ∨ familyOf k' = .supplyInfo) :
      k' ≠ k := by
    rintro rfl
    rcases hFamily with hEq | hEq <;> exact hk (by simp [hEq])
  rw [h.finish, withChainInfo, Store.get?_insert_ne (hChain _ (.inr rfl)),
    Store.get?_insert_ne (hChain _ (.inl rfl)), Store.get?_insert_ne (hChain _ (.inl rfl)),
    h.attestors_keeps k hAttestor, withActiveSet, Store.get?_insert_ne (hChain _ (.inl rfl)),
    Store.get?_insert_ne (hChain _ (.inl rfl))]

theorem activeSetOf_eq : activeSetOf s = some addrs := by
  have hAttestors := h.attestors_keeps .activeValidatorSet (by simp [familyOf])
  rw [activeSetOf, h.finish, withChainInfo, Store.get?_insert_ne (by simp),
    Store.get?_insert_ne (by simp), Store.get?_insert_ne (by simp), hAttestors, withActiveSet,
    Store.get?_insert_ne (by simp), Std.ExtDTreeMap.get?_insert_self]
  rfl

theorem supplyOf_eq : supplyOf s = some (ChainState.genesisSupply g) := by
  rw [supplyOf, h.finish, withChainInfo, Std.ExtDTreeMap.get?_insert_self]
  rfl

end GenesisStages

end Polay.Validator
