import Polay.Lib.Check
import Polay.Lib.Total
import Polay.Validator.GenesisRuns

/-!
# Valid genesis documents

`Genesis.validate` looks at a document before a chain is started from it. It adds the
balances up in 64 bits and compares addresses as texts, so it takes two spellings of
one address for two addresses and does not notice a text that is no address. It does
not look at the attestors at all.

`faithful_iff_unambiguous` says for which documents the filled store holds what the
document lists: those whose addresses can all be read, whose validators are different
addresses, and whose different accounts hold the initial supply together.
-/

namespace Polay.Validator

open Lib Lib.Machine Polay.Types State Execution

/-! ## Validation -/

/-- Why a genesis document is refused. -/
inductive GenesisError where
  | validation (reason : String)
deriving DecidableEq

/-- Report the first text that was seen before. -/
def checkDistinct (what : String) : List String → List String → Check GenesisError
  | _, [] => .ok ()
  | seen, address :: rest =>
      (Check.ensure (address ∉ seen)
        (.validation s!"duplicate {what} address: {address}")).and
        (checkDistinct what (address :: seen) rest)

namespace Genesis

variable (chainConfig : ChainConfig) (genesis : Genesis)

/-- The wrapping sum of the balances. -/
def balanceSum : UInt64 := genesis.accounts.foldl (fun total a => total + a.balance) 0

def checkSupply : Check GenesisError :=
  Check.ensure (genesis.balanceSum = genesis.initialSupply)
    (.validation (s!"account balance sum ({genesis.balanceSum}) does not equal " ++
      s!"initial_supply ({genesis.initialSupply})"))

def checkStake (v : GenesisValidator) : Check GenesisError :=
  Check.ensure (¬ v.stake < chainConfig.minStake)
    (.validation
      s!"validator {v.address} stake ({v.stake}) is below minimum ({chainConfig.minStake})")

def checkCommission (v : GenesisValidator) : Check GenesisError :=
  Check.ensure (¬ chainConfig.maxCommissionBps < v.commissionBps)
    (.validation (s!"validator {v.address} commission ({v.commissionBps} bps) exceeds " ++
      s!"maximum ({chainConfig.maxCommissionBps} bps)"))

def checkFunded (v : GenesisValidator) : Check GenesisError :=
  Check.ensure (v.address ∈ genesis.accounts.map GenesisAccount.address)
    (.validation s!"validator {v.address} has no corresponding account")

/-- The checks of a document; `chainConfig` is the configuration it contains. -/
def validate : Check GenesisError :=
  Check.all
    [genesis.checkSupply,
      Check.all (genesis.validators.map (checkStake chainConfig)),
      Check.all (genesis.validators.map (checkCommission chainConfig)),
      checkDistinct "account" [] (genesis.accounts.map GenesisAccount.address),
      checkDistinct "validator" [] (genesis.validators.map GenesisValidator.address),
      Check.all (genesis.validators.map genesis.checkFunded)]

end Genesis

/-! ## What a store should hold -/

/-- The native tokens of an account. -/
def nativeFigure : (k : Key) → k.Value → Nat
  | .account _, x => (AccountState.balance x.val).toNat
  | _, _ => 0

/-- All stored balances together. -/
def storedBalances (s : StateStore) : Nat := Store.total nativeFigure s

/-- The store holds what the document lists. -/
structure Faithful (g : Genesis) (s : StateStore) : Prop where
  accounts : ∀ ga ∈ g.accounts, ∃ a x, parseAddress ga.address = .ok a ∧
    accountOf s a = some x ∧ x.balance = ga.balance
  balances : storedBalances s = g.initialSupply.toNat
  supply : (supplyOf s).map SupplyInfo.totalSupply = some g.initialSupply
  validators : ∃ addrs, activeSetOf s = some addrs ∧ addrs.Nodup ∧ validatorList s = addrs ∧
    List.Forall₂ (fun gv a => parseAddress gv.address = .ok a ∧
      validatorOf s a = some (genesisRecord gv a)) g.validators addrs

/-- The accounts of a document by the addresses their texts stand for. -/
def decoded (l : List GenesisAccount) : List (Address × UInt64) :=
  l.filterMap fun ga => (parseAddress ga.address).toOption.map (·, ga.balance)

/-- Every text stands for an address, one address has one balance, the balances of the
different addresses add up to the initial supply, and no validator is listed twice. -/
structure Unambiguous (g : Genesis) : Prop where
  accounts : ∀ ga ∈ g.accounts, Readable ga.address
  validators : ∀ gv ∈ g.validators, Readable gv.address
  attestors : ∀ ga ∈ g.attestors, Readable ga.address
  oneBalance : ∀ e ∈ decoded g.accounts, ∀ f ∈ decoded g.accounts, e.1 = f.1 → e.2 = f.2
  supply : ∑ e ∈ (decoded g.accounts).toFinset, e.2.toNat = g.initialSupply.toNat
  distinct : (g.validators.map fun gv => (parseAddress gv.address).toOption).Nodup

theorem mem_decoded {l : List GenesisAccount} {a : Address} {b : UInt64} :
    (a, b) ∈ decoded l ↔ ∃ ga ∈ l, parseAddress ga.address = .ok a ∧ ga.balance = b := by
  unfold decoded
  rw [List.mem_filterMap]
  constructor
  · rintro ⟨ga, hMem, hEq⟩
    cases hParse : parseAddress ga.address with
    | error e => simp [hParse, Except.toOption] at hEq
    | ok a' =>
        simp only [hParse, Except.toOption, Option.map_some, Option.some.injEq,
          Prod.mk.injEq] at hEq
        exact ⟨ga, hMem, by rw [hParse, hEq.1], hEq.2⟩
  · rintro ⟨ga, hMem, hParse, hEq⟩
    exact ⟨ga, hMem, by rw [hParse, hEq]; rfl⟩

/-! ## Accounts -/

section Accounts

variable {s t : StateStore}

/-- An address holds the balance of a listed account that stands for it, or what it held
before. -/
theorem accountOf_loaded {l : List GenesisAccount}
    (h : (Prog.each ChainState.createGenesisAccount l).run s = (.ok (), t)) (a : Address) :
    (∃ b, (a, b) ∈ decoded l ∧ accountOf t a = some (AccountState.withBalance a b 0)) ∨
      ((∀ b, (a, b) ∉ decoded l) ∧ accountOf t a = accountOf s a) := by
  induction l generalizing s with
  | nil =>
      cases h
      exact .inr ⟨fun b => List.not_mem_nil, rfl⟩
  | cons ga rest ih =>
      obtain ⟨_, s₁, hFirst, hRest⟩ := Prog.run_bind_eq_ok.mp h
      obtain ⟨a', hParse, rfl⟩ := createGenesisAccount_eq_ok hFirst
      have hCons : decoded (ga :: rest) = (a', ga.balance) :: decoded rest := by
        simp [decoded, hParse, Except.toOption]
      rcases ih hRest with ⟨b, hMem, hAccount⟩ | ⟨hNot, hAccount⟩
      · exact .inl ⟨b, by rw [hCons]; exact List.mem_cons_of_mem _ hMem, hAccount⟩
      · rw [accountOf_withAccount s (a := a') rfl a] at hAccount
        by_cases hEq : a = a'
        · subst hEq
          rw [if_pos rfl] at hAccount
          exact .inl ⟨ga.balance, by rw [hCons]; exact List.mem_cons_self, hAccount⟩
        · rw [if_neg hEq] at hAccount
          refine .inr ⟨fun b hMem => ?_, hAccount⟩
          rw [hCons, List.mem_cons, Prod.mk.injEq] at hMem
          exact hMem.elim (fun h => hEq h.1) (hNot b)

theorem figureAt_account (s : StateStore) (a : Address) :
    Store.figureAt nativeFigure s (.account a) =
      ((accountOf s a).map fun x => x.balance.toNat).getD 0 := by
  unfold Store.figureAt accountOf
  cases s.get? (.account a) <;> rfl

theorem storedBalances_congr (h : ∀ a, accountOf t a = accountOf s a) :
    storedBalances t = storedBalances s := by
  refine Store.total_congr fun k => ?_
  cases k
  case account a => rw [figureAt_account, figureAt_account, h]
  all_goals rw [Store.figureAt_eq_zero _ fun _ => rfl, Store.figureAt_eq_zero _ fun _ => rfl]

end Accounts

/-! ## Validators -/

section Validators

variable {s t : StateStore} {gvs : List GenesisValidator} {addrs : List Address}

/-- The addresses are those the texts stand for, and no other record is touched. -/
theorem validators_loaded
    (h : (ChainState.createGenesisValidators gvs).run s = (.ok addrs, t)) :
    List.Forall₂ (fun gv a => parseAddress gv.address = .ok a) gvs addrs ∧
      (∀ a, accountOf t a = accountOf s a) ∧
      ∀ a ∉ addrs, validatorOf t a = validatorOf s a := by
  induction gvs generalizing s addrs with
  | nil =>
      cases h
      exact ⟨.nil, fun _ => rfl, fun _ _ => rfl⟩
  | cons gv rest ih =>
      obtain ⟨a, s₁, more, -, hStore, hParse, hRest, rfl⟩ :=
        createGenesisValidators_cons_eq_ok h
      obtain ⟨hParsed, hAccounts, hOthers⟩ := ih hRest
      refine ⟨.cons hParse hParsed, fun b => ?_, fun b hb => ?_⟩
      · rw [hAccounts, hStore, accountOf, get?_listedStore (by simp),
          get?_withValidator (by simp), accountOf]
      · rw [List.mem_cons, not_or] at hb
        rw [hOthers b hb.2, hStore, validatorOf, get?_listedStore (by simp)]
        show validatorOf (withValidator s (genesisRecord gv a)) b = _
        rw [validatorOf_withValidator]
        exact if_neg hb.1

/-- Different validators are listed in order, each with its own record. -/
theorem validators_loaded_nodup
    (h : (ChainState.createGenesisValidators gvs).run s = (.ok addrs, t))
    (hNodup : (validatorList s ++ addrs).Nodup) :
    validatorList t = validatorList s ++ addrs ∧
      List.Forall₂ (fun gv a => parseAddress gv.address = .ok a ∧
        validatorOf t a = some (genesisRecord gv a)) gvs addrs := by
  induction gvs generalizing s addrs with
  | nil =>
      cases h
      exact ⟨(List.append_nil _).symm, .nil⟩
  | cons gv rest ih =>
      obtain ⟨a, s₁, more, -, hStore, hParse, hRest, rfl⟩ :=
        createGenesisValidators_cons_eq_ok h
      have hNew : a ∉ validatorList s := fun hMem =>
        (List.nodup_append.mp hNodup).2.2 a hMem a List.mem_cons_self rfl
      have hList : validatorList s₁ = validatorList s ++ [a] := by
        rw [hStore, validatorList_listedStore hNew]
      obtain ⟨hRestList, hRecords⟩ := ih hRest (by rw [hList]; simpa using hNodup)
      refine ⟨by rw [hRestList, hList]; simp, .cons ⟨hParse, ?_⟩ hRecords⟩
      have hLater : a ∉ more := (List.nodup_cons.mp (List.nodup_append.mp hNodup).2.1).1
      rw [(validators_loaded hRest).2.2 a hLater, hStore, validatorOf,
        get?_listedStore (by simp)]
      show validatorOf (withValidator s (genesisRecord gv a)) a = _
      rw [validatorOf_withValidator]
      exact if_pos rfl

end Validators

/-! ## Faithful documents -/

section Faithful

variable {cs : ChainState} {g : Genesis} {s s₁ s₂ s₃ : StateStore} {addrs : List Address}

theorem GenesisStages.accountOf_eq (h : GenesisStages cs g s₁ s₂ s₃ s addrs) (a : Address) :
    accountOf s a = accountOf s₁ a := by
  rw [accountOf, h.tail_keeps (.account a) (by simp [familyOf])]
  exact (validators_loaded h.validators).2.1 a

/-- An address with one listed balance holds it. -/
theorem GenesisStages.balance_eq (h : GenesisStages cs g s₁ s₂ s₃ s addrs) {e : Address × UInt64}
    (he : e ∈ decoded g.accounts)
    (hOne : ∀ e ∈ decoded g.accounts, ∀ f ∈ decoded g.accounts, e.1 = f.1 → e.2 = f.2) :
    accountOf s₁ e.1 = some (AccountState.withBalance e.1 e.2 0) := by
  rcases accountOf_loaded h.accounts e.1 with ⟨b, hMem, hAccount⟩ | ⟨hNot, _⟩
  · rw [hAccount, hOne e he _ hMem rfl]
  · exact absurd he (hNot e.2)

/-- The stored balances are those of the different addresses. -/
theorem GenesisStages.storedBalances_eq (h : GenesisStages cs g s₁ s₂ s₃ s addrs)
    (hOne : ∀ e ∈ decoded g.accounts, ∀ f ∈ decoded g.accounts, e.1 = f.1 → e.2 = f.2) :
    storedBalances s = ∑ e ∈ (decoded g.accounts).toFinset, e.2.toNat := by
  have hKeys : ∀ k, (s₁.get? k).isSome = true →
      k ∈ (decoded g.accounts).toFinset.image fun e => Key.account e.1 := by
    intro k hk
    by_cases hFamily : familyOf k = .account
    · cases k <;> simp only [familyOf, reduceCtorEq] at hFamily
      case account a =>
        rcases accountOf_loaded h.accounts a with ⟨b, hMem, _⟩ | ⟨_, hNone⟩
        · exact Finset.mem_image.mpr ⟨(a, b), List.mem_toFinset.mpr hMem, rfl⟩
        · have hSome : (accountOf s₁ a).isSome = true := by rwa [accountOf, Option.isSome_map]
          rw [hNone] at hSome
          simp [accountOf] at hSome
    · rw [h.accounts_keeps k (by simpa using hFamily)] at hk
      simp at hk
  rw [storedBalances_congr h.accountOf_eq, storedBalances, Store.total_eq_sum _ _ hKeys,
    Finset.sum_image]
  · refine Finset.sum_congr rfl fun e he => ?_
    rw [figureAt_account, h.balance_eq (List.mem_toFinset.mp he) hOne]
    rfl
  · intro e he f hf hEq
    have hAddr : e.1 = f.1 := by simpa using hEq
    exact Prod.ext hAddr (hOne e (List.mem_toFinset.mp he) f (List.mem_toFinset.mp hf) hAddr)

theorem map_parse_eq {gvs : List GenesisValidator}
    (h : List.Forall₂ (fun gv a => parseAddress gv.address = .ok a) gvs addrs) :
    gvs.map (fun gv => (parseAddress gv.address).toOption) = addrs.map some := by
  induction h with
  | nil => rfl
  | cons hParse _ ih =>
      rw [List.map_cons, List.map_cons, ih, hParse]
      rfl

theorem nodup_of_distinct {gvs : List GenesisValidator}
    (h : List.Forall₂ (fun gv a => parseAddress gv.address = .ok a) gvs addrs) :
    (gvs.map fun gv => (parseAddress gv.address).toOption).Nodup ↔ addrs.Nodup := by
  rw [map_parse_eq h]
  exact List.nodup_map_iff (Option.some_injective _)

theorem unambiguous_of_faithful (h : GenesisStages cs g s₁ s₂ s₃ s addrs)
    (hReadable : (∀ ga ∈ g.accounts, Readable ga.address) ∧
      (∀ gv ∈ g.validators, Readable gv.address) ∧ ∀ ga ∈ g.attestors, Readable ga.address)
    (hFaithful : Faithful g s) : Unambiguous g := by
  have hStored : ∀ e ∈ decoded g.accounts, (accountOf s e.1).map AccountState.balance =
      some e.2 := by
    rintro ⟨a, b⟩ he
    obtain ⟨ga, hMem, hParse, rfl⟩ := mem_decoded.mp he
    obtain ⟨a', x, hParse', hAccount, hBalance⟩ := hFaithful.accounts ga hMem
    obtain rfl : a = a' := by simpa [hParse] using hParse'
    rw [hAccount, Option.map_some, hBalance]
  have hOne : ∀ e ∈ decoded g.accounts, ∀ f ∈ decoded g.accounts, e.1 = f.1 → e.2 = f.2 := by
    intro e he f hf hEq
    have hBoth := hStored e he
    rw [hEq, hStored f hf] at hBoth
    exact (Option.some.inj hBoth).symm
  refine ⟨hReadable.1, hReadable.2.1, hReadable.2.2, hOne, ?_, ?_⟩
  · rw [← h.storedBalances_eq hOne, hFaithful.balances]
  · obtain ⟨addrs', hActive, hNodup, _, _⟩ := hFaithful.validators
    obtain rfl : addrs = addrs' := by simpa [h.activeSetOf_eq] using hActive
    exact (nodup_of_distinct (validators_loaded h.validators).1).mpr hNodup

/-- Validators that are different addresses are listed in order, each with its record. -/
theorem GenesisStages.validators_eq (h : GenesisStages cs g s₁ s₂ s₃ s addrs)
    (hDistinct : (g.validators.map fun gv => (parseAddress gv.address).toOption).Nodup) :
    addrs.Nodup ∧ validatorList s = addrs ∧
      List.Forall₂ (fun gv a => parseAddress gv.address = .ok a ∧
        validatorOf s a = some (genesisRecord gv a)) g.validators addrs := by
  have hNodup : addrs.Nodup :=
    (nodup_of_distinct (validators_loaded h.validators).1).mp hDistinct
  have hEmpty : validatorList s₁ = [] := by
    rw [validatorList, h.accounts_keeps .validatorAddresses (by simp [familyOf])]
    simp
  obtain ⟨hList, hRecords⟩ := validators_loaded_nodup h.validators (by simpa [hEmpty] using hNodup)
  refine ⟨hNodup, ?_, ?_⟩
  · rw [validatorList, h.tail_keeps .validatorAddresses (by simp [familyOf])]
    rw [hEmpty, List.nil_append] at hList
    exact hList
  · have hSame : ∀ a, validatorOf s a = validatorOf s₂ a := by
      intro a
      rw [validatorOf, h.tail_keeps (.validator a) (by simp [familyOf]), validatorOf]
    simp only [hSame]
    exact hRecords

theorem faithful_of_unambiguous (h : GenesisStages cs g s₁ s₂ s₃ s addrs)
    (hClear : Unambiguous g) : Faithful g s := by
  refine ⟨fun ga hMem => ?_, ?_, ?_, addrs, h.activeSetOf_eq, h.validators_eq hClear.distinct⟩
  · obtain ⟨a, hParse⟩ := hClear.accounts ga hMem
    have hMem' : (a, ga.balance) ∈ decoded g.accounts := mem_decoded.mpr ⟨ga, hMem, hParse, rfl⟩
    exact ⟨a, _, hParse, (h.accountOf_eq a).trans (h.balance_eq hMem' hClear.oneBalance), rfl⟩
  · rw [h.storedBalances_eq hClear.oneBalance, hClear.supply]
  · rw [h.supplyOf_eq]
    rfl

/-- A valid document fills the store with what it lists exactly if it is unambiguous. -/
theorem faithful_iff_unambiguous (cs : ChainState) (chainConfig : ChainConfig) (g : Genesis) :
    (g.validate chainConfig = .ok () →
      ∃ s : StateStore, (cs.initFromGenesis g).run ∅ = (.ok (), s) ∧ Faithful g s) ↔
    (g.validate chainConfig = .ok () → Unambiguous g) := by
  refine forall_congr' fun _ => ⟨?_, fun hClear => ?_⟩
  · rintro ⟨s, hRun, hFaithful⟩
    obtain ⟨s₁, s₂, s₃, addrs, hStages⟩ := stages_of_genesis hRun
    exact unambiguous_of_faithful hStages ((genesis_succeeds_iff cs g).mp ⟨s, hRun⟩) hFaithful
  · obtain ⟨s, hRun⟩ := (genesis_succeeds_iff cs g).mpr
      ⟨hClear.accounts, hClear.validators, hClear.attestors⟩
    obtain ⟨s₁, s₂, s₃, addrs, hStages⟩ := stages_of_genesis hRun
    exact ⟨s, hRun, faithful_of_unambiguous hStages hClear⟩

/-- Two spellings of one address, with 100 and 200 tokens. -/
def twoSpellings : Genesis where
  accounts :=
    [⟨"abababababababababababababababababababababababababababababababab", 100⟩,
      ⟨"ABABABABABABABABABABABABABABABABABABABABABABABABABABABABABABABAB", 200⟩]
  validators := []
  attestors := []
  initialSupply := 300

/-- The document is valid and loads, but the account of both spellings holds 200 of the
300 tokens. -/
theorem twoSpellings_not_faithful :
    twoSpellings.validate ChainConfig.default = .ok () ∧
      ¬ ∃ s : StateStore, (ChainState.initFromGenesis ⟨ChainConfig.default⟩ twoSpellings).run ∅ =
        (.ok (), s) ∧ Faithful twoSpellings s := by
  refine ⟨by decide +kernel, ?_⟩
  rintro ⟨s, hRun, hFaithful⟩
  have hBalance : (accountOf ((ChainState.initFromGenesis ⟨ChainConfig.default⟩
      twoSpellings).run ∅).2 (Address.ofByte 0xab)).map AccountState.balance = some 200 := by
    decide +kernel
  obtain ⟨a, x, hParse, hAccount, hListed⟩ := hFaithful.accounts _ List.mem_cons_self
  have hAddr : parseAddress "abababababababababababababababababababababababababababababababab"
      = .ok (Address.ofByte 0xab) := by decide +kernel
  rw [hAddr] at hParse
  cases hParse
  rw [hRun, hAccount, Option.map_some, hListed] at hBalance
  exact absurd hBalance (by decide)

end Faithful

end Polay.Validator
