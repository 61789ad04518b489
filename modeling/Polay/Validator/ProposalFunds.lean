import Polay.Validator.Governance
import Polay.Validator.Payouts

/-!
# What a closed proposal pays

Closing a proposal pays the deposit back, in full if the proposal passed and in half if it
did not. The payment does not happen if the action of a passed proposal fails, which a slash
of an unknown validator does at every attempt. The other half is burned and the amount of a
treasury spend is created: neither is taken from the record it belongs to.
-/

namespace Polay.Validator

open Lib Lib.Machine Lib.Trace Polay.Types State Execution
open Execution.Executor
open Polay.Types.Governance (Proposal ProposalAction ProposalStatus)

variable {s t : StateStore} {config : ChainConfig} {id : Hash} {height : UInt64} {p : Proposal}

/-! ## The deposit -/

/-- What the proposer gets back. -/
def payback (config : ChainConfig) (s : StateStore) (p : Proposal) : UInt64 :=
  if passes config s p then p.deposit else p.deposit / 2

/-- What an action pays to an account. -/
def spendTo (a : Address) : ProposalAction → Nat
  | .treasurySpend recipient amount _ => if recipient = a then amount.toNat else 0
  | _ => 0

/-- What the proposal pays to an account besides the deposit. -/
def granted (config : ChainConfig) (s : StateStore) (p : Proposal) (a : Address) : Nat :=
  if passes config s p then spendTo a p.action else 0

/-- The proposal is a passed slash of an address that is not a validator. -/
def SlashesUnknown (config : ChainConfig) (s : StateStore) (p : Proposal) : Prop :=
  passes config s p = true ∧ ∃ a bps reason,
    p.action = .slashValidator a bps reason ∧ validatorOf s a = none

/-- Executing the proposal closes it and pays the deposit, or the half of it, to the proposer. -/
def Closes (config : ChainConfig) (height : UInt64) (s : StateStore) (id : Hash) (p : Proposal) :
    Prop :=
  ∃ events t, (Governance.executeExecuteProposal config id height).run s = (.ok events, t) ∧
    proposalOf t id =
      some { p with status := if passes config s p then .executed else .rejected } ∧
    balanceOf t p.proposer =
      balanceOf s p.proposer + granted config s p p.proposer + (payback config s p).toNat

theorem actedStore_eq_none {action : ProposalAction} :
    actedStore s action = none ↔
      ∃ a bps reason, action = .slashValidator a bps reason ∧ validatorOf s a = none := by
  cases action
  case slashValidator a bps reason =>
    constructor
    · intro hNone
      exact ⟨a, bps, reason, rfl, Option.map_eq_none_iff.mp hNone⟩
    · rintro ⟨b, bps', reason', hEq, hNone⟩
      cases hEq
      exact Option.map_eq_none_iff.mpr hNone
  all_goals simp [actedStore]

theorem closedStore_eq_none (height : UInt64) :
    closedStore config s p height = none ↔ SlashesUnknown config s p := by
  unfold closedStore SlashesUnknown
  cases passes config s p with
  | true =>
      rw [if_pos rfl, Option.map_eq_none_iff, actedStore_eq_none]
      simp
  | false => simp

theorem balanceOf_withProposal (s : StateStore) (p : Proposal) (a : Address) :
    balanceOf (withProposal s p) a = balanceOf s a := by
  unfold balanceOf
  rw [accountOf, withProposal, Store.get?_insert_ne (by simp), accountOf]

/-- The balances after the action of a proposal. -/
theorem balanceOf_actedStore {action : ProposalAction} (h : actedStore s action = some t)
    (a : Address) :
    balanceOf t a = min (balanceOf s a + spendTo a action) (2 ^ 64 - 1) := by
  have hLt := balanceOf_lt s a
  have hNothing : balanceOf s a = min (balanceOf s a + 0) (2 ^ 64 - 1) := by omega
  have hOther : ∀ {k : Key} (v : k.Value), k ≠ .account a →
      balanceOf (s.insert k v) a = min (balanceOf s a + 0) (2 ^ 64 - 1) := by
    intro k v hk
    rw [← hNothing, balanceOf, accountOf, Store.get?_insert_ne hk, ← accountOf, balanceOf]
  cases action
  case treasurySpend recipient amount reason =>
    obtain rfl := Option.some.inj h
    rw [balanceOf_creditedStore, spendTo]
    split
    · rfl
    · exact hNothing
  case slashValidator b bps reason =>
    obtain ⟨v, _, rfl⟩ := Option.map_eq_some_iff.mp h
    exact hOther _ (by simp)
  case suspendAttestor b =>
    obtain rfl := Option.some.inj h
    cases attestorOf s b with
    | none => exact hNothing
    | some x => exact hOther _ (by simp)
  all_goals
    obtain rfl := Option.some.inj h
    exact hNothing

/-- The balance of the proposer after the proposal is closed. -/
theorem balanceOf_closedStore (h : closedStore config s p height = some t) :
    balanceOf t p.proposer =
      min (balanceOf s p.proposer + granted config s p p.proposer + (payback config s p).toNat)
        (2 ^ 64 - 1) := by
  have hLt := balanceOf_lt s p.proposer
  unfold closedStore at h
  unfold granted payback
  cases hPass : passes config s p with
  | true =>
      rw [hPass, if_pos rfl] at h
      obtain ⟨u, hu, rfl⟩ := Option.map_eq_some_iff.mp h
      have hActed := balanceOf_actedStore hu p.proposer
      rw [balanceOf_withProposal, balanceOf_creditedStore, if_pos rfl, if_pos rfl, if_pos rfl]
      omega
  | false =>
      rw [hPass, if_neg (by simp)] at h
      obtain rfl := Option.some.inj h
      rw [balanceOf_withProposal]
      simp only [Bool.false_eq_true, if_false]
      by_cases hHalf : 0 < p.deposit / 2
      · rw [if_pos hHalf, balanceOf_creditedStore, if_pos rfl, Nat.add_zero]
      · have hZero : (p.deposit / 2).toNat = 0 := by
          rw [eq_zero_of_not_pos hHalf]
          rfl
        rw [if_neg hHalf, hZero]
        omega

/-- An ended proposal is closed and the deposit paid back exactly if it is not a passed slash of
an unknown validator and the balance of the proposer stays within 64 bits. -/
theorem closes_iff (hEnded : Ended height s id p) :
    Closes config height s id p ↔
      ¬ SlashesUnknown config s p ∧
        balanceOf s p.proposer + granted config s p p.proposer + (payback config s p).toNat <
          2 ^ 64 := by
  have hRun := run_executeExecuteProposal config hEnded
  have hId := id_of_proposalOf hEnded.1
  rw [← closedStore_eq_none height]
  unfold Closes
  cases hClosed : closedStore config s p height with
  | none =>
      rw [hClosed] at hRun
      simp [hRun]
  | some t =>
      rw [hClosed] at hRun
      have hBalance := balanceOf_closedStore hClosed
      have hStored : proposalOf t id =
          some { p with status := if passes config s p then .executed else .rejected } := by
        unfold closedStore at hClosed
        cases hPass : passes config s p with
        | true =>
            rw [hPass, if_pos rfl] at hClosed
            obtain ⟨u, _, rfl⟩ := Option.map_eq_some_iff.mp hClosed
            rw [proposalOf_withProposal, if_pos hId.symm]
            rfl
        | false =>
            rw [hPass, if_neg (by simp)] at hClosed
            obtain rfl := Option.some.inj hClosed
            rw [proposalOf_withProposal, if_pos hId.symm]
            rfl
      constructor
      · rintro ⟨events, u, hu, _, hExact⟩
        rw [hRun] at hu
        obtain rfl : t = u := congrArg Prod.snd hu
        have hLt := balanceOf_lt t p.proposer
        exact ⟨by simp, by omega⟩
      · rintro ⟨_, hFits⟩
        exact ⟨_, t, hRun, hStored, by omega⟩

/-- A genesis with one validator that also has an account. -/
def traderGenesis : Genesis where
  accounts :=
    [⟨"0101010101010101010101010101010101010101010101010101010101010101", 1000000⟩]
  validators :=
    [⟨"0101010101010101010101010101010101010101010101010101010101010101", 2500000, 0⟩]
  attestors := []
  initialSupply := 1000000000000

/-- Its store on the development network. -/
def traderGenesisStore : StateStore :=
  ((ChainState.initFromGenesis ⟨ChainConfig.default⟩ traderGenesis).run ∅).2

/-- The trader submits a proposal and votes. -/
def submitAndVote (action : ProposalAction) (o : Governance.VoteOption) : List GovernanceStep :=
  [.call (traderCall 0 (.submitProposal action "" "" 100000)),
    .call (traderCall 1 (.voteProposal Hash.zero o))]

/-- The trader executes the proposal after the vote. -/
def executeLate : Execution.Call :=
  { traderCall 2 (.executeProposal Hash.zero) with height := 20000 }

def votedStore (action : ProposalAction) (o : Governance.VoteOption) : StateStore :=
  after governanceNext traderGenesisStore (submitAndVote action o)

/-- The proposal that was voted on, once the vote is over. -/
theorem exists_voted (action : ProposalAction) (o : Governance.VoteOption) (b : Bool)
    (h : (proposalOf (votedStore action o) Hash.zero).map
        (fun p => (p.status, p.votingEndHeight, p.proposer, p.deposit, p.action,
          passes ChainConfig.default (votedStore action o) p)) =
      some (.voting, 14401, Address.ofByte 1, 100000, action, b)) :
    ∃ p, Ended 20000 (votedStore action o) Hash.zero p ∧ p.proposer = Address.ofByte 1 ∧
      p.deposit = 100000 ∧ p.action = action ∧
      passes ChainConfig.default (votedStore action o) p = b := by
  obtain ⟨p, hp, hFields⟩ := Option.map_eq_some_iff.mp h
  simp only [Prod.mk.injEq] at hFields
  obtain ⟨hVoting, hEnd, hRest⟩ := hFields
  exact ⟨p, ⟨hp, hVoting, by rw [hEnd]; decide⟩, hRest⟩

/-- A text that the vote rejects is closed. -/
theorem closes_iff_rejected :
    ∃ p, Ended 20000 (votedStore (.textProposal "" "") .no) Hash.zero p ∧
      Closes ChainConfig.default 20000 (votedStore (.textProposal "" "") .no) Hash.zero p := by
  obtain ⟨p, hEnded, hProposer, hDeposit, hAction, hPasses⟩ :=
    exists_voted (.textProposal "" "") .no false (by decide +kernel)
  refine ⟨p, hEnded, (closes_iff hEnded).mpr ⟨fun hUnknown => ?_, ?_⟩⟩
  · rw [SlashesUnknown, hPasses] at hUnknown
    cases hUnknown.1
  · have hBalance : balanceOf (votedStore (.textProposal "" "") .no) (Address.ofByte 1) <
        2 ^ 63 := by
      decide +kernel
    rw [granted, payback, hPasses, hProposer, hDeposit]
    simp only [Bool.false_eq_true, if_false]
    have hHalf : (100000 / 2 : UInt64).toNat = 50000 := by decide
    rw [hHalf]
    generalize balanceOf _ (Address.ofByte 1) = b at hBalance ⊢
    omega

/-- A passed slash of an address that is no validator fails, and the deposit stays locked. -/
theorem unknown_slash_stays_open :
    ((Governance.executeExecuteProposal ChainConfig.default Hash.zero 20000).run
        (votedStore (.slashValidator (Address.ofByte 9) 100 "") .yes)).1 =
        .err .validatorNotFound ∧
      (proposalOf (executeLate.next (fun _ => Hash.zero) Executor.devnet
        (votedStore (.slashValidator (Address.ofByte 9) 100 "") .yes)) Hash.zero).map
        (fun p => (p.status, p.deposit)) = some (.voting, 100000) := by
  decide +kernel

/-! ## The treasury and the supply -/

/-- What the recipient gains is taken from the treasury. -/
def PaidFromTreasury (s t : StateStore) (recipient : Address) : Prop :=
  balanceOf t Address.zero + (balanceOf t recipient - balanceOf s recipient) =
    balanceOf s Address.zero

/-- Tokens leave the supply. -/
def BurnedFrom (s t : StateStore) (n : Nat) : Prop :=
  (supplyFigures t).totalSupply.toNat + n = (supplyFigures s).totalSupply.toNat ∧
    (supplyFigures t).totalBurned.toNat = (supplyFigures s).totalBurned.toNat + n

/-- Executing the proposal pays a treasury spend from the treasury and takes the burned half of
the deposit of a rejected proposal out of the supply. -/
def MovesFunds (config : ChainConfig) (height : UInt64) (s : StateStore) (id : Hash)
    (p : Proposal) : Prop :=
  (passes config s p = true → ∀ recipient amount reason,
    p.action = .treasurySpend recipient amount reason →
    ∃ events t, (Governance.executeProposalAction p.action).run s = (.ok (), t) ∧
      (Governance.executeExecuteProposal config id height).run s =
        (.ok events, withProposal (creditedStore t p.proposer height p.deposit)
          { p with status := .executed }) ∧
      PaidFromTreasury s t recipient) ∧
  (passes config s p = false →
    ∃ events t, (Governance.executeExecuteProposal config id height).run s = (.ok events, t) ∧
      BurnedFrom s t (p.deposit - p.deposit / 2).toNat)

/-- A treasury spend creates what it pays. -/
theorem paidFromTreasury_iff (s : StateStore) (recipient : Address) (amount : UInt64) :
    PaidFromTreasury s (creditedStore s recipient 0 amount) recipient ↔
      amount = 0 ∨ balanceOf s recipient = 2 ^ 64 - 1 := by
  have hLt := balanceOf_lt s recipient
  have hZero : amount = 0 ↔ amount.toNat = 0 := by
    rw [← UInt64.toNat_inj]
    rfl
  unfold PaidFromTreasury
  rw [balanceOf_creditedStore, balanceOf_creditedStore, if_pos rfl, hZero]
  by_cases hEq : recipient = Address.zero
  · subst hEq
    rw [if_pos rfl]
    omega
  · rw [if_neg hEq]
    omega

theorem supplyOf_withProposal (s : StateStore) (p : Proposal) :
    supplyOf (withProposal s p) = supplyOf s := by
  rw [supplyOf, withProposal, Store.get?_insert_ne (by simp), supplyOf]

/-- The supply is not written. -/
theorem burnedFrom_iff (hSupply : supplyOf t = supplyOf s) (n : Nat) :
    BurnedFrom s t n ↔ n = 0 := by
  unfold BurnedFrom supplyFigures
  rw [hSupply]
  omega

theorem half_eq_zero_iff (n : UInt64) : (n - n / 2).toNat = 0 ↔ n = 0 := by
  have hHalf : (n / 2).toNat = n.toNat / 2 := UInt64.toNat_div n 2
  have hLe : n / 2 ≤ n := by
    rw [UInt64.le_iff_toNat_le, hHalf]
    omega
  have hZero : n = 0 ↔ n.toNat = 0 := by
    rw [← UInt64.toNat_inj]
    rfl
  rw [UInt64.toNat_sub_of_le _ _ hLe, hHalf, hZero]
  omega

/-- The treasury pays and the supply shrinks exactly if there is nothing to pay and nothing to
burn. -/
theorem movesFunds_iff (hEnded : Ended height s id p) :
    MovesFunds config height s id p ↔
      (passes config s p = true → ∀ recipient amount reason,
        p.action = .treasurySpend recipient amount reason →
        amount = 0 ∨ balanceOf s recipient = 2 ^ 64 - 1) ∧
      (passes config s p = false → p.deposit = 0) := by
  have hRun := run_executeExecuteProposal config hEnded
  unfold MovesFunds
  refine and_congr (imp_congr_right fun hPass => ?_) (imp_congr_right fun hPass => ?_)
  · refine forall_congr' fun recipient => forall_congr' fun amount => forall_congr' fun reason =>
      imp_congr_right fun hAction => ?_
    have hActed := run_executeProposalAction s p.action
    rw [closedStore, hPass, if_pos rfl] at hRun
    rw [hAction, actedStore] at hRun hActed
    rw [← paidFromTreasury_iff, hAction]
    constructor
    · rintro ⟨events, t, ht, _, hPaid⟩
      rw [hActed] at ht
      obtain rfl : _ = t := congrArg Prod.snd ht
      exact hPaid
    · intro hPaid
      exact ⟨_, _, hActed, hRun, hPaid⟩
  · rw [closedStore, hPass, if_neg (by simp)] at hRun
    have hSupply : supplyOf (withProposal (if 0 < p.deposit / 2 then
        creditedStore s p.proposer height (p.deposit / 2) else s)
        { p with status := .rejected }) = supplyOf s := by
      rw [supplyOf_withProposal]
      split
      · rw [supplyOf, get?_creditedStore (by simp), supplyOf]
      · rfl
    rw [← half_eq_zero_iff, ← burnedFrom_iff hSupply]
    constructor
    · rintro ⟨events, t, ht, hBurned⟩
      rw [hRun] at ht
      obtain rfl : _ = t := congrArg Prod.snd ht
      exact hBurned
    · intro hBurned
      exact ⟨_, _, hRun, hBurned⟩

/-- A passed spend pays more than the treasury holds and takes nothing from it, and the burned
half of the deposit of a rejected proposal stays in the supply. -/
theorem spend_creates_and_burn_keeps :
    let executed := fun s =>
      ((Governance.executeExecuteProposal ChainConfig.default Hash.zero 20000).run s).2
    let spend := votedStore (.treasurySpend (Address.ofByte 7) 500000000 "") .yes
    let text := votedStore (.textProposal "" "") .no
    balanceOf spend Address.zero < 1000000 ∧
      balanceOf (executed spend) Address.zero = balanceOf spend Address.zero ∧
      balanceOf spend (Address.ofByte 7) = 0 ∧
      balanceOf (executed spend) (Address.ofByte 7) = 500000000 ∧
      (proposalOf (executed text) Hash.zero).map (fun p => (p.status, p.deposit)) =
        some (.rejected, 100000) ∧
      supplyOf (executed text) = supplyOf text := by
  decide +kernel

/-- The passed spend does not come out of the treasury; a passed spend of nothing leaves
nothing to take. -/
theorem movesFunds_iff_spend :
    (∃ p, Ended 20000 (votedStore (.treasurySpend (Address.ofByte 7) 500000000 "") .yes)
        Hash.zero p ∧
      ¬ MovesFunds ChainConfig.default 20000
        (votedStore (.treasurySpend (Address.ofByte 7) 500000000 "") .yes) Hash.zero p) ∧
    ∃ p, Ended 20000 (votedStore (.treasurySpend (Address.ofByte 7) 0 "") .yes) Hash.zero p ∧
      MovesFunds ChainConfig.default 20000
        (votedStore (.treasurySpend (Address.ofByte 7) 0 "") .yes) Hash.zero p := by
  constructor
  · obtain ⟨p, hEnded, -, -, hAction, hPasses⟩ :=
      exists_voted (.treasurySpend (Address.ofByte 7) 500000000 "") .yes true (by decide +kernel)
    refine ⟨p, hEnded, fun h => ?_⟩
    have hPoor : balanceOf (votedStore (.treasurySpend (Address.ofByte 7) 500000000 "") .yes)
        (Address.ofByte 7) = 0 := by decide +kernel
    rcases ((movesFunds_iff hEnded).mp h).1 hPasses _ _ _ hAction with h | h
    · exact absurd h (by decide)
    · rw [hPoor] at h
      cases h
  · obtain ⟨p, hEnded, -, -, hAction, hPasses⟩ :=
      exists_voted (.treasurySpend (Address.ofByte 7) 0 "") .yes true (by decide +kernel)
    refine ⟨p, hEnded, (movesFunds_iff hEnded).mpr
      ⟨fun _ recipient amount reason hSpend => ?_, fun hFails => ?_⟩⟩
    · rw [hAction] at hSpend
      cases hSpend
      exact .inl rfl
    · rw [hPasses] at hFails
      cases hFails

end Polay.Validator
