import Polay.Execution.Families
import Polay.Lib.Wp

/-!
# Records and postconditions

The records of a store by their types, and the weakest preconditions of the
accessors that the handlers are written with.
-/

namespace Polay.Execution

open Lib Lib.Machine Polay.Types State Executor

/-! ## Accounts -/

section Accounts

variable {β : Type} {Q : Outcome ExecutionError β → StateStore → Prop} {s : StateStore}
variable {amount : UInt64} {x : AccountState} {a : Address} {f : AccountState → Handler β}

/-- The balance of an address; zero if it has no account. -/
def balanceOf (s : StateStore) (a : Address) : Nat :=
  ((accountOf s a).map fun x => x.balance.toNat).getD 0

theorem balanceOf_eq (h : accountOf s a = some x) : balanceOf s a = x.balance.toNat := by
  rw [balanceOf, h]
  rfl

theorem balance_getD (s : StateStore) (a : Address) (t : UInt64) :
    let x := (accountOf s a).getD (AccountState.new a t)
    x.address = a ∧ x.balance.toNat = balanceOf s a := by
  unfold balanceOf
  cases hx : accountOf s a with
  | none => exact ⟨rfl, rfl⟩
  | some x => exact ⟨address_of_accountOf hx, rfl⟩

theorem balanceOf_lt (s : StateStore) (a : Address) : balanceOf s a < 2 ^ 64 := by
  unfold balanceOf
  cases accountOf s a with
  | none => decide
  | some x => exact x.balance.toNat_lt

theorem balanceOf_creditedStore (s : StateStore) (b : Address) (n m : UInt64) (a : Address) :
    balanceOf (creditedStore s b n m) a =
      if b = a then min (balanceOf s a + m.toNat) (2 ^ 64 - 1) else balanceOf s a := by
  unfold balanceOf
  rw [accountOf_creditedStore]
  by_cases hEq : b = a
  · rw [if_pos hEq.symm, if_pos hEq, ← hEq, Option.map_some, Option.getD_some]
    obtain ⟨_, hBalance⟩ := balance_getD s b n
    show (saturatingAdd _ m).toNat = _
    rw [toNat_saturatingAdd, hBalance]
    rfl
  · rw [if_neg (Ne.symm hEq), if_neg hEq]

/-- A credit that is made only if it is not zero. -/
def creditPos (s : StateStore) (a : Address) (n amount : UInt64) : StateStore :=
  if 0 < amount then creditedStore s a n amount else s

theorem balanceOf_creditPos (s : StateStore) (b : Address) (n amount : UInt64) (a : Address) :
    balanceOf (creditPos s b n amount) a =
      if b = a then min (balanceOf s a + amount.toNat) (2 ^ 64 - 1) else balanceOf s a := by
  unfold creditPos
  split
  · exact balanceOf_creditedStore s b n amount a
  · rename_i hZero
    have hLt := balanceOf_lt s a
    rw [eq_zero_of_not_pos hZero, UInt64.toNat_zero]
    split <;> omega

theorem balanceOf_withAccount (s : StateStore) (ha : x.address = a) (b : Address) :
    balanceOf (withAccount s x) b = if b = a then x.balance.toNat else balanceOf s b := by
  rw [balanceOf, accountOf_withAccount s ha, balanceOf]
  split <;> rfl

@[simp] theorem wp_setAccount_bind {f : Unit → Handler β} :
    ((setAccount x).bind f).Wp Q s ↔ (f ()).Wp Q (withAccount s x) := Iff.rfl

@[simp] theorem wp_loadAccount_bind :
    ((loadAccount a).bind f).Wp Q s ↔
      (accountOf s a = none → Q (.err (.accountNotFound a.toHex)) s) ∧
        ∀ x, accountOf s a = some x → (f x).Wp Q s := by
  unfold Prog.Wp
  rw [run_loadAccount_bind]
  cases accountOf s a <;> simp

@[simp] theorem wp_debited_bind :
    ((debited x amount).bind f).Wp Q s ↔
      (x.balance < amount → Q (.err (.insufficientBalance amount x.balance)) s) ∧
        (amount ≤ x.balance → (f { x with balance := x.balance - amount }).Wp Q s) := by
  unfold Prog.Wp
  rw [run_debited_bind]
  by_cases hLt : x.balance < amount
  · simp [hLt]
  · simp [hLt, UInt64.not_lt.mp hLt]

@[simp] theorem wp_getAccountOrNew_bind {t : UInt64} :
    ((getAccountOrNew a t).bind f).Wp Q s ↔
      (f ((accountOf s a).getD (AccountState.new a t))).Wp Q s := Iff.rfl

@[simp] theorem wp_creditOrCreate_bind {t : UInt64} {f : Unit → Handler β} :
    ((creditOrCreate a t amount).bind f).Wp Q s ↔
      (f ()).Wp Q (creditedStore s a t amount) := by
  rw [Prog.wp_bind]
  exact Iff.rfl

theorem wp_creditPos_bind {n : UInt64} {f : Unit → Handler β} :
    ((Prog.when (0 < amount) (creditOrCreate a n amount)).bind f).Wp Q s ↔
      (f ()).Wp Q (creditPos s a n amount) := by
  rw [Prog.wp_when_bind, wp_creditOrCreate_bind, creditPos]
  split <;> simp_all

end Accounts

/-! ## Assets and listings -/

section Assets

def classOf (s : StateStore) (i : Hash) : Option AssetClass :=
  (s.get? (.assetClass i)).map (·.val)

def balanceAt (s : StateStore) (i : Hash) (a : Address) : UInt64 :=
  ((s.get? (.assetBalance i a)).map (·.val)).getD 0

def listingOf (s : StateStore) (i : Hash) : Option Listing :=
  (s.get? (.listing i)).map (·.val)

/-- The creator of an asset class. -/
def creatorOf (s : StateStore) (classId : Hash) : Address :=
  ((classOf s classId).map (·.creator)).getD Address.zero

/-- The store with an asset class written. -/
def withClass (s : StateStore) (x : AssetClass) : StateStore :=
  s.insert (.assetClass x.id) ⟨x, Key.files_assetClass x⟩

/-- The store with a balance written. -/
def withBalance (s : StateStore) (i : Hash) (a : Address) (b : UInt64) : StateStore :=
  s.insert (.assetBalance i a) ⟨b, trivial⟩

/-- The store with a listing written. -/
def withListing (s : StateStore) (l : Listing) : StateStore :=
  s.insert (.listing l.id) ⟨l, Key.files_listing l⟩

variable {β : Type} {Q : Outcome ExecutionError β → StateStore → Prop} {s : StateStore}
variable {i : Hash} {f : Unit → Handler β}

@[simp] theorem wp_getAssetClass_bind {f : Option AssetClass → Handler β} :
    ((getAssetClass i).bind f).Wp Q s ↔ (f (classOf s i)).Wp Q s := Iff.rfl

@[simp] theorem wp_setAssetClass_bind {x : AssetClass} :
    ((setAssetClass x).bind f).Wp Q s ↔ (f ()).Wp Q (withClass s x) := Iff.rfl

@[simp] theorem wp_getAssetBalance_bind {a : Address} {f : UInt64 → Handler β} :
    ((getAssetBalance i a).bind f).Wp Q s ↔ (f (balanceAt s i a)).Wp Q s := Iff.rfl

@[simp] theorem wp_setAssetBalance_bind {a : Address} {b : UInt64} :
    ((setAssetBalance i a b).bind f).Wp Q s ↔ (f ()).Wp Q (withBalance s i a b) := Iff.rfl

@[simp] theorem wp_getListing_bind {f : Option Listing → Handler β} :
    ((getListing i).bind f).Wp Q s ↔ (f (listingOf s i)).Wp Q s := Iff.rfl

@[simp] theorem wp_setListing_bind {l : Listing} :
    ((setListing l).bind f).Wp Q s ↔ (f ()).Wp Q (withListing s l) := Iff.rfl

theorem wp_payRoyalty_bind {classId : Hash} {n royalty : UInt64}
    (hErr : Q (.err .assetClassNotFound) s)
    (h : (f ()).Wp Q (creditPos s (creatorOf s classId) n royalty)) :
    ((Prog.when (0 < royalty) (Market.payRoyalty classId royalty n)).bind f).Wp Q s := by
  rw [Prog.wp_when_bind]
  refine ⟨fun hPos => ?_, fun hZero => ?_⟩
  · simp only [Market.payRoyalty, Prog.bind_eq, Prog.bind_assoc, wp_getAssetClass_bind,
      Prog.wp_require_bind, wp_creditOrCreate_bind]
    refine ⟨fun _ => hErr, fun c hc => ?_⟩
    rw [creditPos, if_pos hPos, creatorOf, hc] at h
    exact h
  · rw [creditPos, if_neg hZero] at h
    exact h

theorem id_of_classOf {x : AssetClass} (h : classOf s i = some x) : x.id = i := by
  obtain ⟨r, _, rfl⟩ := Option.map_eq_some_iff.mp h
  exact r.property

theorem id_of_listingOf {l : Listing} (h : listingOf s i = some l) : l.id = i := by
  obtain ⟨r, _, rfl⟩ := Option.map_eq_some_iff.mp h
  exact r.property

end Assets

/-! ## Matches and guild members -/

section Matches

def attestorOf (s : StateStore) (a : Address) : Option Attestor :=
  (s.get? (.attestor a)).map (·.val)

def matchResultOf (s : StateStore) (i : Hash) : Option MatchResult :=
  (s.get? (.matchResult i)).map (·.val)

def settlementOf (s : StateStore) (i : Hash) : Option MatchSettlement :=
  (s.get? (.matchSettlement i)).map (·.val)

/-- The store with a match result written. -/
def withMatchResult (s : StateStore) (r : MatchResult) : StateStore :=
  s.insert (.matchResult r.matchId) ⟨r, Key.files_matchResult r⟩

/-- The store with a settlement written. -/
def withSettlement (s : StateStore) (x : MatchSettlement) : StateStore :=
  s.insert (.matchSettlement x.matchId) ⟨x, Key.files_matchSettlement x⟩

def membershipOf (s : StateStore) (i : Hash) (a : Address) : Option GuildMembership :=
  (s.get? (.guildMember i a)).map (·.val)

variable {β : Type} {Q : Outcome ExecutionError β → StateStore → Prop} {s : StateStore}
variable {i : Hash}

@[simp] theorem wp_getAttestor_bind {a : Address} {f : Option Attestor → Handler β} :
    ((getAttestor a).bind f).Wp Q s ↔ (f (attestorOf s a)).Wp Q s := Iff.rfl

@[simp] theorem wp_getMatchResult_bind {f : Option MatchResult → Handler β} :
    ((getMatchResult i).bind f).Wp Q s ↔ (f (matchResultOf s i)).Wp Q s := Iff.rfl

@[simp] theorem wp_getMatchSettlement_bind {f : Option MatchSettlement → Handler β} :
    ((getMatchSettlement i).bind f).Wp Q s ↔ (f (settlementOf s i)).Wp Q s := Iff.rfl

@[simp] theorem wp_setMatchResult_bind {r : MatchResult} {f : Unit → Handler β} :
    ((setMatchResult r).bind f).Wp Q s ↔ (f ()).Wp Q (withMatchResult s r) := Iff.rfl

@[simp] theorem wp_setMatchSettlement_bind {x : MatchSettlement} {f : Unit → Handler β} :
    ((setMatchSettlement x).bind f).Wp Q s ↔ (f ()).Wp Q (withSettlement s x) := Iff.rfl

theorem id_of_settlementOf {x : MatchSettlement} (h : settlementOf s i = some x) :
    x.matchId = i := by
  obtain ⟨r, _, rfl⟩ := Option.map_eq_some_iff.mp h
  exact r.property

theorem settlementOf_withSettlement (s : StateStore) (x : MatchSettlement) (i : Hash) :
    settlementOf (withSettlement s x) i =
      if x.matchId = i then some x else settlementOf s i :=
  Store.read_insert s (.matchSettlement i) (Option.map (·.val)) (by simp) (by rintro ⟨⟩; rfl)

theorem matchResultOf_withMatchResult (s : StateStore) (r : MatchResult) (i : Hash) :
    matchResultOf (withMatchResult s r) i =
      if r.matchId = i then some r else matchResultOf s i :=
  Store.read_insert s (.matchResult i) (Option.map (·.val)) (by simp) (by rintro ⟨⟩; rfl)

theorem settlementOf_withMatchResult (s : StateStore) (r : MatchResult) (i : Hash) :
    settlementOf (withMatchResult s r) i = settlementOf s i := by
  unfold settlementOf withMatchResult
  rw [Store.get?_insert_ne (by simp)]

theorem matchResultOf_withSettlement (s : StateStore) (x : MatchSettlement) (i : Hash) :
    matchResultOf (withSettlement s x) i = matchResultOf s i := by
  unfold matchResultOf withSettlement
  rw [Store.get?_insert_ne (by simp)]

@[simp] theorem wp_getGuildMembership_bind {a : Address} {f : Option GuildMembership → Handler β} :
    ((getGuildMembership i a).bind f).Wp Q s ↔ (f (membershipOf s i a)).Wp Q s := Iff.rfl

end Matches

/-! ## Rentals, guilds, tournaments and proposals -/

section Escrow

def rentalOf (s : StateStore) (i : Hash) : Option Rental := (s.get? (.rental i)).map (·.val)

def guildOf (s : StateStore) (i : Hash) : Option Guild := (s.get? (.guild i)).map (·.val)

def tournamentOf (s : StateStore) (i : Hash) : Option Tournament :=
  (s.get? (.tournament i)).map (·.val)

def proposalOf (s : StateStore) (i : Hash) : Option Governance.Proposal :=
  (s.get? (.proposal i)).map (·.val)

/-- The store with a rental and its markers written. -/
def withRental (s : StateStore) (r : Rental) : StateStore :=
  let s₁ := (s.insert (.rental r.rentalId) ⟨r, Key.files_rental r⟩).insert
    (.rentalByOwner r.owner r.rentalId) ⟨true, trivial⟩
  match r.renter with
  | some renter => s₁.insert (.rentalByRenter renter r.rentalId) ⟨true, trivial⟩
  | none => s₁

/-- The store with a guild written. -/
def withGuild (s : StateStore) (g : Guild) : StateStore :=
  s.insert (.guild g.guildId) ⟨g, Key.files_guild g⟩

/-- The store with a tournament written. -/
def withTournament (s : StateStore) (t : Tournament) : StateStore :=
  s.insert (.tournament t.tournamentId) ⟨t, Key.files_tournament t⟩

/-- The store with a proposal written. -/
def withProposal (s : StateStore) (p : Governance.Proposal) : StateStore :=
  s.insert (.proposal p.id) ⟨p, Key.files_proposal p⟩

/-- What execution counts as the total stake. -/
def totalStaked (s : StateStore) : UInt64 :=
  Governance.sumOver Governance.validatorStake (s.scan (Key.startsWith [0x05]))

/-- The proposal is executed at the height: its vote is over and it passed. -/
def Executes (config : ChainConfig) (height : UInt64) (s : StateStore) (id : Hash)
    (p : Governance.Proposal) : Prop :=
  proposalOf s id = some p ∧ p.status = .voting ∧
    p.votingEndHeight < height ∧
    (Governance.quorumMet config p (totalStaked s) && Governance.thresholdMet config p) = true

variable {β : Type} {Q : Outcome ExecutionError β → StateStore → Prop} {s : StateStore}
variable {p : Governance.Proposal} {f : Unit → Handler β} {i : Hash}

@[simp] theorem wp_getRental_bind {f : Option Rental → Handler β} :
    ((getRental i).bind f).Wp Q s ↔ (f (rentalOf s i)).Wp Q s := Iff.rfl

@[simp] theorem wp_setRental_bind {r : Rental} :
    ((setRental r).bind f).Wp Q s ↔ (f ()).Wp Q (withRental s r) := by
  rw [Prog.wp_bind]
  unfold setRental withRental
  cases r.renter <;> exact Iff.rfl

@[simp] theorem wp_getGuild_bind {f : Option Guild → Handler β} :
    ((getGuild i).bind f).Wp Q s ↔ (f (guildOf s i)).Wp Q s := Iff.rfl

@[simp] theorem wp_setGuild_bind {g : Guild} :
    ((setGuild g).bind f).Wp Q s ↔ (f ()).Wp Q (withGuild s g) := Iff.rfl

@[simp] theorem wp_getTournament_bind {f : Option Tournament → Handler β} :
    ((getTournament i).bind f).Wp Q s ↔ (f (tournamentOf s i)).Wp Q s := Iff.rfl

@[simp] theorem wp_setTournament_bind {t : Tournament} :
    ((setTournament t).bind f).Wp Q s ↔ (f ()).Wp Q (withTournament s t) := Iff.rfl

@[simp] theorem wp_getProposal_bind {f : Option Governance.Proposal → Handler β} :
    ((getProposal i).bind f).Wp Q s ↔ (f (proposalOf s i)).Wp Q s := Iff.rfl

@[simp] theorem wp_setProposal_bind :
    ((setProposal p).bind f).Wp Q s ↔ (f ()).Wp Q (withProposal s p) := Iff.rfl

@[simp] theorem wp_calculateTotalStaked_bind {f : UInt64 → Handler β} :
    (Governance.calculateTotalStaked.bind f).Wp Q s ↔ (f (totalStaked s)).Wp Q s := Iff.rfl

theorem id_of_rentalOf {r : Rental} (h : rentalOf s i = some r) : r.rentalId = i := by
  obtain ⟨x, _, rfl⟩ := Option.map_eq_some_iff.mp h
  exact x.property

theorem id_of_guildOf {g : Guild} (h : guildOf s i = some g) : g.guildId = i := by
  obtain ⟨x, _, rfl⟩ := Option.map_eq_some_iff.mp h
  exact x.property

theorem id_of_tournamentOf {t : Tournament} (h : tournamentOf s i = some t) :
    t.tournamentId = i := by
  obtain ⟨x, _, rfl⟩ := Option.map_eq_some_iff.mp h
  exact x.property

theorem id_of_proposalOf (h : proposalOf s i = some p) : p.id = i := by
  obtain ⟨x, _, rfl⟩ := Option.map_eq_some_iff.mp h
  exact x.property

theorem totalStaked_congr {F : List Family} {t : StateStore} (hKeeps : Store.Holds (Keeps F s) t)
    (hValidator : Family.validator ∉ F) : totalStaked t = totalStaked s := by
  unfold totalStaked
  congr 1
  refine Store.scan_congr fun k hk => ?_
  cases k
  case validator a => exact hKeeps _ hValidator
  all_goals exact absurd hk (by simp [Key.startsWith, Key.bytes, Key.split])

/-- Which proposals are executed does not depend on the fee stage. -/
theorem Executes.congr {F : List Family} {t : StateStore} (hKeeps : Store.Holds (Keeps F s) t)
    (hValidator : Family.validator ∉ F) (hProposal : Family.proposal ∉ F) {config : ChainConfig}
    {height : UInt64} {id : Hash} (h : Executes config height t id p) :
    Executes config height s id p := by
  unfold Executes proposalOf at h ⊢
  rwa [hKeeps (.proposal id) hProposal, totalStaked_congr hKeeps hValidator] at h

end Escrow

end Polay.Execution
