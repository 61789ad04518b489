import Polay.Execution.AssetSupply
import Polay.Execution.Rentals

/-!
# The assets behind rentals

A listing for rent checks once that its owner has an asset of the class; the asset stays in the
balance of the owner and can be moved by any other transaction.
-/

namespace Polay.Execution

open Lib Lib.Machine Lib.Trace Polay.Types State Executor

variable {sha256 : List UInt8 → Hash} {ex : Executor} {s t : StateStore}

/-! ## What a transaction does to the balances of assets -/

section Balances

/-- What a successful action takes off the balance of an account. -/
def takes (action : TransactionAction) (signer : Address) (i : Hash) (a : Address) : Nat :=
  match action with
  | .transferAsset j toAddr amount =>
      if i = j ∧ a = signer ∧ toAddr ≠ signer then amount.toNat else 0
  | .burnAsset j amount => if i = j ∧ a = signer then amount.toNat else 0
  | .createListing j amount _ _ => if i = j ∧ a = signer then amount.toNat else 0
  | _ => 0

/-- What an action takes is taken, and nobody loses more. An action that fails takes nothing. -/
def AssetEffect (action : TransactionAction) (signer : Address) (s t : StateStore) (b : Bool) :
    Prop :=
  ∀ i a, if b then
      (balanceAt s i a).toNat ≤ (balanceAt t i a).toNat + takes action signer i a ∧
        (0 < takes action signer i a →
          (balanceAt t i a).toNat + takes action signer i a = (balanceAt s i a).toNat)
    else balanceAt t i a = balanceAt s i a

variable {action : TransactionAction} {signer : Address}

theorem balanceAt_of_sameOn (h : SameOn [.assetBalance] s t) (i : Hash) (a : Address) :
    balanceAt t i a = balanceAt s i a := by
  rw [balanceAt, h (.assetBalance i a) (by simp [familyOf]), balanceAt]

theorem balanceAt_withBalance (s : StateStore) (j : Hash) (p : Address) (n : UInt64) (i : Hash)
    (a : Address) :
    balanceAt (withBalance s j p n) i a = if i = j ∧ a = p then n else balanceAt s i a :=
  Store.read_insert s (.assetBalance i a) (fun o => (o.map Subtype.val).getD 0)
    (by simp [eq_comm]) (by rintro ⟨⟩; rfl)

theorem assetEffect_same (h : ∀ i a, balanceAt t i a = balanceAt s i a)
    (hTakes : ∀ i a, takes action signer i a = 0) (b : Bool) :
    AssetEffect action signer s t b := by
  intro i a
  cases b with
  | false => exact h i a
  | true =>
      refine ⟨?_, fun hPos => ?_⟩
      · rw [h]
        exact Nat.le_add_right _ _
      · rw [hTakes] at hPos
        exact absurd hPos (Nat.lt_irrefl 0)

theorem assetEffect_failed : AssetEffect action signer s s false := fun _ _ => rfl

/-- An action that only adds to a balance. -/
theorem assetEffect_gain {j : Hash} {p : Address} {n : UInt64}
    (hTakes : ∀ i a, takes action signer i a = 0)
    (h : ∀ i a, balanceAt t i a =
      if i = j ∧ a = p then saturatingAdd (balanceAt s j p) n else balanceAt s i a) :
    AssetEffect action signer s t true := by
  intro i a
  refine ⟨?_, fun hPos => ?_⟩
  · rw [h, hTakes, Nat.add_zero]
    split
    · rename_i hBoth
      rw [hBoth.1, hBoth.2]
      exact UInt64.le_iff_toNat_le.mp (le_saturatingAdd _ _)
    · exact Nat.le_refl _
  · rw [hTakes] at hPos
    exact absurd hPos (Nat.lt_irrefl 0)

/-- An action that takes an amount from its signer, and adds only to other balances. -/
theorem assetEffect_loss {j : Hash} {n : UInt64}
    (hTakes : ∀ i a, takes action signer i a = if i = j ∧ a = signer then n.toNat else 0)
    (hEnough : n ≤ balanceAt s j signer)
    (hSigner : balanceAt t j signer = balanceAt s j signer - n)
    (hOther : ∀ i a, ¬ (i = j ∧ a = signer) → balanceAt s i a ≤ balanceAt t i a) :
    AssetEffect action signer s t true := by
  intro i a
  rw [hTakes]
  by_cases hBoth : i = j ∧ a = signer
  · obtain ⟨rfl, rfl⟩ := hBoth
    have hSub := UInt64.toNat_sub_of_le _ _ hEnough
    rw [UInt64.le_iff_toNat_le] at hEnough
    simp only [and_self, if_true, hSigner, hSub]
    exact ⟨by omega, fun _ => by omega⟩
  · rw [if_neg hBoth]
    exact ⟨UInt64.le_iff_toNat_le.mp (hOther i a hBoth), fun hPos => absurd hPos (Nat.lt_irrefl 0)⟩

theorem mintAsset_balances (s : StateStore) (j : Hash) (p : Address) (amount : UInt64)
    (data : Option String) :
    (Assets.executeMintAsset signer j p amount).Wp
      (fun o t => AssetEffect (.mintAsset j p amount data) signer s t o.toOption.isSome) s := by
  simp only [Assets.executeMintAsset, Prog.bind_eq, wp_getAssetClass_bind, Prog.wp_require_bind,
    Prog.wp_ensure_bind, wp_setAssetClass_bind, wp_getAssetBalance_bind,
    wp_setAssetBalance_bind, Prog.pure_eq, Prog.wp_pure]
  refine ⟨fun _ => assetEffect_failed, fun x _ => ⟨fun _ => assetEffect_failed, fun _ =>
    ⟨fun _ => assetEffect_failed, fun _ =>
      assetEffect_gain (j := j) (p := p) (n := amount) (fun _ _ => rfl) fun i a => ?_⟩⟩⟩
  rw [balanceAt_withBalance, balanceAt_withClass, balanceAt_withClass]

theorem transferAsset_balances (s : StateStore) (j : Hash) (p : Address) (amount : UInt64) :
    (Assets.executeTransferAsset signer j p amount).Wp
      (fun o t => AssetEffect (.transferAsset j p amount) signer s t o.toOption.isSome) s := by
  simp only [Assets.executeTransferAsset, Prog.bind_eq, wp_getAssetClass_bind,
    Prog.wp_ensure_bind, wp_getAssetBalance_bind,
    wp_setAssetBalance_bind, Prog.pure_eq, Prog.wp_pure]
  refine ⟨fun _ => assetEffect_failed, fun _ => ⟨fun _ => assetEffect_failed, fun hEnough => ?_⟩⟩
  have hEnough := UInt64.not_lt.mp hEnough
  by_cases hSelf : p = signer
  · -- What goes to the signer itself comes back.
    subst hSelf
    have hBack : saturatingAdd (balanceAt s j p - amount) amount = balanceAt s j p := by
      apply UInt64.toNat.inj
      have hLt := (balanceAt s j p).toNat_lt
      rw [toNat_saturatingAdd, UInt64.toNat_sub_of_le _ _ hEnough]
      rw [UInt64.le_iff_toNat_le] at hEnough
      omega
    refine assetEffect_same (fun i a => ?_) (fun i a => by simp [takes]) _
    rw [balanceAt_withBalance, balanceAt_withBalance, balanceAt_withBalance,
      if_pos (⟨rfl, rfl⟩ : j = j ∧ p = p), hBack]
    split
    · rename_i hBoth
      rw [hBoth.1, hBoth.2]
    · rfl
  · refine assetEffect_loss (fun i a => ?_) hEnough ?_ fun i a hNot => ?_
    · simp [takes, hSelf]
    · rw [balanceAt_withBalance, if_neg fun h => hSelf h.2.symm, balanceAt_withBalance,
        if_pos ⟨rfl, rfl⟩]
    · rw [balanceAt_withBalance]
      split
      · rename_i hBoth
        rw [balanceAt_withBalance, if_neg fun h => hSelf h.2, hBoth.1, hBoth.2]
        exact le_saturatingAdd _ _
      · rw [balanceAt_withBalance, if_neg hNot]
        exact UInt64.le_refl _

theorem burnAsset_balances (s : StateStore) (j : Hash) (amount : UInt64) :
    (Assets.executeBurnAsset signer j amount).Wp
      (fun o t => AssetEffect (.burnAsset j amount) signer s t o.toOption.isSome) s := by
  simp only [Assets.executeBurnAsset, Prog.bind_eq, wp_getAssetClass_bind, Prog.wp_require_bind,
    Prog.wp_ensure_bind, wp_getAssetBalance_bind, wp_setAssetBalance_bind, wp_setAssetClass_bind,
    Prog.pure_eq, Prog.wp_pure]
  refine ⟨fun _ => assetEffect_failed, fun x _ => ⟨fun _ => assetEffect_failed, fun hEnough => ?_⟩⟩
  refine assetEffect_loss (fun _ _ => rfl) (UInt64.not_lt.mp hEnough) ?_ fun i a hNot => ?_
  · rw [balanceAt_withClass, balanceAt_withBalance, if_pos ⟨rfl, rfl⟩]
  · rw [balanceAt_withClass, balanceAt_withBalance, if_neg hNot]
    exact UInt64.le_refl _

theorem createListing_balances (s : StateStore) (config : ChainConfig) (j : Hash)
    (amount price : UInt64) (currency : Hash) (timestamp : UInt64) :
    (Market.executeCreateListing sha256 config signer j amount price currency timestamp).Wp
      (fun o t => AssetEffect (.createListing j amount price currency) signer s t
        o.toOption.isSome) s := by
  simp only [Market.executeCreateListing, Prog.bind_eq, wp_getAssetClass_bind,
    Prog.wp_require_bind, Prog.wp_ensure_bind, wp_getAssetBalance_bind, wp_setAssetBalance_bind,
    wp_setListing_bind, Prog.pure_eq, Prog.wp_pure]
  refine ⟨fun _ => assetEffect_failed, fun x _ => ⟨fun _ => assetEffect_failed, fun hEnough => ?_⟩⟩
  have hListed : ∀ (u : StateStore) (l : Listing) i a,
      balanceAt (withListing u l) i a = balanceAt u i a :=
    fun u l => balanceAt_of_sameOn (sameOn_insert (by simp [familyOf]) u _)
  refine assetEffect_loss (fun _ _ => rfl) (UInt64.not_lt.mp hEnough) ?_ fun i a hNot => ?_
  · rw [hListed, balanceAt_withBalance, if_pos ⟨rfl, rfl⟩]
  · rw [hListed, balanceAt_withBalance, if_neg hNot]
    exact UInt64.le_refl _

/-- Whoever gets what a listing held gains it. -/
theorem assetEffect_closeListing {u : StateStore} (hSame : SameOn [.assetBalance] s u)
    (hTakes : ∀ i a, takes action signer i a = 0) (j : Hash) (p : Address) (n : UInt64)
    (l : Listing) :
    AssetEffect action signer s
      (withListing (withBalance u j p (saturatingAdd (balanceAt u j p) n)) l) true := by
  refine assetEffect_gain (j := j) (p := p) (n := n) hTakes fun i a => ?_
  have hListed : SameOn [.assetBalance] (withBalance u j p (saturatingAdd (balanceAt u j p) n))
      (withListing (withBalance u j p (saturatingAdd (balanceAt u j p) n)) l) :=
    sameOn_insert (by simp [familyOf]) _ _
  rw [balanceAt_of_sameOn hListed, balanceAt_withBalance, balanceAt_of_sameOn hSame,
    balanceAt_of_sameOn hSame]

theorem cancelListing_balances (s : StateStore) (id : Hash) :
    (Market.executeCancelListing signer id).Wp
      (fun o t => AssetEffect (.cancelListing id) signer s t o.toOption.isSome) s := by
  simp only [Market.executeCancelListing, Prog.bind_eq, wp_getListing_bind,
    Prog.wp_require_bind, Prog.wp_ensure_bind, wp_getAssetBalance_bind,
    wp_setAssetBalance_bind, wp_setListing_bind,
    Prog.pure_eq, Prog.wp_pure]
  exact ⟨fun _ => assetEffect_failed, fun l _ => ⟨fun _ => assetEffect_failed, fun _ =>
    ⟨fun _ => assetEffect_failed, fun _ =>
      assetEffect_closeListing (.refl _ s) (fun _ _ => rfl) _ _ _ _⟩⟩⟩

/-- The payments of a sale do not concern assets. -/
theorem buyListing_balances (s : StateStore) (config : ChainConfig) (id : Hash)
    (timestamp : UInt64) :
    (Market.executeBuyListing config signer id timestamp).Wp
      (fun o t => AssetEffect (.buyListing id) signer s t o.toOption.isSome) s := by
  simp only [Market.executeBuyListing, Prog.bind_eq, wp_getListing_bind, Prog.wp_require_bind,
    Prog.wp_ensure_bind, wp_loadAccount_bind, wp_debited_bind, wp_setAccount_bind,
    wp_creditOrCreate_bind, wp_creditPos_bind]
  refine ⟨fun _ => assetEffect_failed, fun l _ => ⟨fun _ => assetEffect_failed, fun _ =>
    ⟨fun _ => assetEffect_failed, fun _ => ⟨fun _ => assetEffect_failed, fun x _ =>
      ⟨fun _ => assetEffect_failed, fun _ => ?_⟩⟩⟩⟩⟩
  generalize hu : creditPos _ Address.zero _ _ = u
  have hSame : SameOn [.assetBalance] s u := by
    rw [← hu]
    exact ((sameOn_insert (by simp [familyOf]) s _).trans
      (sameOn_insert (by simp [familyOf]) _ _)).trans (sameOn_creditPos (by simp) _ _ _ _)
  refine wp_payRoyalty_bind (balanceAt_of_sameOn hSame) ?_
  simp only [wp_getAssetBalance_bind, wp_setAssetBalance_bind, wp_setListing_bind,
    Prog.pure_eq, Prog.wp_pure]
  exact assetEffect_closeListing (hSame.trans (sameOn_creditPos (by simp) _ _ _ _))
    (fun _ _ => rfl) _ _ _ _

theorem assetEffect_dispatchAction (sha256 : List UInt8 → Hash) (ex : Executor)
    (action : TransactionAction) (signer : Address) (timestamp height : UInt64) (s : StateStore) :
    (ex.dispatchAction sha256 action signer timestamp height).Wp
      (fun o t => AssetEffect action signer s t o.toOption.isSome) s := by
  have hKeeps := run_keeps (dispatchAction_keeps sha256 ex action signer timestamp height (s := s))
  by_cases hWritten : Family.assetBalance ∈ writtenBy action
  · have hEvents : ∀ {α β : Type} {action : TransactionAction} {p : Handler α} {f : α → β},
        p.Wp (fun o t => AssetEffect action signer s t o.toOption.isSome) s →
        (p.bind fun a => .pure (f a)).Wp
          (fun o t => AssetEffect action signer s t o.toOption.isSome) s :=
      fun {_ _ action _ _} =>
        (Prog.wp_isSome_bind_pure (R := fun b t => AssetEffect action signer s t b)).mpr
    cases action
    case mintAsset j p amount data => exact hEvents (mintAsset_balances s j p amount data)
    case transferAsset j p amount => exact hEvents (transferAsset_balances s j p amount)
    case burnAsset j amount => exact hEvents (burnAsset_balances s j amount)
    case createListing j amount price currency =>
      exact hEvents (createListing_balances s ex.chainConfig j amount price currency timestamp)
    case cancelListing id => exact hEvents (cancelListing_balances s id)
    case buyListing id => exact hEvents (buyListing_balances s ex.chainConfig id timestamp)
    all_goals exact absurd hWritten (by simp [writtenBy])
  · have hTakes : ∀ i a, takes action signer i a = 0 := by
      cases action <;> simp_all [takes, writtenBy]
    have hSame := balanceAt_of_sameOn (sameOn_of_keeps hKeeps (by simpa using hWritten))
    show AssetEffect _ _ _ _ _
    exact assetEffect_same hSame hTakes _

theorem AssetEffect.congr {s₁ t₁ : StateStore} {b : Bool} (h : AssetEffect action signer s₁ t₁ b)
    (hs : SameOn [.assetBalance] s s₁) (ht : SameOn [.assetBalance] t₁ t) :
    AssetEffect action signer s t b := by
  intro i a
  have hEffect := h i a
  rw [balanceAt_of_sameOn hs] at hEffect
  rw [balanceAt_of_sameOn ht]
  exact hEffect

/-- What a call does to the balances of assets. -/
theorem assetEffect_call (sha256 : List UInt8 → Hash) (ex : Executor) (s : StateStore) (c : Call) :
    AssetEffect c.tx.transaction.action c.tx.transaction.signer s (c.next sha256 ex s)
      (c.succeeds sha256 ex s) := by
  refine Call.effect (F := [.assetBalance]) (by simp [feeFamilies]) (by simp)
    (R := fun b s t => AssetEffect _ _ s t b) assetEffect_failed
    (fun hs h ht => h.congr hs ht) fun s₁ _ => ?_
  exact assetEffect_dispatchAction sha256 ex c.tx.transaction.action
    c.tx.transaction.signer c.tx.transaction.timestamp c.height s₁

end Balances

/-! ## Rentals are backed by assets -/

/-- Whether a rental is an open one, of the class and by the owner: one or none. -/
def openRental (i : Hash) (a : Address) (r : Rental) : Nat :=
  if r.assetClassId = i ∧ r.owner = a ∧ (r.status = .listed ∨ r.status = .active) then 1 else 0

/-- The figure of an open rental. -/
def rentalFigure (i : Hash) (a : Address) : (k : Key) → k.Value → Nat
  | .rental _, r => openRental i a r.val
  | _, _ => 0

/-- The number of rentals of a class that an owner has listed or rented out. -/
def openRentals (s : StateStore) (i : Hash) (a : Address) : Nat :=
  Store.total (rentalFigure i a) s

/-- The open rentals besides the one with an identifier. -/
def otherRentals (s : StateStore) (id i : Hash) (a : Address) : Nat :=
  openRentals (s.erase (.rental id)) i a

/-- Nobody has more open rentals of a class than assets of it. -/
def Backed (s : StateStore) : Prop := ∀ i a, openRentals s i a ≤ (balanceAt s i a).toNat

section Counts

variable {r : Rental} {i : Hash} {a : Address}

theorem figureAt_rentalFigure (s : StateStore) (id i : Hash) (a : Address) :
    Store.figureAt (rentalFigure i a) s (.rental id) =
      ((rentalOf s id).map (openRental i a)).getD 0 := by
  unfold Store.figureAt rentalOf
  cases s.get? (.rental id) <;> rfl

theorem openRentals_congr (h : ∀ id, rentalOf t id = rentalOf s id) (i : Hash) (a : Address) :
    openRentals t i a = openRentals s i a := by
  refine Store.total_congr fun k => ?_
  cases k
  case rental => rw [figureAt_rentalFigure, figureAt_rentalFigure, h]
  all_goals
    exact (Store.figureAt_eq_zero _ fun _ => rfl).trans (Store.figureAt_eq_zero _ fun _ => rfl).symm

theorem rentalOf_erase (s : StateStore) (id j : Hash) :
    rentalOf (s.erase (.rental id)) j = if j = id then none else rentalOf s j :=
  Store.read_erase s (.rental j) (Option.map (·.val)) (by simp [eq_comm])

theorem openRentals_eq (s : StateStore) (id i : Hash) (a : Address) :
    openRentals s i a =
      ((rentalOf s id).map (openRental i a)).getD 0 + otherRentals s id i a := by
  rw [← figureAt_rentalFigure]
  exact Store.total_eq_add_erase _ _

/-- Writing the record of a rental. -/
theorem RentalWrite.openRentals (h : RentalWrite r s t) (i : Hash) (a : Address) :
    openRentals t i a = openRental i a r + otherRentals s r.rentalId i a := by
  have hOther : otherRentals t r.rentalId i a = otherRentals s r.rentalId i a := by
    refine openRentals_congr (fun j => ?_) i a
    rw [rentalOf_erase, rentalOf_erase, h]
    split <;> rfl
  rw [openRentals_eq t r.rentalId, h, if_pos rfl, hOther]
  rfl

theorem openRental_le_one (i : Hash) (a : Address) (r : Rental) : openRental i a r ≤ 1 := by
  unfold openRental
  split <;> omega

/-- Only a new listing adds to the open rentals. -/
theorem RentalChange.openRental_le {new : Hash → Prop} {signer : Address} {height : UInt64}
    {action : TransactionAction} (h : RentalChange new signer height s action r)
    (hOther : ∀ j assetId price deposit minD maxD,
      action = .listForRent j assetId price deposit minD maxD → ¬ (j = i ∧ signer = a)) :
    openRental i a r ≤ ((rentalOf s r.rentalId).map (openRental i a)).getD 0 := by
  have hClosed : ∀ {x : Rental}, x.status ≠ .listed → x.status ≠ .active →
      openRental i a x = 0 :=
    fun hListed hActive => if_neg fun hOpen => hOpen.2.2.elim hListed hActive
  cases h with
  | list j assetId price deposit minD maxD _ hNew hOwner hClass =>
      have hNot := hOther j assetId price deposit minD maxD rfl
      have hZero : openRental i a r = 0 := by
        refine if_neg fun hOpen => hNot ⟨?_, ?_⟩
        · rw [← hClass, hOpen.1]
        · rw [← hOwner, hOpen.2.1]
      rw [hZero]
      exact Nat.zero_le _
  | rent x duration hOld hStatus =>
      show openRental i a (rented x signer height duration) ≤
        ((rentalOf s x.rentalId).map (openRental i a)).getD 0
      rw [hOld]
      show openRental i a (rented x signer height duration) ≤ openRental i a x
      simp [openRental, rented, hStatus]
  | giveBack | expire | cancel =>
      rw [hClosed RentalStatus.noConfusion RentalStatus.noConfusion]
      exact Nat.zero_le _

end Counts

section Backing

/-- The identifier of a new rental. -/
def rentalIdOf (sha256 : List UInt8 → Hash) (owner : Address) (assetId : Hash)
    (timestamp : UInt64) : Hash :=
  sha256 (Creation.message (.rental owner assetId timestamp))

/-- The assets under rental stay where they are: what the call takes from its signer leaves an
asset for every open rental of the signer, and there is one more for a new rental. -/
structure Covered (sha256 : List UInt8 → Hash) (s : StateStore) (c : Call) : Prop where
  taken : ∀ i, openRentals s i c.tx.transaction.signer +
      takes c.tx.transaction.action c.tx.transaction.signer i c.tx.transaction.signer ≤
    (balanceAt s i c.tx.transaction.signer).toNat
  listed : ∀ i assetId price deposit minD maxD,
    c.tx.transaction.action = .listForRent i assetId price deposit minD maxD →
      otherRentals s (rentalIdOf sha256 c.tx.transaction.signer assetId c.tx.transaction.timestamp)
          i c.tx.transaction.signer + 1 ≤
        (balanceAt s i c.tx.transaction.signer).toNat

theorem takes_pos {action : TransactionAction} {signer : Address} {i : Hash} {a : Address}
    (h : 0 < takes action signer i a) : a = signer ∧ rentalAction action = false := by
  cases action
  case transferAsset =>
    refine ⟨?_, rfl⟩
    by_contra hNe
    rw [takes, if_neg fun hAll => hNe hAll.2.1] at h
    exact Nat.lt_irrefl 0 h
  case burnAsset | createListing =>
    refine ⟨?_, rfl⟩
    by_contra hNe
    rw [takes, if_neg fun hAll => hNe hAll.2] at h
    exact Nat.lt_irrefl 0 h
  all_goals exact absurd h (Nat.lt_irrefl 0)

/-- The actions of rentals leave the balances of assets as they are. -/
theorem balanceAt_rentalCall {c : Call} (h : rentalAction c.tx.transaction.action = true)
    (i : Hash) (a : Address) : balanceAt (c.next sha256 ex s) i a = balanceAt s i a := by
  refine balanceAt_of_sameOn (Call.sameOn (by simp [feeFamilies]) (by simp) ?_) i a
  generalize c.tx.transaction.action = action at h
  cases action <;> simp_all [rentalAction, writtenBy]

theorem RentalChange.rentalAction {new : Hash → Prop} {signer : Address} {height : UInt64}
    {action : TransactionAction} {r : Rental} (h : RentalChange new signer height s action r) :
    rentalAction action = true := by
  cases h <;> rfl

theorem Backed.of_same (h : Backed s) (hRentals : ∀ i, rentalOf t i = rentalOf s i)
    (hBalances : ∀ i a, (balanceAt s i a).toNat ≤ (balanceAt t i a).toNat) : Backed t := by
  intro i a
  rw [openRentals_congr hRentals]
  exact (h i a).trans (hBalances i a)

/-- A call that covers the open rentals. -/
theorem Backed.call (h : Backed s) {c : Call}
    (hCovered : c.succeeds sha256 ex s = true → Covered sha256 s c) :
    Backed (c.next sha256 ex s) := by
  have hAssets := assetEffect_call sha256 ex s c
  cases rentalEffect_call sha256 ex s c with
  | kept _ hSame =>
      cases hOk : c.succeeds sha256 ex s with
      | false =>
          rw [hOk] at hAssets
          refine h.of_same hSame fun i a => ?_
          rw [show balanceAt (c.next sha256 ex s) i a = balanceAt s i a from hAssets i a]
      | true =>
          rw [hOk] at hAssets
          intro i a
          rw [openRentals_congr hSame]
          obtain ⟨hLeast, hTaken⟩ := hAssets i a
          have hBefore := h i a
          rcases Nat.eq_zero_or_pos
            (takes c.tx.transaction.action c.tx.transaction.signer i a) with hZero | hPos
          · omega
          · obtain ⟨rfl, -⟩ := takes_pos hPos
            have hLeft := (hCovered hOk).taken i
            have hEq := hTaken hPos
            omega
  | @changed r hOk hChange hWrite =>
      intro i a
      rw [balanceAt_rentalCall hChange.rentalAction, hWrite.openRentals]
      have hBefore := h i a
      have hOthers := openRentals_eq s r.rentalId i a
      by_cases hListed : ∀ j assetId price deposit minD maxD,
          c.tx.transaction.action = .listForRent j assetId price deposit minD maxD →
            ¬ (j = i ∧ c.tx.transaction.signer = a)
      · have hLe := hChange.openRental_le hListed
        omega
      · push Not at hListed
        obtain ⟨j, assetId, price, deposit, minD, maxD, hAction, rfl, rfl⟩ := hListed
        have hRoom := (hCovered hOk).listed j assetId price deposit minD maxD hAction
        have hOne := openRental_le_one j c.tx.transaction.signer r
        have hId : r.rentalId = rentalIdOf sha256 c.tx.transaction.signer assetId
            c.tx.transaction.timestamp := by
          rw [hAction] at hChange
          cases hChange with
          | list _ _ _ _ _ _ _ hNew =>
              obtain ⟨_, _, _, _, _, _, hEq, hNewId⟩ := hNew
              rw [hAction] at hEq
              injection hEq with _ hAsset
              rw [hNewId, hAsset, rentalIdOf]
        rw [hId]
        omega

/-- The condition is needed: a call that does not meet it leaves a rental without its asset. -/
theorem Backed.covered (h : Backed s) {c : Call} (hNext : Backed (c.next sha256 ex s))
    (hOk : c.succeeds sha256 ex s = true) : Covered sha256 s c := by
  have hAssets := assetEffect_call sha256 ex s c
  have hRentals := rentalEffect_call sha256 ex s c
  rw [hOk] at hAssets hRentals
  refine ⟨fun i => ?_, fun i assetId price deposit minD maxD hAction => ?_⟩
  · rcases Nat.eq_zero_or_pos (takes c.tx.transaction.action c.tx.transaction.signer i
      c.tx.transaction.signer) with hZero | hPos
    · rw [hZero]
      exact h i _
    · have hAfter := hNext i c.tx.transaction.signer
      have hEq := (hAssets i c.tx.transaction.signer).2 hPos
      cases hRentals with
      | kept _ hSame =>
          rw [openRentals_congr hSame] at hAfter
          omega
      | changed _ hChange =>
          have hNot := (takes_pos hPos).2
          rw [hChange.rentalAction] at hNot
          cases hNot
  · have hRental : rentalAction c.tx.transaction.action = true := by
      rw [hAction]
      rfl
    have hAfter := hNext i c.tx.transaction.signer
    rw [balanceAt_rentalCall hRental] at hAfter
    cases hRentals with
    | kept hKept =>
        have hNot := hKept rfl
        rw [hRental] at hNot
        cases hNot
    | @changed r _ hChange hWrite =>
        rw [hWrite.openRentals] at hAfter
        rw [hAction] at hChange
        cases hChange with
        | list _ _ _ _ _ _ _ hNew hOwner hClass hStatus =>
            obtain ⟨_, _, _, _, _, _, hEq, hNewId⟩ := hNew
            rw [hAction] at hEq
            injection hEq with _ hAsset
            have hOne : openRental i c.tx.transaction.signer r = 1 :=
              if_pos ⟨hClass, hOwner, .inl hStatus⟩
            rw [hOne, hNewId, ← hAsset] at hAfter
            rw [rentalIdOf]
            omega

/-- From a store whose rentals are backed, a run keeps them backed in every state exactly if
every successful call covers the open rentals. -/
theorem backed_iff {l : List Call} (h : Backed s) :
    (∀ l', l' <+: l → Backed (after (Call.next sha256 ex) s l')) ↔
      Along (Call.next sha256 ex)
        (fun s c => c.succeeds sha256 ex s = true → Covered sha256 s c) s l :=
  throughout_iff_along (I := fun _ => True) (fun _ _ _ => trivial)
    (fun _ _ _ hBacked => ⟨hBacked.covered, hBacked.call⟩) trivial h

theorem backed_of_none (h : ∀ id, rentalOf s id = none) : Backed s := by
  intro i a
  have hZero : openRentals s i a = 0 := by
    refine Store.total_eq_zero fun k => ?_
    cases k
    case rental =>
      rw [figureAt_rentalFigure, h]
      rfl
    all_goals exact Store.figureAt_eq_zero _ fun _ => rfl
  rw [hZero]
  exact Nat.zero_le _

/-- The trader creates a class and mints one asset of it. -/
def assetRun : List Call :=
  [traderCall 0 (.createAssetClass "Sword" "S" .nonFungible none ""),
   traderCall 1 (.mintAsset Hash.zero (Address.ofByte 1) 1 none)]

/-- The trader offers its asset for rent. -/
def offerCall : Call := traderCall 2 (.listForRent Hash.zero Hash.zero 5 10 1 100)

theorem backed_assetRun : Backed (after sampleCall traderStore assetRun) := by
  have hNone : ∀ id, rentalOf traderStore id = none := by
    intro id
    rw [rentalOf, get?_traderStore fun a => by simp]
    rfl
  have hCall : ∀ (s : StateStore) (c : Call), Family.rental ∉ writtenBy c.tx.transaction.action →
      ∀ id, rentalOf (sampleCall s c) id = rentalOf s id :=
    fun s c hc => rentalOf_of_sameOn (Call.sameOn (by simp [feeFamilies]) (by simp)
      (by simpa using hc))
  refine backed_of_none fun id => ?_
  rw [show after sampleCall traderStore assetRun = sampleCall (sampleCall traderStore _) _ from rfl,
    hCall _ _ (by decide), hCall _ _ (by decide), hNone]

theorem backed_iff_offered :
    Backed (after sampleCall (after sampleCall traderStore assetRun) [offerCall]) ∧
      openRentals (after sampleCall (after sampleCall traderStore assetRun) [offerCall]) Hash.zero
        (Address.ofByte 1) = 1 := by
  have hOffer : ∀ s, Backed s →
      otherRentals s Hash.zero Hash.zero (Address.ofByte 1) + 1 ≤
        (balanceAt s Hash.zero (Address.ofByte 1)).toNat →
      Covered (fun _ => Hash.zero) s offerCall := by
    intro s hBacked hRoom
    refine ⟨fun i => hBacked i _, fun i assetId price deposit minD maxD hAction => ?_⟩
    injection hAction with hClass
    subst hClass
    exact hRoom
  have hCovered : Along sampleCall (fun s c => c.succeeds (fun _ => Hash.zero) Executor.devnet s =
      true → Covered (fun _ => Hash.zero) s c) (after sampleCall traderStore assetRun)
      [offerCall] :=
    ⟨fun _ => hOffer _ backed_assetRun (by decide +kernel), trivial⟩
  exact ⟨(backed_iff backed_assetRun).mpr hCovered _ List.prefix_rfl, by decide +kernel⟩

/-- The trader gives the asset away that it offers for rent. -/
theorem rental_without_asset :
    Backed (after sampleCall traderStore assetRun) ∧
      ¬ Backed (after sampleCall (after sampleCall traderStore assetRun)
        [offerCall, traderCall 3 (.transferAsset Hash.zero (Address.ofByte 2) 1)]) := by
  refine ⟨backed_assetRun, fun h => ?_⟩
  have hLe := h Hash.zero (Address.ofByte 1)
  revert hLe
  decide +kernel

end Backing

end Polay.Execution
