import Polay.Execution.Calls
import Polay.Execution.Creation

/-!
# Rentals

An owner lists an asset for rent, a renter prepays the rent with a deposit, and the rental ends
when the renter returns it or when its blocks are over. `RentalChange` says what a transaction can
do to the record of a rental.
-/

namespace Polay.Execution

open Lib Lib.Machine Lib.Trace Polay.Types State Executor

variable {sha256 : List UInt8 → Hash} {ex : Executor} {s t : StateStore}

/-! ## The records of rentals -/

theorem rentalOf_of_sameOn (h : SameOn [.rental] s t) (i : Hash) : rentalOf t i = rentalOf s i := by
  rw [rentalOf, h (.rental i) (by simp [familyOf]), rentalOf]

theorem rentalOf_withRental (s : StateStore) (r : Rental) (i : Hash) :
    rentalOf (withRental s r) i = if i = r.rentalId then some r else rentalOf s i := by
  have hMarkers : rentalOf (withRental s r) i =
      rentalOf (s.insert (.rental r.rentalId) ⟨r, Key.files_rental r⟩) i := by
    unfold rentalOf withRental
    cases r.renter with
    | none => rw [Store.get?_insert_ne (by simp)]
    | some renter => rw [Store.get?_insert_ne (by simp), Store.get?_insert_ne (by simp)]
  rw [hMarkers]
  exact Store.read_insert s (.rental i) (Option.map (·.val)) (by simp [eq_comm])
    (by rintro ⟨⟩; rfl)

theorem sameOn_withRental {F : List Family} (hF : .rental ∉ F) (s : StateStore) (r : Rental) :
    SameOn F s (withRental s r) := by
  have hOwner : SameOn F s ((s.insert (.rental r.rentalId) ⟨r, Key.files_rental r⟩).insert
      (.rentalByOwner r.owner r.rentalId) ⟨true, trivial⟩) :=
    (sameOn_insert hF s _).trans (sameOn_insert hF _ _)
  unfold withRental
  cases r.renter with
  | none => exact hOwner
  | some renter => exact hOwner.trans (sameOn_insert hF _ _)

/-- From `s` to `t` the record `r` of a rental is written. -/
def RentalWrite (r : Rental) (s t : StateStore) : Prop :=
  ∀ i, rentalOf t i = if i = r.rentalId then some r else rentalOf s i

/-- Whether an action is about rentals. -/
def rentalAction : TransactionAction → Bool
  | .listForRent .. | .rentAsset .. | .returnRental .. | .claimExpiredRental ..
  | .cancelRentalListing .. => true
  | _ => false

/-- The record of a rental that is rented at a height. -/
def rented (r : Rental) (renter : Address) (height duration : UInt64) : Rental :=
  { r with
    renter := some renter
    startHeight := some height
    endHeight := some (saturatingAdd height duration)
    status := .active }

/-- The record an action writes. -/
inductive RentalChange (new : Hash → Prop) (signer : Address) (height : UInt64)
    (s : StateStore) : TransactionAction → Rental → Prop
  | list (classId assetId : Hash) (price deposit minD maxD : UInt64) (r : Rental)
      (hNew : new r.rentalId) (hOwner : r.owner = signer) (hClass : r.assetClassId = classId)
      (hStatus : r.status = .listed) :
      RentalChange new signer height s (.listForRent classId assetId price deposit minD maxD) r
  | rent (r : Rental) (duration : UInt64) (hOld : rentalOf s r.rentalId = some r)
      (hStatus : r.status = .listed) :
      RentalChange new signer height s (.rentAsset r.rentalId duration)
        (rented r signer height duration)
  | giveBack (r : Rental) (hOld : rentalOf s r.rentalId = some r) (hStatus : r.status = .active) :
      RentalChange new signer height s (.returnRental r.rentalId) { r with status := .returned }
  | expire (r : Rental) (hOld : rentalOf s r.rentalId = some r) (hStatus : r.status = .active) :
      RentalChange new signer height s (.claimExpiredRental r.rentalId)
        { r with status := .expired }
  | cancel (r : Rental) (hOld : rentalOf s r.rentalId = some r) (hStatus : r.status = .listed) :
      RentalChange new signer height s (.cancelRentalListing r.rentalId)
        { r with status := .cancelled }

/-- What a transaction does to rentals. -/
inductive RentalEffect (new : Hash → Prop) (signer : Address) (height : UInt64)
    (action : TransactionAction) (s t : StateStore) (b : Bool) : Prop
  | kept (hKept : b = true → rentalAction action = false)
      (h : ∀ i, rentalOf t i = rentalOf s i)
  | changed {r : Rental} (hOk : b = true) (hChange : RentalChange new signer height s action r)
      (h : RentalWrite r s t)

section Effects

variable {new : Hash → Prop} {signer : Address} {height : UInt64} {action : TransactionAction}
  {s₁ t₁ : StateStore} {r : Rental}

theorem RentalChange.congr (h : RentalChange new signer height s₁ action r)
    (hs : ∀ i, rentalOf s₁ i = rentalOf s i) : RentalChange new signer height s action r := by
  cases h with
  | list classId assetId price deposit minD maxD _ hNew hOwner hClass hStatus =>
      exact .list classId assetId price deposit minD maxD r hNew hOwner hClass hStatus
  | rent r duration hOld hStatus => exact .rent r duration (hs _ ▸ hOld) hStatus
  | giveBack r hOld hStatus => exact .giveBack r (hs _ ▸ hOld) hStatus
  | expire r hOld hStatus => exact .expire r (hs _ ▸ hOld) hStatus
  | cancel r hOld hStatus => exact .cancel r (hs _ ▸ hOld) hStatus

theorem RentalEffect.congr {b : Bool} (h : RentalEffect new signer height action s₁ t₁ b)
    (hs : SameOn [.rental] s s₁) (ht : SameOn [.rental] t₁ t) :
    RentalEffect new signer height action s t b := by
  have hBefore := rentalOf_of_sameOn hs
  have hAfter := rentalOf_of_sameOn ht
  cases h with
  | kept hKept h => exact .kept hKept fun i => by rw [hAfter, h, hBefore]
  | changed hOk hChange h =>
      exact .changed hOk (hChange.congr hBefore) fun i => by rw [hAfter, h, hBefore]

/-- The record is written after something that does not concern rentals. -/
theorem rentalEffect_of_change (hChange : RentalChange new signer height s action r)
    (hSame : SameOn [.rental] s s₁) :
    RentalEffect new signer height action s (withRental s₁ r) true := by
  refine .changed rfl hChange fun i => ?_
  rw [rentalOf_withRental, rentalOf_of_sameOn hSame]

theorem rentalEffect_refl : RentalEffect new signer height action s s false :=
  .kept (fun h => by cases h) fun _ => rfl

end Effects

/-! ## The handlers -/

/-- The prepaid rent. -/
def rentCost (r : Rental) (duration : UInt64) : UInt64 := saturatingMul r.pricePerBlock duration

/-- The rent of the blocks that are left at a height. -/
def refundOf (r : Rental) (height : UInt64) : UInt64 :=
  saturatingMul (saturatingSub (r.endHeight.getD height) height) r.pricePerBlock

/-- The store after rent is claimed back from an owner. -/
def reclaimed (s : StateStore) (owner : Address) (amount : UInt64) : StateStore :=
  if 0 < amount then
    let x := (accountOf s owner).getD (AccountState.new owner 0)
    withAccount s { x with balance := saturatingSub x.balance amount }
  else s

/-- The store after the deposit of a rental is given back. -/
def depositBack (s : StateStore) (r : Rental) : StateStore :=
  match r.renter with
  | some renter => creditPos s renter 0 r.deposit
  | none => s

theorem balanceOf_reclaimed (s : StateStore) (owner : Address) (amount : UInt64) (a : Address) :
    balanceOf (reclaimed s owner amount) a =
      if a = owner then balanceOf s a - amount.toNat else balanceOf s a := by
  unfold reclaimed
  split
  · obtain ⟨hAddress, hBalance⟩ := balance_getD s owner 0
    have hWrite : ∀ x : AccountState, x.address = owner →
        balanceOf (withAccount s { x with balance := saturatingSub x.balance amount }) a =
          if a = owner then (saturatingSub x.balance amount).toNat else balanceOf s a :=
      fun x hx => balanceOf_withAccount s
        (x := { x with balance := saturatingSub x.balance amount }) hx a
    rw [hWrite _ hAddress, toNat_saturatingSub, hBalance]
    split
    · rename_i hEq
      rw [hEq]
    · rfl
  · rename_i hZero
    rw [eq_zero_of_not_pos hZero, UInt64.toNat_zero, Nat.sub_zero, ite_self]

theorem sameOn_reclaimed {F : List Family} (hF : .account ∉ F) (s : StateStore) (owner : Address)
    (amount : UInt64) : SameOn F s (reclaimed s owner amount) := by
  unfold reclaimed
  split
  · exact sameOn_insert hF s _
  · exact .refl F s

theorem sameOn_depositBack {F : List Family} (hF : .account ∉ F) (s : StateStore) (r : Rental) :
    SameOn F s (depositBack s r) := by
  unfold depositBack
  split
  · exact sameOn_creditPos hF s _ _ _
  · exact .refl F s

/-- How renting ends. -/
def RentEnd (signer : Address) (id : Hash) (duration height : UInt64) (s : StateStore) (b : Bool)
    (t : StateStore) : Prop :=
  if b then
    ∃ r x, rentalOf s id = some r ∧ r.status = .listed ∧ accountOf s signer = some x ∧
      saturatingAdd (rentCost r duration) r.deposit ≤ x.balance ∧
      t = withRental
        (creditedStore (withAccount s { x with
          balance := x.balance - saturatingAdd (rentCost r duration) r.deposit })
          r.owner 0 (rentCost r duration))
        (rented r signer height duration)
  else t = s

/-- How a return ends. -/
def ReturnEnd (signer : Address) (id : Hash) (height : UInt64) (s : StateStore) (b : Bool)
    (t : StateStore) : Prop :=
  if b then
    ∃ r, rentalOf s id = some r ∧ r.status = .active ∧ r.renter = some signer ∧
      t = withRental
        (reclaimed (creditedStore s signer 0 (saturatingAdd (refundOf r height) r.deposit))
          r.owner (refundOf r height))
        { r with status := .returned }
  else t = s

/-- How the claim of an expired rental ends. -/
def ExpireEnd (id : Hash) (height : UInt64) (s : StateStore) (b : Bool) (t : StateStore) : Prop :=
  if b then
    ∃ r, rentalOf s id = some r ∧ r.status = .active ∧ ¬ height < r.endHeight.getD 0 ∧
      t = withRental (depositBack s r) { r with status := .expired }
  else t = s

section Handlers

variable {new : Hash → Prop} {signer : Address} {height : UInt64} {id : Hash}

theorem wp_reclaim_bind {β : Type} {Q : Outcome ExecutionError β → StateStore → Prop}
    {owner : Address} {amount : UInt64} {f : Unit → Handler β} :
    ((Prog.when (0 < amount) (Rentals.reclaim owner amount)).bind f).Wp Q s ↔
      (f ()).Wp Q (reclaimed s owner amount) := by
  have hReclaim : ((Rentals.reclaim owner amount).bind f).Wp Q s ↔
      (f ()).Wp Q (withAccount s { (accountOf s owner).getD (AccountState.new owner 0) with
        balance := saturatingSub ((accountOf s owner).getD (AccountState.new owner 0)).balance
          amount }) := by
    rw [Prog.wp_bind]
    exact Iff.rfl
  rw [Prog.wp_when_bind, hReclaim, reclaimed]
  split <;> simp_all

theorem wp_refundDeposit_bind {β : Type} {Q : Outcome ExecutionError β → StateStore → Prop}
    {r : Rental} {f : Unit → Handler β} :
    ((Rentals.refundDeposit r).bind f).Wp Q s ↔ (f ()).Wp Q (depositBack s r) := by
  unfold Rentals.refundDeposit depositBack
  cases r.renter with
  | none => exact Iff.rfl
  | some renter => exact wp_creditPos_bind

theorem listForRent_wp (s : StateStore) (classId assetId : Hash)
    (price deposit minD maxD timestamp : UInt64)
    (hNew : new (sha256 (Creation.message (.rental signer assetId timestamp)))) :
    (Rentals.executeListForRent sha256 signer classId assetId price deposit minD maxD
      timestamp).Wp
      (fun o t => RentalEffect new signer height
        (.listForRent classId assetId price deposit minD maxD) s t o.toOption.isSome) s := by
  simp only [Rentals.executeListForRent, Prog.bind_eq, wp_getAssetClass_bind,
    Prog.wp_require_bind, wp_getAssetBalance_bind, Prog.wp_ensure_bind, wp_setRental_bind]
  refine ⟨fun _ => rentalEffect_refl, fun x _ => ⟨fun _ => rentalEffect_refl, fun _ => ?_⟩⟩
  have hChange : RentalChange new signer height s
      (.listForRent classId assetId price deposit minD maxD)
      { rentalId := sha256 (Creation.message (.rental signer assetId timestamp)), owner := signer,
        renter := none, assetClassId := classId, assetId, pricePerBlock := price, deposit,
        minDuration := minD, maxDuration := maxD, startHeight := none, endHeight := none,
        status := .listed, createdAt := timestamp } :=
    .list classId assetId price deposit minD maxD _ hNew rfl rfl rfl
  exact rentalEffect_of_change hChange (.refl _ s)

theorem rentAsset_wp (s : StateStore) (signer : Address) (id : Hash) (duration height : UInt64) :
    (Rentals.executeRentAsset signer id duration height).Wp
      (fun o t => RentEnd signer id duration height s o.toOption.isSome t) s := by
  simp only [Rentals.executeRentAsset, Prog.bind_eq, wp_getRental_bind, Prog.wp_require_bind,
    Prog.wp_ensure_bind, wp_loadAccount_bind, wp_debited_bind, wp_setAccount_bind,
    wp_creditOrCreate_bind, wp_setRental_bind]
  exact ⟨fun _ => rfl, fun r hr => ⟨fun _ => rfl, fun hStatus => ⟨fun _ => rfl, fun _ =>
    ⟨fun _ => rfl, fun _ => ⟨fun _ => rfl, fun x hx => ⟨fun _ => rfl, fun hEnough =>
      ⟨r, x, hr, hStatus, hx, hEnough, rfl⟩⟩⟩⟩⟩⟩⟩

theorem returnRental_wp (s : StateStore) (signer : Address) (id : Hash) (height : UInt64) :
    (Rentals.executeReturnRental signer id height).Wp
      (fun o t => ReturnEnd signer id height s o.toOption.isSome t) s := by
  simp only [Rentals.executeReturnRental, Prog.bind_eq, wp_getRental_bind, Prog.wp_require_bind,
    Prog.wp_ensure_bind, wp_creditOrCreate_bind, wp_reclaim_bind, wp_setRental_bind]
  refine ⟨fun _ => rfl, fun r hr => ⟨fun _ => rfl, fun hStatus => ⟨fun _ => rfl,
    fun renter hRenter => ⟨fun _ => rfl, fun hSigner => ?_⟩⟩⟩⟩
  exact ⟨r, hr, hStatus, by rw [hRenter, hSigner], rfl⟩

theorem claimExpiredRental_wp (s : StateStore) (id : Hash) (height : UInt64) :
    (Rentals.executeClaimExpiredRental id height).Wp
      (fun o t => ExpireEnd id height s o.toOption.isSome t) s := by
  simp only [Rentals.executeClaimExpiredRental, Prog.bind_eq, wp_getRental_bind,
    Prog.wp_require_bind, Prog.wp_ensure_bind, wp_refundDeposit_bind, wp_setRental_bind]
  exact ⟨fun _ => rfl, fun r hr => ⟨fun _ => rfl, fun hStatus => ⟨fun _ => rfl, fun hOver =>
    ⟨r, hr, hStatus, hOver, rfl⟩⟩⟩⟩

theorem cancelRentalListing_wp (s : StateStore) (id : Hash) :
    (Rentals.executeCancelRentalListing signer id).Wp
      (fun o t => RentalEffect new signer height (.cancelRentalListing id) s t
        o.toOption.isSome) s := by
  simp only [Rentals.executeCancelRentalListing, Prog.bind_eq, wp_getRental_bind,
    Prog.wp_require_bind, Prog.wp_ensure_bind, wp_setRental_bind]
  refine ⟨fun _ => rentalEffect_refl, fun r hr => ⟨fun _ => rentalEffect_refl, fun hStatus =>
    ⟨fun _ => rentalEffect_refl, fun _ => ?_⟩⟩⟩
  obtain rfl := id_of_rentalOf hr
  exact rentalEffect_of_change (.cancel r hr hStatus) (.refl _ s)

theorem RentEnd.effect {duration : UInt64} {b : Bool}
    (h : RentEnd signer id duration height s b t) :
    RentalEffect new signer height (.rentAsset id duration) s t b := by
  cases b with
  | false =>
      obtain rfl : t = s := h
      exact rentalEffect_refl
  | true =>
      obtain ⟨r, x, hr, hStatus, -, -, rfl⟩ := h
      obtain rfl := id_of_rentalOf hr
      refine rentalEffect_of_change (.rent r duration hr hStatus) ?_
      exact (sameOn_insert (by simp [familyOf]) s _).trans (sameOn_insert (by simp [familyOf]) _ _)

theorem ReturnEnd.effect {b : Bool} (h : ReturnEnd signer id height s b t) :
    RentalEffect new signer height (.returnRental id) s t b := by
  cases b with
  | false =>
      obtain rfl : t = s := h
      exact rentalEffect_refl
  | true =>
      obtain ⟨r, hr, hStatus, -, rfl⟩ := h
      obtain rfl := id_of_rentalOf hr
      refine rentalEffect_of_change (.giveBack r hr hStatus) ?_
      exact (sameOn_insert (by simp [familyOf]) s _).trans (sameOn_reclaimed (by simp) _ _ _)

theorem ExpireEnd.effect {b : Bool} (h : ExpireEnd id height s b t) :
    RentalEffect new signer height (.claimExpiredRental id) s t b := by
  cases b with
  | false =>
      obtain rfl : t = s := h
      exact rentalEffect_refl
  | true =>
      obtain ⟨r, hr, hStatus, -, rfl⟩ := h
      obtain rfl := id_of_rentalOf hr
      exact rentalEffect_of_change (.expire r hr hStatus) (sameOn_depositBack (by simp) s r)

/-- The identifiers of the rentals an action can create. -/
def createsRental (sha256 : List UInt8 → Hash) (action : TransactionAction) (signer : Address)
    (timestamp : UInt64) (id : Hash) : Prop :=
  ∃ classId assetId price deposit minD maxD,
    action = .listForRent classId assetId price deposit minD maxD ∧
      id = sha256 (Creation.message (.rental signer assetId timestamp))

theorem rentalEffect_dispatchAction (sha256 : List UInt8 → Hash) (ex : Executor)
    (action : TransactionAction) (signer : Address) (timestamp height : UInt64) (s : StateStore) :
    (ex.dispatchAction sha256 action signer timestamp height).Wp
      (fun o t => RentalEffect (createsRental sha256 action signer timestamp) signer height action
        s t o.toOption.isSome) s := by
  by_cases hRental : rentalAction action = false
  · have hApart : ∀ f ∈ [Family.rental], f ∉ writtenBy action := by
      cases action <;> simp_all [rentalAction, writtenBy]
    exact .kept (fun _ => hRental) (rentalOf_of_sameOn (sameOn_of_keeps
      (run_keeps (dispatchAction_keeps sha256 ex action signer timestamp height)) hApart))
  -- The executor only repackages the events.
  have hEvents : ∀ {α β : Type} {new : Hash → Prop} {action : TransactionAction} {p : Handler α}
      {f : α → β},
      p.Wp (fun o t => RentalEffect new signer height action s t o.toOption.isSome) s →
      (p.bind fun a => .pure (f a)).Wp
        (fun o t => RentalEffect new signer height action s t o.toOption.isSome) s :=
    fun {_ _ new action _ _} => (Prog.wp_isSome_bind_pure
      (R := fun b t => RentalEffect new signer height action s t b)).mpr
  cases action
  case listForRent classId assetId price deposit minD maxD =>
    exact hEvents (listForRent_wp s classId assetId price deposit minD maxD timestamp
      ⟨classId, assetId, price, deposit, minD, maxD, rfl, rfl⟩)
  case rentAsset id duration =>
    exact hEvents ((rentAsset_wp s signer id duration height).mono fun _ _ h => h.effect)
  case returnRental id =>
    exact hEvents ((returnRental_wp s signer id height).mono fun _ _ h => h.effect)
  case claimExpiredRental id =>
    exact hEvents ((claimExpiredRental_wp s id height).mono fun _ _ h => h.effect)
  case cancelRentalListing id => exact hEvents (cancelRentalListing_wp s id)
  all_goals exact absurd rfl hRental

end Handlers

/-- The identifiers of the rentals a call can create. -/
def Call.createsRental (sha256 : List UInt8 → Hash) (c : Call) (id : Hash) : Prop :=
  Execution.createsRental sha256 c.tx.transaction.action c.tx.transaction.signer
    c.tx.transaction.timestamp id

/-- What a call does to rentals. -/
theorem rentalEffect_call (sha256 : List UInt8 → Hash) (ex : Executor) (s : StateStore) (c : Call) :
    RentalEffect (c.createsRental sha256) c.tx.transaction.signer c.height
      c.tx.transaction.action s (c.next sha256 ex s) (c.succeeds sha256 ex s) := by
  refine Call.effect (F := [.rental]) (by simp [feeFamilies]) (by simp)
    (R := fun b s t => RentalEffect _ _ _ _ s t b) rentalEffect_refl
    (fun hs h ht => h.congr hs ht) fun s₁ _ => ?_
  exact rentalEffect_dispatchAction sha256 ex c.tx.transaction.action
    c.tx.transaction.signer c.tx.transaction.timestamp c.height s₁

/-! ## Rentals are settled -/

section Runs

variable (sha256 ex)

/-- A rental is created only under an identifier no rental has. -/
def FreshRental (s : StateStore) (c : Call) : Prop :=
  ∀ id, c.succeeds sha256 ex s = true → c.createsRental sha256 id → rentalOf s id = none

/-- The call ends a rental, and its renter gets the deposit back. -/
def EndsRental (id : Hash) (s : StateStore) (c : Call) : Prop :=
  c.succeeds sha256 ex s = true ∧
    (c.tx.transaction.action = .returnRental id ∨ c.tx.transaction.action = .claimExpiredRental id)

/-- The rental has ended or was withdrawn. -/
def Closed (s : StateStore) (id : Hash) : Prop :=
  ∃ r, rentalOf s id = some r ∧ r.status ≠ .listed ∧ r.status ≠ .active

variable {sha256 ex} {id : Hash} {r : Rental} {c : Call}

/-- What a call does to a rental: a rental that is rented out ends, and one that is neither listed
nor rented out stays as it is. -/
theorem rental_call (hr : rentalOf s id = some r) (hFresh : FreshRental sha256 ex s c) :
    rentalOf (c.next sha256 ex s) id = some r ∨ r.status = .listed ∨
      (r.status = .active ∧ Closed (c.next sha256 ex s) id) := by
  have hEffect := rentalEffect_call sha256 ex s c
  generalize c.tx.transaction.action = action at hEffect
  cases hEffect with
  | kept _ hSame => exact .inl (by rw [hSame, hr])
  | @changed x hOk hChange hWrite =>
      by_cases hEq : id = x.rentalId
      · right
        have hx : rentalOf (c.next sha256 ex s) id = some x := by rw [hWrite, if_pos hEq]
        have hOld : ∀ {y : Rental}, rentalOf s y.rentalId = some y → y.rentalId = id → y = r := by
          intro y hy hId
          rw [hId, hr] at hy
          exact (Option.some.inj hy).symm
        cases hChange with
        | list _ _ _ _ _ _ _ hNew =>
            have hNone := hFresh x.rentalId hOk hNew
            rw [← hEq, hr] at hNone
            cases hNone
        | rent _ _ hy hStatus | cancel _ hy hStatus => exact .inl (hOld hy hEq.symm ▸ hStatus)
        | giveBack _ hy hStatus | expire _ hy hStatus =>
            exact .inr ⟨hOld hy hEq.symm ▸ hStatus, _, hx, RentalStatus.noConfusion,
              RentalStatus.noConfusion⟩
      · exact .inl (by rw [hWrite, if_neg hEq, hr])

theorem Closed.call (h : Closed s id) (hFresh : FreshRental sha256 ex s c) :
    Closed (c.next sha256 ex s) id := by
  obtain ⟨r, hr, hListed, hActive⟩ := h
  rcases rental_call hr hFresh with hSame | hStatus | ⟨hStatus, -⟩
  · exact ⟨r, hSame, hListed, hActive⟩
  · exact absurd hStatus hListed
  · exact absurd hStatus hActive

/-- A rental that is rented out stays as it is until it ends. -/
theorem active_call (hr : rentalOf s id = some r) (hActive : r.status = .active)
    (hFresh : FreshRental sha256 ex s c) :
    rentalOf (c.next sha256 ex s) id = some r ∨ Closed (c.next sha256 ex s) id := by
  rcases rental_call hr hFresh with hSame | hStatus | ⟨-, hClosed⟩
  · exact .inl hSame
  · rw [hActive] at hStatus
    cases hStatus
  · exact .inr hClosed

/-- Only a rental that is rented out is ended, and then it is closed. -/
theorem EndsRental.active (h : EndsRental sha256 ex id s c) :
    (∃ r, rentalOf s id = some r ∧ r.status = .active) ∧ Closed (c.next sha256 ex s) id := by
  obtain ⟨hOk, hAction⟩ := h
  have hRental : rentalAction c.tx.transaction.action = true := by
    rcases hAction with hAction | hAction <;> rw [hAction] <;> rfl
  cases rentalEffect_call sha256 ex s c with
  | kept hKept _ =>
      have hNot := hKept hOk
      rw [hRental] at hNot
      cases hNot
  | @changed x _ hChange hWrite =>
      rcases hAction with hAction | hAction
      · rw [hAction] at hChange
        cases hChange with
        | giveBack y hy hStatus =>
            refine ⟨⟨y, hy, hStatus⟩, { y with status := .returned }, ?_, RentalStatus.noConfusion,
              RentalStatus.noConfusion⟩
            rw [hWrite, if_pos rfl]
      · rw [hAction] at hChange
        cases hChange with
        | expire y hy hStatus =>
            refine ⟨⟨y, hy, hStatus⟩, { y with status := .expired }, ?_, RentalStatus.noConfusion,
              RentalStatus.noConfusion⟩
            rw [hWrite, if_pos rfl]

theorem Closed.not_ends (h : Closed s id) : ¬ EndsRental sha256 ex id s c := by
  intro hEnds
  obtain ⟨r, hr, -, hNot⟩ := h
  obtain ⟨⟨x, hx, hActive⟩, -⟩ := hEnds.active
  rw [hr] at hx
  obtain rfl := Option.some.inj hx
  exact hNot hActive

/-- A rental ends once: after its end no call ends it again. -/
theorem Closed.run (h : Closed s id) {l : List Call}
    (hFresh : Along (Call.next sha256 ex) (FreshRental sha256 ex) s l) :
    Closed (after (Call.next sha256 ex) s l) id ∧
      Along (Call.next sha256 ex) (fun s c => ¬ EndsRental sha256 ex id s c) s l := by
  induction l generalizing s with
  | nil => exact ⟨h, trivial⟩
  | cons c rest ih =>
      obtain ⟨hClosed, hRest⟩ := ih (h.call hFresh.1) hFresh.2
      exact ⟨hClosed, h.not_ends, hRest⟩

/-- A rental that is open at the end of a run was open, and the same, during the whole run. -/
theorem active_run {l : List Call} (hr : rentalOf s id = some r) (hActive : r.status = .active)
    (hFresh : Along (Call.next sha256 ex) (FreshRental sha256 ex) s l)
    (hOpen : ¬ Closed (after (Call.next sha256 ex) s l) id) :
    rentalOf (after (Call.next sha256 ex) s l) id = some r ∧
      Along (Call.next sha256 ex) (fun s c => ¬ EndsRental sha256 ex id s c) s l := by
  induction l generalizing s with
  | nil => exact ⟨hr, trivial⟩
  | cons c rest ih =>
      rcases active_call hr hActive hFresh.1 with hNext | hClosed
      · obtain ⟨hLast, hRest⟩ := ih hNext hFresh.2 hOpen
        refine ⟨hLast, fun hEnds => ?_, hRest⟩
        obtain ⟨-, x, hx, -, hNot⟩ := hEnds.active
        rw [hNext] at hx
        obtain rfl := Option.some.inj hx
        exact hNot hActive
      · exact absurd (hClosed.run hFresh.2).1 hOpen

section Amounts

variable {signer : Address} {id : Hash} {duration height : UInt64} {r : Rental}

theorem balanceOf_withRental (s : StateStore) (r : Rental) (a : Address) :
    balanceOf (withRental s r) a = balanceOf s a :=
  balanceOf_of_sameOn (sameOn_withRental (F := [.account]) (by simp) s r) (by simp) a

/-- The renter pays the rent and the deposit, and the owner gets the rent. -/
theorem RentEnd.balances (h : RentEnd signer id duration height s true t)
    (hr : rentalOf s id = some r)
    (hFits : r.pricePerBlock.toNat * duration.toNat + r.deposit.toNat < 2 ^ 64)
    (hOwner : balanceOf s r.owner + r.pricePerBlock.toNat * duration.toNat < 2 ^ 64)
    (a : Address) :
    balanceOf t a +
        (if a = signer then r.pricePerBlock.toNat * duration.toNat + r.deposit.toNat else 0) =
      balanceOf s a + (if a = r.owner then r.pricePerBlock.toNat * duration.toNat else 0) := by
  obtain ⟨y, x, hy, -, hx, hEnough, rfl⟩ := h
  obtain rfl : r = y := Option.some.inj (hr.symm.trans hy)
  have hCost : (rentCost r duration).toNat = r.pricePerBlock.toNat * duration.toNat :=
    toNat_saturatingMul (by omega)
  have hTotal : (saturatingAdd (rentCost r duration) r.deposit).toNat =
      r.pricePerBlock.toNat * duration.toNat + r.deposit.toNat := by
    rw [toNat_saturatingAdd, hCost]
    omega
  have hLeft := UInt64.toNat_sub_of_le _ _ hEnough
  rw [UInt64.le_iff_toNat_le] at hEnough
  have hSigner := balanceOf_eq hx
  have hDebit := balanceOf_withAccount s
    (x := { x with balance := x.balance - saturatingAdd (rentCost r duration) r.deposit })
    (show x.address = signer from address_of_accountOf hx) a
  rw [balanceOf_withRental, balanceOf_creditedStore, hDebit, hLeft, hCost]
  by_cases hPays : a = signer
  · subst hPays
    by_cases hOwns : a = r.owner
    · subst hOwns
      simp only [if_true]
      omega
    · simp only [if_true, hOwns, Ne.symm hOwns, if_false]
      omega
  · by_cases hOwns : a = r.owner
    · subst hOwns
      simp only [if_true, hPays, if_false]
      omega
    · simp only [hPays, hOwns, Ne.symm hOwns, if_false]

/-- The renter gets the refund and the deposit; the owner pays the refund exactly if the owner is
the renter or has it. -/
theorem ReturnEnd.balances_iff (h : ReturnEnd signer id height s true t)
    (hr : rentalOf s id = some r)
    (hRenter : balanceOf s signer + (refundOf r height).toNat + r.deposit.toNat < 2 ^ 64) :
    (∀ a, balanceOf t a + (if a = r.owner then (refundOf r height).toNat else 0) =
        balanceOf s a + (if a = signer then (refundOf r height).toNat + r.deposit.toNat else 0)) ↔
      r.owner = signer ∨ (refundOf r height).toNat ≤ balanceOf s r.owner := by
  obtain ⟨y, hy, -, -, rfl⟩ := h
  obtain rfl : r = y := Option.some.inj (hr.symm.trans hy)
  have hTotal : (saturatingAdd (refundOf r height) r.deposit).toNat =
      (refundOf r height).toNat + r.deposit.toNat := by
    rw [toNat_saturatingAdd]
    omega
  have hBalance : ∀ a, balanceOf (withRental (reclaimed (creditedStore s signer 0
        (saturatingAdd (refundOf r height) r.deposit)) r.owner (refundOf r height))
        { r with status := .returned }) a =
      if a = r.owner then
        (if signer = a then balanceOf s a + ((refundOf r height).toNat + r.deposit.toNat)
          else balanceOf s a) - (refundOf r height).toNat
      else if signer = a then balanceOf s a + ((refundOf r height).toNat + r.deposit.toNat)
        else balanceOf s a := by
    intro a
    rw [balanceOf_withRental, balanceOf_reclaimed, balanceOf_creditedStore, hTotal]
    by_cases hEq : signer = a
    · subst hEq
      simp only [if_true]
      rw [Nat.min_eq_left (by omega)]
    · simp only [hEq, if_false]
  constructor
  · intro hAll
    by_cases hSelf : r.owner = signer
    · exact .inl hSelf
    · right
      have hOwner := hAll r.owner
      rw [hBalance] at hOwner
      simp only [if_true, hSelf, Ne.symm hSelf, if_false] at hOwner
      omega
  · intro hHas a
    rw [hBalance]
    by_cases hOwns : a = r.owner
    · subst hOwns
      by_cases hSelf : r.owner = signer
      · simp only [if_true, hSelf]
        omega
      · have hEnough := hHas.resolve_left hSelf
        simp only [if_true, hSelf, Ne.symm hSelf, if_false]
        omega
    · by_cases hSigns : a = signer
      · subst hSigns
        simp only [hOwns, if_false, if_true]
        omega
      · simp only [hOwns, hSigns, Ne.symm hSigns, if_false]

/-- The renter of an expired rental gets the deposit, and nobody else anything. -/
theorem ExpireEnd.balances (h : ExpireEnd id height s true t) (hr : rentalOf s id = some r)
    {renter : Address} (hRenter : r.renter = some renter)
    (hFits : balanceOf s renter + r.deposit.toNat < 2 ^ 64) (a : Address) :
    balanceOf t a = balanceOf s a + (if a = renter then r.deposit.toNat else 0) := by
  obtain ⟨y, hy, -, -, rfl⟩ := h
  obtain rfl : r = y := Option.some.inj (hr.symm.trans hy)
  rw [balanceOf_withRental, depositBack, hRenter]
  show balanceOf (creditPos s renter 0 r.deposit) a = _
  rw [balanceOf_creditPos]
  by_cases hEq : a = renter
  · subst hEq
    simp only [if_true]
    omega
  · simp only [hEq, Ne.symm hEq, if_false, Nat.add_zero]

/-- What the end of a rental does to balances: the owner pays the refund exactly if the owner is
the renter or has it. There is no refund for a rental that has expired. -/
theorem EndsRental.balances_iff {c : Call} (h : EndsRental sha256 ex id s c)
    (hr : rentalOf s id = some r) {renter : Address} (hRenter : r.renter = some renter)
    {last : UInt64} (hLast : r.endHeight = some last)
    (hFits : balanceOf (c.charged ex s) renter + (refundOf r c.height).toNat + r.deposit.toNat <
      2 ^ 64) :
    (∀ a, balanceOf (c.next sha256 ex s) a +
        (if a = r.owner then (refundOf r c.height).toNat else 0) =
      balanceOf (c.charged ex s) a +
        (if a = renter then (refundOf r c.height).toNat + r.deposit.toNat else 0)) ↔
      r.owner = renter ∨ (refundOf r c.height).toNat ≤ balanceOf (c.charged ex s) r.owner := by
  obtain ⟨hOk, hAction⟩ := h
  have hPaid : SameOn [.rental] s (c.charged ex s) :=
    Call.sameOn_charged hOk (by simp [feeFamilies])
  have hRental : rentalOf (c.charged ex s) id = some r := by
    rw [rentalOf_of_sameOn hPaid, hr]
  rcases hAction with hAction | hAction
  · have hWp : (ex.action sha256 c.tx c.height).Wp
        (fun o t => ReturnEnd c.tx.transaction.signer id c.height (c.charged ex s)
          o.toOption.isSome t) (c.charged ex s) := by
      unfold Executor.action
      rw [hAction]
      exact Prog.wp_isSome_bind_pure.mpr (returnRental_wp (c.charged ex s) _ _ _)
    obtain ⟨t, hEnd, hSame⟩ := Call.ends hOk hWp
    have hSigner : c.tx.transaction.signer = renter := by
      obtain ⟨x, hx, -, hSigner, -⟩ := hEnd
      obtain rfl : r = x := Option.some.inj (hRental.symm.trans hx)
      exact Option.some.inj (hSigner.symm.trans hRenter)
    rw [hSigner] at hEnd
    have hNext : ∀ a, balanceOf (c.next sha256 ex s) a = balanceOf t a :=
      balanceOf_of_sameOn (hSame [.account] (by simp)) (by simp)
    simp only [hNext]
    exact hEnd.balances_iff hRental hFits
  · have hWp : (ex.action sha256 c.tx c.height).Wp
        (fun o t => ExpireEnd id c.height (c.charged ex s) o.toOption.isSome t)
        (c.charged ex s) := by
      unfold Executor.action
      rw [hAction]
      exact Prog.wp_isSome_bind_pure.mpr (claimExpiredRental_wp (c.charged ex s) _ _)
    obtain ⟨t, hEnd, hSame⟩ := Call.ends hOk hWp
    have hNext : ∀ a, balanceOf (c.next sha256 ex s) a = balanceOf t a :=
      balanceOf_of_sameOn (hSame [.account] (by simp)) (by simp)
    have hZero : (refundOf r c.height).toNat = 0 := by
      obtain ⟨x, hx, -, hOver, -⟩ := hEnd
      obtain rfl : r = x := Option.some.inj (hRental.symm.trans hx)
      rw [hLast, Option.getD_some, UInt64.not_lt, UInt64.le_iff_toNat_le] at hOver
      have hNone : (saturatingSub last c.height).toNat = 0 := by
        rw [toNat_saturatingSub]
        omega
      rw [refundOf, hLast, Option.getD_some, toNat_saturatingMul (by rw [hNone]; omega), hNone,
        Nat.zero_mul]
    rw [hZero, Nat.add_zero] at hFits
    refine ⟨fun _ => .inr (by rw [hZero]; exact Nat.zero_le _), fun _ a => ?_⟩
    rw [hNext, hEnd.balances hRental hRenter hFits, hZero, ite_self, Nat.add_zero, Nat.zero_add]

end Amounts

/-- The blocks of a rental that are used when it ends. -/
def usedBlocks (duration : UInt64) (c₁ c₂ : Call) : Nat :=
  min duration.toNat (c₂.height.toNat - c₁.height.toNat)

/-- The blocks of a rental that are left when it ends. -/
def unusedBlocks (duration : UInt64) (c₁ c₂ : Call) : Nat :=
  duration.toNat - (c₂.height.toNat - c₁.height.toNat)

theorem used_add_unused (duration : UInt64) (c₁ c₂ : Call) :
    usedBlocks duration c₁ c₂ + unusedBlocks duration c₁ c₂ = duration.toNat := by
  unfold usedBlocks unusedBlocks
  omega

variable (sha256 ex) (s) (r : Rental) (duration : UInt64) (c₁ : Call) (l : List Call) (c₂ : Call)

/-- A rental from its start to its end: the call `c₁` rents `r` out, the calls `l` follow, and the
call `c₂` ends the rental. -/
structure RentalRun : Prop where
  listed : rentalOf s r.rentalId = some r
  rents : c₁.tx.transaction.action = .rentAsset r.rentalId duration
  succeeds : c₁.succeeds sha256 ex s = true
  fresh : Along (Call.next sha256 ex) (FreshRental sha256 ex) (c₁.next sha256 ex s) l
  ends : EndsRental sha256 ex r.rentalId (after (Call.next sha256 ex) s (c₁ :: l)) c₂
  order : c₁.height ≤ c₂.height

/-- The amounts of a rental, and the balances they are added to, fit into 64 bits. -/
structure AmountsFit : Prop where
  rent : r.pricePerBlock.toNat * duration.toNat + r.deposit.toNat < 2 ^ 64
  heights : c₁.height.toNat + duration.toNat < 2 ^ 64
  owner : balanceOf (c₁.charged ex s) r.owner + r.pricePerBlock.toNat * duration.toNat < 2 ^ 64
  renter : balanceOf (c₂.charged ex (after (Call.next sha256 ex) s (c₁ :: l)))
      c₁.tx.transaction.signer + r.pricePerBlock.toNat * unusedBlocks duration c₁ c₂ +
    r.deposit.toNat < 2 ^ 64

/-- A rental is settled: the renter pays rent and deposit in advance, gets the deposit and the
rent of the unused blocks back from the call that ends the rental and from no other one, and over
both calls the renter has paid and the owner has received the rent of the used blocks. -/
structure RentalSettled : Prop where
  prepaid : ∀ a, balanceOf (c₁.next sha256 ex s) a +
      (if a = c₁.tx.transaction.signer then
        r.pricePerBlock.toNat * duration.toNat + r.deposit.toNat else 0) =
    balanceOf (c₁.charged ex s) a +
      (if a = r.owner then r.pricePerBlock.toNat * duration.toNat else 0)
  ended : ∀ a, balanceOf (c₂.next sha256 ex (after (Call.next sha256 ex) s (c₁ :: l))) a +
      (if a = r.owner then r.pricePerBlock.toNat * unusedBlocks duration c₁ c₂ else 0) =
    balanceOf (c₂.charged ex (after (Call.next sha256 ex) s (c₁ :: l))) a +
      (if a = c₁.tx.transaction.signer then
        r.pricePerBlock.toNat * unusedBlocks duration c₁ c₂ + r.deposit.toNat else 0)
  paid : ∀ a, balanceOf (c₁.next sha256 ex s) a +
      balanceOf (c₂.next sha256 ex (after (Call.next sha256 ex) s (c₁ :: l))) a +
      (if a = c₁.tx.transaction.signer then
        r.pricePerBlock.toNat * usedBlocks duration c₁ c₂ else 0) =
    balanceOf (c₁.charged ex s) a +
      balanceOf (c₂.charged ex (after (Call.next sha256 ex) s (c₁ :: l))) a +
      (if a = r.owner then r.pricePerBlock.toNat * usedBlocks duration c₁ c₂ else 0)
  before : Along (Call.next sha256 ex) (fun s c => ¬ EndsRental sha256 ex r.rentalId s c)
    (c₁.next sha256 ex s) l
  later : ∀ l', Along (Call.next sha256 ex) (FreshRental sha256 ex)
      (c₂.next sha256 ex (after (Call.next sha256 ex) s (c₁ :: l))) l' →
    Along (Call.next sha256 ex) (fun s c => ¬ EndsRental sha256 ex r.rentalId s c)
      (c₂.next sha256 ex (after (Call.next sha256 ex) s (c₁ :: l))) l'

variable {sha256 ex s r duration c₁ l c₂}

/-- The record of a rental after it is rented out. -/
theorem RentalRun.rental (h : RentalRun sha256 ex s r duration c₁ l c₂) :
    rentalOf (c₁.next sha256 ex s) r.rentalId =
      some (rented r c₁.tx.transaction.signer c₁.height duration) := by
  have hEffect := rentalEffect_call sha256 ex s c₁
  rw [h.rents, h.succeeds] at hEffect
  cases hEffect with
  | kept hKept _ => cases hKept rfl
  | changed _ hChange hWrite =>
      generalize hId : r.rentalId = id at hChange
      cases hChange with
      | rent y _ hy hStatus =>
          rw [← hId, h.listed] at hy
          obtain rfl := Option.some.inj hy
          rw [hWrite]
          exact if_pos hId

/-- What `c₁` does to balances. -/
theorem RentalRun.prepaid (h : RentalRun sha256 ex s r duration c₁ l c₂)
    (hFit : AmountsFit sha256 ex s r duration c₁ l c₂) (a : Address) :
    balanceOf (c₁.next sha256 ex s) a +
        (if a = c₁.tx.transaction.signer then
          r.pricePerBlock.toNat * duration.toNat + r.deposit.toNat else 0) =
      balanceOf (c₁.charged ex s) a +
        (if a = r.owner then r.pricePerBlock.toNat * duration.toNat else 0) := by
  have hWp : (ex.action sha256 c₁.tx c₁.height).Wp
      (fun o t => RentEnd c₁.tx.transaction.signer r.rentalId duration c₁.height
        (c₁.charged ex s) o.toOption.isSome t) (c₁.charged ex s) := by
    unfold Executor.action
    rw [h.rents]
    exact Prog.wp_isSome_bind_pure.mpr (rentAsset_wp (c₁.charged ex s) _ _ _ _)
  obtain ⟨t, hEnd, hSame⟩ := Call.ends h.succeeds hWp
  have hPaid : SameOn [.rental] s (c₁.charged ex s) :=
    Call.sameOn_charged h.succeeds (by simp [feeFamilies])
  have hRental : rentalOf (c₁.charged ex s) r.rentalId = some r := by
    rw [rentalOf_of_sameOn hPaid, h.listed]
  rw [balanceOf_of_sameOn (hSame [.account] (by simp)) (by simp)]
  exact hEnd.balances hRental hFit.rent hFit.owner a

theorem RentalRun.active (h : RentalRun sha256 ex s r duration c₁ l c₂) :
    rentalOf (after (Call.next sha256 ex) s (c₁ :: l)) r.rentalId =
        some (rented r c₁.tx.transaction.signer c₁.height duration) ∧
      Along (Call.next sha256 ex) (fun s c => ¬ EndsRental sha256 ex r.rentalId s c)
        (c₁.next sha256 ex s) l :=
  active_run h.rental rfl h.fresh fun hClosed => hClosed.not_ends h.ends

/-- The refund is the rent of the unused blocks. -/
theorem RentalRun.refund (h : RentalRun sha256 ex s r duration c₁ l c₂)
    (hFit : AmountsFit sha256 ex s r duration c₁ l c₂) (renter : Address) :
    (refundOf (rented r renter c₁.height duration) c₂.height).toNat =
      r.pricePerBlock.toNat * unusedBlocks duration c₁ c₂ := by
  have hHeights := hFit.heights
  have hOrder := UInt64.le_iff_toNat_le.mp h.order
  have hLeft : (saturatingSub (saturatingAdd c₁.height duration) c₂.height).toNat =
      unusedBlocks duration c₁ c₂ := by
    rw [toNat_saturatingSub, toNat_saturatingAdd, unusedBlocks]
    omega
  have hBound : unusedBlocks duration c₁ c₂ * r.pricePerBlock.toNat < 2 ^ 64 := by
    have hLe := Nat.mul_le_mul_right r.pricePerBlock.toNat
      (Nat.sub_le duration.toNat (c₂.height.toNat - c₁.height.toNat))
    have hRent := hFit.rent
    rw [Nat.mul_comm] at hRent
    exact lt_of_le_of_lt hLe (by omega)
  show (saturatingMul (saturatingSub (saturatingAdd c₁.height duration) c₂.height)
    r.pricePerBlock).toNat = _
  rw [toNat_saturatingMul (by rw [hLeft]; exact hBound), hLeft, Nat.mul_comm]

/-- What `c₂` does to balances: the owner pays the refund exactly if the owner has it. -/
theorem RentalRun.ended_iff (h : RentalRun sha256 ex s r duration c₁ l c₂)
    (hFit : AmountsFit sha256 ex s r duration c₁ l c₂) :
    (∀ a, balanceOf (c₂.next sha256 ex (after (Call.next sha256 ex) s (c₁ :: l))) a +
        (if a = r.owner then r.pricePerBlock.toNat * unusedBlocks duration c₁ c₂ else 0) =
      balanceOf (c₂.charged ex (after (Call.next sha256 ex) s (c₁ :: l))) a +
        (if a = c₁.tx.transaction.signer then
          r.pricePerBlock.toNat * unusedBlocks duration c₁ c₂ + r.deposit.toNat else 0)) ↔
      r.owner = c₁.tx.transaction.signer ∨
        r.pricePerBlock.toNat * unusedBlocks duration c₁ c₂ ≤
          balanceOf (c₂.charged ex (after (Call.next sha256 ex) s (c₁ :: l))) r.owner := by
  have hRefund := h.refund hFit c₁.tx.transaction.signer
  have hEnds := h.ends.balances_iff h.active.1 rfl rfl (by rw [hRefund]; exact hFit.renter)
  rw [hRefund] at hEnds
  exact hEnds

/-- Over every run between the start and the end of a rental, the rental is settled exactly if
the owner is the renter or still has the rent of the unused blocks when the rental ends. -/
theorem settled_iff (h : RentalRun sha256 ex s r duration c₁ l c₂)
    (hFit : AmountsFit sha256 ex s r duration c₁ l c₂) :
    RentalSettled sha256 ex s r duration c₁ l c₂ ↔
      r.owner = c₁.tx.transaction.signer ∨
        r.pricePerBlock.toNat * unusedBlocks duration c₁ c₂ ≤
          balanceOf (c₂.charged ex (after (Call.next sha256 ex) s (c₁ :: l))) r.owner := by
  refine ⟨fun hSettled => (h.ended_iff hFit).mp hSettled.ended, fun hHas => ?_⟩
  have hPrepaid := h.prepaid hFit
  have hEnded := (h.ended_iff hFit).mpr hHas
  have hRent : r.pricePerBlock.toNat * duration.toNat =
      r.pricePerBlock.toNat * usedBlocks duration c₁ c₂ +
        r.pricePerBlock.toNat * unusedBlocks duration c₁ c₂ := by
    rw [← Nat.mul_add, used_add_unused]
  refine ⟨hPrepaid, hEnded, fun a => ?_, h.active.2, fun l' hFresh => ?_⟩
  · have hFirst := hPrepaid a
    have hLast := hEnded a
    rw [hRent] at hFirst
    split_ifs at hFirst hLast ⊢ <;> omega
  · exact (h.ends.active.2.run hFresh).2

/-- A rental of the trader for 5 a block, with a deposit of 10. -/
def offeredRental : Rental where
  rentalId := Hash.zero
  owner := Address.ofByte 1
  renter := none
  assetClassId := Hash.zero
  assetId := Hash.zero
  pricePerBlock := 5
  deposit := 10
  minDuration := 1
  maxDuration := 100
  startHeight := none
  endHeight := none
  status := .listed
  createdAt := 7

/-- The trader offers a rental. -/
def rentalStore : StateStore := withRental tradersStore offeredRental

/-- The other account rents for 100 blocks. -/
def rentCall : Call := otherCall 0 1 (.rentAsset Hash.zero 100)

/-- After 40 blocks it returns the rental. -/
def returnCall : Call := otherCall 1 41 (.returnRental Hash.zero)

theorem rentalRun_returned {l : List Call}
    (hFresh : Along sampleCall (FreshRental (fun _ => Hash.zero) Executor.devnet)
      (sampleCall rentalStore rentCall) l)
    (hEnds : returnCall.succeeds (fun _ => Hash.zero) Executor.devnet
      (after sampleCall rentalStore (rentCall :: l)) = true) :
    RentalRun (fun _ => Hash.zero) Executor.devnet rentalStore offeredRental 100 rentCall l
      returnCall := by
  refine ⟨?_, rfl, by decide +kernel, hFresh, ⟨hEnds, .inl rfl⟩, by decide⟩
  rw [rentalStore, rentalOf_withRental, if_pos rfl]

theorem settled_iff_returned :
    RentalSettled (fun _ => Hash.zero) Executor.devnet rentalStore offeredRental 100 rentCall []
      returnCall := by
  have hRun := rentalRun_returned (l := []) trivial (by decide +kernel)
  have hFit : AmountsFit (fun _ => Hash.zero) Executor.devnet rentalStore offeredRental 100
      rentCall [] returnCall :=
    ⟨by decide, by decide, by decide +kernel, by decide +kernel⟩
  exact (settled_iff hRun hFit).mpr (.inr (by decide +kernel))

/-- The owner spends the prepaid rent. -/
def spendCall : Call := traderCall 0 (.transfer (Address.ofByte 3) 972628)

/-- The renter returns a rental whose rent is spent: the owner owes 300 and has nothing, and the
renter gets the refund nevertheless. -/
theorem refund_of_spent_rent :
    RentalRun (fun _ => Hash.zero) Executor.devnet rentalStore offeredRental 100 rentCall
        [spendCall] returnCall ∧
      AmountsFit (fun _ => Hash.zero) Executor.devnet rentalStore offeredRental 100 rentCall
        [spendCall] returnCall ∧
      ¬ RentalSettled (fun _ => Hash.zero) Executor.devnet rentalStore offeredRental 100 rentCall
        [spendCall] returnCall := by
  refine ⟨rentalRun_returned ⟨?_, trivial⟩ (by decide +kernel),
    ⟨by decide, by decide, by decide +kernel, by decide +kernel⟩, fun h => ?_⟩
  · rintro id - ⟨_, _, _, _, _, _, hEq, -⟩
    cases hEq
  · have hOwner := h.ended (Address.ofByte 1)
    revert hOwner
    decide +kernel

end Runs

end Polay.Execution
