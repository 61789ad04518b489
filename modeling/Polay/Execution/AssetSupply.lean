import Polay.Lib.Total
import Polay.Execution.Calls
import Polay.Execution.Creation

/-!
# The supply of an asset class

The supply of a class is in the balances of its holders and in the active
listings, which hold what is for sale in escrow. `Conserved` says that the total
supply in the record of the class is the sum of both. Minting saturates the
total supply and every balance separately, so it is conserved only as long as
the total fits into 64 bits. A class without a cap leaves that to its creator; a
class with the largest cap does so too, since the check against the cap
saturates as well.
-/

namespace Polay.Execution

open Lib Lib.Machine Lib.Trace Polay.Types State

/-! ## Supply -/

section Supply

variable {s t : StateStore} {c i : Hash}

/-- The figure of a balance of the class. -/
def balanceFigure (c : Hash) : (k : Key) → k.Value → Nat
  | .assetBalance i _, b => if i = c then UInt64.toNat b.val else 0
  | _, _ => 0

/-- What a listing holds in escrow for the class. -/
def escrow (c : Hash) (l : Listing) : Nat :=
  if l.assetClassId = c ∧ l.isActive = true then l.amount.toNat else 0

/-- The figure of a listing of the class. -/
def escrowFigure (c : Hash) : (k : Key) → k.Value → Nat
  | .listing _, l => escrow c l.val
  | _, _ => 0

/-- All balances of the holders of a class. -/
def heldBalances (s : StateStore) (c : Hash) : Nat := Store.total (balanceFigure c) s

/-- The quantities of all active listings of a class. -/
def escrowed (s : StateStore) (c : Hash) : Nat := Store.total (escrowFigure c) s

/-- The supply in the record of a class. -/
def supplyAt (s : StateStore) (c : Hash) : Nat :=
  ((classOf s c).map fun x => x.totalSupply.toNat).getD 0

/-- The supply of every class is in balances and listings, and within its cap. -/
structure Conserved (s : StateStore) : Prop where
  supply : ∀ c, supplyAt s c = heldBalances s c + escrowed s c
  capped : ∀ c x cap, classOf s c = some x → x.maxSupply = some cap → x.totalSupply ≤ cap

/-- The families of the asset records. -/
def assetFamilies : List Family := [.assetClass, .assetBalance, .listing]

/-- Only asset records matter. -/
theorem Conserved.congr (h : Conserved s)
    (hSame : ∀ k, familyOf k ∈ assetFamilies → t.get? k = s.get? k) : Conserved t := by
  have hClass : ∀ c, classOf t c = classOf s c := by
    intro c
    rw [classOf, hSame (.assetClass c) (by simp [familyOf, assetFamilies]), classOf]
  have hTotal : ∀ w : (k : Key) → k.Value → Nat,
      (∀ k, familyOf k ∉ assetFamilies → ∀ x, w k x = 0) → Store.total w t = Store.total w s := by
    intro w hw
    refine Store.total_congr fun k => ?_
    by_cases hk : familyOf k ∈ assetFamilies
    · rw [Store.figureAt, Store.figureAt, hSame k hk]
    · rw [Store.figureAt_eq_zero _ (hw k hk), Store.figureAt_eq_zero _ (hw k hk)]
  have hBalances : ∀ c, heldBalances t c = heldBalances s c := by
    intro c
    refine hTotal _ fun k hk x => ?_
    cases k
    case assetBalance => simp [familyOf, assetFamilies] at hk
    all_goals rfl
  have hEscrow : ∀ c, escrowed t c = escrowed s c := by
    intro c
    refine hTotal _ fun k hk x => ?_
    cases k
    case listing => simp [familyOf, assetFamilies] at hk
    all_goals rfl
  refine ⟨fun c => ?_, fun c x cap hx => ?_⟩
  · rw [supplyAt, hClass, ← supplyAt, hBalances, hEscrow]
    exact h.supply c
  · rw [hClass] at hx
    exact h.capped c x cap hx

theorem Conserved.of_keeps {F : List Family} (h : Conserved s)
    (hKeeps : Store.Holds (Keeps F s) t) (hF : ∀ f ∈ assetFamilies, f ∉ F) : Conserved t :=
  h.congr fun k hk => hKeeps k (hF _ hk)

/-! ### Writing asset records -/

theorem supplyAt_eq {x : AssetClass} (h : classOf s c = some x) :
    supplyAt s c = x.totalSupply.toNat := by
  rw [supplyAt, h]
  rfl

theorem classOf_withClass (s : StateStore) (x : AssetClass) (c : Hash) :
    classOf (withClass s x) c = if c = x.id then some x else classOf s c :=
  Store.read_insert s (.assetClass c) (Option.map (·.val)) (by simp [eq_comm]) (by rintro ⟨⟩; rfl)

theorem classOf_withBalance (s : StateStore) (i : Hash) (a : Address) (b : UInt64) (c : Hash) :
    classOf (withBalance s i a b) c = classOf s c := by
  unfold classOf withBalance
  rw [Store.get?_insert_ne (by simp)]

theorem classOf_withListing (s : StateStore) (l : Listing) (c : Hash) :
    classOf (withListing s l) c = classOf s c := by
  unfold classOf withListing
  rw [Store.get?_insert_ne (by simp)]

theorem balanceAt_withClass (s : StateStore) (x : AssetClass) (i : Hash) (a : Address) :
    balanceAt (withClass s x) i a = balanceAt s i a := by
  unfold balanceAt withClass
  rw [Store.get?_insert_ne (by simp)]

theorem listingOf_withBalance (s : StateStore) (i : Hash) (a : Address) (b : UInt64)
    (id : Hash) : listingOf (withBalance s i a b) id = listingOf s id := by
  unfold listingOf withBalance
  rw [Store.get?_insert_ne (by simp)]

theorem heldBalances_withClass (s : StateStore) (x : AssetClass) (c : Hash) :
    heldBalances (withClass s x) c = heldBalances s c :=
  Store.total_insert_of_zero _ (fun _ => rfl) _

theorem escrowed_withClass (s : StateStore) (x : AssetClass) (c : Hash) :
    escrowed (withClass s x) c = escrowed s c :=
  Store.total_insert_of_zero _ (fun _ => rfl) _

theorem escrowed_withBalance (s : StateStore) (i : Hash) (a : Address) (b : UInt64) (c : Hash) :
    escrowed (withBalance s i a b) c = escrowed s c :=
  Store.total_insert_of_zero _ (fun _ => rfl) _

theorem heldBalances_withListing (s : StateStore) (l : Listing) (c : Hash) :
    heldBalances (withListing s l) c = heldBalances s c :=
  Store.total_insert_of_zero _ (fun _ => rfl) _

theorem figureAt_balanceFigure (s : StateStore) (i : Hash) (a : Address) :
    Store.figureAt (balanceFigure i) s (.assetBalance i a) = (balanceAt s i a).toNat := by
  unfold Store.figureAt balanceAt
  cases s.get? (.assetBalance i a) with
  | none => rfl
  | some => exact if_pos rfl

/-- Writing a balance replaces it in the sum. -/
theorem heldBalances_withBalance (s : StateStore) (i : Hash) (a : Address) (b : UInt64) :
    heldBalances (withBalance s i a b) i + (balanceAt s i a).toNat =
      heldBalances s i + b.toNat := by
  have hInsert := Store.total_insert (balanceFigure i) (s := s) (.assetBalance i a) ⟨b, trivial⟩
  have hNew : balanceFigure i (.assetBalance i a) ⟨b, trivial⟩ = b.toNat := if_pos rfl
  rw [figureAt_balanceFigure, hNew] at hInsert
  exact hInsert

theorem heldBalances_withBalance_ne (h : i ≠ c) (a : Address) (b : UInt64) :
    heldBalances (withBalance s i a b) c = heldBalances s c :=
  Store.total_insert_of_zero _ (fun _ => if_neg h) _

/-- A balance is part of the sum. -/
theorem balanceAt_le (s : StateStore) (i : Hash) (a : Address) :
    (balanceAt s i a).toNat ≤ heldBalances s i := by
  have hSum := Store.sum_figureAt_le (w := balanceFigure i) (s := s)
    (List.nodup_singleton (Key.assetBalance i a))
  rwa [List.map_singleton, List.sum_singleton, figureAt_balanceFigure] at hSum

/-- What the listing of an identifier holds. -/
def escrowAt (s : StateStore) (id c : Hash) : Nat := ((listingOf s id).map (escrow c)).getD 0

/-- Writing a listing replaces what it holds. -/
theorem escrowed_withListing {l : Listing} {id : Hash} (hId : l.id = id) (c : Hash) :
    escrowed (withListing s l) c + escrowAt s id c = escrowed s c + escrow c l := by
  subst hId
  have hInsert := Store.total_insert (escrowFigure c) (s := s) (.listing l.id) ⟨l, rfl⟩
  have hOld : Store.figureAt (escrowFigure c) s (.listing l.id) = escrowAt s l.id c := by
    unfold Store.figureAt escrowAt listingOf
    cases s.get? (.listing l.id) <;> rfl
  rw [hOld] at hInsert
  exact hInsert

theorem supplyAt_withClass (s : StateStore) (x : AssetClass) (c : Hash) :
    supplyAt (withClass s x) c = if c = x.id then x.totalSupply.toNat else supplyAt s c := by
  unfold supplyAt
  rw [classOf_withClass]
  split <;> rfl

theorem supplyAt_withBalance (s : StateStore) (i : Hash) (a : Address) (b : UInt64) (c : Hash) :
    supplyAt (withBalance s i a b) c = supplyAt s c := by
  rw [supplyAt, classOf_withBalance, ← supplyAt]

theorem supplyAt_withListing (s : StateStore) (l : Listing) (c : Hash) :
    supplyAt (withListing s l) c = supplyAt s c := by
  rw [supplyAt, classOf_withListing, ← supplyAt]

theorem supplyAt_lt (s : StateStore) (c : Hash) : supplyAt s c < 2 ^ 64 := by
  unfold supplyAt
  cases classOf s c with
  | none => exact Nat.two_pow_pos 64
  | some x => exact x.totalSupply.toNat_lt

end Supply

/-! ## The handlers -/

section Handlers

variable {s : StateStore}

/-- A new class has no holders yet. -/
theorem Conserved.newClass (h : Conserved s) {x : AssetClass} (hNone : classOf s x.id = none)
    (hZero : x.totalSupply = 0) : Conserved (withClass s x) := by
  refine ⟨fun c => ?_, fun c y cap hy hCap => ?_⟩
  · have hSupply := h.supply c
    rw [supplyAt_withClass, heldBalances_withClass, escrowed_withClass]
    split
    · rename_i hEq
      rw [hEq, supplyAt, hNone] at hSupply
      rw [hEq, hZero]
      exact hSupply
    · exact hSupply
  · rw [classOf_withClass] at hy
    split at hy
    · obtain rfl := Option.some.inj hy
      rw [hZero]
      exact UInt64.zero_le
    · exact h.capped c y cap hy hCap

theorem Conserved.createAssetClass (h : Conserved s) (sha256 : List UInt8 → Hash)
    (signer : Address) (name symbol : String) (type : AssetType) (max : Option UInt64)
    (uri : String) (t : UInt64) :
    (Assets.executeCreateAssetClass sha256 signer name symbol type max uri t).Wp
      (fun _ t => Conserved t) s := by
  simp only [Assets.executeCreateAssetClass, Prog.bind_eq, wp_getAssetClass_bind,
    Prog.wp_ensure_bind, wp_setAssetClass_bind, Prog.pure_eq, Prog.wp_pure]
  refine ⟨fun _ => h, fun hNone => ?_⟩
  exact h.newClass (Option.isNone_iff_eq_none.mp hNone) rfl

/-- Minting gives the holder as much as the class. -/
theorem Conserved.mintAsset (h : Conserved s) (signer : Address) (i : Hash) (toAddr : Address)
    (amount : UInt64)
    (hFits : ∀ x, classOf s i = some x → x.creator = signer → x.canMint amount = true →
      x.totalSupply.toNat + amount.toNat < 2 ^ 64) :
    (Assets.executeMintAsset signer i toAddr amount).Wp (fun _ t => Conserved t) s := by
  simp only [Assets.executeMintAsset, Prog.bind_eq, wp_getAssetClass_bind, Prog.wp_require_bind,
    Prog.wp_ensure_bind, wp_setAssetClass_bind, wp_getAssetBalance_bind,
    wp_setAssetBalance_bind, Prog.pure_eq, Prog.wp_pure]
  refine ⟨fun _ => h, fun x hx => ⟨fun _ => h, fun hCreator => ⟨fun _ => h, fun hCan => ?_⟩⟩⟩
  have hFits := hFits x hx hCreator hCan
  have hId := id_of_classOf hx
  have hSupply := h.supply i
  have hBalance := balanceAt_le s i toAddr
  rw [supplyAt_eq hx] at hSupply
  rw [balanceAt_withClass]
  refine ⟨fun c => ?_, fun c y cap hy hCap => ?_⟩
  · rw [supplyAt_withBalance, supplyAt_withClass, escrowed_withBalance, escrowed_withClass]
    by_cases hEq : c = i
    · subst hEq
      have hNew := heldBalances_withBalance
        (withClass s { x with totalSupply := saturatingAdd x.totalSupply amount }) c toAddr
        (saturatingAdd (balanceAt s c toAddr) amount)
      rw [balanceAt_withClass, heldBalances_withClass, toNat_saturatingAdd] at hNew
      rw [if_pos hId.symm, toNat_saturatingAdd]
      omega
    · rw [if_neg (by rwa [hId]), heldBalances_withBalance_ne (Ne.symm hEq),
        heldBalances_withClass]
      exact h.supply c
  · rw [classOf_withBalance, classOf_withClass] at hy
    split at hy
    · obtain rfl := Option.some.inj hy
      have hCap : x.maxSupply = some cap := hCap
      simpa [AssetClass.canMint, hCap] using hCan
    · exact h.capped c y cap hy hCap

/-- Moving an amount between two holders. -/
theorem Conserved.transferAsset (h : Conserved s) (signer : Address) (i : Hash)
    (toAddr : Address) (amount : UInt64) :
    (Assets.executeTransferAsset signer i toAddr amount).Wp (fun _ t => Conserved t) s := by
  simp only [Assets.executeTransferAsset, Prog.bind_eq, wp_getAssetClass_bind,
    Prog.wp_ensure_bind, wp_getAssetBalance_bind, wp_setAssetBalance_bind, Prog.pure_eq,
    Prog.wp_pure]
  refine ⟨fun _ => h, fun _ => ⟨fun _ => h, fun hEnough => ?_⟩⟩
  have hEnough := UInt64.not_lt.mp hEnough
  refine ⟨fun c => ?_, fun c y cap hy hCap => ?_⟩
  · rw [supplyAt_withBalance, supplyAt_withBalance, escrowed_withBalance, escrowed_withBalance]
    by_cases hEq : c = i
    · subst hEq
      have hTaken := heldBalances_withBalance s c signer (balanceAt s c signer - amount)
      generalize withBalance s c signer (balanceAt s c signer - amount) = s₁ at hTaken ⊢
      have hGiven := heldBalances_withBalance s₁ c toAddr
        (saturatingAdd (balanceAt s₁ c toAddr) amount)
      have hReceiver := balanceAt_le s₁ c toAddr
      have hSupply := h.supply c
      have hBound := supplyAt_lt s c
      rw [UInt64.toNat_sub_of_le _ _ hEnough] at hTaken
      rw [toNat_saturatingAdd] at hGiven
      rw [UInt64.le_iff_toNat_le] at hEnough
      omega
    · rw [heldBalances_withBalance_ne (Ne.symm hEq), heldBalances_withBalance_ne (Ne.symm hEq)]
      exact h.supply c
  · rw [classOf_withBalance, classOf_withBalance] at hy
    exact h.capped c y cap hy hCap

theorem Conserved.burnAsset (h : Conserved s) (signer : Address) (i : Hash) (amount : UInt64) :
    (Assets.executeBurnAsset signer i amount).Wp (fun _ t => Conserved t) s := by
  simp only [Assets.executeBurnAsset, Prog.bind_eq, wp_getAssetClass_bind, Prog.wp_require_bind,
    Prog.wp_ensure_bind, wp_getAssetBalance_bind, wp_setAssetBalance_bind,
    wp_setAssetClass_bind, Prog.pure_eq, Prog.wp_pure]
  refine ⟨fun _ => h, fun x hx => ⟨fun _ => h, fun hEnough => ?_⟩⟩
  have hEnough := UInt64.not_lt.mp hEnough
  have hId := id_of_classOf hx
  refine ⟨fun c => ?_, fun c y cap hy hCap => ?_⟩
  · rw [supplyAt_withClass, supplyAt_withBalance, heldBalances_withClass, escrowed_withClass,
      escrowed_withBalance]
    by_cases hEq : c = i
    · subst hEq
      have hTaken := heldBalances_withBalance s c signer (balanceAt s c signer - amount)
      have hHolder := balanceAt_le s c signer
      have hSupply := h.supply c
      rw [supplyAt_eq hx] at hSupply
      rw [UInt64.toNat_sub_of_le _ _ hEnough] at hTaken
      rw [UInt64.le_iff_toNat_le] at hEnough
      rw [if_pos hId.symm, toNat_saturatingSub]
      omega
    · rw [if_neg (by rwa [hId]), heldBalances_withBalance_ne (Ne.symm hEq)]
      exact h.supply c
  · rw [classOf_withClass, classOf_withBalance] at hy
    split at hy
    · obtain rfl := Option.some.inj hy
      have hOld := h.capped i x cap hx hCap
      rw [UInt64.le_iff_toNat_le] at hOld ⊢
      rw [toNat_saturatingSub]
      omega
    · exact h.capped c y cap hy hCap

/-- The identifier of a new listing. -/
def listingIdOf (sha256 : List UInt8 → Hash) (signer : Address) (i : Hash)
    (amount price t : UInt64) : Hash :=
  sha256 (Creation.listing signer i amount price t).message

/-- Putting assets up for sale moves them into escrow, if the identifier is new. -/
theorem Conserved.createListing (h : Conserved s) (sha256 : List UInt8 → Hash)
    (config : ChainConfig) (signer : Address) (i : Hash) (amount price : UInt64)
    (currency : Hash) (t : UInt64) :
    (Market.executeCreateListing sha256 config signer i amount price currency t).Wp
      (fun o t' => ((∃ r, o = .ok r) → listingOf s (listingIdOf sha256 signer i amount price t)
        = none) → Conserved t') s := by
  simp only [Market.executeCreateListing, Prog.bind_eq, wp_getAssetClass_bind,
    Prog.wp_require_bind, Prog.wp_ensure_bind, wp_getAssetBalance_bind,
    wp_setAssetBalance_bind, wp_setListing_bind, Prog.pure_eq, Prog.wp_pure]
  refine ⟨fun _ _ => h, fun x hx => ⟨fun _ _ => h, fun hEnough hFresh => ?_⟩⟩
  have hFresh := hFresh ⟨_, rfl⟩
  have hEnough := UInt64.not_lt.mp hEnough
  let l : Listing :=
    { id := listingIdOf sha256 signer i amount price t, seller := signer, assetClassId := i,
      amount, pricePerUnit := price, currency, status := .active,
      royaltyBps := config.protocolFeeBps, createdAt := t }
  let s₁ := withBalance s i signer (balanceAt s i signer - amount)
  have hNone : ∀ c, escrowAt s₁ l.id c = 0 := by
    intro c
    rw [escrowAt, listingOf_withBalance, hFresh]
    rfl
  show Conserved (withListing s₁ l)
  refine ⟨fun c => ?_, fun c y cap hy hCap => ?_⟩
  · have hListed := escrowed_withListing (s := s₁) (l := l) rfl c
    have hSupply := h.supply c
    rw [hNone] at hListed
    rw [supplyAt_withListing, supplyAt_withBalance, heldBalances_withListing]
    by_cases hEq : c = i
    · subst hEq
      have hTaken := heldBalances_withBalance s c signer (balanceAt s c signer - amount)
      have hEscrow : escrow c l = amount.toNat := if_pos ⟨rfl, rfl⟩
      have hSame : escrowed s₁ c = escrowed s c := escrowed_withBalance ..
      rw [UInt64.toNat_sub_of_le _ _ hEnough] at hTaken
      rw [UInt64.le_iff_toNat_le] at hEnough
      show supplyAt s c = heldBalances (withBalance s c signer _) c + escrowed (withListing s₁ l) c
      omega
    · have hEscrow : escrow c l = 0 := if_neg fun hBoth => hEq hBoth.1.symm
      have hSame : escrowed s₁ c = escrowed s c := escrowed_withBalance ..
      rw [heldBalances_withBalance_ne (Ne.symm hEq)]
      omega
  · rw [classOf_withListing, classOf_withBalance] at hy
    exact h.capped c y cap hy hCap

/-- A listing that is not created leaves no trace. -/
theorem createListing_unchanged (sha256 : List UInt8 → Hash) (config : ChainConfig)
    (signer : Address) (i : Hash) (amount price : UInt64) (currency : Hash) (t : UInt64) :
    (Market.executeCreateListing sha256 config signer i amount price currency t).Wp
      (fun o t' => (∃ r, o = .ok r) ∨ t' = s) s := by
  simp only [Market.executeCreateListing, Prog.bind_eq, wp_getAssetClass_bind,
    Prog.wp_require_bind, Prog.wp_ensure_bind, wp_getAssetBalance_bind,
    wp_setAssetBalance_bind, wp_setListing_bind, Prog.pure_eq, Prog.wp_pure]
  exact ⟨fun _ => .inr trivial, fun x _ => ⟨fun _ => .inr trivial, fun _ => .inl ⟨_, rfl⟩⟩⟩

/-- Closing an active listing pays its escrow out to somebody. -/
theorem Conserved.closeListing (h : Conserved s) {l : Listing} {id : Hash}
    (hl : listingOf s id = some l) (hActive : l.isActive = true) (l' : Listing)
    (hId : l'.id = l.id) (hClosed : l'.isActive = false) (a : Address) :
    Conserved (withListing (withBalance s l.assetClassId a
      (saturatingAdd (balanceAt s l.assetClassId a) l.amount)) l') := by
  let s₁ := withBalance s l.assetClassId a
    (saturatingAdd (balanceAt s l.assetClassId a) l.amount)
  refine ⟨fun c => ?_, fun c y cap hy hCap => ?_⟩
  · have hOld : escrowAt s₁ id c = escrow c l := by
      rw [escrowAt, listingOf_withBalance, hl]
      rfl
    have hNew : escrow c l' = 0 := if_neg fun hBoth => by simp [hClosed] at hBoth
    have hListed := escrowed_withListing (s := s₁) (hId.trans (id_of_listingOf hl)) c
    have hSame : escrowed s₁ c = escrowed s c := escrowed_withBalance ..
    have hSupply := h.supply c
    rw [hOld, hNew, hSame] at hListed
    rw [supplyAt_withListing, supplyAt_withBalance, heldBalances_withListing]
    show supplyAt s c = heldBalances s₁ c + escrowed (withListing s₁ l') c
    by_cases hEq : c = l.assetClassId
    · subst hEq
      have hPaid := heldBalances_withBalance s l.assetClassId a
        (saturatingAdd (balanceAt s l.assetClassId a) l.amount)
      have hEscrow : escrow l.assetClassId l = l.amount.toNat := if_pos ⟨rfl, hActive⟩
      have hBalance := balanceAt_le s l.assetClassId a
      have hBound := supplyAt_lt s l.assetClassId
      rw [toNat_saturatingAdd] at hPaid
      show _ = heldBalances (withBalance s l.assetClassId a _) _ + _
      omega
    · have hEscrow : escrow c l = 0 := if_neg fun hBoth => hEq hBoth.1.symm
      have hHeld : heldBalances s₁ c = heldBalances s c :=
        heldBalances_withBalance_ne (Ne.symm hEq) _ _
      omega
  · rw [classOf_withListing, classOf_withBalance] at hy
    exact h.capped c y cap hy hCap

theorem Conserved.cancelListing (h : Conserved s) (signer : Address) (id : Hash) :
    (Market.executeCancelListing signer id).Wp (fun _ t => Conserved t) s := by
  simp only [Market.executeCancelListing, Prog.bind_eq, wp_getListing_bind,
    Prog.wp_require_bind, Prog.wp_ensure_bind, wp_getAssetBalance_bind,
    wp_setAssetBalance_bind, wp_setListing_bind, Prog.pure_eq, Prog.wp_pure]
  refine ⟨fun _ => h, fun l hl => ⟨fun _ => h, fun hActive => ⟨fun _ => h, fun _ => ?_⟩⟩⟩
  exact h.closeListing hl hActive { l with status := .cancelled } rfl rfl signer

/-- Buying a listing: the payments do not touch assets, the buyer gets the escrow. -/
theorem Conserved.buyListing (h : Conserved s) (config : ChainConfig) (buyer : Address)
    (id : Hash) (t : UInt64) :
    (Market.executeBuyListing config buyer id t).Wp (fun _ t => Conserved t) s := by
  simp only [Market.executeBuyListing, Prog.bind_eq, wp_getListing_bind, Prog.wp_require_bind,
    Prog.wp_ensure_bind, wp_loadAccount_bind, wp_debited_bind, wp_setAccount_bind]
  refine ⟨fun _ => h, fun l hl => ⟨fun _ => h, fun hActive => ⟨fun _ => h, fun _ =>
    ⟨fun _ => h, fun x _ => ⟨fun _ => h, fun _ => ?_⟩⟩⟩⟩⟩
  -- From here on only accounts change until the buyer gets the assets.
  let R (u : StateStore) : Prop := Store.Holds (Keeps [.account] s) u
  have hEnd : ∀ u, R u → Conserved u := fun u hu => h.of_keeps hu (by simp [assetFamilies])
  have hStart : R (withAccount s { x with balance := x.balance - l.totalPrice }) :=
    (holds_keeps [.account] s).insert fun hk => absurd (by simp [familyOf]) hk
  have hCredit : ∀ u, R u → ∀ a n m, (creditOrCreate a n m).Wp (fun _ u => R u) u :=
    fun u hu a n m => ((creditOrCreate_keeps (by simp) a n m).sound hu (w := false)).holds
  have hWhen : ∀ u, R u → ∀ (c : Prop) [Decidable c] (p : Handler Unit),
      p.Wp (fun _ u => R u) u → (Prog.when c p).Wp (fun _ u => R u) u := by
    intro u hu c _ p hp
    unfold Prog.when
    split
    · exact hp
    · exact hu
  have hRoyalty : ∀ u, R u → ∀ i m, (Market.payRoyalty i m t).Wp (fun _ u => R u) u := by
    intro u hu i m
    simp only [Market.payRoyalty, Prog.bind_eq, wp_getAssetClass_bind, Prog.wp_require_bind]
    exact ⟨fun _ => hu, fun y _ => hCredit u hu _ _ _⟩
  refine (hCredit _ hStart _ _ _).seq hEnd fun _ u hu => ?_
  refine (hWhen u hu _ _ (hCredit u hu _ _ _)).seq hEnd fun _ u hu => ?_
  refine (hWhen u hu _ _ (hRoyalty u hu _ _)).seq hEnd fun _ u hu => ?_
  have hStored : listingOf u id = some l := by
    rw [listingOf, hu (.listing id) (by simp [familyOf]), ← listingOf, hl]
  exact (hEnd u hu).closeListing hStored hActive { l with status := .sold } rfl rfl buyer

end Handlers

/-! ## Transactions -/

section Transactions

variable {sha256 : List UInt8 → Hash} {ex : Executor} {s : StateStore}

/-- The identifier of the listing an action creates. -/
def listingIdBy (sha256 : List UInt8 → Hash) (action : TransactionAction) (signer : Address)
    (timestamp : UInt64) : Option Hash :=
  match action with
  | .createListing i amount price _ =>
      some (listingIdOf sha256 signer i amount price timestamp)
  | _ => none

/-- What minting may add to classes with a given cap. -/
def MintWithin (s : StateStore) (signer : Address) (cap : Option UInt64) :
    TransactionAction → Prop
  | .mintAsset i _ amount _ =>
      ∀ x, classOf s i = some x → x.creator = signer → x.maxSupply = cap →
        x.totalSupply.toNat + amount.toNat < 2 ^ 64
  | _ => True

/-- A cap below the largest word keeps the supply within 64 bits. -/
theorem fits_of_canMint {x : AssetClass} {amount : UInt64} (hCan : x.canMint amount = true)
    (hUncapped : x.maxSupply = none → x.totalSupply.toNat + amount.toNat < 2 ^ 64)
    (hLargest : x.maxSupply = some u64Max → x.totalSupply.toNat + amount.toNat < 2 ^ 64) :
    x.totalSupply.toNat + amount.toNat < 2 ^ 64 := by
  cases hMax : x.maxSupply with
  | none => exact hUncapped hMax
  | some cap =>
      by_cases hEq : cap = u64Max
      · exact hLargest (by rw [hMax, hEq])
      · have hLe : saturatingAdd x.totalSupply amount ≤ cap := by
          simpa [AssetClass.canMint, hMax] using hCan
        have hNe : cap.toNat ≠ 2 ^ 64 - 1 := by
          intro hNat
          exact hEq (UInt64.toNat_inj.mp (by rw [hNat, toNat_u64Max]))
        have hLt := cap.toNat_lt
        rw [UInt64.le_iff_toNat_le, toNat_saturatingAdd] at hLe
        omega

theorem Conserved.dispatchAction (h : Conserved s) (sha256 : List UInt8 → Hash) (ex : Executor)
    (action : TransactionAction) (signer : Address) (timestamp height : UInt64)
    (hUncapped : MintWithin s signer none action)
    (hLargest : MintWithin s signer (some u64Max) action) :
    (ex.dispatchAction sha256 action signer timestamp height).Wp
      (fun o t => ((∃ r, o = .ok r) → ∀ id, listingIdBy sha256 action signer timestamp = some id →
        listingOf s id = none) → Conserved t) s := by
  have hKeeps := run_keeps (dispatchAction_keeps sha256 ex action signer timestamp height (s := s))
  have hAll : ∀ {p : Handler (List Event × List StateChange)}
      {Q : Outcome ExecutionError (List Event × List StateChange) → Prop},
      p.Wp (fun _ t => Conserved t) s → p.Wp (fun o t => Q o → Conserved t) s :=
    fun hp => hp.mono fun _ _ ht _ => ht
  cases action
  case createAssetClass =>
    exact hAll (Prog.wp_bind_pure.mpr (h.createAssetClass _ _ _ _ _ _ _ _))
  case mintAsset =>
    refine hAll (Prog.wp_bind_pure.mpr (h.mintAsset _ _ _ _ fun x hx hCreator hCan => ?_))
    exact fits_of_canMint hCan (hUncapped x hx hCreator) (hLargest x hx hCreator)
  case transferAsset =>
    exact hAll (Prog.wp_bind_pure.mpr (h.transferAsset _ _ _ _))
  case burnAsset => exact hAll (Prog.wp_bind_pure.mpr (h.burnAsset _ _ _))
  case createListing i amount price currency =>
    refine Prog.wp_bind.mpr ((h.createListing sha256 ex.chainConfig signer i amount price currency
      timestamp).mono fun o t ht => ?_)
    cases o with
    | ok => exact fun hFresh => ht fun _ => hFresh ⟨_, rfl⟩ _ rfl
    | err | panic => exact fun _ => ht (by simp)
  case cancelListing => exact hAll (Prog.wp_bind_pure.mpr (h.cancelListing _ _))
  case buyListing => exact hAll (Prog.wp_bind_pure.mpr (h.buyListing _ _ _ _))
  all_goals exact fun _ => h.of_keeps hKeeps (by simp [assetFamilies, writtenBy])

namespace Call

/-- The identifier of the listing the call creates. -/
def listed (sha256 : List UInt8 → Hash) (ex : Executor) (s : StateStore) (c : Call) :
    Option Hash :=
  if c.succeeds sha256 ex s then
    listingIdBy sha256 c.tx.transaction.action c.tx.signer c.tx.transaction.timestamp
  else none

/-- If the call pays its fee, its signer mints no more than fits. -/
def MintFits (ex : Executor) (cap : Option UInt64) (s : StateStore) (c : Call) : Prop :=
  ex.Charges c.tx s → MintWithin s c.tx.signer cap c.tx.transaction.action

end Call

theorem MintWithin.congr {t : StateStore} {signer : Address} {cap : Option UInt64}
    {action : TransactionAction} (h : MintWithin s signer cap action)
    (hClass : ∀ i, classOf t i = classOf s i) : MintWithin t signer cap action := by
  cases action
  case mintAsset =>
    intro x hx
    rw [hClass] at hx
    exact h x hx
  all_goals trivial

/-- A call that mints within the words and lists under a new identifier. -/
theorem Conserved.call (h : Conserved s) {c : Call}
    (hFresh : ∀ id, c.listed sha256 ex s = some id → listingOf s id = none)
    (hUncapped : c.MintFits ex none s) (hLargest : c.MintFits ex (some u64Max) s) :
    Conserved (c.next sha256 ex s) := by
  unfold Call.next
  rcases (ex.executeTransaction_run sha256 c.tx c.height c.proposer s).stages with
    ⟨_, hSame⟩ | ⟨s₁, hStages⟩
  · rw [hSame]
    exact h
  · have hFee := hStages.collected.keeps
    have h₁ : Conserved s₁ := h.of_keeps hFee (by simp [assetFamilies, feeFamilies])
    have hClass : ∀ i, classOf s₁ i = classOf s i := by
      intro i
      rw [classOf, hFee (.assetClass i) (by simp [familyOf, feeFamilies]), classOf]
    have hAction := h₁.dispatchAction sha256 ex c.tx.transaction.action c.tx.signer
      c.tx.transaction.timestamp c.height ((hUncapped hStages.charges).congr hClass)
      ((hLargest hStages.charges).congr hClass)
    refine Conserved.of_keeps (hAction fun hOk id hId => ?_) hStages.spent (by simp [assetFamilies])
    have hSucceeds := Call.succeeds_of_stages hStages hOk
    have hNone := hFresh id (by rw [Call.listed, if_pos hSucceeds]; exact hId)
    rw [listingOf, hFee (.listing id) (by simp [familyOf, feeFamilies]), ← listingOf, hNone]

/-- A listing that an action leaves was there, or the action created it. -/
theorem listing_of_dispatchAction {action : TransactionAction} {signer : Address}
    {timestamp height : UInt64} {id : Hash}
    (h : (listingOf ((ex.dispatchAction sha256 action signer timestamp height).run s).2
      id).isSome = true) :
    (listingOf s id).isSome = true ∨
      (listingIdBy sha256 action signer timestamp = some id ∧
        ∃ r, ((ex.dispatchAction sha256 action signer timestamp height).run s).1 = .ok r) := by
  by_cases hStored : (listingOf s id).isSome = true
  · exact .inl hStored
  · right
    let L (k : Key) : Prop := (s.get? k).isSome = true ∨
      ∃ c, Creation.ofAction action signer timestamp height = some c ∧ k ∈ c.keys sha256
    have hWithin : Store.Holds (Within L) s := fun k _ hSome => .inl hSome
    have hAfter := dispatchAction_within sha256 ex action signer timestamp height
      (fun c hc k hk => .inr ⟨c, hc, hk⟩) hWithin
    rw [listingOf, Option.isSome_map] at h hStored
    obtain ⟨c, hc, hk⟩ := (hAfter (.listing id) rfl h).resolve_left hStored
    cases action
    case createListing i amount price currency =>
      cases hc
      have hId : id = listingIdOf sha256 signer i amount price timestamp := by
        simpa [Creation.keys, listingIdOf] using hk
      refine ⟨by rw [hId]; rfl, ?_⟩
      have hRun : (ex.dispatchAction sha256 (.createListing i amount price currency) signer
          timestamp height).Wp (fun o t => (∃ r, o = .ok r) ∨ t = s) s := by
        refine Prog.wp_bind.mpr ((createListing_unchanged sha256 ex.chainConfig signer i amount
          price currency timestamp).mono fun o t ht => ?_)
        cases o with
        | ok => exact .inl ⟨_, rfl⟩
        | err | panic => exact .inr (ht.resolve_left (by simp))
      refine hRun.resolve_right fun hSame => hStored ?_
      rwa [hSame] at h
    all_goals (cases hc; try simp [Creation.keys] at hk)

theorem listing_of_call {c : Call} {id : Hash}
    (h : (listingOf (c.next sha256 ex s) id).isSome = true) :
    (listingOf s id).isSome = true ∨ c.listed sha256 ex s = some id := by
  unfold Call.next at h
  rcases (ex.executeTransaction_run sha256 c.tx c.height c.proposer s).stages with
    ⟨_, hSame⟩ | ⟨s₁, hStages⟩
  · rw [hSame] at h
    exact .inl h
  · have hFee := hStages.collected.keeps
    rw [listingOf, hStages.spent (.listing id) (by simp [familyOf]), ← listingOf] at h
    rcases listing_of_dispatchAction h with hStored | ⟨hId, hOk⟩
    · left
      rwa [listingOf, hFee (.listing id) (by simp [familyOf, feeFamilies]), ← listingOf] at hStored
    · right
      rw [Call.listed, if_pos (Call.succeeds_of_stages hStages hOk)]
      exact hId

end Transactions

/-! ## Runs -/

section Runs

variable {sha256 : List UInt8 → Hash} {ex : Executor}

theorem Conserved.calls {s : StateStore} (h : Conserved s) {calls : List Call}
    (hStored : ∀ id, (listingOf s id).isSome = true →
      id ∉ collect (Call.next sha256 ex) (Call.listed sha256 ex) s calls)
    (hDistinct : (collect (Call.next sha256 ex) (Call.listed sha256 ex) s calls).Nodup)
    (hUncapped : Along (Call.next sha256 ex) (Call.MintFits ex none) s calls)
    (hLargest : Along (Call.next sha256 ex) (Call.MintFits ex (some u64Max)) s calls) :
    Conserved (after (Call.next sha256 ex) s calls) := by
  -- The identifiers still to come are neither stored nor repeated.
  induction calls generalizing s with
  | nil => exact h
  | cons c rest ih =>
      obtain ⟨_, hRest, hApart⟩ := List.nodup_append.mp hDistinct
      have hFresh : ∀ id, c.listed sha256 ex s = some id → listingOf s id = none := by
        intro id hId
        rw [← Option.not_isSome_iff_eq_none]
        intro hSome
        exact hStored id hSome (List.mem_append_left _ (by rw [hId]; simp))
      refine ih (h.call hFresh hUncapped.1 hLargest.1) (fun id hSome hMem => ?_) hRest
        hUncapped.2 hLargest.2
      rcases listing_of_call hSome with hOld | hNew
      · exact hStored id hOld (List.mem_append_right _ hMem)
      · exact hApart id (by rw [hNew]; simp) id hMem rfl

theorem conserved_of_empty {s : StateStore}
    (h : ∀ k, familyOf k ∈ assetFamilies → s.get? k = none) : Conserved s := by
  have hEmpty : Conserved (∅ : StateStore) :=
    ⟨fun c => rfl, fun c x cap hx => by simp [classOf] at hx⟩
  exact hEmpty.congr fun k hk => by rw [h k hk]; simp

/-- From a store without asset records, calls that list under distinct identifiers and
mint within the words keep the supply of every class in balances and listings. -/
theorem supply_conserved {s₀ : StateStore}
    (hEmpty : ∀ k, familyOf k ∈ assetFamilies → s₀.get? k = none) (calls : List Call)
    (hDistinct : (collect (Call.next sha256 ex) (Call.listed sha256 ex) s₀ calls).Nodup)
    (hUncapped : Along (Call.next sha256 ex) (Call.MintFits ex none) s₀ calls)
    (hLargest : Along (Call.next sha256 ex) (Call.MintFits ex (some u64Max)) s₀ calls) :
    Conserved (after (Call.next sha256 ex) s₀ calls) := by
  refine (conserved_of_empty hEmpty).calls (fun id hSome => ?_) hDistinct hUncapped hLargest
  rw [listingOf, hEmpty (.listing id) (by simp [familyOf, assetFamilies])] at hSome
  cases hSome

theorem traderStore_empty (k : Key) (h : familyOf k ∈ assetFamilies) :
    traderStore.get? k = none := by
  have hNe : ∀ a, k ≠ .account a := by
    rintro a rfl
    simp [familyOf, assetFamilies] at h
  exact get?_traderStore hNe

/-- A class with a cap, mint a first amount, mint a second one for somebody else, and put
some of it up for sale. -/
def mintAndList (cap first second : UInt64) : List Call :=
  [traderCall 0 (.createAssetClass "Gold" "G" .fungible (some cap) ""),
   traderCall 1 (.mintAsset Hash.zero (Address.ofByte 1) first none),
   traderCall 2 (.mintAsset Hash.zero (Address.ofByte 2) second none),
   traderCall 3 (.createListing Hash.zero 4 10 Hash.zero)]

/-- The mints of the sample are of a class with its own cap. -/
theorem along_mintAndList {max first second : UInt64} {cap : Option UInt64}
    (hFirst : (classOf (after sampleCall traderStore ((mintAndList max first second).take 1))
      Hash.zero).map AssetClass.maxSupply = some (some max))
    (hSecond : (classOf (after sampleCall traderStore ((mintAndList max first second).take 2))
      Hash.zero).map AssetClass.maxSupply = some (some max)) (hNe : some max ≠ cap) :
    Along sampleCall (Call.MintFits Executor.devnet cap) traderStore
      (mintAndList max first second) := by
  have hMint : ∀ {s : StateStore} {a : Address} {amount : UInt64},
      (classOf s Hash.zero).map AssetClass.maxSupply = some (some max) →
      MintWithin s (Address.ofByte 1) cap (.mintAsset Hash.zero a amount none) := by
    intro s a amount hClass x hx _ hMax
    rw [hx] at hClass
    exact absurd ((Option.some.inj hClass).symm.trans hMax) hNe
  exact ⟨fun _ => trivial, fun _ => hMint hFirst, fun _ => hMint hSecond, fun _ => trivial, trivial⟩

theorem supply_conserved_gold :
    Conserved (after sampleCall traderStore (mintAndList 100 60 40)) ∧
      supplyAt (after sampleCall traderStore (mintAndList 100 60 40)) Hash.zero = 100 ∧
      escrowed (after sampleCall traderStore (mintAndList 100 60 40)) Hash.zero = 4 := by
  refine ⟨supply_conserved traderStore_empty _ (by decide +kernel) ?_ ?_, by decide +kernel,
    by decide +kernel⟩
  · exact along_mintAndList (by decide +kernel) (by decide +kernel) (by decide)
  · exact along_mintAndList (by decide +kernel) (by decide +kernel) (by decide)

/-- The largest cap does not bound the supply: the class says one less than was minted. -/
theorem largest_cap_not_conserved :
    (∀ k, familyOf k ∈ assetFamilies → traderStore.get? k = none) ∧
      (collect sampleCall (Call.listed (fun _ => Hash.zero) Executor.devnet) traderStore
        (mintAndList u64Max u64Max 1)).Nodup ∧
      Along sampleCall (Call.MintFits Executor.devnet none) traderStore
        (mintAndList u64Max u64Max 1) ∧
      ¬ Conserved (after sampleCall traderStore (mintAndList u64Max u64Max 1)) := by
  refine ⟨traderStore_empty, by decide +kernel, ?_, fun h => ?_⟩
  · exact along_mintAndList (by decide +kernel) (by decide +kernel) (by decide)
  · have hSupply := h.supply Hash.zero
    revert hSupply
    decide +kernel

end Runs

end Polay.Execution
