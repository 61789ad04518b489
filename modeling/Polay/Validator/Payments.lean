import Polay.Execution.Settlement
import Polay.Validator.FeeAccounting
import Polay.Validator.Payouts

/-!
# Sales and rewards of matches

A sale debits the buyer and credits the seller, the treasury and the creator of the asset, one
after the other. A reward of a match credits a list of players.
-/

namespace Polay.Validator

open Lib Lib.Machine Lib.Trace Polay.Types State Execution
open Execution.Executor (creditedStore)

variable {s t : StateStore}

/-! ## Credits and the sum of all balances -/

theorem accountTokens_withAccount {x : AccountState} {a : Address} (ha : x.address = a) :
    accountTokens (withAccount s x) + balanceOf s a = accountTokens s + x.balance.toNat := by
  have hWrite := (counts_tokenFigure ⟨1, 0, 0, 0⟩).total_withAccount (s := s) ha
  simpa [accountTokens] using hWrite

theorem balanceOf_le_accountTokens (s : StateStore) (a : Address) :
    balanceOf s a ≤ accountTokens s := by
  have hLe := figureAt_le_total (tokenFigure ⟨1, 0, 0, 0⟩) s (.account a)
  rw [(counts_tokenFigure ⟨1, 0, 0, 0⟩).figureAt_account] at hLe
  simpa [accountTokens] using hLe

theorem accountTokens_congr (hBalance : ∀ a, balanceOf t a = balanceOf s a) :
    accountTokens t = accountTokens s := by
  refine Store.total_congr fun k => ?_
  have hC := counts_tokenFigure ⟨1, 0, 0, 0⟩
  cases k
  case account a => rw [hC.figureAt_account, hC.figureAt_account, hBalance]
  case delegation | unbonding | validator =>
    rw [Store.figureAt_eq_zero _ fun x => ?_, Store.figureAt_eq_zero _ fun x => ?_]
    all_goals simp [tokenFigure]
  all_goals
    rw [Store.figureAt_eq_zero _ fun x => rfl, Store.figureAt_eq_zero _ fun x => rfl]

/-- What changes the balance of one account changes the sum of all balances by as much. -/
theorem accountTokens_of_balanceOf {b : Address} {n : Nat}
    (h : ∀ a, balanceOf t a = if b = a then n else balanceOf s a) :
    accountTokens t + balanceOf s b = accountTokens s + n := by
  have hLt : n < 2 ^ 64 := by
    have hAt := h b
    rw [if_pos rfl] at hAt
    exact hAt ▸ balanceOf_lt t b
  -- The record of the account may have changed too, but only its balance counts.
  let x : AccountState := { AccountState.new b 0 with balance := UInt64.ofNat n }
  have hx : x.balance.toNat = n := by
    show (UInt64.ofNat n).toNat = n
    rw [UInt64.toNat_ofNat', Nat.mod_eq_of_lt hLt]
  have hSame : accountTokens t = accountTokens (withAccount s x) := by
    refine accountTokens_congr fun a => ?_
    rw [h, balanceOf_withAccount s (show x.address = b from rfl), hx]
    by_cases hEq : a = b
    · rw [if_pos hEq, if_pos hEq.symm]
    · rw [if_neg hEq, if_neg (Ne.symm hEq)]
  rw [hSame, accountTokens_withAccount (show x.address = b from rfl), hx]

/-- A credit for which there is room is exact. -/
theorem credit_exact {b : Address} {amount : UInt64}
    (h : ∀ a, balanceOf t a =
      if b = a then min (balanceOf s a + amount.toNat) (2 ^ 64 - 1) else balanceOf s a)
    (hFits : accountTokens s + amount.toNat < 2 ^ 64) :
    accountTokens t = accountTokens s + amount.toNat ∧
      ∀ a, balanceOf t a = balanceOf s a + if a = b then amount.toNat else 0 := by
  have hLe := balanceOf_le_accountTokens s b
  have hSum : ∀ a, balanceOf t a =
      if b = a then balanceOf s b + amount.toNat else balanceOf s a := by
    intro a
    rw [h]
    split
    · rename_i hEq
      subst hEq
      omega
    · rfl
  have hTotal := accountTokens_of_balanceOf hSum
  refine ⟨by omega, fun a => ?_⟩
  rw [hSum]
  by_cases hEq : a = b
  · rw [if_pos hEq.symm, if_pos hEq, hEq]
  · rw [if_neg (Ne.symm hEq), if_neg hEq, Nat.add_zero]

/-! ## Sales -/

/-- The fee for the treasury. A listing that was created under the same configuration gives the
creator as much. -/
def saleFee (config : ChainConfig) (price : UInt64) : UInt64 :=
  UInt64.ofNat (price.toNat * config.protocolFeeBps.toNat / 10000)

/-- The accounts after a sale: the price is taken from the buyer `x`, and the seller receives
what two fees leave of it. -/
def soldStore (s : StateStore) (x : AccountState) (seller creator : Address)
    (price fee royalty n : UInt64) : StateStore :=
  let debited := withAccount s { x with balance := x.balance - price }
  let paid := creditedStore debited seller n (saturatingSub (saturatingSub price fee) royalty)
  creditPos (creditPos paid Address.zero n fee) creator n royalty

/-- A sale that is paid, on the accounts. -/
def BuyEnd (config : ChainConfig) (buyer : Address) (id : Hash) (n : UInt64) (s : StateStore)
    (b : Bool) (t : StateStore) : Prop :=
  b = true → ∃ l x, listingOf s id = some l ∧ accountOf s buyer = some x ∧
    l.totalPrice ≤ x.balance ∧
    SameOn [.account] (soldStore s x l.seller (creatorOf s l.assetClassId) l.totalPrice
      (saleFee config l.totalPrice) l.royaltyAmount n) t

theorem buyListing_wp (config : ChainConfig) (buyer : Address) (id : Hash) (n : UInt64)
    (s : StateStore) :
    (Market.executeBuyListing config buyer id n).Wp
      (fun o t => BuyEnd config buyer id n s o.toOption.isSome t) s := by
  have hFailed : ∀ {t}, BuyEnd config buyer id n s false t := fun h => by cases h
  simp only [Market.executeBuyListing, Prog.bind_eq, wp_getListing_bind, Prog.wp_require_bind,
    Prog.wp_ensure_bind, wp_loadAccount_bind, wp_debited_bind, wp_setAccount_bind,
    wp_creditOrCreate_bind, wp_creditPos_bind]
  refine ⟨fun _ => hFailed, fun l hl => ⟨fun _ => hFailed, fun _ => ⟨fun _ => hFailed, fun _ =>
    ⟨fun _ => hFailed, fun x hx => ⟨fun _ => hFailed, fun hEnough => ?_⟩⟩⟩⟩⟩
  generalize hu : creditPos _ Address.zero n _ = u
  -- Only accounts were written before the creator is looked up.
  have hAccounts : SameOn [.assetClass] s u := by
    rw [← hu]
    refine .trans ?_ (sameOn_creditPos (by simp) _ _ _ _)
    exact (sameOn_insert (by simp [familyOf]) _ _).trans (sameOn_insert (by simp [familyOf]) _ _)
  have hCreator : creatorOf u l.assetClassId = creatorOf s l.assetClassId := by
    rw [creatorOf, classOf, hAccounts (.assetClass l.assetClassId) (by simp [familyOf]), creatorOf,
      classOf]
  refine wp_payRoyalty_bind hFailed ?_
  simp only [wp_getAssetBalance_bind, wp_setAssetBalance_bind, wp_setListing_bind]
  intro _
  refine ⟨l, x, hl, hx, hEnough, ?_⟩
  rw [hCreator, soldStore, saleFee, hu]
  exact (sameOn_insert (by simp [familyOf]) _ _).trans (sameOn_insert (by simp [familyOf]) _ _)

/-- The sum of all balances stays as it is, the buyer pays the price, and seller, treasury and
creator receive amounts that add up to it. -/
def SplitExact (buyer seller creator : Address) (price : UInt64) (s t : StateStore) : Prop :=
  accountTokens t = accountTokens s ∧
    ∃ proceeds fee royalty, proceeds + fee + royalty = price.toNat ∧
      ∀ a, balanceOf t a + (if a = buyer then price.toNat else 0) =
        balanceOf s a + (if a = seller then proceeds else 0) +
          (if a = Address.zero then fee else 0) + (if a = creator then royalty else 0)

section Split

variable {buyer seller creator : Address} {x : AccountState} {price fee royalty n : UInt64}

/-- The debit of the buyer. -/
theorem debit_exact (hx : accountOf s buyer = some x) (hEnough : price ≤ x.balance) :
    let s₁ := withAccount s { x with balance := x.balance - price }
    accountTokens s₁ + price.toNat = accountTokens s ∧
      ∀ a, balanceOf s₁ a + (if a = buyer then price.toNat else 0) = balanceOf s a := by
  have hAddress : x.address = buyer := address_of_accountOf hx
  have hRest : (x.balance - price).toNat + price.toNat = balanceOf s buyer := by
    rw [UInt64.toNat_sub_of_le _ _ hEnough, balanceOf_eq hx]
    exact Nat.sub_add_cancel (UInt64.le_iff_toNat_le.mp hEnough)
  have hTotal := accountTokens_withAccount (s := s) (a := buyer)
    (x := { x with balance := x.balance - price }) hAddress
  dsimp only at hTotal
  refine ⟨by omega, fun a => ?_⟩
  rw [balanceOf_withAccount s (x := { x with balance := x.balance - price }) hAddress]
  split
  · rename_i hEq
    rw [hEq]
    exact hRest
  · exact Nat.add_zero _

/-- A sale whose fees the price covers. -/
theorem splitExact_of_le (hx : accountOf s buyer = some x) (hEnough : price ≤ x.balance)
    (hFits : accountTokens s < 2 ^ 64) (hLe : fee.toNat + royalty.toNat ≤ price.toNat) :
    SplitExact buyer seller creator price s
      (soldStore s x seller creator price fee royalty n) := by
  obtain ⟨hTotal₁, hBalance₁⟩ := debit_exact hx hEnough
  unfold soldStore
  generalize withAccount s { x with balance := x.balance - price } = s₁ at hTotal₁ hBalance₁ ⊢
  dsimp only
  have hProceeds : (saturatingSub (saturatingSub price fee) royalty).toNat =
      price.toNat - fee.toNat - royalty.toNat := by
    rw [toNat_saturatingSub, toNat_saturatingSub]
  generalize saturatingSub (saturatingSub price fee) royalty = proceeds at hProceeds ⊢
  obtain ⟨hTotal₂, hBalance₂⟩ :=
    credit_exact (balanceOf_creditedStore s₁ seller n proceeds) (by omega)
  generalize creditedStore s₁ seller n proceeds = s₂ at hTotal₂ hBalance₂ ⊢
  obtain ⟨hTotal₃, hBalance₃⟩ :=
    credit_exact (balanceOf_creditPos s₂ Address.zero n fee) (by omega)
  generalize creditPos s₂ Address.zero n fee = s₃ at hTotal₃ hBalance₃ ⊢
  obtain ⟨hTotal₄, hBalance₄⟩ :=
    credit_exact (balanceOf_creditPos s₃ creator n royalty) (by omega)
  refine ⟨by omega, proceeds.toNat, fee.toNat, royalty.toNat, by omega, fun a => ?_⟩
  rw [hBalance₄, hBalance₃, hBalance₂, ← hBalance₁ a]
  omega

/-- A sale whose fees are the same and together more than the price: the seller receives
nothing, and the sum of all balances grows unless the bound of 64 bits cuts the credits. -/
theorem splitExact_iff_of_lt (hx : accountOf s buyer = some x) (hEnough : price ≤ x.balance)
    (hFits : accountTokens s < 2 ^ 64) (hLt : price.toNat < 2 * fee.toNat) :
    SplitExact buyer seller creator price s (soldStore s x seller creator price fee fee n) ↔
      creator = Address.zero ∧
        balanceOf s Address.zero + (if buyer = Address.zero then 0 else price.toNat) =
          2 ^ 64 - 1 := by
  obtain ⟨hTotal₁, hBalance₁⟩ := debit_exact hx hEnough
  have hBuyer : price.toNat ≤ balanceOf s buyer := by
    rw [balanceOf_eq hx]
    exact UInt64.le_iff_toNat_le.mp hEnough
  unfold soldStore
  generalize withAccount s { x with balance := x.balance - price } = s₁ at hTotal₁ hBalance₁ ⊢
  dsimp only
  have hNothing : (saturatingSub (saturatingSub price fee) fee).toNat = 0 := by
    rw [toNat_saturatingSub, toNat_saturatingSub]
    omega
  generalize saturatingSub (saturatingSub price fee) fee = proceeds at hNothing ⊢
  obtain ⟨hTotal₂, hBalance₂⟩ :=
    credit_exact (balanceOf_creditedStore s₁ seller n proceeds) (by omega)
  simp only [hNothing, ite_self, Nat.add_zero] at hTotal₂ hBalance₂
  generalize creditedStore s₁ seller n proceeds = s₂ at hTotal₂ hBalance₂ ⊢
  have hZero₂ := hBalance₂ Address.zero
  have hZero₁ := hBalance₁ Address.zero
  have hBalance₃ := balanceOf_creditPos s₂ Address.zero n fee
  have hTotal₃ := accountTokens_of_balanceOf (s := s₂) (b := Address.zero)
    (n := min (balanceOf s₂ Address.zero + fee.toNat) (2 ^ 64 - 1)) fun a => by
      rw [hBalance₃]
      split
      · rename_i hEq
        rw [← hEq]
      · rfl
  generalize creditPos s₂ Address.zero n fee = s₃ at hBalance₃ hTotal₃ ⊢
  have hBalance₄ := balanceOf_creditPos s₃ creator n fee
  have hTotal₄ := accountTokens_of_balanceOf (s := s₃) (b := creator)
    (n := min (balanceOf s₃ creator + fee.toNat) (2 ^ 64 - 1)) fun a => by
      rw [hBalance₄]
      split
      · rename_i hEq
        rw [← hEq]
      · rfl
  generalize creditPos s₃ creator n fee = s₄ at hBalance₄ hTotal₄ ⊢
  have hZeroLe := balanceOf_le_accountTokens s₂ Address.zero
  have hTreasury : balanceOf s Address.zero + (if buyer = Address.zero then 0 else price.toNat) =
      balanceOf s₂ Address.zero + price.toNat := by
    rw [hZero₂, ← hZero₁]
    by_cases hEq : buyer = Address.zero
    · rw [if_pos hEq, if_pos hEq.symm]
      rfl
    · rw [if_neg hEq, if_neg (Ne.symm hEq)]
      rfl
  rw [hTreasury]
  by_cases hCreator : creator = Address.zero
  · subst hCreator
    have hZero₃ := hBalance₃ Address.zero
    rw [if_pos rfl] at hZero₃
    constructor
    · rintro ⟨hSame, -⟩
      refine ⟨rfl, ?_⟩
      omega
    · rintro ⟨-, hFull⟩
      refine ⟨by omega, 0, price.toNat, 0, by omega, fun a => ?_⟩
      rw [hBalance₄, hBalance₃, hBalance₂, ← hBalance₁ a]
      by_cases hEq : a = Address.zero
      · subst hEq
        simp only [if_pos, ite_self]
        omega
      · simp only [if_neg hEq, if_neg (Ne.symm hEq), ite_self]
        omega
  · have hOther := hBalance₃ creator
    rw [if_neg (Ne.symm hCreator)] at hOther
    have hTwo := balanceOf_add_le (Ne.symm hCreator) s₂
    refine iff_of_false ?_ fun hEdge => hCreator hEdge.1
    rintro ⟨hSame, -⟩
    omega

end Split

/-- A listing is created: it has the rate of the configuration, and no account is touched. -/
def ListEnd (config : ChainConfig) (seller : Address) (classId : Hash) (price : UInt64)
    (s : StateStore) : Outcome ExecutionError (Hash × List Event) → StateStore → Prop
  | .ok r, t => SameOn [.account] s t ∧ ∃ l, listingOf t r.1 = some l ∧ l.seller = seller ∧
      l.assetClassId = classId ∧ l.totalPrice = price ∧ l.royaltyBps = config.protocolFeeBps
  | _, _ => True

theorem createListing_wp (sha256 : List UInt8 → Hash) (config : ChainConfig) (seller : Address)
    (classId currency : Hash) (amount pricePerUnit n : UInt64) (s : StateStore) :
    (Market.executeCreateListing sha256 config seller classId amount pricePerUnit currency n).Wp
      (ListEnd config seller classId (saturatingMul amount pricePerUnit) s) s := by
  simp only [Market.executeCreateListing, Prog.bind_eq, wp_getAssetClass_bind,
    Prog.wp_require_bind, wp_getAssetBalance_bind, Prog.wp_ensure_bind, wp_setAssetBalance_bind,
    wp_setListing_bind]
  refine ⟨fun _ => trivial, fun _ _ => ⟨fun _ => trivial, fun _ => ⟨?_, ?_⟩⟩⟩
  · exact (sameOn_insert (by simp [familyOf]) _ _).trans (sameOn_insert (by simp [familyOf]) _ _)
  · have hListing : ∀ (u : StateStore) (l : Listing),
        listingOf (withListing u l) l.id = some l := by
      intro u l
      rw [listingOf, withListing, Std.ExtDTreeMap.get?_insert_self]
      rfl
    exact ⟨_, hListing _ _, rfl, rfl, rfl, rfl⟩

/-- A successful purchase of a listing that was created under the same configuration splits the
price exactly if twice the fee is at most the price, or if the treasury is also the creator and
the bound of 64 bits leaves it just the price. -/
theorem sale_exact_iff {sha256 : List UInt8 → Hash} {config : ChainConfig}
    {seller buyer : Address} {classId currency id : Hash} {amount pricePerUnit n₀ n : UInt64}
    {created bought : List Event} {s₀ s₁ : StateStore}
    (hCreated : (Market.executeCreateListing sha256 config seller classId amount pricePerUnit
      currency n₀).run s₀ = (.ok (id, created), s₁))
    (hListing : listingOf s id = listingOf s₁ id)
    (hBought : (Market.executeBuyListing config buyer id n).run s = (.ok bought, t))
    (hFits : accountTokens s < 2 ^ 64) :
    SplitExact buyer seller (creatorOf s classId) (saturatingMul amount pricePerUnit) s t ↔
      2 * (saleFee config (saturatingMul amount pricePerUnit)).toNat ≤
          (saturatingMul amount pricePerUnit).toNat ∨
        (creatorOf s classId = Address.zero ∧
          balanceOf s Address.zero +
              (if buyer = Address.zero then 0 else (saturatingMul amount pricePerUnit).toNat) =
            2 ^ 64 - 1) := by
  have hNew := createListing_wp sha256 config seller classId currency amount pricePerUnit n₀ s₀
  unfold Prog.Wp at hNew
  rw [hCreated] at hNew
  obtain ⟨-, l, hl, rfl, rfl, hPrice, hRate⟩ := hNew
  have hEnd : BuyEnd config buyer id n s true t := by
    have hWp := buyListing_wp config buyer id n s
    unfold Prog.Wp at hWp
    rw [hBought] at hWp
    exact hWp
  obtain ⟨l', x, hl', hx, hEnough, hSame⟩ := hEnd rfl
  obtain rfl : l = l' := Option.some.inj (hl.symm.trans (hListing.symm.trans hl'))
  have hRoyalty : l.royaltyAmount = saleFee config l.totalPrice := by
    rw [Listing.royaltyAmount, hRate, saleFee]
  rw [hRoyalty] at hSame
  rw [← hPrice]
  -- Only the balances of the store after the sale matter.
  have hBalance := balanceOf_of_sameOn hSame (by simp)
  have hMoved : SplitExact buyer l.seller (creatorOf s l.assetClassId) l.totalPrice s t ↔
      SplitExact buyer l.seller (creatorOf s l.assetClassId) l.totalPrice s
        (soldStore s x l.seller (creatorOf s l.assetClassId) l.totalPrice
          (saleFee config l.totalPrice) (saleFee config l.totalPrice) n) := by
    unfold SplitExact
    simp only [accountTokens_congr hBalance, hBalance]
  rw [hMoved]
  by_cases hLe : 2 * (saleFee config l.totalPrice).toNat ≤ l.totalPrice.toNat
  · exact iff_of_true (splitExact_of_le hx hEnough hFits (by omega)) (.inl hLe)
  · rw [splitExact_iff_of_lt hx hEnough hFits (Nat.lt_of_not_le hLe)]
    exact ⟨.inr, fun h => h.resolve_left hLe⟩

/-- A unit of an asset class with a creator, for account 2 to sell to the trader. -/
def assetStore : StateStore :=
  withBalance
    (withClass traderStore
      { id := Hash.zero, name := "sword", symbol := "SWD", assetType := .nonFungible
        totalSupply := 1, maxSupply := none, creator := Address.ofByte 3, metadataUri := ""
        createdAt := 0 })
    Hash.zero (Address.ofByte 2) 1

/-- The unit is listed for 100 tokens. -/
def offer (config : ChainConfig) : Outcome ExecutionError (Hash × List Event) × StateStore :=
  (Market.executeCreateListing (fun _ => Hash.zero) config (Address.ofByte 2) Hash.zero 1 100
    Hash.zero 7).run assetStore

/-- The trader buys the unit. -/
def saleOf (config : ChainConfig) : Outcome ExecutionError (List Event) × StateStore :=
  (Market.executeBuyListing config (Address.ofByte 1) Hash.zero 8).run (offer config).2

theorem accountTokens_traderStore : accountTokens traderStore = 1000000 := by
  have hEmpty : accountTokens ∅ = 0 := Store.total_eq_zero fun k => by simp [Store.figureAt]
  have hWrite := accountTokens_withAccount (s := ∅) (a := Address.ofByte 1)
    (x := { AccountState.new (Address.ofByte 1) 0 with balance := 1000000 }) rfl
  rw [hEmpty] at hWrite
  have hNone : balanceOf ∅ (Address.ofByte 1) = 0 := by simp [balanceOf, accountOf]
  rw [hNone] at hWrite
  exact hWrite

theorem sale_exact_iff_default :
    SplitExact (Address.ofByte 1) (Address.ofByte 2) (creatorOf (offer .default).2 Hash.zero) 100
      (offer .default).2 (saleOf .default).2 := by
  have hOffer : (offer .default).1.toOption.map (·.1) = some Hash.zero := by decide +kernel
  have hSale : (saleOf .default).1.toOption.isSome = true := by decide +kernel
  obtain ⟨⟨id, created⟩, hCreated, rfl⟩ := Option.map_eq_some_iff.mp hOffer
  obtain ⟨bought, hBought⟩ := Option.isSome_iff_exists.mp hSale
  have hAssets : SameOn [.account] traderStore assetStore :=
    (sameOn_insert (by simp [familyOf]) _ _).trans (sameOn_insert (by simp [familyOf]) _ _)
  have hTokens : accountTokens (offer .default).2 < 2 ^ 64 := by
    have hWp := createListing_wp (fun _ => Hash.zero) .default (Address.ofByte 2) Hash.zero
      Hash.zero 1 100 7 assetStore
    unfold Prog.Wp at hWp
    rw [show Prog.run _ assetStore = _ from eq_ok_of_toOption hCreated] at hWp
    have hSame : SameOn [.account] traderStore (offer .default).2 := hAssets.trans hWp.1
    rw [accountTokens_congr (balanceOf_of_sameOn hSame (by simp)), accountTokens_traderStore]
    decide
  refine (sale_exact_iff (eq_ok_of_toOption hCreated) rfl (eq_ok_of_toOption hBought)
    hTokens).mpr (.inl ?_)
  decide +kernel

/-- With a fee of 60 % for the treasury and as much for the creator the trader pays 100 tokens,
and 120 are credited. -/
theorem sale_creates_tokens :
    let config := { ChainConfig.default with protocolFeeBps := 6000 }
    config.validate = .ok () ∧ (saleOf config).1.toOption.isSome = true ∧
      ¬ SplitExact (Address.ofByte 1) (Address.ofByte 2) (Address.ofByte 3) 100
        (offer config).2 (saleOf config).2 := by
  refine ⟨by decide +kernel, by decide +kernel, ?_⟩
  rintro ⟨-, proceeds, fee, royalty, hSum, hBalances⟩
  have hTreasury := hBalances Address.zero
  have hCreator := hBalances (Address.ofByte 3)
  have hCredits : balanceOf (saleOf { ChainConfig.default with protocolFeeBps := 6000 }).2
        Address.zero = 60 ∧
      balanceOf (saleOf { ChainConfig.default with protocolFeeBps := 6000 }).2
        (Address.ofByte 3) = 60 ∧
      balanceOf (offer { ChainConfig.default with protocolFeeBps := 6000 }).2
        Address.zero = 0 ∧
      balanceOf (offer { ChainConfig.default with protocolFeeBps := 6000 }).2
        (Address.ofByte 3) = 0 := by decide +kernel
  have hDistinct : Address.zero ≠ Address.ofByte 1 ∧ Address.zero ≠ Address.ofByte 2 ∧
      Address.zero ≠ Address.ofByte 3 ∧ Address.ofByte 3 ≠ Address.ofByte 1 ∧
      Address.ofByte 3 ≠ Address.ofByte 2 := by decide
  obtain ⟨h₁, h₂, h₃, h₄, h₅⟩ := hDistinct
  rw [hCredits.1, hCredits.2.2.1, if_neg h₁, if_neg h₂, if_pos rfl, if_neg h₃] at hTreasury
  rw [hCredits.2.1, hCredits.2.2.2, if_neg h₄, if_neg h₅, if_neg (Ne.symm h₃), if_pos rfl]
    at hCreator
  have hPrice : (100 : UInt64).toNat = 100 := rfl
  omega

/-! ## Rewards of matches -/

/-- Rewards that are paid stay within the pool of the match, and every player has received the
sum of its rewards, exactly if the sum of all rewards fits into 64 bits. -/
theorem rewards_within_pool_iff {signer : Address} {id : Hash} {r : MatchResult}
    {rewards : List (Address × UInt64)} {n : UInt64} {events : List Event}
    (hResult : matchResultOf s id = some r)
    (hRun : (Attestation.executeDistributeReward signer id rewards n).run s = (.ok events, t)) :
    (paidOut rewards ≤ r.rewardPool.toNat ∧
      ∀ a, balanceOf s a + payoutsTo rewards a < 2 ^ 64 →
        balanceOf t a = balanceOf s a + payoutsTo rewards a) ↔
    paidOut rewards < 2 ^ 64 := by
  have hWp := distributeReward_wp (s := s) signer id rewards n
  unfold Prog.Wp at hWp
  rw [hRun] at hWp
  obtain ⟨⟨_, _, r', -, -, hResult', -, -, -, hPool⟩, x, -, -, rfl⟩ := hWp
  obtain rfl : r = r' := Option.some.inj (hResult.symm.trans hResult')
  constructor
  · rintro ⟨hLe, -⟩
    exact Nat.lt_of_le_of_lt hLe r.rewardPool.toNat_lt
  · intro hFits
    have hTotal : (Attestation.totalRewards rewards).toNat = paidOut rewards :=
      (toNat_foldl_add _ rewards 0 (by simpa [paidOut] using hFits)).trans (Nat.zero_add _)
    refine ⟨?_, fun a hRoom => ?_⟩
    · rw [← hTotal]
      exact UInt64.le_iff_toNat_le.mp (UInt64.not_lt.mp hPool)
    · have hSettled : SameOn [.account] (rewarded n s rewards)
          (withSettlement (rewarded n s rewards)
            { x with settled := true, rewardsDistributed := rewards, settledAt := n }) :=
        sameOn_insert (by simp [familyOf]) _ _
      rw [balanceOf_of_sameOn hSettled (by simp), rewarded, balanceOf_foldl_credited]
      omega

/-- The store after the result of the sample match, whose pool is 50, was submitted. -/
def submittedStore : StateStore := after sampleCall traderStore (settleMatch.take 2)

/-- Rewards of the sample match are paid. -/
def rewardOf (rewards : List (Address × UInt64)) :
    Outcome ExecutionError (List Event) × StateStore :=
  (Attestation.executeDistributeReward (Address.ofByte 1) (Hash.ofByte 1) rewards 9).run
    submittedStore

theorem matchResultOf_submittedStore :
    matchResultOf submittedStore (Hash.ofByte 1) = some sampleMatch := by decide +kernel

/-- One player receives 20 and 30 tokens. -/
theorem rewards_within_pool_iff_twice :
    paidOut [(Address.ofByte 2, 20), (Address.ofByte 2, 30)] ≤ sampleMatch.rewardPool.toNat ∧
      balanceOf (rewardOf [(Address.ofByte 2, 20), (Address.ofByte 2, 30)]).2 (Address.ofByte 2) =
        balanceOf submittedStore (Address.ofByte 2) + 50 := by
  have hPaid : (rewardOf [(Address.ofByte 2, 20), (Address.ofByte 2, 30)]).1.toOption.isSome =
      true := by decide +kernel
  obtain ⟨events, hEvents⟩ := Option.isSome_iff_exists.mp hPaid
  have hBoth := (rewards_within_pool_iff matchResultOf_submittedStore
    (eq_ok_of_toOption hEvents)).mpr (by decide)
  have hPayouts : payoutsTo [(Address.ofByte 2, 20), (Address.ofByte 2, 30)]
      (Address.ofByte 2) = 50 := by decide
  have hRoom : balanceOf submittedStore (Address.ofByte 2) + 50 < 2 ^ 64 := by decide +kernel
  have hCredit := hBoth.2 (Address.ofByte 2)
  rw [hPayouts] at hCredit
  exact ⟨hBoth.1, hCredit hRoom⟩

/-- Two rewards of half of the range of 64 bits add up to zero. -/
theorem rewards_exceed_pool :
    sampleMatch.rewardPool = 50 ∧
      (rewardOf [(Address.ofByte 2, 9223372036854775808),
        (Address.ofByte 3, 9223372036854775808)]).1.toOption.isSome = true ∧
      balanceOf (rewardOf [(Address.ofByte 2, 9223372036854775808),
        (Address.ofByte 3, 9223372036854775808)]).2 (Address.ofByte 2) = 2 ^ 63 ∧
      balanceOf (rewardOf [(Address.ofByte 2, 9223372036854775808),
        (Address.ofByte 3, 9223372036854775808)]).2 (Address.ofByte 3) = 2 ^ 63 := by
  decide +kernel

end Polay.Validator
