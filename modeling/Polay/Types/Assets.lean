import Polay.Lib.Machine
import Polay.Types.Primitives

/-!
# Accounts, assets, listings and rentals

The records that hold value: accounts, asset classes, marketplace listings and
rentals, with the methods the execution layer calls on them.
-/

namespace Polay.Types

open Lib Lib.Machine

/-! ## Accounts -/

/-- The state of one account. -/
structure AccountState where
  address : Address
  nonce : UInt64
  balance : UInt64
  createdAt : UInt64
deriving DecidableEq

namespace AccountState

/-- A fresh account with the given balance. -/
def withBalance (address : Address) (balance createdAt : UInt64) : AccountState :=
  { address, nonce := 0, balance, createdAt }

/-- A fresh account with no tokens. -/
def new (address : Address) (createdAt : UInt64) : AccountState :=
  withBalance address 0 createdAt

/-- Add tokens, saturating at the largest balance. -/
def credit (a : AccountState) (amount : UInt64) : AccountState :=
  { a with balance := saturatingAdd a.balance amount }

/-- Count one more transaction; the counter wraps. -/
def incrementNonce (a : AccountState) : AccountState :=
  { a with nonce := a.nonce + 1 }

instance : Borsh AccountState :=
  Borsh.xmap (fun a => (a.address, a.nonce, a.balance, a.createdAt))
    (fun (a, n, b, c) => ⟨a, n, b, c⟩) fun _ => rfl

end AccountState

/-! ## Assets -/

inductive AssetType where
  | fungible
  | nonFungible
  | semiFungible
deriving DecidableEq

instance : Borsh AssetType :=
  Borsh.ofTag (fun | .fungible => 0 | .nonFungible => 1 | .semiFungible => 2)
    (fun t => if t = 0 then some .fungible else if t = 1 then some .nonFungible
      else if t = 2 then some .semiFungible else none)
    (by rintro ⟨⟩ <;> rfl)

/-- An asset class: a fungible token, an NFT collection or a mix. -/
structure AssetClass where
  id : Hash
  name : String
  symbol : String
  assetType : AssetType
  totalSupply : UInt64
  maxSupply : Option UInt64
  creator : Address
  metadataUri : String
  createdAt : UInt64
deriving DecidableEq

namespace AssetClass

/-- Whether `additional` units fit under the cap. -/
def canMint (c : AssetClass) (additional : UInt64) : Bool :=
  match c.maxSupply with
  | some cap => decide (saturatingAdd c.totalSupply additional ≤ cap)
  | none => true

instance : Borsh AssetClass :=
  Borsh.xmap
    (fun c => (c.id, c.name, c.symbol, c.assetType, c.totalSupply, c.maxSupply, c.creator,
      c.metadataUri, c.createdAt))
    (fun (i, n, s, t, ts, ms, c, m, ca) => ⟨i, n, s, t, ts, ms, c, m, ca⟩) fun _ => rfl

end AssetClass

/-! ## Marketplace -/

inductive ListingStatus where
  | active
  | sold
  | cancelled
deriving DecidableEq

instance : Borsh ListingStatus :=
  Borsh.ofTag (fun | .active => 0 | .sold => 1 | .cancelled => 2)
    (fun t => if t = 0 then some .active else if t = 1 then some .sold
      else if t = 2 then some .cancelled else none)
    (by rintro ⟨⟩ <;> rfl)

/-- A fixed-price offer of `amount` units of one asset class. -/
structure Listing where
  id : Hash
  seller : Address
  assetClassId : Hash
  amount : UInt64
  pricePerUnit : UInt64
  currency : Hash
  status : ListingStatus
  royaltyBps : UInt16
  createdAt : UInt64
deriving DecidableEq

namespace Listing

/-- The price of the whole listing, saturating. -/
def totalPrice (l : Listing) : UInt64 := saturatingMul l.amount l.pricePerUnit

/-- The creator's share of the price, computed in 128 bits. -/
def royaltyAmount (l : Listing) : UInt64 :=
  UInt64.ofNat (l.totalPrice.toNat * l.royaltyBps.toNat / 10000)

def isActive (l : Listing) : Bool := l.status == .active

instance : Borsh Listing :=
  Borsh.xmap
    (fun l => (l.id, l.seller, l.assetClassId, l.amount, l.pricePerUnit, l.currency, l.status,
      l.royaltyBps, l.createdAt))
    (fun (i, s, c, a, p, cu, st, r, ca) => ⟨i, s, c, a, p, cu, st, r, ca⟩) fun _ => rfl

end Listing

/-! ## Rentals -/

inductive RentalStatus where
  | listed
  | active
  | returned
  | expired
  | cancelled
deriving DecidableEq

instance : Borsh RentalStatus :=
  Borsh.ofTag
    (fun | .listed => 0 | .active => 1 | .returned => 2 | .expired => 3 | .cancelled => 4)
    (fun t => if t = 0 then some .listed else if t = 1 then some .active
      else if t = 2 then some .returned else if t = 3 then some .expired
      else if t = 4 then some .cancelled else none)
    (by rintro ⟨⟩ <;> rfl)

/-- An asset offered for rent, and the running rental once someone took it. -/
structure Rental where
  rentalId : Hash
  owner : Address
  renter : Option Address
  assetClassId : Hash
  assetId : Hash
  pricePerBlock : UInt64
  deposit : UInt64
  minDuration : UInt64
  maxDuration : UInt64
  startHeight : Option UInt64
  endHeight : Option UInt64
  status : RentalStatus
  createdAt : UInt64
deriving DecidableEq

instance : Borsh Rental :=
  Borsh.xmap
    (fun r => (r.rentalId, r.owner, r.renter, r.assetClassId, r.assetId, r.pricePerBlock,
      r.deposit, r.minDuration, r.maxDuration, r.startHeight, r.endHeight, r.status,
      r.createdAt))
    (fun (i, o, re, c, a, p, d, mi, ma, s, e, st, ca) =>
      ⟨i, o, re, c, a, p, d, mi, ma, s, e, st, ca⟩) fun _ => rfl

end Polay.Types
