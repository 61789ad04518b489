import Polay.Execution.Error

/-!
# Transfers, assets, marketplace and rentals

The handlers of the actions that move value: native transfers, asset classes
and balances, listings and rentals. Every handler is a program over the store,
in the order of the source's reads, checks and writes. Identifiers of new
records are hashes, so the hash function is a parameter.
-/

namespace Polay.Execution

open Lib Lib.Machine Lib.Bytes Polay.Types State

/-- The little-endian bytes of a 64-bit word. -/
def toLeBytes (n : UInt64) : List UInt8 := leBytes 8 n.toNat

/-! ## Transfers -/

namespace Transfer

def executeTransfer (signer toAddr : Address) (amount timestamp : UInt64) :
    Handler (List Event) := do
  let sender ← loadAccount signer
  let sender ← debited sender amount
  setAccount sender
  creditOrCreate toAddr timestamp amount
  return [Event.transfer signer toAddr amount]

end Transfer

/-! ## Assets -/

namespace Assets

variable (sha256 : List UInt8 → Hash)

def assetClassIdOf (signer : Address) (name : String) (timestamp : UInt64) : Hash :=
  sha256 (signer.data ++ Borsh.utf8 name ++ toLeBytes timestamp)

def executeCreateAssetClass (signer : Address) (name symbol : String) (assetType : AssetType)
    (maxSupply : Option UInt64) (metadataUri : String) (timestamp : UInt64) :
    Handler (Hash × List Event) := do
  let assetClassId := assetClassIdOf sha256 signer name timestamp
  let existing ← getAssetClass assetClassId
  Prog.ensure (existing.isNone) .assetClassAlreadyExists
  setAssetClass
    { id := assetClassId, name, symbol, assetType, totalSupply := 0, maxSupply,
      creator := signer, metadataUri, createdAt := timestamp }
  return (assetClassId, [Event.assetClassCreated assetClassId signer name])

def executeMintAsset (signer : Address) (assetClassId : Hash) (toAddr : Address)
    (amount : UInt64) : Handler (List Event) := do
  let assetClass ← getAssetClass assetClassId
  let assetClass ← Prog.require assetClass .assetClassNotFound
  Prog.ensure (assetClass.creator = signer) .unauthorized
  Prog.ensure (assetClass.canMint amount)
    (.maxSupplyExceeded (assetClass.maxSupply.getD u64Max) assetClass.totalSupply amount)
  setAssetClass { assetClass with totalSupply := saturatingAdd assetClass.totalSupply amount }
  let currentBalance ← getAssetBalance assetClassId toAddr
  setAssetBalance assetClassId toAddr (saturatingAdd currentBalance amount)
  return [Event.mintAsset assetClassId toAddr amount]

def executeTransferAsset (signer : Address) (assetClassId : Hash) (toAddr : Address)
    (amount : UInt64) : Handler (List Event) := do
  let assetClass ← getAssetClass assetClassId
  Prog.ensure (assetClass.isSome) .assetClassNotFound
  let senderBalance ← getAssetBalance assetClassId signer
  Prog.ensure (¬ senderBalance < amount) (.insufficientBalance amount senderBalance)
  setAssetBalance assetClassId signer (senderBalance - amount)
  let receiverBalance ← getAssetBalance assetClassId toAddr
  setAssetBalance assetClassId toAddr (saturatingAdd receiverBalance amount)
  return [Event.transferAsset assetClassId signer toAddr amount]

def executeBurnAsset (signer : Address) (assetClassId : Hash) (amount : UInt64) :
    Handler (List Event) := do
  let assetClass ← getAssetClass assetClassId
  let assetClass ← Prog.require assetClass .assetClassNotFound
  let senderBalance ← getAssetBalance assetClassId signer
  Prog.ensure (¬ senderBalance < amount) (.insufficientBalance amount senderBalance)
  setAssetBalance assetClassId signer (senderBalance - amount)
  setAssetClass { assetClass with totalSupply := saturatingSub assetClass.totalSupply amount }
  return [Event.burnAsset assetClassId signer amount]

end Assets

/-! ## Marketplace -/

namespace Market

variable (sha256 : List UInt8 → Hash) (config : ChainConfig)

/-- List assets for sale; they are held in escrow by the listing. -/
def executeCreateListing (signer : Address) (assetClassId : Hash)
    (amount pricePerUnit : UInt64) (currency : Hash) (timestamp : UInt64) :
    Handler (Hash × List Event) := do
  let assetClass ← getAssetClass assetClassId
  let _ ← Prog.require assetClass .assetClassNotFound
  let sellerBalance ← getAssetBalance assetClassId signer
  Prog.ensure (¬ sellerBalance < amount) (.insufficientBalance amount sellerBalance)
  setAssetBalance assetClassId signer (sellerBalance - amount)
  let listingId := sha256 (signer.data ++ assetClassId.data ++ toLeBytes amount
    ++ toLeBytes pricePerUnit ++ toLeBytes timestamp)
  setListing
    { id := listingId, seller := signer, assetClassId, amount, pricePerUnit, currency,
      status := .active, royaltyBps := config.protocolFeeBps, createdAt := timestamp }
  return (listingId, [Event.listingCreated listingId signer assetClassId amount pricePerUnit])

def executeCancelListing (signer : Address) (listingId : Hash) : Handler (List Event) := do
  let listing ← getListing listingId
  let listing ← Prog.require listing .listingNotFound
  Prog.ensure (listing.isActive) .listingNotActive
  Prog.ensure (listing.seller = signer) .listingOwnerMismatch
  let sellerBalance ← getAssetBalance listing.assetClassId signer
  setAssetBalance listing.assetClassId signer (saturatingAdd sellerBalance listing.amount)
  setListing { listing with status := .cancelled }
  return [Event.listingCancelled listingId signer]

/-- Pay the royalty of a sale to the creator of the asset class. -/
def payRoyalty (assetClassId : Hash) (royalty timestamp : UInt64) : Handler Unit := do
  let assetClass ← getAssetClass assetClassId
  let assetClass ← Prog.require assetClass .assetClassNotFound
  creditOrCreate assetClass.creator timestamp royalty

/-- Buy a whole listing: the price is split between seller, treasury and creator. -/
def executeBuyListing (buyer : Address) (listingId : Hash) (timestamp : UInt64) :
    Handler (List Event) := do
  let listing ← getListing listingId
  let listing ← Prog.require listing .listingNotFound
  Prog.ensure (listing.isActive) .listingNotActive
  Prog.ensure (listing.seller ≠ buyer) .cannotBuyOwnListing
  let totalPrice := listing.totalPrice
  let protocolFee :=
    UInt64.ofNat (totalPrice.toNat * config.protocolFeeBps.toNat / 10000)
  let royalty := listing.royaltyAmount
  let sellerProceeds := saturatingSub (saturatingSub totalPrice protocolFee) royalty
  let buyerAccount ← loadAccount buyer
  let buyerAccount ← debited buyerAccount totalPrice
  setAccount buyerAccount
  creditOrCreate listing.seller timestamp sellerProceeds
  Prog.when (0 < protocolFee) (creditOrCreate Address.zero timestamp protocolFee)
  Prog.when (0 < royalty) (payRoyalty listing.assetClassId royalty timestamp)
  let buyerAssetBalance ← getAssetBalance listing.assetClassId buyer
  setAssetBalance listing.assetClassId buyer (saturatingAdd buyerAssetBalance listing.amount)
  setListing { listing with status := .sold }
  return [Event.listingSold listingId buyer listing.seller]

end Market

/-! ## Rentals -/

namespace Rentals

variable (sha256 : List UInt8 → Hash)

def executeListForRent (signer : Address) (assetClassId assetId : Hash)
    (pricePerBlock deposit minDuration maxDuration timestamp : UInt64) :
    Handler (Hash × List Event) := do
  let assetClass ← getAssetClass assetClassId
  let _ ← Prog.require assetClass .assetClassNotFound
  let balance ← getAssetBalance assetClassId signer
  Prog.ensure (balance ≠ 0) .unauthorized
  let rentalId := sha256 (signer.data ++ assetId.data ++ toLeBytes timestamp)
  setRental
    { rentalId, owner := signer, renter := none, assetClassId, assetId, pricePerBlock, deposit,
      minDuration, maxDuration, startHeight := none, endHeight := none, status := .listed,
      createdAt := timestamp }
  return (rentalId, [Event.rentalListed signer rentalId assetId])

/-- Rent a listed asset: the price goes to the owner, the deposit is held. -/
def executeRentAsset (signer : Address) (rentalId : Hash) (duration blockHeight : UInt64) :
    Handler (List Event) := do
  let rental ← getRental rentalId
  let rental ← Prog.require rental .rentalNotFound
  Prog.ensure (rental.status = .listed) .rentalNotListed
  let minDuration := rental.minDuration
  let maxDuration := rental.maxDuration
  Prog.ensure (¬ duration < minDuration)
    (.invalidRentalDuration s!"duration {duration} is below minimum {minDuration}")
  Prog.ensure (¬ maxDuration < duration)
    (.invalidRentalDuration s!"duration {duration} exceeds maximum {maxDuration}")
  let rentalCost := saturatingMul rental.pricePerBlock duration
  let totalCost := saturatingAdd rentalCost rental.deposit
  let renterAccount ← loadAccount signer
  let renterAccount ← debited renterAccount totalCost
  setAccount renterAccount
  creditOrCreate rental.owner 0 rentalCost
  setRental
    { rental with
      renter := some signer
      startHeight := some blockHeight
      endHeight := some (saturatingAdd blockHeight duration)
      status := .active }
  return [Event.assetRented signer rentalId duration]

/-- Take an amount off an account, saturating at zero. -/
def reclaim (owner : Address) (amount : UInt64) : Handler Unit := do
  let account ← getAccountOrNew owner 0
  setAccount { account with balance := saturatingSub account.balance amount }

/-- Return a rental early: unused blocks and the deposit go back to the renter. -/
def executeReturnRental (signer : Address) (rentalId : Hash) (blockHeight : UInt64) :
    Handler (List Event) := do
  let rental ← getRental rentalId
  let rental ← Prog.require rental .rentalNotFound
  Prog.ensure (rental.status = .active) .rentalNotActive
  let renterAddr ← Prog.require rental.renter .rentalNotActive
  Prog.ensure (signer = renterAddr) .rentalRenterMismatch
  let endHeight := rental.endHeight.getD blockHeight
  let remainingBlocks := saturatingSub endHeight blockHeight
  let rentalRefund := saturatingMul remainingBlocks rental.pricePerBlock
  let totalRefund := saturatingAdd rentalRefund rental.deposit
  creditOrCreate signer 0 totalRefund
  Prog.when (0 < rentalRefund) (reclaim rental.owner rentalRefund)
  setRental { rental with status := .returned }
  return [Event.rentalReturned signer rentalId]

/-- Give the deposit of an expired rental back to its renter, if there is one. -/
def refundDeposit (rental : Rental) : Handler Unit :=
  match rental.renter with
  | some renterAddr =>
      Prog.when (0 < rental.deposit) (creditOrCreate renterAddr 0 rental.deposit)
  | none => return ()

def executeClaimExpiredRental (rentalId : Hash) (blockHeight : UInt64) :
    Handler (List Event) := do
  let rental ← getRental rentalId
  let rental ← Prog.require rental .rentalNotFound
  Prog.ensure (rental.status = .active) .rentalNotActive
  let endHeight := rental.endHeight.getD 0
  Prog.ensure (¬ blockHeight < endHeight) .rentalNotExpired
  refundDeposit rental
  setRental { rental with status := .expired }
  return [Event.rentalExpired rentalId]

def executeCancelRentalListing (signer : Address) (rentalId : Hash) : Handler (List Event) := do
  let rental ← getRental rentalId
  let rental ← Prog.require rental .rentalNotFound
  Prog.ensure (rental.status = .listed) .rentalNotListed
  Prog.ensure (rental.owner = signer) .rentalOwnerMismatch
  setRental { rental with status := .cancelled }
  return [Event.rentalCancelled signer rentalId]

end Rentals

end Polay.Execution
