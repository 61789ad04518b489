import Polay.Execution.Gas
import Polay.Execution.Modules.Community
import Polay.Execution.Modules.Staking

/-!
# The executor

A transaction first pays its fee and counts the signer's nonce, then its action
is dispatched to a handler. Nothing is rolled back: a failed action keeps the
fee stage, a panicking one keeps every write it made. A block first pays out
matured unbondings, then executes its transactions one after another under a
gas limit, each with its panics caught.
-/

namespace Polay.Execution

open Lib Lib.Machine Lib.Bytes Polay.Types State

/-- An executor holds a configuration whose fee split does not exceed the fee:
the constructor of the source panics on any other. -/
structure Executor where
  chainConfig : ChainConfig
  feeSplit : chainConfig.feeDistribution.burnBps.toNat
    + chainConfig.feeDistribution.treasuryBps.toNat ≤ 10000

/-- Build an executor; `none` is the panic on a fee split above the fee. -/
def Executor.new (chainConfig : ChainConfig) : Option Executor :=
  if h : chainConfig.feeDistribution.burnBps.toNat
      + chainConfig.feeDistribution.treasuryBps.toNat ≤ 10000 then some ⟨chainConfig, h⟩
  else none

theorem Executor.new_chainConfig (ex : Executor) : Executor.new ex.chainConfig = some ex :=
  dif_pos ex.feeSplit

/-- The executor of the development network. -/
def Executor.devnet : Executor := ⟨ChainConfig.default, by decide⟩

/-- What executing a transaction returns. -/
structure ExecutionResult where
  receipt : TransactionReceipt
  stateChanges : List StateChange

/-- The treasury address of the configuration; the zero address if the text is
not the hexadecimal form of an address. -/
def parseTreasuryAddress (hex : String) : Address :=
  let bytes := (hexDecode hex.toList).getD (List.replicate 32 0)
  match FixedBytes.ofList 32 bytes with
  | some arr => ⟨arr⟩
  | none => Address.zero

namespace Executor

variable (sha256 : List UInt8 → Hash) (ex : Executor)

/-- The gas of a transaction under the executor's configuration. -/
def estimateGas (tx : Transaction) : UInt64 :=
  GasSchedule.totalGas tx ex.chainConfig.baseGas ex.chainConfig.gasPerByte

/-- The fee of a transaction under the executor's configuration. -/
def actualFee (tx : Transaction) : UInt64 :=
  GasSchedule.fee (ex.estimateGas tx) ex.chainConfig.minGasPrice

/-! ## The fee stage -/

/-- Who pays: the sponsor if there is one, otherwise the signer. -/
def feePayer (tx : SignedTransaction) : Address := tx.transaction.sponsor.getD tx.signer

/-- Debit the payer and count the signer's nonce. -/
def chargeFee (signer payer : Address) (fee : UInt64) : Handler (List StateChange) := do
  let signerAccount ← loadAccount signer
  if payer = signer then
    let signerAccount ← debited signerAccount fee
    setAccount signerAccount.incrementNonce
    return [.feeDeducted signer fee, .nonceIncremented signer]
  else
    let sponsorAccount ← loadAccount payer
    let sponsorAccount ← debited sponsorAccount fee
    setAccount sponsorAccount
    setAccount signerAccount.incrementNonce
    return [.feeDeducted payer fee, .nonceIncremented signer]

/-- The share of a fee given in basis points, computed in 128 bits. -/
def share (fee : UInt64) (bps : UInt16) : UInt64 := UInt64.ofNat (fee.toNat * bps.toNat / 10000)

/-- The supply figures after a fee was collected and split. -/
def supplyAfterFee (supply : SupplyInfo) (fee burnAmount treasuryAmount : UInt64) : SupplyInfo :=
  SupplyInfo.recomputeCirculating
    { supply with
      totalFeesCollected := saturatingAdd supply.totalFeesCollected fee
      totalBurned := saturatingAdd supply.totalBurned burnAmount
      totalSupply := saturatingSub supply.totalSupply burnAmount
      treasuryBalance := saturatingAdd supply.treasuryBalance treasuryAmount }

/-- Split a collected fee between the treasury and the proposer; the rest is burned. -/
def distributeFee (fee : UInt64) (blockProposer : Address) : Handler Unit := do
  let fd := ex.chainConfig.feeDistribution
  let burnAmount := share fee fd.burnBps
  let treasuryAmount := share fee fd.treasuryBps
  let validatorAmount := saturatingSub (saturatingSub fee burnAmount) treasuryAmount
  Prog.when (0 < treasuryAmount)
    (creditOrCreate (parseTreasuryAddress ex.chainConfig.treasuryAddress) 0 treasuryAmount)
  Prog.when (0 < validatorAmount) (creditOrCreate blockProposer 0 validatorAmount)
  let supply ← getSupplyInfo
  setSupplyInfo (supplyAfterFee (supply.getD SupplyInfo.default) fee burnAmount treasuryAmount)

/-- Everything that happens before an action is dispatched. -/
def collectFee (tx : SignedTransaction) (blockProposer : Address) :
    Handler (List StateChange) := do
  let fee := ex.actualFee tx.transaction
  Prog.ensure (¬ tx.transaction.maxFee < fee) .feeTooLow
  let changes ← chargeFee tx.signer (feePayer tx) fee
  Prog.when (0 < fee) (ex.distributeFee fee blockProposer)
  return changes

/-! ## Dispatch -/

/-- Run the handler of an action. -/
def dispatchAction (action : TransactionAction) (signer : Address)
    (timestamp blockHeight : UInt64) : Handler (List Event × List StateChange) :=
  match action with
  | .transfer toAddr amount => do
      let events ← Transfer.executeTransfer signer toAddr amount timestamp
      return (events, [.balanceChanged signer (-(amount.toNat : Int)),
        .balanceChanged toAddr amount.toNat])
  | .createAssetClass name symbol assetType maxSupply metadataUri => do
      let (id, events) ← Assets.executeCreateAssetClass sha256 signer name symbol assetType
        maxSupply metadataUri timestamp
      return (events, [.assetCreated id])
  | .mintAsset assetClassId toAddr amount _ => do
      let events ← Assets.executeMintAsset signer assetClassId toAddr amount
      return (events, [.assetMinted assetClassId toAddr amount])
  | .transferAsset assetClassId toAddr amount => do
      let events ← Assets.executeTransferAsset signer assetClassId toAddr amount
      return (events, [.assetTransferred assetClassId signer toAddr amount])
  | .burnAsset assetClassId amount => do
      let events ← Assets.executeBurnAsset signer assetClassId amount
      return (events, [.assetBurned assetClassId signer amount])
  | .createListing assetClassId amount pricePerUnit currency => do
      let (id, events) ← Market.executeCreateListing sha256 ex.chainConfig signer assetClassId
        amount pricePerUnit currency timestamp
      return (events, [.listingCreated id])
  | .cancelListing listingId => do
      let events ← Market.executeCancelListing signer listingId
      return (events, [.listingCancelled listingId])
  | .buyListing listingId => do
      let events ← Market.executeBuyListing ex.chainConfig signer listingId timestamp
      return (events, [.listingSold listingId])
  | .createProfile username displayName metadata => do
      let events ← Identity.executeCreateProfile signer username displayName metadata timestamp
      return (events, [.profileCreated signer])
  | .addAchievement player achievementId name metadata => do
      let events ← Identity.executeAddAchievement signer player achievementId name metadata
        timestamp
      return (events, [.achievementAwarded player achievementId])
  | .updateReputation player delta _ => do
      let events ← Identity.executeUpdateReputation signer player delta timestamp
      return (events, [.reputationChanged player delta])
  | .registerValidator commissionBps => do
      let events ← Staking.executeRegisterValidator ex.chainConfig signer commissionBps
      return (events, [.validatorRegistered signer])
  | .delegateStake validator amount => do
      let events ← Staking.executeDelegateStake ex.chainConfig signer validator amount
        blockHeight
      return (events, [.stakeDelegated signer validator amount])
  | .undelegateStake validator amount => do
      let events ← Staking.executeUndelegateStake ex.chainConfig signer validator amount
        blockHeight
      return (events, [.stakeUndelegated signer validator amount])
  | .registerAttestor gameId endpoint metadata => do
      let events ← Attestation.executeRegisterAttestor signer gameId endpoint metadata timestamp
      return (events, [.attestorRegistered signer])
  | .submitMatchResult matchResult => do
      let events ← Attestation.executeSubmitMatchResult ex.chainConfig signer matchResult
        timestamp
      return (events, [.matchResultSubmitted matchResult.matchId])
  | .distributeReward matchId rewards => do
      let events ← Attestation.executeDistributeReward signer matchId rewards timestamp
      return (events, [.rewardsDistributed matchId])
  | .submitProposal action title description deposit => do
      let (id, events) ← Governance.executeSubmitProposal sha256 ex.chainConfig signer action
        title description deposit blockHeight
      return (events, [.proposalSubmitted id])
  | .voteProposal proposalId option => do
      let events ← Governance.executeVoteProposal signer proposalId option blockHeight
      return (events, [.proposalVoted proposalId signer])
  | .executeProposal proposalId => do
      let events ← Governance.executeExecuteProposal ex.chainConfig proposalId blockHeight
      return (events, [.proposalExecuted proposalId])
  | .createSession sessionPubkey permissions expiresAt spendingLimit => do
      let events ← Sessions.executeCreateSession sha256 signer sessionPubkey permissions
        expiresAt spendingLimit blockHeight
      return (events, [.sessionCreated signer (Sessions.sessionAddressOf sha256 sessionPubkey)])
  | .revokeSession sessionAddress => do
      let events ← Sessions.executeRevokeSession signer sessionAddress
      return (events, [.sessionRevoked signer sessionAddress])
  | .listForRent assetClassId assetId pricePerBlock deposit minDuration maxDuration => do
      let (_, events) ← Rentals.executeListForRent sha256 signer assetClassId assetId
        pricePerBlock deposit minDuration maxDuration timestamp
      return (events, [])
  | .rentAsset rentalId duration => do
      let events ← Rentals.executeRentAsset signer rentalId duration blockHeight
      return (events, [])
  | .returnRental rentalId => do
      let events ← Rentals.executeReturnRental signer rentalId blockHeight
      return (events, [])
  | .claimExpiredRental rentalId => do
      let events ← Rentals.executeClaimExpiredRental rentalId blockHeight
      return (events, [])
  | .cancelRentalListing rentalId => do
      let events ← Rentals.executeCancelRentalListing signer rentalId
      return (events, [])
  | .createGuild name description maxMembers => do
      let (_, events) ← Guilds.executeCreateGuild sha256 signer name description maxMembers
        timestamp
      return (events, [])
  | .joinGuild guildId => do
      let events ← Guilds.executeJoinGuild signer guildId blockHeight
      return (events, [])
  | .leaveGuild guildId => do
      let events ← Guilds.executeLeaveGuild signer guildId
      return (events, [])
  | .guildDeposit guildId amount => do
      let events ← Guilds.executeGuildDeposit signer guildId amount
      return (events, [])
  | .guildWithdraw guildId amount => do
      let events ← Guilds.executeGuildWithdraw signer guildId amount
      return (events, [])
  | .guildPromote guildId member role => do
      let events ← Guilds.executeGuildPromote signer guildId member role
      return (events, [])
  | .guildKick guildId member => do
      let events ← Guilds.executeGuildKick signer guildId member
      return (events, [])
  | .createTournament name gameId entryFee maxParticipants minParticipants startHeight
      prizeDistribution => do
      let (_, events) ← Tournaments.executeCreateTournament sha256 signer name gameId entryFee
        maxParticipants minParticipants startHeight prizeDistribution timestamp
      return (events, [])
  | .joinTournament tournamentId => do
      let events ← Tournaments.executeJoinTournament signer tournamentId
      return (events, [])
  | .startTournament tournamentId => do
      let events ← Tournaments.executeStartTournament tournamentId blockHeight
      return (events, [])
  | .reportTournamentResults tournamentId rankings => do
      let events ← Tournaments.executeReportTournamentResults signer tournamentId rankings
        blockHeight
      return (events, [])
  | .claimTournamentPrize tournamentId => do
      let events ← Tournaments.executeClaimTournamentPrize signer tournamentId
      return (events, [])
  | .cancelTournament tournamentId => do
      let events ← Tournaments.executeCancelTournament signer tournamentId
      return (events, [])

/-! ## Transactions -/

/-- Count a fee against a session grant. The counter wraps. -/
def spendGrant (signer sessionAddr : Address) (fee : UInt64) :
    Option SessionGrant → Handler (List StateChange)
  | some grant => do
      setSession { grant with amountSpent := grant.amountSpent + fee }
      return [.sessionSpendingUpdated signer sessionAddr (grant.amountSpent + fee)]
  | none => return []

/-- Count a fee against the session key that signed, if it has a grant. -/
def spendSession (signer : Address) (session : Option Address) (fee : UInt64) :
    Handler (List StateChange) :=
  match session with
  | some sessionAddr => do
      let grant ← getSession signer sessionAddr
      spendGrant signer sessionAddr fee grant
  | none => return []

/-- The event that records a sponsored fee. -/
def sponsorEvents (tx : SignedTransaction) (fee : UInt64) : List Event :=
  if tx.transaction.sponsor.isSome then [Event.gasSponsored (feePayer tx) tx.signer fee] else []

/-- Execute one transaction. The fee stage is kept whatever the action does. -/
def executeTransaction (tx : SignedTransaction) (blockHeight : UInt64)
    (blockProposer : Address) : Handler ExecutionResult := do
  let gasUsed := ex.estimateGas tx.transaction
  let fee := ex.actualFee tx.transaction
  let stateChanges ← ex.collectFee tx blockProposer
  let result ← (ex.dispatchAction sha256 tx.transaction.action tx.signer
    tx.transaction.timestamp blockHeight).attempt
  match result with
  | .ok (events, actionChanges) =>
      let sessionChanges ← spendSession tx.signer tx.transaction.session fee
      return {
        receipt := TransactionReceipt.succeeded tx.txHash blockHeight fee gasUsed (feePayer tx)
          (events ++ sponsorEvents tx fee)
        stateChanges := stateChanges ++ actionChanges ++ sessionChanges }
  | .error e =>
      return {
        receipt := TransactionReceipt.failure tx.txHash blockHeight fee gasUsed (feePayer tx)
          e.text
        stateChanges }

/-- Execute one transaction with its panics caught. -/
def executeTransactionSafe (tx : SignedTransaction) (blockHeight : UInt64)
    (blockProposer : Address) : Handler ExecutionResult := do
  let outcome ← (ex.executeTransaction sha256 tx blockHeight blockProposer).reify
  match outcome with
  | .ok result => return result
  | .err e => .fail e
  | .panic => .fail (.custom "transaction execution panicked")

/-! ## Blocks -/

/-- The receipt of a transaction that was skipped or rejected. -/
def rejection (tx : SignedTransaction) (height : UInt64) (error : String) : TransactionReceipt :=
  TransactionReceipt.failure tx.txHash height 0 0 (feePayer tx) error

/-- One turn of the block loop: the gas counter and the receipt. -/
def executeNext (height : UInt64) (blockProposer : Address) (cumulativeGas : UInt64)
    (tx : SignedTransaction) : Handler (UInt64 × TransactionReceipt) :=
  if ex.chainConfig.maxBlockGas < saturatingAdd cumulativeGas (ex.estimateGas tx.transaction) then
    return (cumulativeGas, rejection tx height "block gas limit exceeded")
  else do
    let result ← (ex.executeTransactionSafe sha256 tx height blockProposer).attempt
    match result with
    | .ok result =>
        return (saturatingAdd cumulativeGas result.receipt.gasUsed, result.receipt)
    | .error e => return (cumulativeGas, rejection tx height e.text)

/-- The block loop. -/
def executeAll (height : UInt64) (blockProposer : Address) :
    UInt64 → List SignedTransaction → Handler (List TransactionReceipt)
  | _, [] => return []
  | cumulativeGas, tx :: rest => do
      let (cumulativeGas, receipt) ←
        ex.executeNext sha256 height blockProposer cumulativeGas tx
      let receipts ← executeAll height blockProposer cumulativeGas rest
      return receipt :: receipts

/-- Execute all transactions of a block in order. -/
def executeBlock (transactions : List SignedTransaction) (height : UInt64)
    (blockProposer : Address) : Handler (List TransactionReceipt) := do
  let _ : Except ExecutionError (List Event) ← (Staking.processMatureUnbondings height).attempt
  ex.executeAll sha256 height blockProposer 0 transactions

/-! ## Block reward -/

/-- The supply figures after a block reward was minted. -/
def supplyAfterReward (supply : SupplyInfo) (reward : UInt64) : SupplyInfo :=
  SupplyInfo.recomputeCirculating
    { supply with
      totalSupply := saturatingAdd supply.totalSupply reward
      totalMinted := saturatingAdd supply.totalMinted reward }

/-- Count the reward in the supply figures, if there are any. -/
def mintSupply (reward : UInt64) : Handler Unit := do
  let supply ← getSupplyInfo
  match supply with
  | some supply => setSupplyInfo (supplyAfterReward supply reward)
  | none => return ()

/-- Count a block for its proposer, if it is a validator. -/
def countBlock (blockProposer : Address) : Handler Unit := do
  let validator ← getValidator blockProposer
  match validator with
  | some vi => setValidator { vi with blocksProduced := saturatingAdd vi.blocksProduced 1 }
  | none => return ()

/-- Mint the block reward to the proposer and count the block for it. -/
def applyBlockReward (blockProposer : Address) : Handler Unit :=
  let reward := ex.chainConfig.blockReward
  if reward = 0 ∨ blockProposer = Address.zero then return ()
  else do
    creditOrCreate blockProposer 0 reward
    mintSupply reward
    countBlock blockProposer

end Executor

end Polay.Execution
