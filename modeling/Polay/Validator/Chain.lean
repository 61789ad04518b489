import Polay.State.Store
import Polay.Types.Config

/-!
# Genesis and the chain state

How a store is filled from a genesis document and how a committed block is
recorded in it. The list of all registered validators, which the epoch manager
walks, is kept here as well.

The wording of an error of the hexadecimal decoder is left out.
-/

namespace Polay.Validator

open Lib Lib.Machine Lib.Bytes Polay.Types State

/-! ## Genesis documents -/

/-- An account that exists at genesis. The address is hexadecimal text. -/
structure GenesisAccount where
  address : String
  balance : UInt64
deriving DecidableEq

/-- A validator of the initial set. -/
structure GenesisValidator where
  address : String
  stake : UInt64
  commissionBps : UInt16
deriving DecidableEq

/-- An attestor registered at genesis. -/
structure GenesisAttestor where
  address : String
  gameId : String
  endpoint : String
deriving DecidableEq

/-- What a chain starts from. -/
structure Genesis where
  accounts : List GenesisAccount
  validators : List GenesisValidator
  attestors : List GenesisAttestor
  initialSupply : UInt64
deriving DecidableEq

/-- The errors of chain operations. -/
inductive ValidatorError where
  | invalidAddressHex (hexStr : String)
  | addressLength (got : Nat)
deriving DecidableEq

/-- Read a hexadecimal address. -/
def parseAddress (hexStr : String) : Except ValidatorError Address :=
  match hexDecode hexStr.toList with
  | none => .error (.invalidAddressHex hexStr)
  | some bytes =>
      match FixedBytes.ofList 32 bytes with
      | none => .error (.addressLength bytes.length)
      | some arr => .ok ⟨arr⟩

/-! ## The list of registered validators -/

section ValidatorList

variable {ε : Type}

/-- The addresses of all registered validators. -/
def loadValidatorList : Exec ε (List Address) := do
  let list ← storeGet .validatorAddresses
  return list.getD ([] : List Address)

def saveValidatorList (list : List Address) : Exec ε Unit :=
  storePut .validatorAddresses list trivial

/-- Add an address to the list unless it is there already. -/
def registerInValidatorList (addr : Address) : Exec ε Unit := do
  let list ← loadValidatorList
  Prog.when (addr ∉ list) (saveValidatorList (list ++ [addr]))

end ValidatorList

/-! ## The chain state -/

/-- The chain-level operations hold the chain configuration. -/
structure ChainState where
  chainConfig : ChainConfig

namespace ChainState

variable (cs : ChainState)

/-- The wrapping sum of the stakes of the genesis validators. -/
def genesisStake (genesis : Genesis) : UInt64 :=
  genesis.validators.foldl (fun total v => total + v.stake) 0

/-- The record of epoch 0. -/
def genesisEpoch (genesis : Genesis) (validators : List Address) : EpochInfo where
  epoch := 0
  startHeight := 0
  endHeight := saturatingSub cs.chainConfig.epochLength 1
  validatorSet := validators
  totalStaked := genesisStake genesis
  rewardsDistributed := 0

/-- The supply figures at genesis. -/
def genesisSupply (genesis : Genesis) : SupplyInfo where
  totalSupply := genesis.initialSupply
  circulatingSupply := saturatingSub genesis.initialSupply (genesisStake genesis)
  totalStaked := genesisStake genesis
  totalBurned := 0
  treasuryBalance := 0
  totalMinted := 0
  totalFeesCollected := 0

def createGenesisAccount (ga : GenesisAccount) : Exec ValidatorError Unit := do
  let addr ← Prog.ofExcept (parseAddress ga.address)
  setAccount (AccountState.withBalance addr ga.balance 0)

def createGenesisValidator (gv : GenesisValidator) : Exec ValidatorError Unit := do
  let addr ← Prog.ofExcept (parseAddress gv.address)
  setValidator { ValidatorInfo.new addr gv.commissionBps with stake := gv.stake }
  registerInValidatorList addr

def createGenesisAttestor (ga : GenesisAttestor) : Exec ValidatorError Unit := do
  let addr ← Prog.ofExcept (parseAddress ga.address)
  setAttestor
    { address := addr, gameId := ga.gameId, endpoint := ga.endpoint, metadata := "",
      status := .active, registeredAt := 0 }

/-- Create the genesis validators; the result is their addresses. -/
def createGenesisValidators : List GenesisValidator → Exec ValidatorError (List Address)
  | [] => return []
  | gv :: rest => do
      createGenesisValidator gv
      let addr ← Prog.ofExcept (parseAddress gv.address)
      let addrs ← createGenesisValidators rest
      return addr :: addrs

/-- Register the genesis validators in the list only. -/
def backfillValidators : List GenesisValidator → Exec ValidatorError (List Address)
  | [] => return []
  | gv :: rest => do
      let addr ← Prog.ofExcept (parseAddress gv.address)
      registerInValidatorList addr
      let addrs ← backfillValidators rest
      return addr :: addrs

/-- Write the active validator set of a chain whose first version did not. -/
def backfillActiveSet (genesis : Genesis) : Exec ValidatorError Unit := do
  let existingSet ← getActiveValidatorSet
  Prog.when (existingSet.getD [] = []) (do
    let addrs ← backfillValidators genesis.validators
    setActiveValidatorSet addrs
    setEpochInfo (cs.genesisEpoch genesis addrs))

/-- Fill the store from a genesis document, unless the chain has blocks already. -/
def initFromGenesis (genesis : Genesis) : Exec ValidatorError Unit := do
  let currentHeight ← getChainHeight
  if 0 < currentHeight then cs.backfillActiveSet genesis
  else
    Prog.each createGenesisAccount genesis.accounts
    let activeValidators ← createGenesisValidators genesis.validators
    setActiveValidatorSet activeValidators
    setEpochInfo (cs.genesisEpoch genesis activeValidators)
    Prog.each createGenesisAttestor genesis.attestors
    setChainHeight 0
    setLatestHash Hash.zero
    setSupplyInfo (genesisSupply genesis)

/-- Store receipts with their places in the block, counting from `idx`. -/
def recordReceipts {ε : Type} (height : UInt64) : Nat → List TransactionReceipt → Exec ε Unit
  | _, [] => return ()
  | idx, receipt :: rest => do
      setReceipt receipt
      setTxLocation receipt.txHash { blockHeight := height, txIndex := UInt32.ofNat idx }
      recordReceipts height (idx + 1) rest

/-- Record a committed block and its receipts. -/
def applyBlock {ε : Type} (block : Block) (receipts : List TransactionReceipt) :
    Exec ε Unit := do
  storeBlock block
  recordReceipts block.header.height 0 receipts
  let allEvents := receipts.flatMap TransactionReceipt.events
  Prog.when (allEvents ≠ []) (setBlockEvents block.header.height allEvents)
  setChainHeight block.height
  setLatestHash block.hash

end ChainState

end Polay.Validator
