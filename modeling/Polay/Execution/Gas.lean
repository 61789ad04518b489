import Polay.Types.Transaction

/-!
# Gas metering

The gas of a transaction is a base cost, a fixed cost per kind of action and a
cost per serialized byte. The sum is computed in wrapping 64-bit arithmetic and
the fee is the saturating product with the gas price.
-/

namespace Polay.Execution.GasSchedule

open Lib Lib.Machine Polay.Types

/-- The cost of an action on top of the base cost. -/
def actionGas : TransactionAction → UInt64
  | .transfer .. => 5000
  | .createAssetClass .. => 50000
  | .mintAsset .. => 30000
  | .transferAsset .. => 10000
  | .burnAsset .. => 10000
  | .createListing .. => 40000
  | .cancelListing .. => 20000
  | .buyListing .. => 60000
  | .createProfile .. => 30000
  | .addAchievement .. => 20000
  | .updateReputation .. => 15000
  | .registerValidator .. => 100000
  | .delegateStake .. => 30000
  | .undelegateStake .. => 30000
  | .registerAttestor .. => 50000
  | .submitMatchResult .. => 80000
  | .distributeReward _ rewards => 40000 + UInt64.ofNat rewards.length * 5000
  | .submitProposal .. => 100000
  | .voteProposal .. => 30000
  | .executeProposal .. => 50000
  | .createSession .. => 50000
  | .revokeSession .. => 20000
  | .listForRent .. => 30000
  | .rentAsset .. => 40000
  | .returnRental .. => 25000
  | .claimExpiredRental .. => 25000
  | .cancelRentalListing .. => 20000
  | .createGuild .. => 50000
  | .joinGuild .. => 20000
  | .leaveGuild .. => 20000
  | .guildDeposit .. => 25000
  | .guildWithdraw .. => 25000
  | .guildPromote .. => 15000
  | .guildKick .. => 20000
  | .createTournament .. => 50000
  | .joinTournament .. => 25000
  | .startTournament .. => 30000
  | .reportTournamentResults _ rankings => 40000 + UInt64.ofNat rankings.length * 5000
  | .claimTournamentPrize .. => 25000
  | .cancelTournament .. => 30000

/-- The gas of a transaction. One that does not serialize counts as empty. -/
def totalGas (tx : Transaction) (baseGas gasPerByte : UInt64) : UInt64 :=
  let txSize := match Borsh.toVec tx with
    | some bytes => UInt64.ofNat bytes.length
    | none => 0
  baseGas + actionGas tx.action + txSize * gasPerByte

def fee (gas gasPrice : UInt64) : UInt64 := saturatingMul gas gasPrice

end Polay.Execution.GasSchedule
