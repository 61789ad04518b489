import Polay.Types.Staking

/-!
# Chain configuration

The configuration fields that the modelled components read, with the values the
development network starts from. The word size of the source's platform is 64
bits.
-/

namespace Polay.Types

open Lib

/-- The chain-wide parameters. -/
structure ChainConfig where
  chainId : String
  blockTimeMs : UInt64
  maxBlockTransactions : UInt64
  maxTransactionSizeBytes : UInt64
  minStake : UInt64
  maxValidators : UInt64
  unbondingPeriodBlocks : UInt64
  slashFractionDowntimeBps : UInt16
  slashFractionDoubleSignBps : UInt16
  protocolFeeBps : UInt16
  maxCommissionBps : UInt16
  epochLength : UInt64
  quorumThresholdBps : UInt16
  attestationQuarantineThreshold : UInt8
  baseGas : UInt64
  gasPerByte : UInt64
  minGasPrice : UInt64
  maxBlockGas : UInt64
  minProposalDeposit : UInt64
  votingPeriodBlocks : UInt64
  governanceQuorumBps : UInt16
  passThresholdBps : UInt16
  parallelExecution : Bool
  blockReward : UInt64
  feeDistribution : FeeDistribution
  inflationParams : InflationParams
  treasuryAddress : String
deriving DecidableEq

/-- The configuration of the development network. -/
def ChainConfig.default : ChainConfig where
  chainId := "polay-devnet-1"
  blockTimeMs := 2000
  maxBlockTransactions := 10000
  maxTransactionSizeBytes := 65536
  minStake := 1000000
  maxValidators := 100
  unbondingPeriodBlocks := 14400
  slashFractionDowntimeBps := 100
  slashFractionDoubleSignBps := 500
  protocolFeeBps := 250
  maxCommissionBps := 2000
  epochLength := 7200
  quorumThresholdBps := 6667
  attestationQuarantineThreshold := 30
  baseGas := 21000
  gasPerByte := 16
  minGasPrice := 1
  maxBlockGas := 100000000
  minProposalDeposit := 100000
  votingPeriodBlocks := 14400
  governanceQuorumBps := 3333
  passThresholdBps := 5000
  parallelExecution := false
  blockReward := 100000
  feeDistribution := FeeDistribution.default
  inflationParams := InflationParams.default
  treasuryAddress := "0000000000000000000000000000000000000000000000000000000000000000"

/-- What is wrong with a configuration, in the order of the checks. -/
def ChainConfig.problems (c : ChainConfig) : List (Bool × String) := [
  (c.chainId == "", "chain_id cannot be empty"),
  (c.blockTimeMs == 0, "block_time_ms must be > 0"),
  (c.maxBlockTransactions == 0, "max_block_transactions must be > 0"),
  (c.maxBlockGas == 0, "max_block_gas must be > 0"),
  (c.epochLength == 0, "epoch_length must be > 0"),
  (10000 < c.quorumThresholdBps, "quorum_threshold_bps must be <= 10000"),
  (c.quorumThresholdBps < 5000, "quorum_threshold_bps should be >= 5000 for BFT safety"),
  (c.maxValidators == 0, "max_validators must be > 0"),
  (10000 < c.slashFractionDoubleSignBps, "slash_fraction_double_sign_bps must be <= 10000"),
  (10000 < c.slashFractionDowntimeBps, "slash_fraction_downtime_bps must be <= 10000"),
  (10000 < c.governanceQuorumBps, "governance_quorum_bps must be <= 10000"),
  (10000 < c.passThresholdBps, "pass_threshold_bps must be <= 10000"),
  (10000 < c.maxCommissionBps, "max_commission_bps must be <= 10000"),
  (c.unbondingPeriodBlocks == 0, "unbonding_period_blocks must be > 0"),
  (c.minStake == 0, "min_stake must be > 0")]

/-- A configuration is sound, or every problem with it. -/
def ChainConfig.validate (c : ChainConfig) : Except (List String) Unit :=
  match c.problems.filterMap fun p => if p.1 then some p.2 else none with
  | [] => .ok ()
  | errors => .error errors

end Polay.Types
