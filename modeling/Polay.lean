import Polay.Attestation
import Polay.Consensus.Agreement
import Polay.Consensus.CommitBinding
import Polay.Consensus.Decisions
import Polay.Consensus.Equivocation
import Polay.Consensus.Rejection
import Polay.Execution.AssetSupply
import Polay.Execution.GasLimit
import Polay.Execution.Guilds
import Polay.Execution.Profiles
import Polay.Execution.Receipts
import Polay.Execution.RentalBacking
import Polay.Execution.ScheduleOrder
import Polay.Execution.Settlement
import Polay.Execution.StatefulValidation
import Polay.Execution.Tournaments
import Polay.Mempool.Index
import Polay.Mempool.Selection
import Polay.Network.PeerManager
import Polay.Network.RateLimiter
import Polay.Rpc.RateLimiter
import Polay.State.Commitment
import Polay.State.KeySpace
import Polay.State.MerkleProofs
import Polay.State.OverlayStore
import Polay.State.Sync
import Polay.Validator.AdmissionAgreement
import Polay.Validator.BlockProducer
import Polay.Validator.FeeAccounting
import Polay.Validator.Freshness
import Polay.Validator.Genesis
import Polay.Validator.Governance
import Polay.Validator.PanicFree
import Polay.Validator.Payments
import Polay.Validator.Payouts
import Polay.Validator.Penalties
import Polay.Validator.ProposalFunds
import Polay.Validator.Reachable
import Polay.Validator.Replay
import Polay.Validator.RewardDelay
import Polay.Validator.Rotation
import Polay.Validator.SessionGrants
import Polay.Validator.Slashing
import Polay.Validator.StakeAgreement
import Polay.Validator.SupplyTracking
import Polay.Validator.VotingPower
