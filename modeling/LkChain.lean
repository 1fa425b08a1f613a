import LkChain.Foundation.Lanes
import LkChain.Foundation.Ledger
import LkChain.Foundation.Tickets
import LkChain.Foundation.Results
import LkChain.Foundation.Stops
import LkChain.Foundation.Int64
import LkChain.Foundation.Hex
import LkChain.Foundation.Roster
import LkChain.Foundation.SortedSearch
import LkChain.Foundation.Versions
import LkChain.Foundation.Schedules
import LkChain.Foundation.Cells
import LkChain.Foundation.Buffers
import LkChain.Foundation.Streams
import LkChain.Foundation.Registers
import LkChain.Foundation.Bisection
import LkChain.Foundation.Texts
import LkChain.Foundation.KeyValue
import LkChain.Ethereum.State
import LkChain.Ethereum.Transactions
import LkChain.Ethereum.ManagedState
import LkChain.Ethereum.Fees
import LkChain.Ethereum.Calls
import LkChain.Ethereum.Transition
import LkChain.Ethereum.Outcomes
import LkChain.Ethereum.Accounting
import LkChain.Ethereum.Failures
import LkChain.Ethereum.Estimation
import LkChain.Ethereum.Nonces
import LkChain.Ethermint.Pending
import LkChain.Ethermint.Blocks
import LkChain.Ethermint.AtMostOnce
import LkChain.Ethermint.Creations
import LkChain.Ethermint.Admission
import LkChain.Ethermint.Estimates
import LkChain.Validators.ParseTx
import LkChain.Validators.Quorum
import LkChain.Validators.TxBased
import LkChain.Validators.VotingPower
import LkChain.Validators.Collect
import LkChain.Validators.NodeSet
import LkChain.Validators.Agreement
import LkChain.Validators.Acceptance
import LkChain.Ethermint.InternalTxs
import LkChain.Ethermint.Application
import LkChain.Ethermint.Totality
import LkChain.Ethermint.Replay
import LkChain.Ethermint.Sealing
import LkChain.Ethermint.Records
import LkChain.Ethermint.RecordIndex
import LkChain.Ethermint.NonceCache
import LkChain.Ethermint.Lockout
import LkChain.Ethermint.TransferFee
import LkChain.Ethermint.Forwarding
import LkChain.Ethermint.ChainRollback
import LkChain.Tendermint.Types
import LkChain.Tendermint.ValSet
import LkChain.Tendermint.VerifyCommit
import LkChain.Tendermint.ChainState
import LkChain.Tendermint.StateStore
import LkChain.Tendermint.History
import LkChain.Tendermint.SortedSets
import LkChain.Tendermint.Blocks
import LkChain.Tendermint.Validation
import LkChain.Tendermint.Accusations
import LkChain.Tendermint.Predecessor
import LkChain.Tendermint.BlockStore
import LkChain.Tendermint.Execution
import LkChain.Tendermint.Proposals
import LkChain.Tendermint.Handshake
import LkChain.Tendermint.Rollback
import LkChain.Tendermint.Catchup
import LkChain.Tendermint.Proposer
import LkChain.Tendermint.PowerBound
import LkChain.Tendermint.Mempools
import LkChain.Tendermint.TxCache
import LkChain.Tendermint.MempoolUpdates
import LkChain.Tendermint.EvidenceStore
import LkChain.Tendermint.StoreStack
import LkChain.Tendermint.PrivValidator
import LkChain.Tendermint.DoubleSigning
import LkChain.Tendermint.SignatureValidity
import LkChain.Ethermint.Reaping
import LkChain.P2P.Frames
import LkChain.P2P.Streaming
import LkChain.P2P.Expansion
import LkChain.Lite.VerifyCommitAny
import LkChain.Lite.Certifiers
import LkChain.Lite.Progress
import LkChain.BlockPool.Model
import LkChain.BlockPool.Lifecycle
import LkChain.BlockPool.Transitions
import LkChain.BlockPool.Deadlock
import LkChain.BlockPool.Accounting
import LkChain.BlockPool.Redo
import LkChain.BlockPool.Window
import LkChain.BlockPool.Blame
import LkChain.TxPool.Lists
import LkChain.TxPool.Pool
import LkChain.TxPool.Holdings
import LkChain.TxPool.Operations
import LkChain.TxPool.Resets
import LkChain.TxPool.Occupancy
import LkChain.TxPool.Index
import LkChain.TxPool.Nonces
import LkChain.TxPool.Funds
import LkChain.TxPool.Promotions
