import GseNetwork.Chain.Acceptance
import GseNetwork.Chain.ActiveProducers
import GseNetwork.Chain.Advance
import GseNetwork.Chain.Agreement
import GseNetwork.Chain.Authorisation
import GseNetwork.Chain.BlockChain
import GseNetwork.Chain.BlockIdentity
import GseNetwork.Chain.BlockState
import GseNetwork.Chain.Bonus
import GseNetwork.Chain.Boot
import GseNetwork.Chain.Calls
import GseNetwork.Chain.Certificates
import GseNetwork.Chain.Coherence
import GseNetwork.Chain.Confirmations
import GseNetwork.Chain.Control
import GseNetwork.Chain.CrashConsistency
import GseNetwork.Chain.Delivery
import GseNetwork.Chain.Displacement
import GseNetwork.Chain.Executed
import GseNetwork.Chain.Failure
import GseNetwork.Chain.Finality
import GseNetwork.Chain.Forest
import GseNetwork.Chain.ForkIndex
import GseNetwork.Chain.Frames
import GseNetwork.Chain.FrontReads
import GseNetwork.Chain.History
import GseNetwork.Chain.Honest
import GseNetwork.Chain.Intake
import GseNetwork.Chain.Lineage
import GseNetwork.Chain.Linked
import GseNetwork.Chain.Messages
import GseNetwork.Chain.Moves
import GseNetwork.Chain.Node
import GseNetwork.Chain.Operations
import GseNetwork.Chain.Outcomes
import GseNetwork.Chain.Passes
import GseNetwork.Chain.Pool
import GseNetwork.Chain.Prevalidation
import GseNetwork.Chain.Processing
import GseNetwork.Chain.Production
import GseNetwork.Chain.Pruning
import GseNetwork.Chain.Quorum
import GseNetwork.Chain.Recorded
import GseNetwork.Chain.Replay
import GseNetwork.Chain.Rollback
import GseNetwork.Chain.RollbackState
import GseNetwork.Chain.Runs
import GseNetwork.Chain.SignedContent
import GseNetwork.Chain.Slots
import GseNetwork.Chain.Solidify
import GseNetwork.Chain.StateCodec
import GseNetwork.Chain.Sync
import GseNetwork.Chain.SyncRanges
import GseNetwork.Chain.TransactionViews
import GseNetwork.Chain.Valid
import GseNetwork.Core.Acceptance
import GseNetwork.Core.Account
import GseNetwork.Core.AccountCodec
import GseNetwork.Core.Block
import GseNetwork.Core.BlockCodec
import GseNetwork.Core.Canonical
import GseNetwork.Core.Merkle
import GseNetwork.Core.Producer
import GseNetwork.Core.ProducerCodec
import GseNetwork.Core.ProducerRoundTrip
import GseNetwork.Core.Receipts
import GseNetwork.Core.Rlp
import GseNetwork.Core.RlpCanonical
import GseNetwork.Core.RlpFraming
import GseNetwork.Core.RlpReading
import GseNetwork.Core.RlpStream
import GseNetwork.Core.RoundTrip
import GseNetwork.Core.SignedContent
import GseNetwork.Core.SnapshotRoundTrip
import GseNetwork.Core.Status
import GseNetwork.Core.Transaction
import GseNetwork.Core.TransactionsRoot
import GseNetwork.Core.Trie
import GseNetwork.Core.TrieNodes
import GseNetwork.Core.TrieRoot
import GseNetwork.Core.Types
import GseNetwork.Core.Wire
import GseNetwork.Foundation.BigEndian
import GseNetwork.Foundation.BinarySearch
import GseNetwork.Foundation.ByKey
import GseNetwork.Foundation.Duplex
import GseNetwork.Foundation.Effect
import GseNetwork.Foundation.Interleaving
import GseNetwork.Foundation.KeyStream
import GseNetwork.Foundation.Layers
import GseNetwork.Foundation.Lockstep
import GseNetwork.Foundation.PairTree
import GseNetwork.Foundation.ReadThrough
import GseNetwork.Foundation.SelfDelimiting
import GseNetwork.Foundation.Tally
import GseNetwork.Foundation.Triple
import GseNetwork.Ledger.Balances
import GseNetwork.Ledger.Effects
import GseNetwork.Ledger.Existence
import GseNetwork.Ledger.Parties
import GseNetwork.Ledger.Solvency
import GseNetwork.Ledger.Success
import GseNetwork.Ledger.Supply
import GseNetwork.Ledger.Timeless
import GseNetwork.Ledger.Untouched
import GseNetwork.Ledger.Votes
import GseNetwork.Ledger.VotingPower
import GseNetwork.Net.Buckets
import GseNetwork.Net.Datagram
import GseNetwork.Net.DatagramRoundTrip
import GseNetwork.Net.Ecies
import GseNetwork.Net.Endpoint
import GseNetwork.Net.Eviction
import GseNetwork.Net.FrameCoder
import GseNetwork.Net.FrameRoundTrip
import GseNetwork.Net.Handshake
import GseNetwork.Net.HandshakeAgreement
import GseNetwork.Net.Nearest
import GseNetwork.Net.NodeTable
import GseNetwork.Net.SecureCoder
import GseNetwork.Net.Sent
import GseNetwork.Net.Session
import GseNetwork.Net.SessionOrder
import GseNetwork.Net.TableMoves
import GseNetwork.Producer.Schedule
import GseNetwork.Producer.SlotTable
import GseNetwork.Runtime.Action
import GseNetwork.Runtime.Frames
import GseNetwork.Runtime.TransactionCaches
import GseNetwork.Storage.Concurrent
import GseNetwork.Storage.Database
import GseNetwork.Storage.FlatLedger
import GseNetwork.Storage.Layers
import GseNetwork.Storage.Refinement
import GseNetwork.Storage.Repository
import GseNetwork.Storage.Views
import GseNetwork.Vm.Control
import GseNetwork.Vm.Inside
import GseNetwork.Vm.Instruction
import GseNetwork.Vm.Interpret
import GseNetwork.Vm.JumpDests
import GseNetwork.Vm.Machine
import GseNetwork.Vm.Memory
import GseNetwork.Vm.Safety
