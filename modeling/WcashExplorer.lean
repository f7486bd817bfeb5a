import WcashExplorer.Relational.Table
import WcashExplorer.Relational.Image
import WcashExplorer.Relational.Ordered
import WcashExplorer.Relational.Upserts
import WcashExplorer.Relational.Keyset
import WcashExplorer.Relational.Window
import WcashExplorer.Relational.Grouping
import WcashExplorer.Relational.FirstSeen
import WcashExplorer.Relational.Similar
import WcashExplorer.Relational.Truth
import WcashExplorer.Effects.Program
import WcashExplorer.Effects.Logic
import WcashExplorer.Effects.Interleaving
import WcashExplorer.Effects.Coupling
import WcashExplorer.Effects.Yielding
import WcashExplorer.Effects.Serial
import WcashExplorer.Effects.Given
import WcashExplorer.Chain.Linked
import WcashExplorer.Chain.Fork
import WcashExplorer.Codec.Base64
import WcashExplorer.Codec.Decimal
import WcashExplorer.Basic
import WcashExplorer.Json
import WcashExplorer.Models
import WcashExplorer.Calls
import WcashExplorer.Rpc
import WcashExplorer.AuxPow
import WcashExplorer.AuxPow.LittleEndian
import WcashExplorer.AuxPow.Solution
import WcashExplorer.Hex
import WcashExplorer.AuxPow.Target
import WcashExplorer.Schema
import WcashExplorer.Db.InsertBlock
import WcashExplorer.Serde
import WcashExplorer.Db.RawRpc
import WcashExplorer.Db.Database
import WcashExplorer.Indexer
import WcashExplorer.Db.Inserts
import WcashExplorer.Db.Selection
import WcashExplorer.Db.Transitions
import WcashExplorer.Db.Evidence
import WcashExplorer.Db.Facts
import WcashExplorer.Db.ReadBack
import WcashExplorer.Db.Ledger
import WcashExplorer.Db.Parents
import WcashExplorer.Db.Calls
import WcashExplorer.Db.AppendOnly
import WcashExplorer.Db.WitnessEvidence
import WcashExplorer.Db.LastPass
import WcashExplorer.Db.Replace
import WcashExplorer.Db.ParentVerdict
import WcashExplorer.Db.Complete
import WcashExplorer.Db.Growth
import WcashExplorer.Db.Proofs
import WcashExplorer.Db.Instances
import WcashExplorer.Indexer.Fetch
import WcashExplorer.Indexer.Search
import WcashExplorer.Indexer.Pass
import WcashExplorer.Indexer.History
import WcashExplorer.Indexer.Node
import WcashExplorer.Indexer.Safety
import WcashExplorer.Indexer.Tip
import WcashExplorer.Db.Accepting
import WcashExplorer.Indexer.Depth
import WcashExplorer.Indexer.Snapshot
import WcashExplorer.Indexer.Overlap
import WcashExplorer.Indexer.ForkPoint
import WcashExplorer.Indexer.Heights
import WcashExplorer.Indexer.Refresh
import WcashExplorer.Indexer.Parents
import WcashExplorer.Indexer.Vetted
import WcashExplorer.Indexer.RawBlock
import WcashExplorer.Indexer.Filled
import WcashExplorer.Indexer.Keeping
import WcashExplorer.Indexer.Converging
import WcashExplorer.Indexer.Convergence
import WcashExplorer.Indexer.Vouched
import WcashExplorer.Db.BlockRows
import WcashExplorer.Db.OneNode
import WcashExplorer.Api.Readiness
import WcashExplorer.Api.Summary
import WcashExplorer.Api.Paging
import WcashExplorer.Api.Cursors
import WcashExplorer.Api.Canonical
import WcashExplorer.Api.Traversal
import WcashExplorer.Api.Digests
import WcashExplorer.Api.MergeMining
import WcashExplorer.Api.Address
import WcashExplorer.Api.RichList
import WcashExplorer.Api.AddressLedger
import WcashExplorer.Api.AddressAgreement
import WcashExplorer.Api.AddressActivity
import WcashExplorer.Api.Amounts
import WcashExplorer.Api.Rewards
import WcashExplorer.Api.RichListView
import WcashExplorer.Api.NetworkHistory
import WcashExplorer.Api.Status
import WcashExplorer.Api.Lag
import WcashExplorer.Api.AddressStats
import WcashExplorer.Api.Lookup
import WcashExplorer.Api.Resolution
import WcashExplorer.Api.BlockView
import WcashExplorer.Api.SameFacts
import WcashExplorer.Api.BlockSnapshot
import WcashExplorer.Api.PoolHistory
import WcashExplorer.Api.AddressPage
import WcashExplorer.Api.SameChain
import WcashExplorer.Api.SamePages
import WcashExplorer.Api.SameHistories
import WcashExplorer.Api.SameAddresses
import WcashExplorer.Api.SameRankings
import WcashExplorer.Api.HistoryIndependence
import WcashExplorer.Chain.Walk
import WcashExplorer.Db.Networks
import WcashExplorer.Db.Isolation
import WcashExplorer.Db.StateFrame
import WcashExplorer.Db.WriterLock
import WcashExplorer.Indexer.Service
import WcashExplorer.Indexer.Leased
import WcashExplorer.Api.RawBlockView
import WcashExplorer.Api.Reorgs
import WcashExplorer.Api.Probe
import WcashExplorer.Relational.Rekeyed
import WcashExplorer.Db.Migration
import WcashExplorer.Rpc.Client
import WcashExplorer.Codec.Integer
import WcashExplorer.Config
import WcashExplorer.Indexer.Configured
import WcashExplorer.Indexer.Rotation
import WcashExplorer.Api.StrictReadiness
import WcashExplorer.Api.TransactionPage
