import TandemVerifier.Library.Outcome
import TandemVerifier.Library.FixedWidth
import TandemVerifier.Library.Crypto
import TandemVerifier.Library.MerkleTree
import TandemVerifier.Library.InverseIndex
import TandemVerifier.Library.MapCount
import TandemVerifier.Library.MapList
import TandemVerifier.Library.Hex
import TandemVerifier.Library.Text
import TandemVerifier.Library.CanonicalJson
import TandemVerifier.Library.Json
import TandemVerifier.Library.Table
import TandemVerifier.Library.LinkedChain
import TandemVerifier.Library.Precedence
import TandemVerifier.Library.Termination
import TandemVerifier.Library.UndoLog
import TandemVerifier.Library.LocalUpdate
import TandemVerifier.Library.Reordering
import TandemVerifier.Core.Types
import TandemVerifier.Core.Marker
import TandemVerifier.Core.MarkerGrammar
import TandemVerifier.Core.Roots
import TandemVerifier.Core.Validation
import TandemVerifier.Core.Reducer
import TandemVerifier.Core.RawAccess
import TandemVerifier.Core.Persistence
import TandemVerifier.Core.Views
import TandemVerifier.Reduction.Acceptance
import TandemVerifier.Reduction.Transition
import TandemVerifier.Reduction.Run
import TandemVerifier.Reduction.Deployment
import TandemVerifier.Reduction.Representation
import TandemVerifier.Reduction.CarrierSpend
import TandemVerifier.Reduction.Authorization
import TandemVerifier.Reduction.ObjectHistory
import TandemVerifier.Reduction.Lineage
import TandemVerifier.Reduction.Phase
import TandemVerifier.Reduction.EventLog
import TandemVerifier.Reduction.EventOrder
import TandemVerifier.Reduction.ChainedRoot
import TandemVerifier.Reduction.ObjectRoot
import TandemVerifier.Reduction.Rules
import TandemVerifier.Reduction.Precedence
import TandemVerifier.Reduction.NoPanic
import TandemVerifier.Reduction.History
import TandemVerifier.Reduction.Linkage
import TandemVerifier.Reduction.Admission
import TandemVerifier.Reduction.Isolation
import TandemVerifier.Reduction.Counters
import TandemVerifier.Reduction.Frame
import TandemVerifier.Reduction.Locality
import TandemVerifier.Reduction.BlockOrder
import TandemVerifier.Reduction.Refund
import TandemVerifier.Reduction.Exit
import TandemVerifier.Reduction.Reasons
import TandemVerifier.Reduction.Value
import TandemVerifier.Service.Store
import TandemVerifier.Service.Canonical
import TandemVerifier.Service.EventKeys
import TandemVerifier.Service.Ingest
import TandemVerifier.Service.Simulation
import TandemVerifier.Service.Writers
import TandemVerifier.Service.Convergence
import TandemVerifier.Service.Disconnection
import TandemVerifier.Service.Rpc
import TandemVerifier.Service.Ancestry
import TandemVerifier.Service.Agreement
import TandemVerifier.Service.SignedSpend
import TandemVerifier.Service.Availability
import TandemVerifier.Service.Identity
import TandemVerifier.Service.Queries
import TandemVerifier.Service.Indexers
import TandemVerifier.Service.Attestation
import TandemVerifier.Service.Config
import TandemVerifier.Service.Startup
import TandemVerifier.Service.Progress
import TandemVerifier.Service.Journal
import TandemVerifier.Service.Readiness
import TandemVerifier.Cli.Vectors
import TandemVerifier.Cli.Replay
