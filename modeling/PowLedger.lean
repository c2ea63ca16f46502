import PowLedger.Network.Mining
import PowLedger.Main
import PowLedger.CommandLine.Run
import PowLedger.Document.Ledger
import PowLedger.Document.JsonText
import PowLedger.Document.Toml
import PowLedger.Document.Json
import PowLedger.Document.Form
import PowLedger.Network.Sync
import PowLedger.Roster
import PowLedger.Sync.GateBook
import PowLedger.Proofs.Bytes
import PowLedger.Proofs.Text.Utf8
import PowLedger.Proofs.Codec.RoundTrip
import PowLedger.Proofs.Codec.Truncation
import PowLedger.Proofs.Table
import PowLedger.Proofs.Utxo.Application
import PowLedger.Proofs.Utxo.Confirmation
import PowLedger.Proofs.Rules.Verdict
import PowLedger.Proofs.Rules.Order
import PowLedger.Proofs.Collision
import PowLedger.Proofs.Transaction.Identity
import PowLedger.Proofs.Merkle.Binding
import PowLedger.Proofs.Ledger.Supply
import PowLedger.Proofs.Ledger.Commitment
import PowLedger.Proofs.Ledger.Uniqueness
import PowLedger.Proofs.Store.Law
import PowLedger.Proofs.Store.Interchange
import PowLedger.Proofs.Store.Walk
import PowLedger.Proofs.Node.Integrity
import PowLedger.Proofs.Node.Replay
import PowLedger.Proofs.Node.Rebuild
import PowLedger.Proofs.Node.Archive
import PowLedger.Proofs.Node.History
import PowLedger.Proofs.Node.Recovery
import PowLedger.Proofs.Pool.Selection
import PowLedger.Proofs.Pool.Index
import PowLedger.Proofs.Node.Frame
import PowLedger.Proofs.Node.Growth
import PowLedger.Proofs.Node.Coherence
import PowLedger.Proofs.Node.Admission
import PowLedger.Proofs.Mining.Attempt
import PowLedger.Proofs.Ledger.Linkage
import PowLedger.Proofs.Mining.Search
import PowLedger.Proofs.Node.Linkage
import PowLedger.Proofs.Node.Observation
import PowLedger.Proofs.Node.StalePool
import PowLedger.Proofs.Node.Opening
import PowLedger.Proofs.Sync.Gate
import PowLedger.Proofs.Sync.Progress
import PowLedger.Proofs.Sync.Meeting
import PowLedger.Proofs.Sync.Safety
import PowLedger.Proofs.Sync.Timeline
import PowLedger.Proofs.Sync.Upkeep
import PowLedger.Proofs.Sync.Exchange
import PowLedger.Proofs.Sync.CatchUp
import PowLedger.Proofs.Sync.Convergence
import PowLedger.Proofs.Pool.Eviction
import PowLedger.Proofs.Pool.Queue
import PowLedger.Proofs.Pool.Confirmation
import PowLedger.Proofs.Merkle.Inclusion
import PowLedger.Proofs.Merkle.Soundness
import PowLedger.Proofs.Merkle.Repetition
import PowLedger.Proofs.Transaction.Commitment
import PowLedger.Proofs.Sync.Announcement
import PowLedger.Proofs.Mining.Sweep
import PowLedger.Proofs.Mining.LeadingZeros
import PowLedger.Proofs.Ledger.Emission
import PowLedger.Proofs.Rules.Wallet
import PowLedger.Proofs.Mining.Race
import PowLedger.Proofs.Mining.StaleTip
