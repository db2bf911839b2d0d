import Inlay.Path
import Inlay.Path.Parse
import Inlay.Toml.Scan
import Inlay.Toml.Spacing
import Inlay.Toml.Datetime
import Inlay.Toml.Value
import Inlay.Toml.Item
import Inlay.Toml.Quoted
import Inlay.Toml.Write
import Inlay.Toml.Datetime.Read
import Inlay.Toml.Number
import Inlay.Toml.Assembly
import Inlay.Toml.Grammar
import Inlay.Toml.Report
import Inlay.Toml.Read
import Inlay.Decimal.Shortest
import Inlay.Decimal.Layout
import Inlay.Text.Blank
import Inlay.Text.Float
import Inlay.Text.Outline
import Inlay.Text.CodeRanges
import Inlay.Text.Printable
import Inlay.Text.Literal
import Inlay.Text.Case
import Inlay.Slots
import Inlay.Fault
import Inlay.Source.Node
import Inlay.Source.Event
import Inlay.Source.Forest
import Inlay.Source.Document
import Inlay.Settings
import Inlay.Settings.Read
import Inlay.Settings.Write
import Inlay.Settings.Layers
import Inlay.Sync.State
import Inlay.Sync.Position
import Inlay.Sync.Build
import Inlay.Sync.Notify
import Inlay.Sync.Edit
import Inlay.Sync.View
import Inlay.Session.Script
import Inlay.Session.Run
import Inlay.Proofs.Exec
import Inlay.Proofs.Arena
import Inlay.Proofs.Heap
import Inlay.Proofs.Stop
import Inlay.Proofs.Build
import Inlay.Proofs.Address
import Inlay.Proofs.Remove
import Inlay.Proofs.Live
import Inlay.Proofs.Forest
import Inlay.Proofs.Track
import Inlay.Proofs.Edit
import Inlay.Proofs.Session
import Inlay.Proofs.Shape
import Inlay.Proofs.Frozen
import Inlay.Proofs.Linked
import Inlay.Proofs.Books
import Inlay.Proofs.Ledger
import Inlay.Proofs.Lifecycle
import Inlay.Proofs.Delivery
import Inlay.Proofs.Accounting
import Inlay.Proofs.Tracking
import Inlay.Proofs.Faults
import Inlay.Proofs.PathText
import Inlay.Proofs.Positions
import Inlay.Proofs.Calls
import Inlay.Proofs.Lineage
import Inlay.Proofs.Nesting
import Inlay.Proofs.Telling
import Inlay.Proofs.PathGrammar
import Inlay.Proofs.NodeDocument
import Inlay.Proofs.SettingsText
import Inlay.Proofs.Expansion
import Inlay.Proofs.Copying
import Inlay.Proofs.Regions
import Inlay.Proofs.Events
import Inlay.Proofs.Following
import Inlay.Proofs.RegionEdits
import Inlay.Proofs.Propagation
import Inlay.Proofs.Maintenance
