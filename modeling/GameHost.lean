import GameHost.Echo.App
import GameHost.Module.Run
import GameHost.Settings.File
import GameHost.Wire.Frame
import GameHost.Proofs.Sequencing
import GameHost.Proofs.Wire.Units
import GameHost.Proofs.Wire.Grammar
import GameHost.Proofs.Wire.Envelope
import GameHost.Proofs.Wire.Form
import GameHost.Proofs.Wire.Encoded
import GameHost.Proofs.Wire.RoundTrip
import GameHost.Proofs.Wire.Nesting
import GameHost.Proofs.Wire.Copying
import GameHost.Proofs.Wire.Atomicity
import GameHost.Proofs.Wire.Cursor
import GameHost.Proofs.Wire.Bounds
import GameHost.Proofs.Wire.Acceptance
import GameHost.Proofs.Wire.Extent
import GameHost.Proofs.Wire.Slots
import GameHost.Proofs.Wire.Reencoding
import GameHost.Proofs.Wire.Delivery
import GameHost.Proofs.Wire.Extension
import GameHost.Proofs.Module.Precedence
import GameHost.Proofs.Module.DependencyOrder
import GameHost.Proofs.Buffer.Contents
import GameHost.Proofs.Buffer.Queue
import GameHost.Proofs.Buffer.Checked
import GameHost.Proofs.Buffer.Rings
import GameHost.Proofs.Net.Calls
import GameHost.Proofs.Net.Events
import GameHost.Proofs.Net.Identity
import GameHost.Proofs.Echo.Peers
import GameHost.Proofs.Echo.Received
import GameHost.Proofs.Text.Blank
import GameHost.Proofs.Document.Cursor
import GameHost.Proofs.Document.Blocks
import GameHost.Proofs.Document.Text
import GameHost.Proofs.Module.Changes
import GameHost.Proofs.Module.Execution
import GameHost.Proofs.Module.Lives
import GameHost.Proofs.Module.Registries
import GameHost.Proofs.Module.Passes
import GameHost.Proofs.Document.Visits
import GameHost.Proofs.Document.Interference
import GameHost.Proofs.Document.Saves
import GameHost.Proofs.Document.Straying
import GameHost.Proofs.Module.Attachments
import GameHost.Proofs.Module.Sealing
import GameHost.Proofs.Module.Privacy
import GameHost.Proofs.Module.Stock
import GameHost.Proofs.Module.Endings
import GameHost.Proofs.Module.Dispatch
import GameHost.Proofs.Net.Draining
import GameHost.Proofs.Net.Outgoing
import GameHost.Proofs.Net.Receiving
import GameHost.Proofs.Net.Admission
import GameHost.Proofs.Net.Counters
import GameHost.Proofs.Echo.Sessions
import GameHost.Proofs.Echo.Replies
import GameHost.Proofs.Echo.Answers
import GameHost.Proofs.Wire.Agreement
import GameHost.Proofs.Module.Cycles
import GameHost.Proofs.Document.Progress
import GameHost.Proofs.Module.Listings
import GameHost.Proofs.Wire.Correspondence
import GameHost.Proofs.Wire.Building
import GameHost.Proofs.Buffer.Lending
import GameHost.Proofs.Buffer.Capacity
import GameHost.Proofs.Settings.Ranges
import GameHost.Proofs.Wire.Defining
import GameHost.Proofs.Wire.Iteration
import GameHost.Proofs.Document.Ordered
