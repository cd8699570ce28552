import Chronicle.Main
import Chronicle.Proofs.Text.Line
import Chronicle.Proofs.Event.Stream
import Chronicle.Proofs.Event.RunningKey
import Chronicle.Proofs.Timeline.Replay
import Chronicle.Proofs.Timeline.Brackets
import Chronicle.Proofs.Timeline.Pairing
import Chronicle.Proofs.Timeline.Splicing
import Chronicle.Proofs.Timeline.Coherence
import Chronicle.Proofs.Timeline.Shown
import Chronicle.Proofs.Timeline.Sources
import Chronicle.Proofs.Timeline.Quoting
import Chronicle.Proofs.Report.Line
import Chronicle.Proofs.Session.Pages
import Chronicle.Proofs.Session.Calls
import Chronicle.Proofs.Thread.Depth
import Chronicle.Proofs.Json.Members
import Chronicle.Proofs.Event.Delivery
import Chronicle.Proofs.Timeline.Limits
import Chronicle.Proofs.Session.Categories
import Chronicle.Proofs.Hook.Preservation
import Chronicle.Proofs.Content.Numbering
import Chronicle.Proofs.Content.Agreement
import Chronicle.Proofs.RecordFile.Forms
import Chronicle.Proofs.Thread.Arrival
import Chronicle.Proofs.Toml.Integers
import Chronicle.Proofs.Toml.Written
import Chronicle.Proofs.Settings.Repair
import Chronicle.Proofs.Decimal.Value
import Chronicle.Proofs.Json.Written
import Chronicle.Proofs.Session.Rereading
import Chronicle.Proofs.Timeline.Export
import Chronicle.Proofs.Content.Blocks
import Chronicle.Proofs.Content.Joints
import Chronicle.Proofs.Session.Hints
import Chronicle.Proofs.Session.Turns
import Chronicle.Proofs.Text.Visible
import Chronicle.Proofs.Timeline.Visibility
import Chronicle.Proofs.Json.Readable
import Chronicle.Proofs.Timeline.Inputs
import Chronicle.Proofs.Timeline.Selection
import Chronicle.Proofs.Text.Bytes
import Chronicle.Proofs.Hook.Order
import Chronicle.Proofs.RecordFile.Lines
import Chronicle.Proofs.Decimal.Rounding
import Chronicle.Proofs.Content.Shares
import Chronicle.Proofs.Text.Clip
import Chronicle.Proofs.Text.Headline
import Chronicle.Proofs.Timeline.ServerTools
import Chronicle.Proofs.Timeline.Excerpts
