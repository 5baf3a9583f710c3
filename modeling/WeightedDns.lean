import WeightedDns.CommandLine.Arguments
import WeightedDns.CommandLine.Folder
import WeightedDns.CommandLine.Run
import WeightedDns.CommandLine.Usage
import WeightedDns.Decimal.Binary64
import WeightedDns.Decimal.Shortest
import WeightedDns.Digest.Sha256
import WeightedDns.Json.Basic
import WeightedDns.Json.Printer
import WeightedDns.Json.Reader
import WeightedDns.Json.Record
import WeightedDns.Lifecycle.Error
import WeightedDns.Lifecycle.Read
import WeightedDns.Lifecycle.Step
import WeightedDns.Lifecycle.Write
import WeightedDns.Main
import WeightedDns.Plan
import WeightedDns.Record.Codec
import WeightedDns.Record.Kind
import WeightedDns.Record.ResourceId
import WeightedDns.Record.Set
import WeightedDns.Record.State
import WeightedDns.Remote.Call
import WeightedDns.Remote.Dialogue
import WeightedDns.Remote.Error
import WeightedDns.Remote.Page
import WeightedDns.Remote.Record
import WeightedDns.Remote.Walk
import WeightedDns.Text.Blank
import WeightedDns.Text.Excerpt
import WeightedDns.Text.Letters
import WeightedDns.Text.Percent
import WeightedDns.Text.Scan
import WeightedDns.Toml.Date
import WeightedDns.Toml.Number
import WeightedDns.Toml.Reader
import WeightedDns.Toml.RecordSet
import WeightedDns.Toml.Scalar
import WeightedDns.Toml.Table
import WeightedDns.Toml.Text
import WeightedDns.Wire.Action
import WeightedDns.Wire.Client
import WeightedDns.Wire.Credentials
import WeightedDns.Wire.Endpoint
import WeightedDns.Wire.Failure
import WeightedDns.Wire.Query
import WeightedDns.Wire.Reply
import WeightedDns.Wire.Script
import WeightedDns.Wire.Signature
import WeightedDns.Zone
import WeightedDns.Proofs.Dialogue.Course
import WeightedDns.Proofs.Zone.Listing
import WeightedDns.Proofs.Zone.Tidy
import WeightedDns.Proofs.Zone.Later
import WeightedDns.Proofs.Zone.Step
import WeightedDns.Proofs.Zone.Reading
import WeightedDns.Proofs.Record.Validation
import WeightedDns.Proofs.Update.Loop
import WeightedDns.Proofs.Update.Touch
import WeightedDns.Proofs.Update.Matching
import WeightedDns.Proofs.Update.Frame
import WeightedDns.Proofs.Update.OtherZones
import WeightedDns.Proofs.Update.Grow
import WeightedDns.Proofs.Update.Keep
import WeightedDns.Proofs.Update.Add
import WeightedDns.Proofs.Update.Group
import WeightedDns.Proofs.Update.Outcome
import WeightedDns.Proofs.Update.Standing
import WeightedDns.Proofs.Update.Convergence
import WeightedDns.Proofs.Update.Distinct
import WeightedDns.Proofs.Create.Finish
import WeightedDns.Proofs.Create.Created
import WeightedDns.Proofs.Create.Outcome
import WeightedDns.Proofs.Create.Idle
import WeightedDns.Proofs.Update.Resume
import WeightedDns.Proofs.Update.Stale
import WeightedDns.Proofs.Update.Ending
import WeightedDns.Proofs.Update.Coverage
import WeightedDns.Proofs.Update.Repeats
import WeightedDns.Proofs.Dialogue.Log
import WeightedDns.Proofs.Update.Turns
import WeightedDns.Proofs.Update.Written
import WeightedDns.Proofs.Update.Preview
import WeightedDns.Proofs.Create.Order
import WeightedDns.Proofs.Create.Repeat
import WeightedDns.Proofs.Update.Apart
import WeightedDns.Proofs.Update.Lingering
import WeightedDns.Proofs.Create.Adoption
import WeightedDns.Proofs.Update.Replacement
import WeightedDns.Proofs.Wire.Weighting
import WeightedDns.Proofs.Wire.Delivery
import WeightedDns.Proofs.Wire.Missing
import WeightedDns.Proofs.Wire.Retry
import WeightedDns.Proofs.CommandLine.Reading
import WeightedDns.Proofs.Json.RoundTrip
import WeightedDns.Proofs.Json.Reordering
import WeightedDns.Proofs.Json.Saved
import WeightedDns.Proofs.Wire.Query
import WeightedDns.Proofs.Wire.Paging
import WeightedDns.Proofs.Update.Overlay
import WeightedDns.Proofs.Update.Count
import WeightedDns.Proofs.Zone.Faithful
import WeightedDns.Proofs.Zone.Deletion
import WeightedDns.Proofs.Text.Trimming
import WeightedDns.Proofs.Text.Bytes
import WeightedDns.Proofs.Text.Percent
import WeightedDns.Proofs.Record.ResourceId
import WeightedDns.Proofs.Wire.Flattening
import WeightedDns.Proofs.Wire.Encoding
import WeightedDns.Proofs.Wire.Signing
import WeightedDns.Proofs.Wire.Classification
import WeightedDns.Proofs.Wire.Throttling
import WeightedDns.Proofs.Remote.Walk
import WeightedDns.Proofs.Record.ImportId
import WeightedDns.Proofs.Zone.TakingOver
import WeightedDns.Proofs.Record.Fault
import WeightedDns.Proofs.Zone.Complete
import WeightedDns.Proofs.Text.Excerpt
import WeightedDns.Proofs.Wire.Endpoint
