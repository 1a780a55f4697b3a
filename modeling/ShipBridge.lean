import ShipBridge.CommandLine.Flag
import ShipBridge.CommandLine.Likeness
import ShipBridge.CommandLine.Options
import ShipBridge.CommandLine.Program
import ShipBridge.Decimal.Shortest
import ShipBridge.Duration
import ShipBridge.Editor.Dialogue
import ShipBridge.Editor.Framing
import ShipBridge.Editor.Listener
import ShipBridge.Editor.Message
import ShipBridge.Editor.Outbound
import ShipBridge.EventStream.Decoder
import ShipBridge.Json.Basic
import ShipBridge.Json.Numeral
import ShipBridge.Json.Printer
import ShipBridge.Json.Reader
import ShipBridge.Json.Record
import ShipBridge.Main
import ShipBridge.Proofs.Backoff
import ShipBridge.Proofs.Editor.Framing
import ShipBridge.Proofs.Editor.Grammar
import ShipBridge.Proofs.Editor.Listener
import ShipBridge.Proofs.Editor.Message
import ShipBridge.Proofs.EventStream.Blocks
import ShipBridge.Proofs.EventStream.Chunks
import ShipBridge.Proofs.EventStream.Decoder
import ShipBridge.Proofs.EventStream.Log
import ShipBridge.Proofs.Json.Normal
import ShipBridge.Proofs.Json.RoundTrip
import ShipBridge.Proofs.Json.Tagged
import ShipBridge.Proofs.Relay.Answers
import ShipBridge.Proofs.Relay.Calls
import ShipBridge.Proofs.Relay.Closing
import ShipBridge.Proofs.Relay.Conversations
import ShipBridge.Proofs.Relay.Deliveries
import ShipBridge.Proofs.Relay.EntriesReleased
import ShipBridge.Proofs.Relay.EntriesSeenTo
import ShipBridge.Proofs.Relay.FunctionEffects
import ShipBridge.Proofs.Relay.JobSuccessors
import ShipBridge.Proofs.Relay.LineErrands
import ShipBridge.Proofs.Relay.Machine
import ShipBridge.Proofs.Relay.Notifications
import ShipBridge.Proofs.Relay.Reconnection
import ShipBridge.Proofs.Relay.RequestCharges
import ShipBridge.Proofs.Relay.RequestEffects
import ShipBridge.Proofs.Relay.Responses
import ShipBridge.Proofs.Relay.Resubscription
import ShipBridge.Proofs.Relay.Runs
import ShipBridge.Proofs.Relay.Spoken
import ShipBridge.Proofs.Relay.StepEffects
import ShipBridge.Proofs.Relay.StreamInvariant
import ShipBridge.Proofs.Relay.StreamNews
import ShipBridge.Proofs.Relay.StreamUndisturbed
import ShipBridge.Proofs.Relay.SubscriptionSteps
import ShipBridge.Proofs.Relay.Turns
import ShipBridge.Proofs.Relay.Updates
import ShipBridge.Proofs.Retry
import ShipBridge.Proofs.Session.Acknowledgment
import ShipBridge.Proofs.Session.Changes
import ShipBridge.Proofs.Session.Closing
import ShipBridge.Proofs.Session.Coverage
import ShipBridge.Proofs.Session.Cursor
import ShipBridge.Proofs.Session.Frames
import ShipBridge.Proofs.Session.Ids
import ShipBridge.Proofs.Session.Mailboxes
import ShipBridge.Proofs.Session.Order
import ShipBridge.Proofs.Session.Outcomes
import ShipBridge.Proofs.Session.Owners
import ShipBridge.Proofs.Session.Pokes
import ShipBridge.Proofs.Session.Reader
import ShipBridge.Proofs.Session.Receivers
import ShipBridge.Proofs.Session.Registration
import ShipBridge.Proofs.Session.Replays
import ShipBridge.Proofs.Session.Run
import ShipBridge.Proofs.Session.Stopping
import ShipBridge.Proofs.Session.Streams
import ShipBridge.Proofs.Session.Subscriptions
import ShipBridge.Proofs.Session.Tables
import ShipBridge.Proofs.Session.Tabular
import ShipBridge.Proofs.Session.Withdrawal
import ShipBridge.Proofs.Text.Numeral
import ShipBridge.Proofs.Text.Utf8
import ShipBridge.Proofs.Wire.Command
import ShipBridge.Proofs.Wire.Members
import ShipBridge.Rehearsal.Run
import ShipBridge.Rehearsal.Script
import ShipBridge.Relay.Fault
import ShipBridge.Relay.Machine
import ShipBridge.Relay.Pending
import ShipBridge.Relay.Settings
import ShipBridge.Retry
import ShipBridge.Session.Basic
import ShipBridge.Session.Fault
import ShipBridge.Session.Pokes
import ShipBridge.Session.State
import ShipBridge.Session.Subscriptions
import ShipBridge.Text.Blank
import ShipBridge.Text.Hexadecimal
import ShipBridge.Text.Hidden
import ShipBridge.Text.Lowercase
import ShipBridge.Text.Numeral
import ShipBridge.Text.Quoted
import ShipBridge.Text.Split
import ShipBridge.Text.Utf8
import ShipBridge.Web.Domain
import ShipBridge.Web.Exchange
import ShipBridge.Web.Host
import ShipBridge.Web.Percent
import ShipBridge.Web.Punycode
import ShipBridge.Web.ShipUrl
import ShipBridge.Web.Status
import ShipBridge.Web.Url
import ShipBridge.Wire.Command
import ShipBridge.Wire.Frame
