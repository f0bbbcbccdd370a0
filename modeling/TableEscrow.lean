import TableEscrow.Address
import TableEscrow.Bus.Message
import TableEscrow.Bus.Ring
import TableEscrow.Bus.Sink
import TableEscrow.Chain
import TableEscrow.Change
import TableEscrow.Cli.Command
import TableEscrow.Cli.Form
import TableEscrow.Cli.Help
import TableEscrow.Cli.Run
import TableEscrow.Config.Error
import TableEscrow.Config.Layered
import TableEscrow.Config.SecretGuard
import TableEscrow.Config.Sections
import TableEscrow.Config.UnusedKeys
import TableEscrow.Daemon.MediaType
import TableEscrow.Daemon.Route
import TableEscrow.Daemon.Service
import TableEscrow.Daemon.Startup
import TableEscrow.Daemon.Status
import TableEscrow.Daemon.Timer
import TableEscrow.Deployment
import TableEscrow.Envelope
import TableEscrow.Environment.File
import TableEscrow.Environment.Secrets
import TableEscrow.Event
import TableEscrow.Gateway.Contract
import TableEscrow.Gateway.Exchange
import TableEscrow.Gateway.RemoteOracle
import TableEscrow.Hand
import TableEscrow.Hash
import TableEscrow.Instant
import TableEscrow.Json.Basic
import TableEscrow.Json.Binary64
import TableEscrow.Json.Decode
import TableEscrow.Json.Draft
import TableEscrow.Json.Numeral
import TableEscrow.Json.Overlay
import TableEscrow.Json.Pointer
import TableEscrow.Json.Printer
import TableEscrow.Keyed
import TableEscrow.Main
import TableEscrow.Netting
import TableEscrow.Oracle
import TableEscrow.Percent
import TableEscrow.Proofs.Accounts
import TableEscrow.Proofs.Announcements
import TableEscrow.Proofs.Branches
import TableEscrow.Proofs.BusMessages
import TableEscrow.Proofs.Calendar
import TableEscrow.Proofs.CompactTexts
import TableEscrow.Proofs.Defaults
import TableEscrow.Proofs.Delivery
import TableEscrow.Proofs.Digits
import TableEscrow.Proofs.Documents
import TableEscrow.Proofs.Durable
import TableEscrow.Proofs.Envelopes
import TableEscrow.Proofs.Exchanges
import TableEscrow.Proofs.Facts
import TableEscrow.Proofs.Fanout
import TableEscrow.Proofs.GatewayPasses
import TableEscrow.Proofs.GatewayReplies
import TableEscrow.Proofs.Histories
import TableEscrow.Proofs.Instants
import TableEscrow.Proofs.Interleaving
import TableEscrow.Proofs.KeyOrder
import TableEscrow.Proofs.KeyScalars
import TableEscrow.Proofs.Layers
import TableEscrow.Proofs.Leaves
import TableEscrow.Proofs.Magnitudes
import TableEscrow.Proofs.NettingForm
import TableEscrow.Proofs.NettingRequests
import TableEscrow.Proofs.Nodes
import TableEscrow.Proofs.OutermostKeys
import TableEscrow.Proofs.Overflow
import TableEscrow.Proofs.Pointers
import TableEscrow.Proofs.Presence
import TableEscrow.Proofs.Records
import TableEscrow.Proofs.RequestAges
import TableEscrow.Proofs.RequestCourse
import TableEscrow.Proofs.Runs
import TableEscrow.Proofs.SecretPointers
import TableEscrow.Proofs.Secrets
import TableEscrow.Proofs.Sends
import TableEscrow.Proofs.SettledTables
import TableEscrow.Proofs.Shapes
import TableEscrow.Proofs.SigningKeys
import TableEscrow.Proofs.SilentOracle
import TableEscrow.Proofs.StoredHands
import TableEscrow.Proofs.Targets
import TableEscrow.Proofs.Traffic
import TableEscrow.Proofs.UnusedKeys
import TableEscrow.Proofs.Words
import TableEscrow.Proofs.Writings
import TableEscrow.Reaction
import TableEscrow.Reconcile.Decision
import TableEscrow.Reconcile.Request
import TableEscrow.Reconcile.Scan
import TableEscrow.Reconcile.TablePass
import TableEscrow.Reconcile.Thresholds
import TableEscrow.Rehearsal.Backend
import TableEscrow.Rehearsal.Bench
import TableEscrow.Rehearsal.Listener
import TableEscrow.Rehearsal.Peers
import TableEscrow.Rehearsal.Recorder
import TableEscrow.Rehearsal.Script
import TableEscrow.Rehearsal.Server
import TableEscrow.Rehearsal.Stage
import TableEscrow.Seat
import TableEscrow.Store.Hands
import TableEscrow.Store.Migration
import TableEscrow.Store.Outbox
import TableEscrow.Store.Schema
import TableEscrow.Store.Statement
import TableEscrow.Surroundings
import TableEscrow.Text
import TableEscrow.Url
import TableEscrow.Uuid
import TableEscrow.Word
import TableEscrow.Yaml.BlockText
import TableEscrow.Yaml.Document
import TableEscrow.Yaml.FlowText
import TableEscrow.Yaml.Node
import TableEscrow.Yaml.Place
import TableEscrow.Yaml.Scalar
import TableEscrow.Yaml.Token
