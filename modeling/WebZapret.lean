import WebZapret.Lib.Machine
import WebZapret.Firewall.Rules
import WebZapret.Firewall.History
import WebZapret.Lib.Bytes
import WebZapret.Lib.Ipv4
import WebZapret.Relay.Packet
import WebZapret.Relay.Parse
import WebZapret.Relay.RoundTrip
import WebZapret.Relay.Fragments
import WebZapret.Relay.Worker
import WebZapret.Lib.Files
import WebZapret.Panel.WriteJson
import WebZapret.Selection.Job
import WebZapret.Selection.SingleFlight
import WebZapret.Lib.Py.Number
import WebZapret.Lib.Py.Json
import WebZapret.Lib.Py.Shlex
import WebZapret.Catalog.Plan
import WebZapret.Lib.Tasks
import WebZapret.Catalog.ImportJson
import WebZapret.Lib.Failing
import WebZapret.Catalog.Reassembly
import WebZapret.Selection.Import
import WebZapret.Selection.Settings
import WebZapret.Selection.Schedule
import WebZapret.Panel.Mutations
import WebZapret.Selection.FinalStates
import WebZapret.Lib.Linked
import WebZapret.Relay.Memory
import WebZapret.Selection.NoBurst
import WebZapret.Selection.Clean
import WebZapret.Selection.Soundness
import WebZapret.Selection.Commands
import WebZapret.Selection.Stable
import WebZapret.Selection.Store
import WebZapret.Lib.Py.Encodable
import WebZapret.Selection.Filter
import WebZapret.Selection.Harness
import WebZapret.Lib.Py.Rounding
import WebZapret.Selection.Isolation
import WebZapret.Selection.Reports
import WebZapret.Firewall.Faults
import WebZapret.Lib.Proc
import WebZapret.Apply.Transaction
import WebZapret.Apply.Interleaving
import WebZapret.Panel.Rewrites
import WebZapret.Traffic.Meters
import WebZapret.Traffic.Totals
import WebZapret.Catalog.Denylist
import WebZapret.Catalog.Applicable
import WebZapret.Catalog.Ids
import WebZapret.Panel.OtherImports
import WebZapret.Panel.Survival
import WebZapret.Catalog.Accounting
import WebZapret.Selection.Accounting
import WebZapret.Catalog.Reimport
import WebZapret.Panel.Sequences
import WebZapret.Lib.Stream
import WebZapret.Lib.Sockaddr
import WebZapret.Relay.Associate
import WebZapret.Selection.PartialUpdate
import WebZapret.Lib.Py.Codec
import WebZapret.Lib.Py.Printing
import WebZapret.Panel.Http
import WebZapret.Panel.Logs
import WebZapret.Panel.Status
import WebZapret.Selection.Sendable
import WebZapret.Panel.Overview
import WebZapret.Catalog.Legacy
import WebZapret.Catalog.Lossless
import WebZapret.Catalog.Mixed
import WebZapret.Lib.StableSort
import WebZapret.Selection.Split
import WebZapret.Lib.Py.Runs
import WebZapret.Selection.RunFiles
import WebZapret.Lib.Folders
import WebZapret.Selection.Prune
import WebZapret.Lib.Deadline
import WebZapret.Selection.Deadline
import WebZapret.Panel.Collect
import WebZapret.Lib.Calendar
import WebZapret.Selection.LocalTime
import WebZapret.Lib.Py.Decimal
import WebZapret.Selection.Slots
import WebZapret.Selection.DaylightSaving
import WebZapret.Panel.Get
import WebZapret.Panel.Answers
import WebZapret.Panel.Post
import WebZapret.Panel.Requests
import WebZapret.Catalog.ArgStream
import WebZapret.Catalog.Scoping
import WebZapret.Lib.Fifo
import WebZapret.Relay.Queue
import WebZapret.Relay.Handshake
import WebZapret.Panel.Authed
import WebZapret.Relay.Reaper
import WebZapret.Panel.LogMerge
import WebZapret.Services.Dispatch
import WebZapret.Relay.Checksum
import WebZapret.Selection.Interval
import WebZapret.Lib.Py.Dumps
import WebZapret.Lib.Py.Loads
import WebZapret.Lib.Py.JsonText
import WebZapret.Lib.Py.JsonRoundTrip
import WebZapret.Lib.Py.Utf8
import WebZapret.Lib.Py.JsonSound
import WebZapret.Lib.Py.JsonFile
import WebZapret.Panel.JsonFiles
import WebZapret.Lib.Py.JsonDelimit
import WebZapret.Panel.Output
import WebZapret.Lib.Commands
import WebZapret.Firewall.Stepwise
import WebZapret.Lib.Chains
import WebZapret.Firewall.BesideTests
import WebZapret.Firewall.Stops
import WebZapret.Firewall.Paths
import WebZapret.Firewall.TestTraces
import WebZapret.Lib.Framing
import WebZapret.Panel.KeepAlive
