import Kb1Daemon.Client.DocumentProvider
import Kb1Daemon.Client.DocumentRoute
import Kb1Daemon.Client.Favorites
import Kb1Daemon.Client.LinkTarget
import Kb1Daemon.Client.SaveStates
import Kb1Daemon.Client.UrlPath
import Kb1Daemon.Foundation.Firsts
import Kb1Daemon.Foundation.HostText
import Kb1Daemon.Foundation.IsoTime
import Kb1Daemon.Foundation.JsNumber
import Kb1Daemon.Foundation.JsString
import Kb1Daemon.Foundation.Json
import Kb1Daemon.Foundation.JsonCompact
import Kb1Daemon.Foundation.JsonPretty
import Kb1Daemon.Foundation.Machine
import Kb1Daemon.Foundation.Numeral
import Kb1Daemon.Foundation.Occurrences
import Kb1Daemon.Foundation.Paging
import Kb1Daemon.Foundation.PercentEncoding
import Kb1Daemon.Foundation.Pieces
import Kb1Daemon.Foundation.PosixDisk
import Kb1Daemon.Foundation.PosixTree
import Kb1Daemon.Foundation.Program
import Kb1Daemon.Foundation.Rekey
import Kb1Daemon.Foundation.SafeInteger
import Kb1Daemon.Foundation.Segments
import Kb1Daemon.Foundation.Slots
import Kb1Daemon.Foundation.StoppingRun
import Kb1Daemon.Foundation.Table
import Kb1Daemon.Foundation.Utf8
import Kb1Daemon.History.Entries
import Kb1Daemon.History.Flush
import Kb1Daemon.History.Formed
import Kb1Daemon.History.Index
import Kb1Daemon.History.Listing
import Kb1Daemon.History.Message
import Kb1Daemon.History.Ordering
import Kb1Daemon.History.Paging
import Kb1Daemon.History.Queue
import Kb1Daemon.History.RoundTrip
import Kb1Daemon.History.Walk
import Kb1Daemon.Manager.Announce
import Kb1Daemon.Manager.Bindings
import Kb1Daemon.Manager.Coalesce
import Kb1Daemon.Manager.Delete
import Kb1Daemon.Manager.Deleted
import Kb1Daemon.Manager.Exclusion
import Kb1Daemon.Manager.Keys
import Kb1Daemon.Manager.Leases
import Kb1Daemon.Manager.Move
import Kb1Daemon.Manager.PathMutation
import Kb1Daemon.Manager.Paths
import Kb1Daemon.Manager.Registry
import Kb1Daemon.Manager.Transition
import Kb1Daemon.Mcp.Endpoint
import Kb1Daemon.Mcp.Shutdown
import Kb1Daemon.Migration.Copy
import Kb1Daemon.Migration.Disk
import Kb1Daemon.Migration.Resume
import Kb1Daemon.Registry.Boot
import Kb1Daemon.Registry.Entry
import Kb1Daemon.Registry.Identity
import Kb1Daemon.Registry.Live
import Kb1Daemon.Registry.Slots
import Kb1Daemon.Registry.SoftDelete
import Kb1Daemon.Registry.Updates
import Kb1Daemon.Service.TreeReads
import Kb1Daemon.Service.TreeWatch
import Kb1Daemon.Session.Account
import Kb1Daemon.Session.Acknowledge
import Kb1Daemon.Session.Append
import Kb1Daemon.Session.Baseline
import Kb1Daemon.Session.Basic
import Kb1Daemon.Session.Calls
import Kb1Daemon.Session.FailedSave
import Kb1Daemon.Session.Load
import Kb1Daemon.Session.OwnDisk
import Kb1Daemon.Session.OwnWrites
import Kb1Daemon.Session.Persist
import Kb1Daemon.Session.Replica
import Kb1Daemon.Session.Runtime
import Kb1Daemon.Session.Saving
import Kb1Daemon.Session.Steady
import Kb1Daemon.Snapshot.Confinement
import Kb1Daemon.Snapshot.HomeLayout
import Kb1Daemon.Snapshot.Included
import Kb1Daemon.Snapshot.Manifest
import Kb1Daemon.Snapshot.Naming
import Kb1Daemon.Snapshot.Paths
import Kb1Daemon.Snapshot.Renaming
import Kb1Daemon.Snapshot.Restore
import Kb1Daemon.Snapshot.RestorePlan
import Kb1Daemon.Snapshot.RestoreRun
import Kb1Daemon.Sync.Acks
import Kb1Daemon.Sync.Replica
import Kb1Daemon.Sync.Room
import Kb1Daemon.Sync.Structs
import Kb1Daemon.Text.Anchored
import Kb1Daemon.Text.Frontmatter
import Kb1Daemon.Text.LineEndings
import Kb1Daemon.Text.Lines
import Kb1Daemon.Text.Normalized
import Kb1Daemon.Text.RawLines
import Kb1Daemon.Text.RawOffsets
import Kb1Daemon.Text.Splice
import Kb1Daemon.Tunnel.Assembler
import Kb1Daemon.Tunnel.Base64
import Kb1Daemon.Tunnel.Codec
import Kb1Daemon.Tunnel.Control
import Kb1Daemon.Tunnel.Inbound
import Kb1Daemon.Tunnel.Loopback
import Kb1Daemon.Tunnel.Mux
import Kb1Daemon.Tunnel.Reconnect
import Kb1Daemon.Tunnel.Response
import Kb1Daemon.Tunnel.Routing
import Kb1Daemon.Tunnel.Streaming
import Kb1Daemon.Tunnel.Url
import Kb1Daemon.Tunnel.Window
import Kb1Daemon.Vault.Artifact
import Kb1Daemon.Vault.Containment
import Kb1Daemon.Vault.Disk
import Kb1Daemon.Vault.FileSystem
import Kb1Daemon.Vault.Following
import Kb1Daemon.Vault.Listing
import Kb1Daemon.Vault.Metadata
import Kb1Daemon.Vault.MetadataView
import Kb1Daemon.Vault.Moving
import Kb1Daemon.Vault.Mutations
import Kb1Daemon.Vault.Operations
import Kb1Daemon.Vault.Path
import Kb1Daemon.Vault.Readback
import Kb1Daemon.Vault.Search
import Kb1Daemon.Vault.SearchPages
import Kb1Daemon.Vault.Sections
import Kb1Daemon.Vault.Serialized
import Kb1Daemon.Vault.Slug
import Kb1Daemon.Vault.Tree
