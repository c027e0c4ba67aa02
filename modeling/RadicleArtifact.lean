import RadicleArtifact.Library.BTreeMap
import RadicleArtifact.Library.IndexMap
import RadicleArtifact.Library.History
import RadicleArtifact.Library.Interleaving
import RadicleArtifact.Library.Json
import RadicleArtifact.Library.Lines
import RadicleArtifact.Library.JsonText
import RadicleArtifact.Library.Sorting
import RadicleArtifact.Library.Serde
import RadicleArtifact.Library.Utf8
import RadicleArtifact.Library.Wire
import RadicleArtifact.Library.Truncation
import RadicleArtifact.Library.Postcard
import RadicleArtifact.Library.FileTree
import RadicleArtifact.Library.TreeChange
import RadicleArtifact.Library.Disk
import RadicleArtifact.Library.Sweep
import RadicleArtifact.Library.Fallible
import RadicleArtifact.Library.Transition
import RadicleArtifact.Library.Arrangement
import RadicleArtifact.Core.Identifiers
import RadicleArtifact.Core.Cid
import RadicleArtifact.Core.Collection
import RadicleArtifact.Core.ContentId
import RadicleArtifact.Core.Protocol
import RadicleArtifact.Core.Wire
import RadicleArtifact.Core.Text
import RadicleArtifact.Core.Keys
import RadicleArtifact.Cob.Release
import RadicleArtifact.Cob.Reducer
import RadicleArtifact.Cob.Replay
import RadicleArtifact.Cob.Authority
import RadicleArtifact.Cob.Commute
import RadicleArtifact.Cob.Invariants
import RadicleArtifact.Cob.Codec
import RadicleArtifact.Trust.Trust
import RadicleArtifact.Trust.History
import RadicleArtifact.Trust.Noninterference
import RadicleArtifact.Releases.Git
import RadicleArtifact.Releases.Locations
import RadicleArtifact.Releases.Filters
import RadicleArtifact.Cli.Verify
import RadicleArtifact.Cli.Rejection
import RadicleArtifact.Cli.Retrieval
import RadicleArtifact.Cli.List
import RadicleArtifact.Cli.Reconcile
import RadicleArtifact.Cli.Drift
import RadicleArtifact.Watch.Wanted
import RadicleArtifact.Watch.Budget
import RadicleArtifact.Replicas.Api
import RadicleArtifact.Replicas.Graph
import RadicleArtifact.Replicas.Invariants
import RadicleArtifact.Replicas.Views
import RadicleArtifact.Replicas.Agreement
import RadicleArtifact.Client.Codec
import RadicleArtifact.Client.RoundTrip
import RadicleArtifact.Client.Streaming
import RadicleArtifact.Client.Session
import RadicleArtifact.Client.Delivery
import RadicleArtifact.Node.Socket
import RadicleArtifact.Node.Requests
import RadicleArtifact.Node.Store
import RadicleArtifact.Node.Fetch
import RadicleArtifact.Node.Stream
import RadicleArtifact.Node.Export
import RadicleArtifact.Node.Staging
import RadicleArtifact.Node.Atomic
import RadicleArtifact.Node.Containment
import RadicleArtifact.Node.Import
import RadicleArtifact.Node.Restore
import RadicleArtifact.Node.Tags
import RadicleArtifact.Node.Gc
import RadicleArtifact.Node.Status
import RadicleArtifact.Node.Figures
import RadicleArtifact.Node.Dispatch
import RadicleArtifact.Node.Service
import RadicleArtifact.Node.Server
import RadicleArtifact.Node.Handlers
import RadicleArtifact.Node.Drain
import RadicleArtifact.Node.Concurrent
import RadicleArtifact.Client.Call
import RadicleArtifact.Client.Conversation
import RadicleArtifact.Cache.Store
import RadicleArtifact.Cache.Writes
import RadicleArtifact.Cache.Reads
import RadicleArtifact.Cache.Coherence
import RadicleArtifact.Cache.Refinement
import RadicleArtifact.Cache.Run
import RadicleArtifact.Cache.List
import RadicleArtifact.Cache.Concurrent
import RadicleArtifact.Watch.Loop
import RadicleArtifact.Watch.Sweeping
import RadicleArtifact.Watch.Announcing
import RadicleArtifact.Cli.Register
import RadicleArtifact.Cli.Publishing
import RadicleArtifact.Cli.Creating
import RadicleArtifact.Cache.Discovery
