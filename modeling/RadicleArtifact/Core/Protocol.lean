import RadicleArtifact.Core.Cid
import RadicleArtifact.Library.Utf8

/-!
# Wire protocol of the control socket

Commands, their results and the frames of streamed responses.  A path is a byte
string, as the operating system has it.
-/

namespace RadicleArtifact.Core

open RadicleArtifact.Library.Utf8

abbrev PathBuf := OsString

/-- How imported bytes are placed in the store. -/
inductive ImportMode where
  | copy
  | reference
  deriving DecidableEq

/-- A resolved place to fetch an artifact from. -/
inductive FetchLocation where
  | url (url : Url)
  | iroh (id : EndpointId)

/-- A control-socket request. -/
inductive Command where
  | alive
  | status
  | seed (rid : RepoId) (release : Oid) (cid : Cid) (path : PathBuf) (kind : ArtifactKind)
      (mode : ImportMode)
  | unseed (rid : RepoId) (release : Option Oid) (cid : Cid)
  | isSeeding (rid : RepoId) (cid : Cid)
  | listSeeded (rid : RepoId)
  | has (cid : Cid)
  | export (cid : Cid) (dest : PathBuf)
  | fetch (rid : RepoId) (cid : Cid) (locations : List FetchLocation) (seed : Option Oid)
  | download (rid : RepoId) (cid : Cid) (locations : List FetchLocation) (dest : PathBuf)
      (seed : Option Oid)
  | shutdown

/-- Classifier for failures. -/
inductive ErrorCode where
  | cidMismatch
  | pathNotFound
  | notSeeding
  | io
  | iroh
  | invalidRequest
  | notLocal
  | noLocations
  | allFailed
  | internal
  deriving DecidableEq

structure CommandError where
  code : ErrorCode
  message : String
  deriving DecidableEq

/-- Top-level response envelope. -/
inductive CommandResult (Payload : Type) where
  | okay (payload : Payload)
  | error (err : CommandError)

inductive FetchProgress where
  | connecting
  | tryingLocation (endpointId : EndpointId)
  | locationFailed (endpointId : EndpointId)
  | downloading (offset : UInt64) (total : Option UInt64)
  | exporting (offset : UInt64) (total : Option UInt64) (entry : Option String)

/-- Frame of a streaming response. -/
inductive StreamEvent (Payload : Type) where
  | progress (progress : FetchProgress)
  | okay (payload : Payload)
  | error (err : CommandError)

structure SeedReceipt where
  rid : RepoId
  cid : Cid
  endpointId : EndpointId
  bytes : UInt64
  wasNew : Bool

structure UnseedReceipt where
  rid : RepoId
  cid : Cid
  wasRemoved : Bool

/-- One entry returned by `ListSeeded`. -/
structure SeededEntry where
  cid : Cid
  bytes : UInt64
  complete : Option Bool
  releases : List Oid

structure HasResult where
  present : Bool
  complete : Bool
  bytes : UInt64

structure ExportReceipt where
  cid : Cid
  dest : PathBuf
  bytes : UInt64

structure FetchReceipt where
  rid : RepoId
  cid : Cid
  bytes : UInt64
  fromCache : Bool
  seeded : Bool
  endpointId : EndpointId

structure DownloadReceipt where
  rid : RepoId
  cid : Cid
  dest : PathBuf
  bytes : UInt64
  fromCache : Bool
  seeded : Bool
  endpointId : EndpointId

structure SeededStats where
  count : UInt64
  bytesLogical : UInt64

structure ConnectionStats where
  active : UInt32
  openedTotal : UInt64
  closedTotal : UInt64
  directTotal : UInt64
  holepunchAttempts : UInt64
  pathsDirect : UInt64
  pathsRelayed : UInt64

structure TrafficStats where
  outBytes : UInt64
  inBytes : UInt64

/-- Connection status and measured latency of a single home relay. -/
structure RelayHealth where
  url : String
  connected : Bool
  latencyMs : Option UInt64
  lastError : Option String

structure RelayStats where
  relays : List RelayHealth
  preferred : Option String
  udpV4 : Bool
  udpV6 : Bool

structure PkarrStats where
  uri : String
  relays : List Url

structure Warnings where
  relayUnreachable : Bool

structure Status where
  endpointId : EndpointId
  version : Option String
  startedAtUnix : Int64
  seeded : SeededStats
  connections : ConnectionStats
  traffic : TrafficStats
  relay : RelayStats
  pkarr : Option PkarrStats
  warnings : Warnings

end RadicleArtifact.Core
