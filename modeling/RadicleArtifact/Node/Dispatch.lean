import RadicleArtifact.Library.Truncation
import RadicleArtifact.Node.Requests
import RadicleArtifact.Node.Status

/-!
# One-shot requests

A connection carries one command.  The one-shot ones are answered with a single line, from
the store and the tags alone; every call of the store may fail.
-/

namespace RadicleArtifact.Node

open RadicleArtifact.Core
open RadicleArtifact.Library
open RadicleArtifact.Library.Utf8 (OsString)

/-- What the store has of some content. -/
structure LocalInfo where
  localBytes : UInt64
  isComplete : Bool

/-- What the node is started with. -/
structure DispatchCtx (blake3 : Blake3) where
  iroh : IrohStore blake3
  /-- `remote().local(haf)` -/
  localInfo : BlobStore blake3 → HashAndFormat → Except String LocalInfo
  bytes : CidBytes
  cidText : Cid → String
  /-- `path.display()` -/
  pathText : PathBuf → String
  toZ32 : EndpointId → String
  endpointId : EndpointId
  startedAtUnix : Int64
  pkarrUrls : List Url

/-- What the handlers of a node share. -/
structure NodeState (blake3 : Blake3) where
  blobs : BlobStore blake3
  tags : Tags
  /-- A shutdown was broadcast. -/
  stopping : Bool

/-- Where the import of a single file fails. -/
inductive BlobFault where
  | canonicalize (err : String)
  | import (err : String)

def BlobFault.error : BlobFault → ShareError
  | .canonicalize err => .iroh ("canonicalize: " ++ err)
  | .import err => .iroh ("import blob: " ++ err)

/-- What one request meets outside the node. -/
structure RequestRun where
  /-- What stands at a path, symbolic links followed. -/
  file : PathBuf → Option (FileTree OsString (List UInt8))
  blob : Option BlobFault
  /-- Why a directory is not imported as a blob. -/
  notRegular : String
  importing : ImportFaults
  get : Option String
  set : Option String
  listing : Option ListFault
  /-- How many tags a listing that fails yields before. -/
  yielded : ℕ
  /-- By the number of deletions before. -/
  delete : ℕ → Option String
  endpoint : Endpoint
  /-- The orders in which hash maps are iterated. -/
  distinct : HashOrder (Hash × Cid)
  listed : HashOrder (Cid × Hash × List Oid)

/-! ## Tags, with the calls that fail -/

namespace RequestRun

variable (run : RequestRun) (bytes : CidBytes) (tags : Tags)

def isSeeded (rid : RepoId) (release : Oid) (cid : Cid) : Except ShareError Bool :=
  match run.get with
  | some err => .error (.iroh ("get seeded tag: " ++ err))
  | none => .ok (tags.isSeeded bytes rid release cid)

/-- A hit ends the listing, also one that would have failed later. -/
def isSeededAny (rid : RepoId) (cid : Cid) : Except ShareError Bool :=
  match run.listing with
  | some fault =>
      let before := (tags.listPrefix (Tags.seededRidPrefix rid)).take run.yielded
      match fault with
      | .list _ => .error fault.error
      | .stream _ =>
          if before.any fun info => Tags.namesCid bytes cid info.1 then .ok true
          else .error fault.error
  | none => .ok (tags.isSeededAny bytes rid cid)

def seededCids (rid : RepoId) : Except ShareError (IndexMap Cid (Hash × List Oid)) :=
  match run.listing with
  | some fault => .error fault.error
  | none => .ok (tags.seededCids bytes rid)

def tagSeeded (rid : RepoId) (release : Oid) (cid : Cid) (hash : Hash) :
    Except ShareError Tags := do
  let next ← tags.tagSeeded bytes rid release cid hash
  match run.set with
  | some err => .error (.iroh ("set seeded tag: " ++ err))
  | none => .ok next

def untagSeeded (rid : RepoId) (release : Oid) (cid : Cid) : Tags × Except ShareError Bool :=
  match run.delete 0 with
  | some err => (tags, .error (.iroh ("delete seeded tag: " ++ err)))
  | none =>
      let (removed, tags) := tags.untagSeeded bytes rid release cid
      (tags, .ok removed)

/-- Delete the names one by one, from the given position on, until one fails. -/
def deleteEach (index removed : ℕ) (tags : Tags) : List (List Byte) → Tags × Except ShareError ℕ
  | [] => (tags, .ok removed)
  | name :: names =>
      match run.delete index with
      | some err => (tags, .error (.iroh ("delete seeded tag: " ++ err)))
      | none =>
          let (count, tags) := tags.delete name
          deleteEach (index + 1) (removed + count) tags names

def untagAll (rid : RepoId) (cid : Cid) : Tags × Except ShareError ℕ :=
  match run.listing with
  | some fault => (tags, .error fault.error)
  | none =>
      run.deleteEach 0 0 tags
        (((tags.listPrefix (Tags.seededRidPrefix rid)).map Prod.fst).filter
          (Tags.namesCid bytes cid))

/-- A release given drops its tag alone, none those of every release. -/
def unseed (rid : RepoId) (cid : Cid) : Option Oid → Tags × Except ShareError Bool
  | some release => run.untagSeeded bytes tags rid release cid
  | none =>
      match run.untagAll bytes tags rid cid with
      | (tags, .error err) => (tags, .error err)
      | (tags, .ok removed) => (tags, .ok (decide (removed > 0)))

end RequestRun

/-! ## Requests -/

section Requests

variable {blake3 : Blake3} (ctx : DispatchCtx blake3) (run : RequestRun)
  (state : NodeState blake3)

/-- Import a single file and verify that it matches the expected id. -/
def importBlob (store : BlobStore blake3) (tree : FileTree OsString (List UInt8))
    (expected : Cid) : BlobStore blake3 × Except ShareError Hash :=
  match run.blob with
  | some fault => (store, .error fault.error)
  | none =>
      match tree with
      | .file contents =>
          let hash := blake3 contents
          let actual := blake3HashToCid hash .blob
          if actual ≠ expected then
            (store.add contents, .error (.cidMismatch (ctx.cidText expected) (ctx.cidText actual)))
          else (store.add contents, .ok hash)
      | _ => (store, .error (.iroh ("import blob: " ++ run.notRegular)))

def importArtifact (store : BlobStore blake3) (tree : FileTree OsString (List UInt8))
    (cid : Cid) : ArtifactKind → BlobStore blake3 × Except ShareError Hash
  | .blob => importBlob ctx run store tree cid
  | .collection => importCollection run.importing ctx.cidText store tree cid

/-- Import an artifact and register it as seeded in a single step. -/
def seedArtifact (rid : RepoId) (release : Oid) (cid : Cid)
    (tree : FileTree OsString (List UInt8)) (kind : ArtifactKind) :
    NodeState blake3 × Except ShareError Hash :=
  match importArtifact ctx run state.blobs tree cid kind with
  | (blobs, .error err) => ({ state with blobs := blobs }, .error err)
  | (blobs, .ok hash) =>
      match run.tagSeeded ctx.bytes state.tags rid release cid hash with
      | .error err => ({ state with blobs := blobs }, .error err)
      | .ok tags => ({ state with blobs := blobs, tags := tags }, .ok hash)

def seedResponse (rid : RepoId) (release : Oid) (cid : Cid) (path : PathBuf)
    (kind : ArtifactKind) : NodeState blake3 × CommandResult SeedReceipt :=
  match run.file path with
  | none => (state, .error ⟨.pathNotFound, "path not found: " ++ ctx.pathText path⟩)
  | some tree =>
      match run.isSeeded ctx.bytes state.tags rid release cid with
      | .error err => (state, .error err.toCommandError)
      | .ok wasAlready =>
          match seedArtifact ctx run state rid release cid tree kind with
          | (next, .error err) => (next, .error err.toCommandError)
          | (next, .ok hash) =>
              (next, .okay
                { rid := rid
                  cid := cid
                  endpointId := ctx.endpointId
                  bytes := .ofNat (artifactSizeFor ctx.iroh next.blobs cid hash)
                  wasNew := !wasAlready })

def unseedResponse (rid : RepoId) (release : Option Oid) (cid : Cid) :
    NodeState blake3 × CommandResult UnseedReceipt :=
  match run.unseed ctx.bytes state.tags rid cid release with
  | (tags, .error err) => ({ state with tags := tags }, .error err.toCommandError)
  | (tags, .ok wasRemoved) => ({ state with tags := tags }, .okay ⟨rid, cid, wasRemoved⟩)

def isSeedingResponse (rid : RepoId) (cid : Cid) : CommandResult Bool :=
  match run.isSeededAny ctx.bytes state.tags rid cid with
  | .ok seeding => .okay seeding
  | .error err => .error err.toCommandError

/-- Whether the store holds every byte of the content, where it can say. -/
def artifactIsComplete (cid : Cid) (hash : Hash) : Option Bool := do
  let value ← (tagValue cid hash).toOption
  let info ← (ctx.localInfo state.blobs value).toOption
  return info.isComplete

def listSeededResponse (rid : RepoId) : CommandResult (List SeededEntry) :=
  match run.seededCids ctx.bytes state.tags rid with
  | .error err => .error err.toCommandError
  | .ok cids =>
      .okay ((run.listed.iterate cids.entries).map fun (cid, hash, releases) =>
        { cid := cid
          bytes := .ofNat (artifactSizeFor ctx.iroh state.blobs cid hash)
          complete := artifactIsComplete ctx state cid hash
          releases := releases })

/-- Presence and completeness, whichever repository tagged the content. -/
def hasResponse (cid : Cid) : CommandResult HasResult :=
  match hashAndFormat cid with
  | .error err => .error err
  | .ok content =>
      match ctx.localInfo state.blobs content with
      | .error err => .error ⟨.iroh, "local lookup: " ++ err⟩
      | .ok info => .okay ⟨decide (info.localBytes > 0), info.isComplete, info.localBytes⟩

def statusResponse : CommandResult Status :=
  let figures : StatusCtx blake3 := ⟨state.blobs, state.tags, run.listing, run.endpoint,
    ctx.endpointId, ctx.startedAtUnix, ctx.pkarrUrls⟩
  match buildStatus ctx.iroh ctx.bytes run.distinct ctx.toZ32 figures with
  | .error err => .error err.toCommandError
  | .ok status => .okay status

/-- What a command is answered with. -/
def replyTo : Command → Reply
  | .alive => .ack
  | .status => .status
  | .seed _ _ _ _ _ _ => .seed
  | .unseed _ _ _ => .unseed
  | .isSeeding _ _ => .isSeeding
  | .listSeeded _ => .listSeeded
  | .has _ => .has
  | .export _ _ => .export
  | .fetch _ _ _ _ => .fetch
  | .download _ _ _ _ _ => .download
  | .shutdown => .ack

/-- Dispatch a one-shot command.  The streaming ones never get here. -/
def dispatch : (cmd : Command) →
    Option (NodeState blake3 × CommandResult (replyTo cmd).Payload)
  | .alive => some (state, .okay ())
  | .status => some (state, statusResponse ctx run state)
  | .seed rid release cid path kind _ =>
      some (seedResponse ctx run state rid release cid path kind)
  | .unseed rid release cid => some (unseedResponse ctx run state rid release cid)
  | .isSeeding rid cid => some (state, isSeedingResponse ctx run state rid cid)
  | .listSeeded rid => some (state, listSeededResponse ctx run state rid)
  | .has cid => some (state, hasResponse ctx state cid)
  | .export _ _ => none
  | .fetch _ _ _ _ => none
  | .download _ _ _ _ _ => none
  | .shutdown => some ({ state with stopping := true }, .okay ())

variable (codec : WireCodec) (errors : RequestErrors)

/-- The line that answers a result. -/
def respond {Payload : Type} (payload : WireForm Payload) : CommandResult Payload → List Char
  | .okay value => writeLine (okJson codec payload value)
  | .error err => writeLine (errJson codec payload err.code err.message)

/-- Answer the command of a connection, of which no more than these bytes come; nothing is
written when no line could be read, and streaming commands write frames of their own. -/
def handleConnection (sent : OsString) : NodeState blake3 × Option (List Char) :=
  let line := Utf8.readLine sent
  if line = [] then (state, none)
  else
    match Utf8.toStr line with
    | none => (state, none)
    | some text =>
        match parseCommand codec errors (Utf8.trimEnd text.toList) with
        | .error err => (state, some (respond codec .unit (.error err)))
        | .ok cmd =>
            match dispatch ctx run state cmd with
            | none => (state, none)
            | some (next, result) =>
                (next, some (respond codec ((replyTo cmd).form codec.toWireTexts) result))

end Requests

/-- A request that meets no fault, with the same tree at every path. -/
def RequestRun.faultless (file : Option (FileTree OsString (List UInt8))) : RequestRun where
  file _ := file
  blob := none
  notRegular := ""
  importing := .none
  get := none
  set := none
  listing := none
  yielded := 0
  delete _ := none
  endpoint := default
  distinct := ⟨id, fun _ => .refl _⟩
  listed := ⟨id, fun _ => .refl _⟩

/-- A node of which nothing is asked beyond its tags. -/
noncomputable def DispatchCtx.sample (blake3 : Blake3) (bytes : CidBytes) : DispatchCtx blake3 where
  iroh := .stored blake3
  localInfo _ _ := .error ""
  bytes := bytes
  cidText _ := ""
  pathText _ := ""
  toZ32 _ := ""
  endpointId := .filled 32 3
  startedAtUnix := 0
  pkarrUrls := []

end RadicleArtifact.Node
