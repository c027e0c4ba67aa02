import RadicleArtifact.Core.Protocol
import RadicleArtifact.Node.Store

/-!
# Fetching into the store

A fetch looks for the root of the content in the store and, where it is
missing, tries the iroh providers in one download and the URLs one after the
other.  What the network does is a parameter of the run: the events of the
download, the outcome of each URL, and the blobs each of them leaves.
-/

namespace RadicleArtifact.Node

open RadicleArtifact.Core
open RadicleArtifact.Library

/-- Errors of fetch and export operations. -/
inductive ShareError where
  | http (message : String)
  | iroh (message : String)
  | io (message : String)
  | cidMismatch (expected actual : String)
  | cid (message : String)
  deriving DecidableEq

namespace ShareError

/-- `Display` of the error. -/
def message : ShareError → String
  | .http text => "HTTP fetch failed: " ++ text
  | .iroh text => "iroh error: " ++ text
  | .io text => "I/O error: " ++ text
  | .cidMismatch expected actual =>
      "CID mismatch: expected " ++ expected ++ ", got " ++ actual
  | .cid text => "CID error: " ++ text

def ofCore : Core.Error → ShareError
  | .io text => .io text
  | .cid text => .cid text
  | .cidMismatch expected actual => .cidMismatch expected actual
  | .key text => .iroh text

end ShareError

def shareErrorToCode : ShareError → ErrorCode
  | .cidMismatch _ _ => .cidMismatch
  | .io _ => .io
  | .iroh _ => .iroh
  | _ => .internal

/-- One event of a provider download.  `timeout` is the idle deadline passing
before the next event. -/
inductive DownloadEvent where
  | tryProvider (id : EndpointId)
  | providerFailed (id : EndpointId)
  | progress (offset : UInt64)
  | partComplete
  | downloadError
  | error (cause : String)
  | timeout

/-- What the downloader does with a request. -/
structure Download where
  /-- The stream of events, or why it could not be opened. -/
  stream : Except String (List DownloadEvent)
  /-- The blobs the download leaves. -/
  blobs : Blobs → Blobs

/-- What fetching and importing one URL does. -/
structure HttpImport where
  frames : List FetchProgress
  /-- The hash of the imported body. -/
  imported : Except ShareError Hash
  blobs : Blobs → Blobs

/-- Everything outside the node that a fetch depends on. -/
structure FetchRun where
  tempTag : Except String Unit
  download : List EndpointId → Download
  http : Url → HttpImport

/-- The node's handles, and the texts its messages use. -/
structure NodeCtx where
  iroh : Iroh
  endpointId : EndpointId
  endpointText : EndpointId → String
  cidText : Cid → String
  artifactSize : Blobs → Cid → Hash → UInt64

/-- What one way of getting the bytes came to. -/
structure Attempt where
  frames : List FetchProgress
  blobs : Blobs
  got : Bool
  errors : List String

section Fetch

variable (ctx : NodeCtx)

/-- Follow the events of a download: the progress frames, the errors of single
providers, and what ended the download early. -/
def followDownload :
    List DownloadEvent → List FetchProgress × List ShareError × Option ShareError
  | [] => ([], [], none)
  | .tryProvider id :: events =>
      let (frames, errors, fatal) := followDownload events
      (.tryingLocation id :: frames, errors, fatal)
  | .providerFailed id :: events =>
      let (frames, errors, fatal) := followDownload events
      (.locationFailed id :: frames,
        .iroh ("location " ++ ctx.endpointText id ++ ": download failed") :: errors, fatal)
  | .progress offset :: events =>
      let (frames, errors, fatal) := followDownload events
      (.downloading offset none :: frames, errors, fatal)
  | .partComplete :: events => followDownload events
  | .downloadError :: _ => ([], [], some (.iroh "download error"))
  | .error cause :: _ => ([], [], some (.iroh cause))
  | .timeout :: _ => ([], [], some (.iroh "no progress for 60s"))

/-- Run a multi-provider download.  The store decides whether it succeeded, by
the root blob alone. -/
def downloadIrohToStore (download : Download) (blobs : Blobs) (content : HashAndFormat) :
    List FetchProgress × Blobs × Except (List ShareError) Unit :=
  match download.stream with
  | .error err => ([], download.blobs blobs, .error [.iroh ("downloader rpc: " ++ err)])
  | .ok events =>
      let (frames, errors, fatal) := followDownload ctx events
      let after := download.blobs blobs
      match ctx.iroh.has after content.hash with
      | .ok true => (frames, after, .ok ())
      | .ok false => (frames, after, .error (errors ++ fatal.toList))
      | .error err =>
          (frames, after,
            .error (errors ++ .iroh ("store completeness check: " ++ err) :: fatal.toList))

/-- Download a URL into the store and check that its hash is the expected one. -/
def httpToStore (attempt : HttpImport) (expected : Cid) : Except ShareError Hash :=
  match cidToBlake3Hash expected with
  | .error err => .error (.ofCore err)
  | .ok expectedHash =>
      match attempt.imported with
      | .error err => .error err
      | .ok hash =>
          if hash ≠ expectedHash then
            .error (.cidMismatch (ctx.cidText expected)
              (ctx.cidText (blake3HashToCid hash .blob)))
          else .ok hash

/-- Try the URLs in sequence and stop at the first success. -/
def tryUrls (http : Url → HttpImport) (expected : Cid) : Blobs → List Url → Attempt
  | blobs, [] => ⟨[], blobs, false, []⟩
  | blobs, url :: urls =>
      let attempt := http url
      let after := attempt.blobs blobs
      match httpToStore ctx attempt expected with
      | .ok _ => ⟨attempt.frames, after, true, []⟩
      | .error err =>
          let rest := tryUrls http expected after urls
          ⟨attempt.frames ++ rest.frames, rest.blobs, rest.got,
            err.message :: rest.errors⟩

/-- Split resolved locations into iroh providers and URLs. -/
def partition (locations : List FetchLocation) : List EndpointId × List Url :=
  (locations.filterMap fun
      | .iroh id => some id
      | .url _ => none,
    locations.filterMap fun
      | .url url => some url
      | .iroh _ => none)

/-- Resolve a CID to the hash and format of its content, or a wire error. -/
def hashAndFormat (cid : Cid) : Except CommandError HashAndFormat :=
  match cidToBlake3Hash cid with
  | .error err => .error ⟨.invalidRequest, err.message⟩
  | .ok hash =>
      match artifactKind cid with
      | .ok .blob => .ok ⟨hash, .raw⟩
      | .ok .collection => .ok ⟨hash, .hashSeq⟩
      | .error err => .error ⟨.invalidRequest, err.message⟩

/-- An artifact the fetch reports as complete in the store. -/
structure Fetched where
  kind : ArtifactKind
  hash : Hash
  fromCache : Bool

/-- The frames, the blobs and the result of a fetch. -/
structure FetchOutcome where
  frames : List FetchProgress
  blobs : Blobs
  result : Except CommandError Fetched

/-- The providers, in one download. -/
def tryProviders (run : FetchRun) (blobs : Blobs) (content : HashAndFormat)
    (irohIds : List EndpointId) : Attempt :=
  if irohIds.isEmpty then ⟨[], blobs, false, []⟩
  else
    match downloadIrohToStore ctx (run.download irohIds) blobs content with
    | (frames, after, .ok ()) => ⟨frames, after, true, []⟩
    | (frames, after, .error errors) => ⟨frames, after, false, errors.map ShareError.message⟩

/-- URLs are a fallback for single blobs only. -/
def tryFallback (run : FetchRun) (blobs : Blobs) (cid : Cid) (urls : List Url) :
    ArtifactKind → Attempt
  | .blob => tryUrls ctx run.http cid blobs urls
  | .collection =>
      ⟨[], blobs, false, urls.map fun url =>
        "HTTP fetch unsupported for collection: " ++ url.serialization⟩

/-- Try the providers, then the fallback. -/
def tryLocations (run : FetchRun) (blobs : Blobs) (cid : Cid) (kind : ArtifactKind)
    (content : HashAndFormat) (irohIds : List EndpointId) (urls : List Url) : Attempt :=
  let providers := tryProviders ctx run blobs content irohIds
  if providers.got then providers
  else
    let fallback := tryFallback ctx run providers.blobs cid urls kind
    ⟨providers.frames ++ fallback.frames, fallback.blobs, fallback.got,
      providers.errors ++ fallback.errors⟩

/-- Trust the store: complete means the artifact is there, whatever the attempt
reported. -/
def recheck (kind : ArtifactKind) (content : HashAndFormat) (noLocations : Bool)
    (attempt : Attempt) : FetchOutcome :=
  let complete :=
    match ctx.iroh.isComplete attempt.blobs content with
    | .ok complete => complete
    | .error _ => false
  if complete then
    ⟨.connecting :: attempt.frames, attempt.blobs, .ok ⟨kind, content.hash, false⟩⟩
  else
    ⟨.connecting :: attempt.frames, attempt.blobs, .error
      ⟨if noLocations then .noLocations else .allFailed,
        if attempt.errors.isEmpty then "no locations succeeded"
        else "; ".intercalate attempt.errors⟩⟩

/-- The slow path of a fetch. -/
def downloadIntoStore (run : FetchRun) (blobs : Blobs) (cid : Cid) (kind : ArtifactKind)
    (content : HashAndFormat) (locations : List FetchLocation) : FetchOutcome :=
  let (irohIds, urls) := partition locations
  recheck ctx kind content (irohIds.isEmpty && urls.isEmpty)
    (tryLocations ctx run blobs cid kind content irohIds urls)

/-- Fetch `cid` into the store.  The fast path asks for the root blob only. -/
def fetchIntoStore (run : FetchRun) (blobs : Blobs) (cid : Cid)
    (locations : List FetchLocation) : FetchOutcome :=
  match artifactKind cid with
  | .error err => ⟨[], blobs, .error ⟨.invalidRequest, err.message⟩⟩
  | .ok kind =>
      match hashAndFormat cid with
      | .error err => ⟨[], blobs, .error err⟩
      | .ok content =>
          match run.tempTag with
          | .error err => ⟨[], blobs, .error ⟨.iroh, "temp tag: " ++ err⟩⟩
          | .ok () =>
              match ctx.iroh.has blobs content.hash with
              | .error err => ⟨[], blobs, .error ⟨.iroh, "local lookup: " ++ err⟩⟩
              | .ok true => ⟨[], blobs, .ok ⟨kind, content.hash, true⟩⟩
              | .ok false => downloadIntoStore ctx run blobs cid kind content locations

end Fetch

/-! ## What success promises -/

section Success

variable {ctx : NodeCtx} {children : Hash → List Hash} {content : HashAndFormat}
  {kind : ArtifactKind} {fetched : Fetched}

/-- The slow path succeeds only with all of the content in the store. -/
theorem holds_of_recheck (hiroh : ctx.iroh.Honest children) {noLocations : Bool}
    {attempt : Attempt}
    (hfetched : (recheck ctx kind content noLocations attempt).result = .ok fetched) :
    Holds children (recheck ctx kind content noLocations attempt).blobs content := by
  rw [recheck] at hfetched ⊢
  simp only [hiroh.isComplete, decide_eq_true_eq] at hfetched ⊢
  by_cases hholds : Holds children attempt.blobs content
  · simpa only [if_pos hholds] using hholds
  · simp [hholds] at hfetched

/-- A fetch of content whose root the store does not misjudge is complete when
it succeeds. -/
theorem holds_of_fetchIntoStore (hiroh : ctx.iroh.Honest children) {cid : Cid}
    (hcontent : hashAndFormat cid = .ok content) {run : FetchRun} {blobs : Blobs}
    {locations : List FetchLocation}
    (hroot : content.hash ∈ blobs → Holds children blobs content)
    (hfetched : (fetchIntoStore ctx run blobs cid locations).result = .ok fetched) :
    Holds children (fetchIntoStore ctx run blobs cid locations).blobs content := by
  rw [fetchIntoStore] at hfetched ⊢
  cases hkind : artifactKind cid with
  | error err => simp [hkind] at hfetched
  | ok kind =>
      simp only [hkind, hcontent] at hfetched ⊢
      cases htag : run.tempTag with
      | error err => simp [htag] at hfetched
      | ok tag =>
          simp only [htag, hiroh.has] at hfetched ⊢
          by_cases hmem : content.hash ∈ blobs
          · simpa only [hmem, decide_true] using hroot hmem
          · simp only [hmem, decide_false] at hfetched ⊢
            exact holds_of_recheck hiroh hfetched

end Success

end RadicleArtifact.Node
