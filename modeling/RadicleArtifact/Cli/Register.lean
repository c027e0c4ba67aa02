import RadicleArtifact.Core.ContentId
import RadicleArtifact.Library.Fallible
import RadicleArtifact.Library.TreeChange
import RadicleArtifact.Releases.Locations
import RadicleArtifact.Replicas.Api
import RadicleArtifact.Cli.Verify

/-!
# Creating and registering

`create` opens a release for a commit.  `register` hashes local files, finds or creates the
release they go into, and writes one signed entry for each.  Either can fail halfway: the
entries that were written stay.
-/

namespace RadicleArtifact.Cli

open RadicleArtifact.Core
open RadicleArtifact.Library
open RadicleArtifact.Library.Utf8 (OsString)
open RadicleArtifact.Cob
open RadicleArtifact.Releases (Listing StoreError)
open RadicleArtifact.Replicas (Method sizeValue)
open RadicleArtifact.Watch (metadataKeySizeBytes)

/-- A path, by its components. -/
abbrev Path := List OsString

/-- `Path::file_name` -/
def Path.fileName (path : Path) : Option OsString :=
  path.getLast?.filter (· ≠ [0x2e, 0x2e])

abbrev IoText := String

/-- What the file system holds while a command runs.  Every read can fail, and one that
succeeds reads what is there, a directory in any order. -/
structure Files where
  find : Path → Option (FileTree OsString (List UInt8))
  distinct : ∀ path tree, find path = some tree → tree.Distinct
  find_child : ∀ path entries name contents, find path = some (.dir entries) →
    (name, .file contents) ∈ entries → find (path ++ [name]) = some (.file contents)
  read : Path → Except IoText (List UInt8)
  read_file : ∀ path contents bytes, find path = some (.file contents) →
    read path = .ok bytes → bytes = contents
  readDir : Path → Except IoText DirEntries
  find_readDir : ∀ path listed, readDir path = .ok listed →
    ∃ entries, find path = some (.dir entries) ∧ listed.Perm entries
  walk : Path → Except IoText (FileTree OsString (List UInt8))
  find_walk : ∀ path walked, walk path = .ok walked →
    ∃ tree, find path = some tree ∧ tree.Reordered walked

namespace Files

variable (files : Files)

/-- `Path::is_dir` -/
def isDir (path : Path) : Bool :=
  match files.find path with
  | some (.dir _) => true
  | _ => false

/-- A tree that every read goes through on and that is listed as it stands. -/
def ofTree (tree : FileTree OsString (List UInt8)) (hdistinct : tree.Distinct) : Files where
  find := tree.lookup
  distinct path found hfind := hdistinct.of_lookup hfind
  find_child path entries name contents hdir hchild := by
    have hnodup := (FileTree.distinct_dir_iff.mp (hdistinct.of_lookup hdir)).1
    rw [FileTree.lookup_append, hdir, Option.bind_some, FileTree.lookup_dir_cons,
      (FileTree.lookup_entries_eq_some_iff hnodup).mpr hchild]
    rfl
  read path :=
    match tree.lookup path with
    | some (.file contents) => .ok contents
    | _ => .error "No such file or directory"
  read_file path contents bytes hfind hread := by
    rw [hfind] at hread
    exact (Except.ok.inj hread).symm
  readDir path :=
    match tree.lookup path with
    | some (.dir entries) => .ok entries
    | _ => .error "Not a directory"
  find_readDir path listed hlisted := by
    split at hlisted
    · rename_i entries hfind
      exact ⟨entries, hfind, Except.ok.inj hlisted ▸ List.Perm.refl _⟩
    · contradiction
  walk path :=
    match tree.lookup path with
    | some found => .ok found
    | none => .error "No such file or directory"
  find_walk path walked hwalk := by
    split at hwalk
    · rename_i found hfind
      exact ⟨found, hfind, Except.ok.inj hwalk ▸ FileTree.Reordered.refl found⟩
    · contradiction

theorem distinct_single (name : OsString) (contents : List UInt8) :
    (FileTree.dir [(name, .file contents)]).Distinct := by
  rw [FileTree.distinct_dir_iff]
  constructor
  · exact List.nodup_singleton name
  · intro entry hentry
    rw [List.mem_singleton.mp hentry]
    exact FileTree.distinct_file contents

/-- A directory with one file in it. -/
def single (name : OsString) (contents : List UInt8) : Files :=
  ofTree (.dir [(name, .file contents)]) (distinct_single name contents)

end Files

/-! ## What a path registers as -/

/-- What a `<PATH>` registers as. -/
inductive Plan where
  /-- A single file: one blob CID. -/
  | blob
  /-- A directory: one collection CID over the whole tree. -/
  | collection
  /-- A directory: one blob CID for each file directly inside it. -/
  | each
  /-- A directory, and the user has to choose. -/
  | ask
  deriving DecidableEq

/-- The answer to `Plan.ask`. -/
inductive DirMode where
  | collection
  | each
  deriving DecidableEq

/-- Decide what a local `<PATH>` registers as, without touching the terminal. -/
def registrationPlan (isDir collection each named interactive : Bool) : Except String Plan :=
  match isDir, collection, each with
  | false, false, false => .ok .blob
  | false, _, _ => .error "--collection and --each apply to a directory; <PATH> is a file"
  | true, _, true => .ok .each
  | true, true, false => .ok .collection
  | true, false, false => if interactive && !named then .ok .ask else .ok .collection

/-- A file directly inside a directory: the name it registers under, where to read it, and
its length. -/
structure Member where
  name : String
  path : Path
  bytes : ℕ

/-- What `--each` passed over in a directory. -/
structure Skipped where
  /-- Subdirectories: `--each` does not recurse. -/
  dirs : ℕ
  /-- Entries `--each` cannot register. -/
  other : ℕ
  deriving DecidableEq

def Skipped.none : Skipped := ⟨0, 0⟩

/-- One note per reason, in the order a reader meets them. -/
def Skipped.notes (skipped : Skipped) : List String :=
  (if 0 < skipped.dirs then
    ["Note: skipped " ++ toString skipped.dirs ++ " subdirector" ++
      (if skipped.dirs = 1 then "y" else "ies") ++ "; --each does not recurse"]
  else []) ++
  (if 0 < skipped.other then
    ["Note: skipped " ++ toString skipped.other ++ " entr" ++
      (if skipped.other = 1 then "y" else "ies") ++
      ": not a regular file, or the name is not UTF-8"]
  else [])

/-- The entries of one directory level, sorted into members and what is passed over. -/
def scan (dir : Path) : DirEntries → List Member × Skipped
  | [] => ([], .none)
  | (name, entry) :: entries =>
      let (members, skipped) := scan dir entries
      match entry with
      | .dir _ => (members, { skipped with dirs := skipped.dirs + 1 })
      | .special _ => (members, { skipped with other := skipped.other + 1 })
      | .file contents =>
          match Utf8.toStr name with
          | .none => (members, { skipped with other := skipped.other + 1 })
          | some text => (⟨text, dir ++ [name], contents.length⟩ :: members, skipped)

/-- Plural suffix for a count. -/
def plural (n : ℕ) : String :=
  if n = 1 then "" else "s"

/-! ## The parts of the commands -/

structure ResolvedRef where
  commit : Oid
  tag : Option Oid

/-- A revision or a release id that git does not know. -/
structure Resolve where
  revision : String
  err : String

inductive Find where
  | lookup (oid : Oid) (err : StoreError)
  | noReleaseId (id : ReleaseId)
  | lookupId (id : ReleaseId) (err : StoreError)

/-- Why `Releases::create` refuses. -/
inductive CreateError where
  | missingTag (tag : Oid) (err : String)
  | peelFailed (tag : Oid) (err : String)
  | tagMismatch (tag expected actual : Oid)
  | store (err : StoreError)

/-- The arguments of `create`. -/
structure Create where
  revision : Option String

inductive CreateReleaseError where
  | usage (message : String)
  | resolve (err : Resolve)
  | find (err : Find)
  | ambiguous (oid : Oid) (candidates : List ReleaseId)
  | create (oid : Oid) (err : CreateError)

/-- The arguments of `register`. -/
structure Register where
  path : Option Path
  cid : Option Cid
  revision : Option String
  release : Option String
  name : Option String
  noSize : Bool
  collection : Bool
  each : Bool
  allAuthors : Bool

inductive RegisterError where
  | usage (message : String)
  | resolve (err : Resolve)
  | find (err : Find)
  | needsDisambiguation (oid : Oid) (candidates : List ReleaseId)
  | create (oid : Oid) (err : CreateError)
  | store (id : ReleaseId) (err : StoreError)
  | computeCid (err : ComputeCid)
  | io (err : IoText)

/-- Where a registration gets its CID. -/
inductive Source where
  | path (path : Path)
  | cid (cid : Cid)

def Source.path? : Source → Option Path
  | .path file => some file
  | .cid _ => none

/-- One artifact waiting to go into the release. -/
structure Pending where
  cid : Cid
  name : String
  /-- The `sizeBytes` hint to record. -/
  size : Option UInt64
  /-- Local file the bytes came from. -/
  path : Option Path

/-- The call that writes the artifact. -/
def Pending.method (pending : Pending) : Method :=
  match pending.size with
  | some bytes => .registerArtifactWithSize pending.cid pending.name bytes
  | none => .registerArtifact pending.cid pending.name

/-- The actions that call commits. -/
def Pending.actions (pending : Pending) : List Action :=
  match pending.size with
  | some bytes => [.registerArtifact pending.cid pending.name,
      .setMetadata pending.cid metadataKeySizeBytes (sizeValue bytes)]
  | none => [.registerArtifact pending.cid pending.name]

theorem Pending.transaction_method (floats : Json.Floats) (release : Release)
    (pending : Pending) :
    pending.method.transaction floats release = .ok pending.actions := by
  cases hsize : pending.size <;> simp [method, actions, hsize, Method.transaction]

/-- What `register` wrote, and what it passed over. -/
structure Registered where
  releaseId : ReleaseId
  artifacts : List Pending
  skipped : Skipped

inductive ReleaseChoice where
  | existing (id : ReleaseId)
  | createNew

/-- What the commands work with besides their arguments: the file system, the repository,
the local user and the terminal. -/
structure Workspace where
  blake3 : Blake3
  files : Files
  localDid : Did
  delegates : BTreeSet Did
  noInput : Bool
  stdinIsTerminal : Bool
  humanBytes : ℕ → String
  displayPath : Path → String
  parseReleaseId : String → Except Resolve ReleaseId
  resolveRef : String → Except Resolve ResolvedRef
  findTag : Oid → Except String Unit
  peelTag : Oid → Except String Oid
  /-- Reading the releases can fail, and otherwise gives them in any order. -/
  all : Listing → Except StoreError (List (ReleaseId × Release))
  all_perm : ∀ releases entries, all releases = .ok entries → entries.Perm releases.entries
  get : Listing → ReleaseId → Except StoreError (Option Release)
  get_eq : ∀ releases id found, get releases id = .ok found → found = releases.get? id
  notFound : ReleaseId → StoreError
  /-- The id and the time of a new release. -/
  initial : Listing → Oid → Option Oid → Except StoreError (ReleaseId × Timestamp)
  initial_fresh : ∀ releases oid tag id timestamp,
    initial releases oid tag = .ok (id, timestamp) → releases.get? id = none
  /-- Whether an entry is signed and stored. -/
  commit : Listing → ReleaseId → List Action → Except StoreError Unit
  pickCommitOrTag : Except String ResolvedRef
  /-- A picker offers the candidates. -/
  pickExistingRelease : List (ReleaseId × Release) → Except String ReleaseId
  mem_of_pickExistingRelease : ∀ candidates id,
    pickExistingRelease candidates = .ok id → id ∈ candidates.map Prod.fst
  pickReleaseOrCreate : List (ReleaseId × Release) → Option Oid → Except String ReleaseChoice
  mem_of_pickReleaseOrCreate : ∀ candidates tag id,
    pickReleaseOrCreate candidates tag = .ok (.existing id) → id ∈ candidates.map Prod.fst
  promptName : Option String → Except String String
  pickDirMode : Path → String × String → Except String DirMode

namespace Workspace

/-- A user alone with some files: every read and write goes through, and nobody is asked. -/
def alone (blake3 : Blake3) (files : Files) (localDid : Did) (now : Timestamp)
    (resolveRef : String → Except Resolve ResolvedRef) : Workspace where
  blake3 := blake3
  files := files
  localDid := localDid
  delegates := ∅
  noInput := true
  stdinIsTerminal := false
  humanBytes := toString
  displayPath _ := "."
  parseReleaseId text := .error ⟨text, "not found"⟩
  resolveRef := resolveRef
  findTag _ := .ok ()
  peelTag tag := .ok tag
  all releases := .ok releases.entries
  all_perm _ _ hall := by rw [Except.ok.inj hall]
  get releases id := .ok (releases.get? id)
  get_eq _ _ _ hget := (Except.ok.inj hget).symm
  notFound _ := "not found"
  initial releases oid _ :=
    if (releases.get? oid).isNone then .ok (oid, now) else .error "the release exists"
  initial_fresh releases oid tag id timestamp hinitial := by
    split at hinitial
    · rename_i hfresh
      obtain ⟨rfl, -⟩ := Prod.mk.inj (Except.ok.inj hinitial)
      exact Option.isNone_iff_eq_none.mp hfresh
    · contradiction
  commit _ _ _ := .ok ()
  pickCommitOrTag := .error "not a terminal"
  pickExistingRelease _ := .error "not a terminal"
  mem_of_pickExistingRelease _ _ hpicked := by contradiction
  pickReleaseOrCreate _ _ := .error "not a terminal"
  mem_of_pickReleaseOrCreate _ _ _ hpicked := by contradiction
  promptName _ := .error "not a terminal"
  pickDirMode _ _ := .error "not a terminal"

variable (workspace : Workspace)

def interactive : Bool :=
  !workspace.noInput && workspace.stdinIsTerminal

/-- The prompts refuse without a terminal. -/
def askCommitOrTag : Except String ResolvedRef :=
  if workspace.interactive then workspace.pickCommitOrTag
  else .error "pass --commit <REF> for non-interactive use"

def askName (default : Option String) : Except String String :=
  if workspace.interactive then workspace.promptName default
  else .error "pass -n/--name for non-interactive use"

def trust : Trust := ⟨workspace.delegates, some workspace.localDid⟩

/-- Visibility rule for a release's creator: it must fall in `scope`. -/
def releaseVisible (scope : Trust.Scope) (release : Release) : Bool :=
  workspace.trust.admits scope release.creator

/-- The releases of a commit. -/
def collectCandidates (releases : Listing) (oid : Oid) :
    Except Find (List (ReleaseId × Release)) :=
  match workspace.all releases with
  | .ok entries => .ok (entries.filter fun entry => oid = entry.2.oid)
  | .error err => .error (.lookup oid err)

/-- The tag has to be an annotated one whose target peels to the commit. -/
def checkTag (oid : Oid) : Option Oid → Except CreateError Unit
  | none => .ok ()
  | some tag =>
      match workspace.findTag tag with
      | .error err => .error (.missingTag tag err)
      | .ok () =>
          match workspace.peelTag tag with
          | .error err => .error (.peelFailed tag err)
          | .ok actual => if actual ≠ oid then .error (.tagMismatch tag oid actual) else .ok ()

/-- `Releases::create` -/
def newRelease (releases : Listing) (oid : Oid) (tag : Option Oid) :
    Except CreateError (Listing × ReleaseId) :=
  match workspace.checkTag oid tag with
  | .error err => .error err
  | .ok () =>
      match workspace.initial releases oid tag with
      | .error err => .error (.store err)
      | .ok (id, timestamp) =>
          .ok (releases.insert id (.new oid tag workspace.localDid timestamp), id)

/-! ## `create` -/

/-- The releases of the commit that the local user made. -/
def mine (candidates : List (ReleaseId × Release)) : List (ReleaseId × Release) :=
  candidates.filter fun entry => entry.2.creator = workspace.localDid

/-- The release to reuse, if any. -/
def reuse (oid : Oid) (tag : Option Oid) (mine : List (ReleaseId × Release)) :
    Except CreateReleaseError (Option ReleaseId) :=
  match tag with
  | some tag => .ok ((mine.find? fun entry => entry.2.tag = some tag).map Prod.fst)
  | none =>
      match mine with
      | [] => .ok none
      | [(id, _)] => .ok (some id)
      | _ =>
          if !workspace.interactive then .error (.ambiguous oid (mine.map Prod.fst))
          else
            match workspace.pickExistingRelease mine with
            | .ok id => .ok (some id)
            | .error message => .error (.usage message)

/-- The revision to a commit and an optional annotated tag. -/
def resolveCommit (revision : Option String) : Except CreateReleaseError ResolvedRef :=
  match revision with
  | some revision =>
      match workspace.resolveRef revision with
      | .ok resolved => .ok resolved
      | .error err => .error (.resolve err)
  | none =>
      match workspace.askCommitOrTag with
      | .ok resolved => .ok resolved
      | .error message => .error (.usage message)

/-- Create, or reuse, a release for a commit: its id, and whether it was there. -/
def createRelease (command : Create) (releases : Listing) :
    Except CreateReleaseError (Listing × ReleaseId × Bool) := do
  let resolved ← workspace.resolveCommit command.revision
  match workspace.collectCandidates releases resolved.commit with
  | .error err => throw (.find err)
  | .ok candidates =>
      match ← workspace.reuse resolved.commit resolved.tag (workspace.mine candidates) with
      | some id => return (releases, id, true)
      | none =>
          match workspace.newRelease releases resolved.commit resolved.tag with
          | .error err => throw (.create resolved.commit err)
          | .ok (later, id) => return (later, id, false)

/-! ## `register` -/

/-- Compute the CID of a file on disk. -/
def computeBlobCid (path : Path) : Except Error Cid :=
  match workspace.files.read path with
  | .ok bytes => .ok (blake3HashToCid (workspace.blake3 bytes) .blob)
  | .error err => .error (.io err)

/-- Compute a CID by hashing the file or directory at `path`. -/
def computeCidFromPath (path : Path) : Except ComputeCid Cid :=
  if workspace.files.isDir path then
    match workspace.files.walk path with
    | .ok tree => .ok (computeContentId workspace.blake3 tree)
    | .error _ => .error .io
  else (workspace.computeBlobCid path).mapError .protocol

def sizeFromPath (path : Path) : Except RegisterError UInt64 :=
  match workspace.files.walk path with
  | .ok tree => .ok (.ofNat (computeSizeFromPath tree))
  | .error err => .error (.io err)

def sourceCid : Source → Except RegisterError Cid
  | .path path => (workspace.computeCidFromPath path).mapError .computeCid
  | .cid cid => .ok cid

/-- A CID alone has no local bytes to measure. -/
def sizeHint (noSize : Bool) (path : Option Path) : Except RegisterError (Option UInt64) :=
  match noSize, path with
  | false, some path => (workspace.sizeFromPath path).map some
  | _, _ => .ok none

def artifactName (name : Option String) (path : Option Path) : Except RegisterError String :=
  match name with
  | some name => .ok name
  | none => (workspace.askName ((path.bind Path.fileName).bind Utf8.toStr)).mapError .usage

/-- The single-artifact case: one CID from `<PATH>` or `--cid`, with the name prompted when
it was not given. -/
def singlePending (source : Source) (name : Option String) (noSize : Bool) :
    Except RegisterError Pending := do
  let cid ← workspace.sourceCid source
  let size ← workspace.sizeHint noSize source.path?
  let name ← workspace.artifactName name source.path?
  return ⟨cid, name, size, source.path?⟩

/-- Files directly inside `dir`, sorted by name, plus what was passed over. -/
def topLevelMembers (dir : Path) : Except IoText (List Member × Skipped) :=
  (workspace.files.readDir dir).map fun entries =>
    ((sortByKey Member.name (scan dir entries).1), (scan dir entries).2)

/-- The two options the directory question offers, in order. -/
def dirModeLabels (treeFiles treeBytes topLevel : ℕ) : String × String :=
  ("one collection artifact (" ++ toString treeFiles ++ " file" ++ plural treeFiles ++ ", " ++
      workspace.humanBytes treeBytes ++ ")",
    toString topLevel ++ " separate artifact" ++ plural topLevel ++ " (top-level files only)")

/-- Ask how to register a directory with files at its top level. -/
def askDirMode (dir : Path) (members : List Member) : Except RegisterError DirMode :=
  match workspace.files.walk dir with
  | .error err => .error (.io err)
  | .ok tree =>
      let labels := workspace.dirModeLabels (canonicalWalk tree).length
        (computeSizeFromPath tree) members.length
      (workspace.pickDirMode dir labels).mapError .usage

def memberPending (noSize : Bool) (member : Member) : Except RegisterError Pending :=
  match workspace.computeBlobCid member.path with
  | .error err => .error (.computeCid (.protocol err))
  | .ok cid => .ok {
      cid := cid
      name := member.name
      size := if noSize then none else some (.ofNat member.bytes)
      path := some member.path }

/-- The mode of a directory whose members are known. -/
def dirMode (dir : Path) (members : List Member) (asked : Bool) :
    Except RegisterError DirMode :=
  if !asked then .ok .each
  -- Nothing to choose between when the top level holds no files.
  else if members.isEmpty then .ok .collection
  else workspace.askDirMode dir members

/-- One artifact alone, with nothing passed over. -/
def onlyPending (command : Register) (source : Source) :
    Except RegisterError (List Pending × Skipped) :=
  (workspace.singlePending source command.name command.noSize).map fun only => ([only], .none)

/-- The artifacts a directory registers as, when its members may be wanted. -/
def dirPending (command : Register) (dir : Path) (asked : Bool) :
    Except RegisterError (List Pending × Skipped) :=
  match workspace.topLevelMembers dir with
  | .error err => .error (.io err)
  | .ok (members, passedOver) =>
      match workspace.dirMode dir members asked with
      | .error err => .error err
      | .ok .collection => workspace.onlyPending command (.path dir)
      | .ok .each =>
          if members.isEmpty then
            .error (.usage ("no files directly inside " ++ workspace.displayPath dir ++
              "; register the whole tree with --collection"))
          else
            (members.mapM (workspace.memberPending command.noSize)).map fun pending =>
              (pending, passedOver)

/-- The artifacts to register, before anything is written. -/
def gather (command : Register) : Except RegisterError (List Pending × Skipped) :=
  match command.path, command.cid with
  | some _, some _ => .error (.usage
      "cannot pass --cid together with a path; the CID is computed from the contents")
  | none, none => .error (.usage "missing artifact source; pass a <PATH> or --cid <CID>")
  | none, some cid => workspace.onlyPending command (.cid cid)
  | some path, none =>
      match registrationPlan (workspace.files.isDir path) command.collection command.each
          command.name.isSome workspace.interactive with
      | .error message => .error (.usage message)
      | .ok .blob => workspace.onlyPending command (.path path)
      | .ok .collection => workspace.onlyPending command (.path path)
      | .ok .each => workspace.dirPending command path false
      | .ok .ask => workspace.dirPending command path true

/-- `releases.get_mut(&id)` as the commands report it. -/
def getMut (releases : Listing) (id : ReleaseId) : Except RegisterError Release :=
  match workspace.get releases id with
  | .ok (some release) => .ok release
  | .ok none => .error (.store id (workspace.notFound id))
  | .error err => .error (.store id err)

/-- A single release is taken as it is, unless its tag contradicts the one asked for. -/
def needsDisambiguation (candidates : List (ReleaseId × Release)) (tag : Option Oid) : Bool :=
  match candidates with
  | [] => false
  | [(_, release)] => tag.isSome && release.tag ≠ tag
  | _ => true

/-- The release for a commit, created when there is none in view. -/
def releaseFor (resolved : ResolvedRef) (releases : Listing) :
    List (ReleaseId × Release) → Except RegisterError (Listing × ReleaseId)
  | [] => (workspace.newRelease releases resolved.commit resolved.tag).mapError
      (.create resolved.commit)
  | (id, release) :: candidates =>
      let candidates := (id, release) :: candidates
      if !needsDisambiguation candidates resolved.tag then
        (workspace.getMut releases id).map fun _ => (releases, id)
      else if workspace.noInput then
        .error (.needsDisambiguation resolved.commit (candidates.map Prod.fst))
      else
        match workspace.pickReleaseOrCreate candidates resolved.tag with
        | .error message => .error (.usage message)
        | .ok (.existing id) => (workspace.getMut releases id).map fun _ => (releases, id)
        | .ok .createNew =>
            (workspace.newRelease releases resolved.commit resolved.tag).mapError
              (.create resolved.commit)

/-- The commit a registration is for. -/
def registerCommit (revision : Option String) : Except RegisterError ResolvedRef :=
  match revision with
  | some revision => (workspace.resolveRef revision).mapError .resolve
  | none => workspace.askCommitOrTag.mapError .usage

/-- Resolve `--release`, `--revision` or the commit prompt to the release that artifacts
land in. -/
def resolveRegisterTarget (command : Register) (releases : Listing) :
    Except RegisterError (Listing × ReleaseId) :=
  match command.release with
  | some text =>
      match workspace.parseReleaseId text with
      | .error err => .error (.resolve err)
      | .ok id =>
          match workspace.get releases id with
          | .ok (some _) => .ok (releases, id)
          | .ok none => .error (.find (.noReleaseId id))
          | .error err => .error (.find (.lookupId id err))
  | none => do
      let resolved ← workspace.registerCommit command.revision
      let candidates ←
        (workspace.collectCandidates releases resolved.commit).mapError RegisterError.find
      workspace.releaseFor resolved releases
        (candidates.filter fun entry =>
          workspace.releaseVisible (scope command.allAuthors) entry.2)

/-- One signed entry. -/
def write (id : ReleaseId) (pending : Pending) (releases : Listing) : Listing :=
  releases.modify id fun release =>
    pending.actions.foldl (fun release action => release.action workspace.localDid action) release

/-- One entry for each artifact, up to the first that fails. -/
def writeAll (id : ReleaseId) : List Pending → Listing → Listing × Except StoreError Unit
  | [], releases => (releases, .ok ())
  | pending :: rest, releases =>
      match workspace.commit releases id pending.actions with
      | .error err => (releases, .error err)
      | .ok () => writeAll id rest (workspace.write id pending releases)

/-- Register one or more artifacts: the releases afterwards, and the outcome. -/
def registerArtifact (command : Register) (releases : Listing) :
    Listing × Except RegisterError Registered :=
  match workspace.gather command with
  | .error err => (releases, .error err)
  | .ok (pending, skipped) =>
      match workspace.resolveRegisterTarget command releases with
      | .error err => (releases, .error err)
      | .ok (opened, id) =>
          match workspace.getMut opened id with
          | .error err => (opened, .error err)
          | .ok _ =>
              match workspace.writeAll id pending opened with
              | (later, .error err) => (later, .error (.store id err))
              | (later, .ok ()) => (later, .ok ⟨id, pending, skipped⟩)

end Workspace

end RadicleArtifact.Cli
