import RadicleArtifact.Core.Cid
import RadicleArtifact.Library.Json

/-!
# Release collaborative objects

A release records content-addressed artifacts for one commit.  Its state is
never stored: it is rebuilt by replaying the signed actions of every
contributor in one linear order.  This module is that reducer.
-/

namespace RadicleArtifact.Cob

open RadicleArtifact.Core
open RadicleArtifact.Library

/-- One party's latest write to a metadata key.  A removal is kept, so that it
overrides an earlier write by another party. -/
inductive MetadataWrite where
  | set (value : JsonValue)
  | removed

structure Artifact where
  author : Did
  name : String
  locations : BTreeMap Did (BTreeSet Url)
  attestations : BTreeSet Did
  redactions : BTreeMap Did String
  /-- For each key, each party's latest write, in write order. -/
  metadata : BTreeMap String (IndexMap Did MetadataWrite)

namespace Artifact

/-- The artifact a first registration creates. -/
def register (author : Did) (name : String) : Artifact where
  author := author
  name := name
  locations := ∅
  attestations := ∅
  redactions := ∅
  metadata := ∅

def locationsOf (artifact : Artifact) (user : Did) : Option (BTreeSet Url) :=
  artifact.locations[user]?

def isAttestedBy (artifact : Artifact) (user : Did) : Bool :=
  user ∈ artifact.attestations

def isRedactedBy (artifact : Artifact) (user : Did) : Bool :=
  user ∈ artifact.redactions

def redactionBy (artifact : Artifact) (user : Did) : Option String :=
  artifact.redactions[user]?

/-- The author vouches by registering, and a redaction is permanent. -/
def canAttest (artifact : Artifact) (user : Did) : Bool :=
  user ≠ artifact.author && !artifact.isRedactedBy user

/-- `locations.entry(user).or_default().insert(location)` -/
def addLocation (artifact : Artifact) (user : Did) (location : Url) : Artifact :=
  { artifact with
    locations := artifact.locations.alter user fun urls =>
      some ((urls.getD ∅).insert location) }

/-- Remove one URL of a user, and the user's set once it is empty. -/
def removeLocation (artifact : Artifact) (user : Did) (location : Url) : Artifact :=
  { artifact with
    locations := artifact.locations.alter user fun urls =>
      (urls.map (·.erase location)).filter fun urls => !urls.isEmpty }

def attest (artifact : Artifact) (user : Did) : Artifact :=
  if artifact.canAttest user then
    { artifact with attestations := artifact.attestations.insert user }
  else artifact

/-- A redaction supersedes any prior attestation from the same user. -/
def redact (artifact : Artifact) (user : Did) (reason : String) : Artifact :=
  { artifact with
    redactions := artifact.redactions.insert user reason
    attestations := artifact.attestations.erase user }

/-- Record `user`'s write to `key` as the most recent one. -/
def writeMetadata (artifact : Artifact) (user : Did) (key : String)
    (write : MetadataWrite) : Artifact :=
  { artifact with
    metadata := artifact.metadata.alter key fun writes =>
      some (((writes.getD ∅).shiftRemove user).insert user write) }

end Artifact

structure Release where
  oid : Oid
  tag : Option Oid
  creator : Did
  artifacts : IndexMap Cid Artifact
  timestamp : Timestamp

/-- The collaborative object actions for artifact releases. -/
inductive Action where
  | create (oid : Oid) (tag : Option Oid)
  | registerArtifact (cid : Cid) (name : String)
  | addLocation (cid : Cid) (location : Url)
  | removeLocation (cid : Cid) (location : Url)
  | attest (cid : Cid)
  | redact (cid : Cid) (reason : String)
  | setMetadata (cid : Cid) (key : String) (value : JsonValue)
  | removeMetadata (cid : Cid) (key : String)

/-- The artifact an action names. -/
def Action.cid? : Action → Option Cid
  | .create _ _ => none
  | .registerArtifact cid _
  | .addLocation cid _
  | .removeLocation cid _
  | .attest cid
  | .redact cid _
  | .setMetadata cid _ _
  | .removeMetadata cid _ => some cid

namespace Release

def new (oid : Oid) (tag : Option Oid) (creator : Did) (timestamp : Timestamp) :
    Release where
  oid := oid
  tag := tag
  creator := creator
  artifacts := ∅
  timestamp := timestamp

def artifact (release : Release) (cid : Cid) : Option Artifact :=
  release.artifacts.get? cid

/-- `if let Some(artifact) = self.artifacts.get_mut(&cid)` -/
def withArtifact (release : Release) (cid : Cid) (change : Artifact → Artifact) :
    Release :=
  { release with artifacts := release.artifacts.modify cid change }

/-- Apply an action to the release state. -/
def action (release : Release) (user : Did) : Action → Release
  -- Subsequent `create` actions are ignored after initialization.
  | .create _ _ => release
  | .registerArtifact cid name =>
      match release.artifact cid with
      | some artifact =>
          if artifact.author = user then
            release.withArtifact cid fun artifact => { artifact with name := name }
          else release
      | none =>
          { release with
            artifacts := release.artifacts.insert cid (Artifact.register user name) }
  | .addLocation cid location =>
      release.withArtifact cid fun artifact => artifact.addLocation user location
  | .removeLocation cid location =>
      release.withArtifact cid fun artifact => artifact.removeLocation user location
  | .attest cid =>
      release.withArtifact cid fun artifact => artifact.attest user
  | .redact cid reason =>
      release.withArtifact cid fun artifact => artifact.redact user reason
  | .setMetadata cid key value =>
      release.withArtifact cid fun artifact =>
        artifact.writeMetadata user key (.set value)
  | .removeMetadata cid key =>
      release.withArtifact cid fun artifact =>
        artifact.writeMetadata user key .removed

end Release

/-! ## Replay -/

/-- One operation: the actions its author signed together. -/
structure Op where
  author : Did
  actions : List Action
  timestamp : Timestamp

/-- Why a release cannot be built from its root operation. -/
inductive Build where
  | initial
  | missingCommit (oid : Oid) (err : String)

namespace Release

/-- Build the initial state.  `commit` looks the commit up in the repository;
the signer of the root operation becomes the creator. -/
def fromRoot (commit : Oid → Except String Unit) (root : Op) : Except Build Release :=
  match root.actions with
  | .create oid tag :: actions =>
      match commit oid with
      | .ok _ =>
          .ok (actions.foldl (fun release action => release.action root.author action)
            (Release.new oid tag root.author root.timestamp))
      | .error err => .error (.missingCommit oid err)
  | _ => .error .initial

def op (release : Release) (op : Op) : Release :=
  op.actions.foldl (fun release action => release.action op.author action) release

/-- Rebuild a release from its root and the operations that follow it. -/
def replay (commit : Oid → Except String Unit) (root : Op) (ops : List Op) :
    Except Build Release :=
  (fromRoot commit root).map fun release => ops.foldl Release.op release

/-- The release is the replay of some operations. -/
def Replayed (release : Release) : Prop :=
  ∃ commit root ops, replay commit root ops = .ok release

end Release

/-- One action with the user who signed it: the unit of a linear history. -/
structure SignedAction where
  user : Did
  action : Action

def Op.signedActions (op : Op) : List SignedAction :=
  op.actions.map fun action => ⟨op.author, action⟩

/-- Apply a linear history of signed actions. -/
def Release.run (release : Release) (history : List SignedAction) : Release :=
  history.foldl (fun release entry => release.action entry.user entry.action) release

end RadicleArtifact.Cob
