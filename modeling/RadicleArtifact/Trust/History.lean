import RadicleArtifact.Cob.Invariants
import RadicleArtifact.Cob.Replay
import RadicleArtifact.Trust.Trust

/-!
# Trust over histories

The trust rules are read at one moment, with a delegate set the contributors
did not know.  What they say can still be told from the history: a withdrawal
lasts, and the metadata that holds is the last write of a party that counts.
-/

namespace RadicleArtifact.Trust

open RadicleArtifact.Core
open RadicleArtifact.Library
open RadicleArtifact.Cob

/-! ## Withdrawals last -/

theorem withdrawn_of_persists {before after : Release} (hpersists : before.Persists after)
    {cid : Cid} {artifact changed : Artifact}
    (hartifact : before.artifact cid = some artifact)
    (hchanged : after.artifact cid = some changed) {delegates : BTreeSet Did}
    (hwithdrawn : Withdrawn artifact delegates) : Withdrawn changed delegates := by
  obtain ⟨later, hlater, hauthor, hredacted⟩ := hpersists.artifacts cid artifact hartifact
  obtain rfl : later = changed := Option.some.inj (hlater.symm.trans hchanged)
  obtain ⟨did, hparty, hdid⟩ := hwithdrawn
  exact ⟨did, hauthor ▸ hparty, hredacted did hdid⟩

/-- Every state a replay reaches satisfies the invariants of a release.  Replaying
further operations keeps its artifacts, their authors and their redactions, so
an artifact once withdrawn fails the check in every scope from then on. -/
theorem replay_keeps_invariants (commit : Oid → Except String Unit) (root : Op)
    (earlier later : List Op) (before : Release)
    (hbefore : Release.replay commit root earlier = .ok before) :
    before.WellFormed ∧
      ∃ after, Release.replay commit root (earlier ++ later) = .ok after ∧
        before.Persists after ∧
        ∀ cid artifact changed, before.artifact cid = some artifact →
          after.artifact cid = some changed →
            ∀ trust : Trust, Withdrawn artifact trust.delegates →
              ∀ scope, trust.check scope after changed ≠ .ok () := by
  obtain ⟨after, hafter, hpersists⟩ := Release.persists_replay hbefore later
  refine ⟨Release.wellFormed_replay hbefore, after, hafter, hpersists, ?_⟩
  intro cid artifact changed hartifact hchanged trust hwithdrawn scope hcheck
  exact (check_eq_ok_iff.mp hcheck).2.2
    (withdrawn_of_persists hpersists hartifact hchanged hwithdrawn)

/-- An artifact its author redacted, and an attestation that comes too late. -/
theorem replay_keeps_invariants_after_redaction :
    let author : Did := .filled 32 1
    let cid := blake3HashToCid (.filled 32 7) .blob
    let root : Op :=
      ⟨author, [.create (.filled 20 0) none, .registerArtifact cid "app",
        .redact cid "compromised"], 5⟩
    let endorsement : Op := ⟨.filled 32 2, [.attest cid], 6⟩
    let before := (Release.new (.filled 20 0) none author 5).run
      (Release.history root [])
    before.WellFormed ∧
      ∃ after, Release.replay (fun _ => .ok ()) root [endorsement] = .ok after ∧
        before.Persists after := by
  intro author cid root endorsement before
  obtain ⟨hwellFormed, after, hafter, hpersists, -⟩ :=
    replay_keeps_invariants (fun _ => .ok ()) root [] [endorsement] before rfl
  exact ⟨hwellFormed, after, hafter, hpersists⟩

/-! ## Metadata is the last trusted write -/

/-- What a signed action writes to a metadata key of `cid`. -/
def metadataWrite (cid : Cid) (key : String) (entry : SignedAction) :
    Option MetadataWrite :=
  match entry.action with
  | .setMetadata named written value =>
      if named = cid ∧ written = key then some (.set value) else none
  | .removeMetadata named written =>
      if named = cid ∧ written = key then some .removed else none
  | _ => none

/-- The writes that count: those of the author or a delegate. -/
def trustedWrite (author : Did) (delegates : BTreeSet Did) (cid : Cid) (key : String)
    (entry : SignedAction) : Option MetadataWrite :=
  if isAuthorOrDelegate entry.user author delegates then metadataWrite cid key entry
  else none

theorem lastMetadataWrite_observe (cid : Cid) (artifact : Artifact)
    (entry : SignedAction) (author : Did) (delegates : BTreeSet Did) (key : String) :
    (artifact.observe cid entry).lastMetadataWrite
        (fun did => isAuthorOrDelegate did author delegates) key =
      (trustedWrite author delegates cid key entry).or
        (artifact.lastMetadataWrite
          (fun did => isAuthorOrDelegate did author delegates) key) := by
  obtain ⟨user, action⟩ := entry
  let lastWriteOf (current : Artifact) : Option MetadataWrite :=
    current.lastMetadataWrite (fun did => isAuthorOrDelegate did author delegates) key
  rw [trustedWrite, metadataWrite]
  cases action with
  | setMetadata named written | removeMetadata named written =>
      rw [Artifact.observe]
      cases hparty : isAuthorOrDelegate user author delegates <;>
        by_cases hnamed : named = cid <;> by_cases hwritten : written = key <;>
          simp [Action.cid?, Artifact.apply, hnamed, hwritten, hparty,
            @eq_comm _ key written]
  | registerArtifact named name =>
      simp only [ite_self, Option.none_or]
      exact Artifact.read_observe lastWriteOf
        (Artifact.read_apply_register lastWriteOf fun _ => rfl)
  | attest named =>
      simp only [ite_self, Option.none_or]
      exact Artifact.read_observe lastWriteOf (Artifact.read_attest lastWriteOf fun _ => rfl)
  | _ =>
      simp only [ite_self, Option.none_or]
      exact Artifact.read_observe lastWriteOf rfl

/-- The metadata that holds for a registered artifact, by its history. -/
theorem getElem?_metadata_foldl_register (cid : Cid) (author : Did) (name : String)
    (later : List SignedAction) (delegates : BTreeSet Did) (key : String) :
    (metadata (later.foldl (Artifact.observe cid) (Artifact.register author name))
        delegates)[key]? =
      (lastWrite (trustedWrite author delegates cid key) later).bind writtenValue := by
  rw [getElem?_metadata, Artifact.author_foldl_observe, Artifact.author_register,
    read_foldl_eq_lastWrite_or (Artifact.observe cid)
      (fun current => current.lastMetadataWrite
        (fun did => isAuthorOrDelegate did author delegates) key)
      (trustedWrite author delegates cid key)
      (fun current entry =>
        lastMetadataWrite_observe cid current entry author delegates key)]
  simp [Artifact.register, Artifact.lastMetadataWrite, Artifact.metadataWrites]

/-- A metadata write by somebody whose writes carry no authority. -/
def isForeignWrite (author : Did) (delegates : BTreeSet Did) (entry : SignedAction) :
    Bool :=
  match entry.action with
  | .setMetadata _ _ _ | .removeMetadata _ _ =>
      !isAuthorOrDelegate entry.user author delegates
  | _ => false

theorem trustedWrite_eq_none_of_foreign {author : Did} {delegates : BTreeSet Did}
    {entry : SignedAction} (hforeign : isForeignWrite author delegates entry)
    (cid : Cid) (key : String) : trustedWrite author delegates cid key entry = none := by
  obtain ⟨user, action⟩ := entry
  cases action <;> simp_all [isForeignWrite, trustedWrite]

theorem registeredName_eq_none_of_foreign {author : Did} {delegates : BTreeSet Did}
    {entry : SignedAction} (hforeign : isForeignWrite author delegates entry)
    (cid : Cid) : entry.registeredName cid = none := by
  obtain ⟨user, action⟩ := entry
  cases action <;> simp_all [isForeignWrite, SignedAction.registeredName]

/-- For every key, the metadata that holds is the last write by the author or a
delegate.  Histories that differ only in the writes of others, inserted, deleted
or moved anywhere, give the same view. -/
theorem metadata_is_last_trusted_write (commit : Oid → Except String Unit) (root : Op)
    (ops : List Op) (release : Release)
    (hreplay : Release.replay commit root ops = .ok release) (cid : Cid)
    (artifact : Artifact) (hartifact : release.artifact cid = some artifact)
    (delegates : BTreeSet Did) :
    (∀ earlier first later, Release.history root ops = earlier ++ first :: later →
      (first.registeredName cid).isSome →
      (∀ entry ∈ earlier, entry.registeredName cid = none) → ∀ key : String,
        (∀ value, (metadata artifact delegates)[key]? = some value ↔
          lastWrite (trustedWrite artifact.author delegates cid key) later =
            some (.set value)) ∧
        ((metadata artifact delegates)[key]? = none ↔
          lastWrite (trustedWrite artifact.author delegates cid key) later = none ∨
          lastWrite (trustedWrite artifact.author delegates cid key) later =
            some .removed)) ∧
    ∀ root' ops' release', Release.replay commit root' ops' = .ok release' →
      ((Release.history root' ops').filter fun entry =>
          !isForeignWrite artifact.author delegates entry) =
        ((Release.history root ops).filter fun entry =>
          !isForeignWrite artifact.author delegates entry) →
      ∃ artifact', release'.artifact cid = some artifact' ∧
        metadata artifact' delegates = metadata artifact delegates := by
  obtain ⟨earlier, first, later, name, hhistory, hname, hfirst⟩ :=
    Release.exists_first_registration
      ((Release.exists_artifact_replay_iff hreplay cid).mp ⟨artifact, hartifact⟩)
  obtain rfl : artifact = _ := Option.some.inj
    (hartifact.symm.trans
      (Release.artifact_replay_of_first hreplay hhistory hname hfirst))
  rw [Artifact.author_foldl_observe, Artifact.author_register]
  constructor
  · intro earlier' first' later' hhistory' hregisters hfirst' key
    obtain ⟨rfl, rfl⟩ := eq_of_first (fun entry : SignedAction =>
      (entry.registeredName cid).isSome = true) (hhistory.symm.trans hhistory')
      (by simp [hname]) hregisters (by simpa using hfirst) (by simpa using hfirst')
    rw [getElem?_metadata_foldl_register]
    cases lastWrite (trustedWrite first.user delegates cid key) later with
    | none => simp
    | some write => cases write <;> simp [writtenValue]
  · intro root' ops' release' hreplay' hsame
    rw [hhistory] at hsame
    obtain ⟨earlier', later', hhistory', hfirst', hlater⟩ :=
      exists_first_of_filter_eq (fun entry : SignedAction =>
        (entry.registeredName cid).isSome = true)
        (fun entry hregisters => by
          cases hforeign : isForeignWrite first.user delegates entry with
          | false => rfl
          | true => simp [registeredName_eq_none_of_foreign hforeign] at hregisters)
        (by simp [hname]) (by simpa using hfirst) hsame
    refine ⟨_, Release.artifact_replay_of_first hreplay' hhistory' hname
      (by simpa using hfirst'), Std.ExtTreeMap.ext_getElem? fun key => ?_⟩
    have hfilter : ∀ entries : List SignedAction,
        lastWrite (trustedWrite first.user delegates cid key)
            (entries.filter fun entry => !isForeignWrite first.user delegates entry) =
          lastWrite (trustedWrite first.user delegates cid key) entries :=
      lastWrite_filter _ fun entry hdropped =>
        trustedWrite_eq_none_of_foreign (by simpa using hdropped) cid key
    rw [getElem?_metadata_foldl_register, getElem?_metadata_foldl_register,
      ← hfilter later', hlater, hfilter]

/-- A stranger's later write does not displace the author's. -/
theorem metadata_is_last_trusted_write_after_stranger :
    let author : Did := .filled 32 1
    let cid := blake3HashToCid (.filled 32 7) .blob
    let root : Op :=
      ⟨author, [.create (.filled 20 0) none, .registerArtifact cid "app",
        .setMetadata cid "license" (.string "MIT")], 5⟩
    let stranger : Op := ⟨.filled 32 9, [.setMetadata cid "license" .null], 6⟩
    ∃ artifact, ((Release.new (.filled 20 0) none author 5).run
        (Release.history root [stranger])).artifact cid = some artifact ∧
      (metadata artifact ∅)["license"]? = some (.string "MIT") := by
  intro author cid root stranger
  let later : List SignedAction :=
    [⟨author, .setMetadata cid "license" (.string "MIT")⟩,
      ⟨.filled 32 9, .setMetadata cid "license" .null⟩]
  have hhistory : Release.history root [stranger] =
      [] ++ ⟨author, .registerArtifact cid "app"⟩ :: later := rfl
  have hname : SignedAction.registeredName cid ⟨author, .registerArtifact cid "app"⟩ =
      some "app" := by simp [SignedAction.registeredName]
  have hreplay : Release.replay (fun _ => .ok ()) root [stranger] =
      .ok ((Release.new (.filled 20 0) none author 5).run
        (Release.history root [stranger])) := rfl
  have hartifact := Release.artifact_replay_of_first hreplay hhistory hname (by simp)
  refine ⟨_, hartifact, ?_⟩
  refine ((metadata_is_last_trusted_write _ root [stranger] _ hreplay cid _ hartifact
    ∅).1 [] _ later hhistory (by simp [hname]) (by simp) "license").1 (.string "MIT")
      |>.mpr ?_
  rw [Artifact.author_foldl_observe, Artifact.author_register]
  have hstranger : ¬ (FixedBytes.filled 32 9 : Did) = author := by decide
  simp [lastWrite, trustedWrite, metadataWrite, later, hstranger, isAuthorOrDelegate]

end RadicleArtifact.Trust
