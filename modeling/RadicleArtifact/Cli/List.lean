import RadicleArtifact.Cli.Verify
import RadicleArtifact.Releases.Filters

/-!
# Listing releases

`list` keeps the releases its filters show, newest first, each with the artifacts the
filters show; `stats` counts the same releases by creator and redaction.  The listed
pairs are those `verify` accepts, and the counts are the lengths of listings.
-/

namespace RadicleArtifact.Cli

open RadicleArtifact.Core
open RadicleArtifact.Library
open RadicleArtifact.Cob
open RadicleArtifact.Releases

/-! ## Display forms -/

namespace Display

structure Location where
  aliasName : Option String
  did : Did
  url : Url

structure Attestation where
  aliasName : Option String
  did : Did

structure Redaction where
  aliasName : Option String
  did : Did
  reason : String

structure Artifact where
  cid : String
  authorAlias : Option String
  author : Did
  name : String
  locations : List Location
  attestations : List Attestation
  redactions : List Redaction
  metadata : BTreeMap String JsonValue

/-- One row of a listing. -/
structure Release where
  releaseId : ReleaseId
  createdAt : ℕ
  oid : Oid
  tag : Option Oid
  tagName : Option String
  title : Option String
  creator : Did
  creatorAlias : Option String
  artifacts : List Artifact
  localDid : Option Did

/-- What the display forms look up: aliases, titles of commits and tags, and the text of
a CID. -/
structure Names where
  aliases : Did → Option String
  title : Oid → Option String
  tagName : Oid → Option String
  cidText : Cid → String

variable (names : Names) (filters : Filters)

def Artifact.new (cid : Cid) (artifact : Cob.Artifact) : Artifact where
  cid := names.cidText cid
  authorAlias := names.aliases artifact.author
  author := artifact.author
  name := artifact.name
  locations :=
    sortByKey (fun location => toLex (location.did, location.url.serialization)) <|
      artifact.locations.toList.flatMap fun entry =>
        entry.2.toList.map fun url => ⟨names.aliases entry.1, entry.1, url⟩
  attestations := artifact.attestations.toList.map fun did => ⟨names.aliases did, did⟩
  redactions :=
    sortByKey Redaction.did <|
      artifact.redactions.toList.map fun entry => ⟨names.aliases entry.1, entry.1, entry.2⟩
  metadata := Trust.metadata artifact filters.trust.delegates

def Release.new (id : ReleaseId) (release : Cob.Release) (title tagName : Option String) :
    Release where
  releaseId := id
  createdAt := release.timestamp.val / 1000
  oid := release.oid
  tag := release.tag
  tagName := tagName
  title := title
  creator := release.creator
  creatorAlias := names.aliases release.creator
  artifacts :=
    sortByKey Artifact.cid <|
      (filters.artifacts release).map fun entry => Artifact.new names filters entry.1 entry.2
  localDid := filters.trust.localDid

/-- The display form of a release, if it is kept. -/
def Release.keep (keepFiltered : Bool) (entry : ReleaseId × Cob.Release) : Option Release :=
  let title := (entry.2.tag.bind names.title).or (names.title entry.2.oid)
  let tagName := entry.2.tag.bind names.tagName
  if keepFiltered || filters.showsRelease entry.2 then
    some (Release.new names filters entry.1 entry.2 title tagName)
  else none

/-- `Releases::new`: the kept releases, newest first. -/
def releases (keepFiltered : Bool) (entries : List (ReleaseId × Cob.Release)) : List Release :=
  sortByKeyDesc Release.createdAt (entries.filterMap (Release.keep names filters keepFiltered))

end Display

/-- The scope for `--all-authors` and `--untrusted`. -/
def listScope (allAuthors untrusted : Bool) : Trust.Scope :=
  if untrusted then .untrusted else scope allAuthors

/-- The arguments of `list`. -/
structure ListCommand where
  allAuthors : Bool
  untrusted : Bool
  redacted : Bool

/-- The rows that `list` prints. -/
def runList (names : Display.Names) (delegates : BTreeSet Did) (localDid : Did)
    (results : List ReleaseEntry) (command : ListCommand) : List Display.Release :=
  Display.releases names
    ⟨⟨delegates, some localDid⟩, listScope command.allAuthors command.untrusted,
      command.redacted⟩
    false (results.filterMap Except.toOption)

/-! ## The listed pairs -/

/-- The releases of a listing with the CIDs it shows in each. -/
def listedPairs (rows : List Display.Release) : List (ReleaseId × String) :=
  rows.flatMap fun row => row.artifacts.map fun artifact => (row.releaseId, artifact.cid)

/-- The pairs of a release and an artifact that pass the check. -/
def acceptedPairs (trust : Trust) (scope : Trust.Scope)
    (entries : List (ReleaseId × Release)) : List (ReleaseId × Cid) :=
  entries.flatMap fun entry =>
    (entry.2.artifacts.entries.filter fun found =>
      (trust.check scope entry.2 found.2).isOk).map fun found => (entry.1, found.1)

section Pairs

variable (names : Display.Names) (filters : Filters)

theorem perm_pairs_new (id : ReleaseId) (release : Release) (title tagName : Option String) :
    (listedPairs [Display.Release.new names filters id release title tagName]).Perm
      ((filters.artifacts release).map fun entry => (id, names.cidText entry.1)) := by
  rw [listedPairs, List.flatMap_singleton]
  refine ((perm_sortByKey Display.Artifact.cid _).map _).trans (.of_eq ?_)
  rw [List.map_map]
  rfl

theorem isOk_eq_true_iff {Value : Type} {result : Except Value Unit} :
    result.isOk = true ↔ result = .ok () := by
  cases result <;> simp [Except.isOk, Except.toBool]

/-- In a release that is shown the filters keep what the check accepts. -/
theorem artifacts_eq_filter_check (hhidden : filters.includeRedacted = false) {release : Release}
    (hshown : filters.showsRelease release = true) :
    filters.artifacts release = release.artifacts.entries.filter fun entry =>
      (filters.trust.check filters.scope release entry.2).isOk := by
  refine List.filter_congr fun entry hentry => ?_
  have hartifact : release.artifact entry.1 = some entry.2 :=
    IndexMap.get?_eq_some_iff_mem.mpr hentry
  rw [Bool.eq_iff_iff, isOk_eq_true_iff, Filters.check_eq_ok_iff_shows hhidden hartifact,
    and_iff_right hshown]

/-- In a release that is not shown the check accepts nothing. -/
theorem filter_check_eq_nil (hhidden : filters.includeRedacted = false) {release : Release}
    (hshown : filters.showsRelease release = false) :
    (release.artifacts.entries.filter fun entry =>
      (filters.trust.check filters.scope release entry.2).isOk) = [] := by
  rw [List.filter_eq_nil_iff]
  intro entry hentry haccepted
  have hartifact : release.artifact entry.1 = some entry.2 :=
    IndexMap.get?_eq_some_iff_mem.mpr hentry
  rw [isOk_eq_true_iff, Filters.check_eq_ok_iff_shows hhidden hartifact, hshown] at haccepted
  exact Bool.false_ne_true haccepted.1

theorem perm_listedPairs (hhidden : filters.includeRedacted = false)
    (entries : List (ReleaseId × Release)) :
    (listedPairs (Display.releases names filters false entries)).Perm
      ((acceptedPairs filters.trust filters.scope entries).map fun pair =>
        (pair.1, names.cidText pair.2)) := by
  refine ((perm_sortByKeyDesc Display.Release.createdAt _).flatMap_right _).trans ?_
  induction entries with
  | nil => exact .refl _
  | cons entry entries ih =>
      obtain ⟨id, release⟩ := entry
      rw [acceptedPairs, List.flatMap_cons, List.map_append, List.map_map, List.filterMap_cons,
        Display.Release.keep, Bool.false_or]
      cases hshown : filters.showsRelease release with
      | true =>
          rw [if_pos rfl, List.flatMap_cons, ← artifacts_eq_filter_check filters hhidden hshown]
          have hrow := perm_pairs_new names filters id release
            ((release.tag.bind names.title).or (names.title release.oid))
            (release.tag.bind names.tagName)
          rw [listedPairs, List.flatMap_singleton] at hrow
          exact hrow.append ih
      | false =>
          rw [if_neg (by simp), filter_check_eq_nil filters hhidden hshown]
          exact ih

end Pairs

/-- `list` shows what `verify` accepts. -/
theorem list_agrees_with_verify (names : Display.Names) (trust : Trust) (scope : Trust.Scope) :
    (∀ release cid artifact, Release.artifact release cid = some artifact →
      (trust.check scope release artifact = .ok () ↔
        (Filters.mk trust scope false).showsRelease release = true ∧
          (Filters.mk trust scope false).showsArtifact artifact = true)) ∧
      ∀ entries,
        (listedPairs (Display.releases names ⟨trust, scope, false⟩ false entries)).Perm
          ((acceptedPairs trust scope entries).map fun pair => (pair.1, names.cidText pair.2)) := by
  constructor
  · intro release cid artifact hartifact
    exact @Filters.check_eq_ok_iff_shows ⟨trust, scope, false⟩ rfl release cid artifact hartifact
  · intro entries
    exact perm_listedPairs names ⟨trust, scope, false⟩ rfl entries

/-- A delegate's artifact in a delegate's release. -/
theorem list_agrees_with_verify_on_app :
    let delegate : Did := .filled 32 1
    let cid := blake3HashToCid (.filled 32 7) .blob
    let release := (Release.new (.filled 20 2) none delegate 6).run
      [⟨delegate, .registerArtifact cid "app"⟩]
    let trust : Trust := ⟨{delegate}, none⟩
    (Filters.mk trust .trusted false).showsRelease release = true ∧
      (Filters.mk trust .trusted false).showsArtifact (.register delegate "app") = true := by
  intro delegate cid release trust
  have hartifact : release.artifact cid = some (.register delegate "app") := rfl
  have hdelegate : trust.admits .trusted delegate = true := by decide
  have hcheck : trust.check .trusted release (.register delegate "app") = .ok () := by
    refine Trust.check_eq_ok_iff.mpr ⟨hdelegate, hdelegate, ?_⟩
    rintro ⟨did, -, hredacted⟩
    simp [Artifact.isRedactedBy, Artifact.register] at hredacted
  let names : Display.Names := ⟨fun _ => none, fun _ => none, fun _ => none, fun _ => "cid"⟩
  exact ((list_agrees_with_verify names trust .trusted).1 release cid _ hartifact).mp hcheck

/-! ## The counts -/

/-- How many releases are by delegates or not, and fully redacted or not. -/
def ofKind (delegates : BTreeSet Did) (byDelegate redacted : Bool)
    (entries : List (ReleaseId × Release)) : ℕ :=
  entries.countP fun entry =>
    decide (entry.2.creator ∈ delegates) == byDelegate &&
      isFullyRedacted entry.2 delegates == redacted

section Counts

variable (delegates : BTreeSet Did)

/-- Each release falls into one bucket. -/
theorem foldl_count (entries : List (ReleaseId × Release)) (counts : ReleaseCounts) :
    entries.foldl (fun counts entry => counts.count delegates entry.2) counts =
      ⟨counts.delegate + ofKind delegates true false entries,
        counts.delegateRedacted + ofKind delegates true true entries,
        counts.other + ofKind delegates false false entries,
        counts.otherRedacted + ofKind delegates false true entries⟩ := by
  induction entries generalizing counts with
  | nil => rfl
  | cons entry entries ih =>
      rw [List.foldl_cons, ih, ReleaseCounts.count]
      cases hcreator : decide (entry.2.creator ∈ delegates) <;>
        cases hredacted : isFullyRedacted entry.2 delegates <;>
          simp [ofKind, hcreator, hredacted] <;> omega

theorem counts_eq_ofKind (entries : List (ReleaseId × Release)) :
    counts delegates (entries.map .ok) =
      ⟨ofKind delegates true false entries, ofKind delegates true true entries,
        ofKind delegates false false entries, ofKind delegates false true entries⟩ := by
  rw [counts_map_ok, foldl_count]
  simp only [Nat.zero_add]

theorem ofKind_add_ofKind (redacted : Bool) (entries : List (ReleaseId × Release)) :
    ofKind delegates true redacted entries + ofKind delegates false redacted entries =
      entries.countP fun entry => isFullyRedacted entry.2 delegates == redacted := by
  induction entries with
  | nil => rfl
  | cons entry entries ih =>
      rw [ofKind, ofKind] at ih ⊢
      rw [List.countP_cons, List.countP_cons, List.countP_cons, ← ih]
      cases decide (entry.2.creator ∈ delegates) <;>
        cases isFullyRedacted entry.2 delegates == redacted <;> simp <;> omega

theorem length_releases (names : Display.Names) (filters : Filters)
    (entries : List (ReleaseId × Release)) :
    (Display.releases names filters false entries).length =
      entries.countP fun entry => filters.showsRelease entry.2 := by
  rw [Display.releases, (perm_sortByKeyDesc _ _).length_eq]
  induction entries with
  | nil => rfl
  | cons entry entries ih =>
      rw [List.filterMap_cons, List.countP_cons, Display.Release.keep, Bool.false_or]
      cases filters.showsRelease entry.2 with
      | true => rw [if_pos rfl, List.length_cons, ih, if_pos rfl]
      | false => rw [if_neg (by simp), ih, if_neg (by simp), Nat.add_zero]

/-- The rows of `list --all-authors`, without or with what is redacted. -/
theorem length_runList_all (names : Display.Names) (localDid : Did) (redacted : Bool)
    (entries : List (ReleaseId × Release)) :
    (runList names delegates localDid (entries.map .ok) ⟨true, false, redacted⟩).length =
      entries.countP fun entry => redacted || !isFullyRedacted entry.2 delegates := by
  have hall : (entries.map (.ok : ReleaseId × Release → ReleaseEntry)).filterMap
      Except.toOption = entries := by
    rw [List.filterMap_map]
    exact List.filterMap_some
  rw [runList, hall, length_releases]
  rfl

end Counts

theorem stats_agree_with_list (names : Display.Names) (delegates : BTreeSet Did) (localDid : Did)
    (entries : List (ReleaseId × Release)) :
    let results : List ReleaseEntry := entries.map .ok
    let found := counts delegates results
    found.total = entries.length ∧
      found.visible = (runList names delegates localDid results ⟨true, false, false⟩).length ∧
      found.visible + found.delegateRedacted + found.otherRedacted =
        (runList names delegates localDid results ⟨true, false, true⟩).length := by
  intro results found
  have hfound : found = _ := counts_eq_ofKind delegates entries
  have hkept := ofKind_add_ofKind delegates false entries
  have hredacted := ofKind_add_ofKind delegates true entries
  have hlength : entries.length = _ := List.length_eq_countP_add_countP
    fun entry => isFullyRedacted entry.2 delegates
  simp only [beq_false, beq_true, decide_not, Bool.decide_eq_true] at hkept hredacted hlength
  rw [length_runList_all, length_runList_all, hfound]
  simp only [ReleaseCounts.total, ReleaseCounts.visible, Bool.false_or, Bool.true_or,
    List.countP_true]
  omega

end RadicleArtifact.Cli
