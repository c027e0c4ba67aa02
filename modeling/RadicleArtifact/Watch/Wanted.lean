import RadicleArtifact.Library.Sorting
import RadicleArtifact.Trust.Trust

/-!
# What a watching node seeds

`wanted` walks the releases of a repository from the newest on and collects the
trusted artifacts the node is not seeding yet.  It remembers every identifier it
has come across, so only the newest release that carries an identifier decides
about it.
-/

namespace RadicleArtifact.Watch

open RadicleArtifact.Core
open RadicleArtifact.Library
open RadicleArtifact.Cob

/-- One artifact a watching node would seed. -/
structure Wanted where
  releaseId : ReleaseId
  cid : Cid
  name : String
  sizeHint : Option UInt64

def metadataKeySizeBytes : String := "sizeBytes"

/-- The `sizeBytes` metadata hint, when present and a plain integer. -/
def sizeHint (artifact : Artifact) (delegates : BTreeSet Did) : Option UInt64 :=
  (Trust.metadata artifact delegates)[metadataKeySizeBytes]?.bind JsonValue.asU64

/-- One turn of the loop: an artifact of a release. -/
structure Visit where
  id : ReleaseId
  release : Release
  cid : Cid
  artifact : Artifact

def Visit.wanted (visit : Visit) (delegates : BTreeSet Did) : Wanted where
  releaseId := visit.id
  cid := visit.cid
  name := visit.artifact.name
  sizeHint := sizeHint visit.artifact delegates

/-- The variables of the loop. -/
structure Progress where
  seen : Finset Cid
  wanted : List Wanted

section Loop

variable (delegates : BTreeSet Did) (localDid : Did) (isSeeded : Cid → Bool)

def visitArtifact (progress : Progress) (visit : Visit) : Progress :=
  if visit.cid ∈ progress.seen then progress
  else
    let seen := insert visit.cid progress.seen
    match (Trust.mk delegates (some localDid)).check .trusted visit.release
        visit.artifact with
    | .error _ => { progress with seen := seen }
    | .ok () =>
        if isSeeded visit.cid then { progress with seen := seen }
        else ⟨seen, progress.wanted ++ [visit.wanted delegates]⟩

/-- The trusted artifacts in a repository that a node is not seeding yet. -/
def wanted (releases : List (ReleaseId × Release)) : List Wanted :=
  let ordered := sortByKeyDesc (fun entry => entry.2.timestamp) releases
  let progress := ordered.foldl
    (fun progress entry => entry.2.artifacts.entries.foldl
      (fun progress slot =>
        visitArtifact delegates localDid isSeeded progress
          ⟨entry.1, entry.2, slot.1, slot.2⟩)
      progress)
    ⟨∅, []⟩
  progress.wanted

end Loop

/-! ## The loop as one list of visits -/

/-- The artifacts of one release, in order. -/
def visitsOf (entry : ReleaseId × Release) : List Visit :=
  entry.2.artifacts.entries.map fun slot => ⟨entry.1, entry.2, slot.1, slot.2⟩

def visits (ordered : List (ReleaseId × Release)) : List Visit :=
  ordered.flatMap visitsOf

theorem wanted_eq_foldl_visits (delegates : BTreeSet Did) (localDid : Did)
    (isSeeded : Cid → Bool) (releases : List (ReleaseId × Release)) :
    wanted delegates localDid isSeeded releases =
      ((visits (sortByKeyDesc (fun entry => entry.2.timestamp) releases)).foldl
        (visitArtifact delegates localDid isSeeded) ⟨∅, []⟩).wanted := by
  simp only [wanted, visits, visitsOf, List.foldl_flatMap, List.foldl_map]

/-- Whether a release carries an artifact under `cid`. -/
def carries (cid : Cid) (entry : ReleaseId × Release) : Bool :=
  (entry.2.artifact cid).isSome

theorem find?_visitsOf (entry : ReleaseId × Release) (cid : Cid) :
    (visitsOf entry).find? (fun visit => visit.cid = cid) =
      (entry.2.artifact cid).map fun artifact => ⟨entry.1, entry.2, cid, artifact⟩ := by
  rw [visitsOf, Release.artifact, IndexMap.get?]
  induction entry.2.artifacts.entries with
  | nil => rfl
  | cons slot slots ih =>
      rw [List.map_cons, List.find?_cons, IndexMap.lookup_cons_eq_ite, ih]
      by_cases hslot : slot.1 = cid
      · simp [hslot]
      · simp [hslot, @eq_comm _ cid slot.1]

/-- The first visit to an identifier is to the first release that carries it. -/
theorem find?_visits (ordered : List (ReleaseId × Release)) (cid : Cid) :
    (visits ordered).find? (fun visit => visit.cid = cid) =
      (ordered.find? (carries cid)).bind fun entry =>
        (entry.2.artifact cid).map fun artifact =>
          ⟨entry.1, entry.2, cid, artifact⟩ := by
  induction ordered with
  | nil => rfl
  | cons entry ordered ih =>
      rw [visits] at ih ⊢
      rw [List.flatMap_cons, List.find?_append, find?_visitsOf, ih, List.find?_cons,
        carries]
      cases hartifact : entry.2.artifact cid with
      | none => simp
      | some artifact => simp [hartifact]

/-! ## What the loop collects -/

section Collect

variable {delegates : BTreeSet Did} {localDid : Did} {isSeeded : Cid → Bool}

/-- Whether the artifact of a visit passes the check. -/
def Passes (delegates : BTreeSet Did) (localDid : Did) (release : Release)
    (artifact : Artifact) : Prop :=
  (Trust.mk delegates (some localDid)).check .trusted release artifact = .ok ()

/-- Whether a visit, if it is the first to its identifier, is collected. -/
def Visit.Collected (visit : Visit) (delegates : BTreeSet Did) (localDid : Did)
    (isSeeded : Cid → Bool) : Prop :=
  Passes delegates localDid visit.release visit.artifact ∧ isSeeded visit.cid = false

theorem visitArtifact_of_collected {progress : Progress} {visit : Visit}
    (hunseen : visit.cid ∉ progress.seen)
    (hcollected : visit.Collected delegates localDid isSeeded) :
    visitArtifact delegates localDid isSeeded progress visit =
      ⟨insert visit.cid progress.seen,
        progress.wanted ++ [visit.wanted delegates]⟩ := by
  obtain ⟨hpasses, hseeded⟩ := hcollected
  rw [Passes] at hpasses
  simp [visitArtifact, hunseen, hpasses, hseeded]

theorem visitArtifact_of_not_collected {progress : Progress} {visit : Visit}
    (hunseen : visit.cid ∉ progress.seen)
    (hskipped : ¬ visit.Collected delegates localDid isSeeded) :
    visitArtifact delegates localDid isSeeded progress visit =
      ⟨insert visit.cid progress.seen, progress.wanted⟩ := by
  rw [visitArtifact, if_neg hunseen]
  cases hcheck : (Trust.mk delegates (some localDid)).check .trusted visit.release
      visit.artifact with
  | error reason => rfl
  | ok value =>
      have hseeded : isSeeded visit.cid = true := by
        by_contra hfalse
        exact hskipped ⟨hcheck, by simpa using hfalse⟩
      simp [hseeded]

/-- What the variables of the loop say about the visits made so far. -/
structure Progress.Reflects (delegates : BTreeSet Did) (localDid : Did)
    (isSeeded : Cid → Bool) (made : List Visit) (progress : Progress) : Prop where
  seen : ∀ cid, cid ∈ progress.seen ↔ ∃ visit ∈ made, visit.cid = cid
  distinct : (progress.wanted.map Wanted.cid).Nodup
  wanted : ∀ entry, entry ∈ progress.wanted ↔
    ∃ visit, made.find? (fun visit => visit.cid = entry.cid) = some visit ∧
      visit.Collected delegates localDid isSeeded ∧ visit.wanted delegates = entry

theorem reflects_nil : Progress.Reflects delegates localDid isSeeded [] ⟨∅, []⟩ where
  seen := by simp
  distinct := by simp
  wanted := by simp

theorem find?_append_visit (made : List Visit) (visit : Visit) (cid : Cid) :
    (made ++ [visit]).find? (fun visit => visit.cid = cid) =
      (made.find? fun visit => visit.cid = cid).or
        (if visit.cid = cid then some visit else none) := by
  rw [List.find?_append, List.find?_singleton]
  by_cases hcid : visit.cid = cid <;> simp [hcid]

/-- One turn of the loop. -/
theorem reflects_visitArtifact {made : List Visit} {progress : Progress}
    (hprogress : progress.Reflects delegates localDid isSeeded made) (visit : Visit) :
    (visitArtifact delegates localDid isSeeded progress visit).Reflects delegates
      localDid isSeeded (made ++ [visit]) := by
  have hnone : ∀ cid, made.find? (fun visit => visit.cid = cid) = none ↔
      cid ∉ progress.seen := by
    intro cid
    rw [hprogress.seen, List.find?_eq_none]
    simp
  by_cases hseen : visit.cid ∈ progress.seen
  · rw [visitArtifact, if_pos hseen]
    refine ⟨fun cid => ?_, hprogress.distinct, fun entry => ?_⟩
    · obtain ⟨earlier, hearlier, hcid⟩ := (hprogress.seen _).mp hseen
      rw [hprogress.seen]
      simp only [List.mem_append, List.mem_singleton]
      constructor
      · rintro ⟨other, hother, rfl⟩
        exact ⟨other, Or.inl hother, rfl⟩
      · rintro ⟨other, hother | rfl, rfl⟩
        · exact ⟨other, hother, rfl⟩
        · exact ⟨earlier, hearlier, hcid⟩
    · -- The identifier was visited before, so the new visit is not the first.
      rw [hprogress.wanted, find?_append_visit]
      by_cases hcid : visit.cid = entry.cid
      · obtain ⟨first, hfirst⟩ := Option.ne_none_iff_exists'.mp
          (mt (hnone entry.cid).mp (not_not.mpr (hcid ▸ hseen)))
        simp [hfirst]
      · simp [hcid]
  · have hseen' : ∀ cid, cid ∈ insert visit.cid progress.seen ↔
        ∃ other ∈ made ++ [visit], other.cid = cid := by
      intro cid
      rw [Finset.mem_insert, hprogress.seen]
      simp only [List.mem_append, List.mem_singleton]
      constructor
      · rintro (rfl | ⟨other, hother, rfl⟩)
        · exact ⟨visit, Or.inr rfl, rfl⟩
        · exact ⟨other, Or.inl hother, rfl⟩
      · rintro ⟨other, hother | rfl, rfl⟩
        · exact Or.inr ⟨other, hother, rfl⟩
        · exact Or.inl rfl
    have hfresh : ∀ entry ∈ progress.wanted, entry.cid ≠ visit.cid := by
      intro entry hentry hcid
      obtain ⟨first, hfirst, -⟩ := (hprogress.wanted entry).mp hentry
      rw [hcid, (hnone visit.cid).mpr hseen] at hfirst
      exact absurd hfirst (by simp)
    by_cases hcollected : visit.Collected delegates localDid isSeeded
    · rw [visitArtifact_of_collected hseen hcollected]
      refine ⟨hseen', ?_, fun entry => ?_⟩
      · rw [List.map_append, List.map_singleton]
        refine List.Nodup.append hprogress.distinct (by simp) ?_
        rw [List.disjoint_singleton, List.mem_map]
        rintro ⟨entry, hentry, hcid⟩
        exact hfresh entry hentry hcid
      · rw [List.mem_append, List.mem_singleton, find?_append_visit]
        by_cases hcid : visit.cid = entry.cid
        · have hold : entry ∉ progress.wanted := fun hentry => hfresh entry hentry hcid.symm
          have hfirst := (hnone entry.cid).mpr (hcid ▸ hseen)
          rw [hfirst, Option.none_or, if_pos hcid]
          simp [hold, hcollected, @eq_comm _ entry]
        · have hnew : entry ≠ visit.wanted delegates := fun heq => hcid (heq ▸ rfl)
          simp [hnew, hprogress.wanted, hcid]
    · rw [visitArtifact_of_not_collected hseen hcollected]
      refine ⟨hseen', hprogress.distinct, fun entry => ?_⟩
      rw [find?_append_visit]
      by_cases hcid : visit.cid = entry.cid
      · have hold : entry ∉ progress.wanted := fun hentry => hfresh entry hentry hcid.symm
        have hfirst := (hnone entry.cid).mpr (hcid ▸ hseen)
        simp [hold, hfirst, hcid, hcollected]
      · simp [hprogress.wanted, hcid]

/-- The whole loop. -/
theorem reflects_foldl_visitArtifact (made : List Visit) :
    (made.foldl (visitArtifact delegates localDid isSeeded) ⟨∅, []⟩).Reflects delegates
      localDid isSeeded made := by
  induction made using List.reverseRecOn with
  | nil => exact reflects_nil
  | append_singleton made visit ih =>
      rw [List.foldl_append]
      exact reflects_visitArtifact ih visit

end Collect

/-! ## What is wanted -/

/-- The newest release that carries `cid`, the first of several equally new. -/
def newestCarrier (releases : List (ReleaseId × Release)) (cid : Cid) :
    Option (ReleaseId × Release) :=
  (releases.filter (carries cid)).argmax fun entry => entry.2.timestamp

section Wanted

variable (delegates : BTreeSet Did) (localDid : Did) (isSeeded : Cid → Bool)
  (releases : List (ReleaseId × Release))

theorem nodup_cid_wanted :
    ((wanted delegates localDid isSeeded releases).map Wanted.cid).Nodup := by
  rw [wanted_eq_foldl_visits]
  exact (reflects_foldl_visitArtifact _).distinct

/-- An artifact is wanted exactly when the newest release carrying its
identifier says so. -/
theorem mem_wanted_iff {entry : Wanted} :
    entry ∈ wanted delegates localDid isSeeded releases ↔
      ∃ carrier artifact, newestCarrier releases entry.cid = some carrier ∧
        carrier.2.artifact entry.cid = some artifact ∧
        Passes delegates localDid carrier.2 artifact ∧ isSeeded entry.cid = false ∧
        (Visit.mk carrier.1 carrier.2 entry.cid artifact).wanted delegates = entry := by
  rw [wanted_eq_foldl_visits, (reflects_foldl_visitArtifact _).wanted, find?_visits,
    find?_sortByKeyDesc, ← newestCarrier]
  cases hcarrier : newestCarrier releases entry.cid with
  | none => simp
  | some carrier =>
      cases hartifact : carrier.2.artifact entry.cid with
      | none => simp [hartifact]
      | some artifact => simp [hartifact, Visit.Collected, and_assoc]

/-- The newest carrier carries the identifier, and no carrier is newer. -/
theorem newestCarrier_eq_some {cid : Cid} {carrier : ReleaseId × Release}
    (hcarrier : newestCarrier releases cid = some carrier) :
    carrier ∈ releases ∧ ∀ other ∈ releases, carries cid other →
      other.2.timestamp ≤ carrier.2.timestamp := by
  have hmem := List.argmax_mem (Option.mem_def.mpr hcarrier)
  refine ⟨(List.mem_filter.mp hmem).1, fun other hother hcarries => ?_⟩
  exact List.le_of_mem_argmax (f := fun entry : ReleaseId × Release => entry.2.timestamp)
    (List.mem_filter.mpr ⟨hother, hcarries⟩) (Option.mem_def.mpr hcarrier)

/-- What a list of wanted artifacts should be: one entry for each identifier
that is not seeded and passes the check in some release, under a newest release
in which it passes. -/
structure IsWantedList (entries : List Wanted) : Prop where
  distinct : (entries.map Wanted.cid).Nodup
  exact : ∀ cid, cid ∈ entries.map Wanted.cid ↔
    isSeeded cid = false ∧ ∃ release ∈ releases, ∃ artifact,
      release.2.artifact cid = some artifact ∧
        Passes delegates localDid release.2 artifact
  newest : ∀ entry ∈ entries, ∃ release ∈ releases, ∃ artifact,
    release.2.artifact entry.cid = some artifact ∧
      Passes delegates localDid release.2 artifact ∧
      entry = (Visit.mk release.1 release.2 entry.cid artifact).wanted delegates ∧
      ∀ other ∈ releases, ∀ artifact', other.2.artifact entry.cid = some artifact' →
        Passes delegates localDid other.2 artifact' →
          other.2.timestamp ≤ release.2.timestamp

/-- Whether the newest release carrying `cid` vouches for it. -/
def NewestCarrierPasses (cid : Cid) : Prop :=
  ∃ carrier artifact, newestCarrier releases cid = some carrier ∧
    carrier.2.artifact cid = some artifact ∧
      Passes delegates localDid carrier.2 artifact

/-- `wanted` is right exactly when no identifier that should be seeded has a
newest carrier that fails the check. -/
theorem wanted_isWantedList_iff :
    IsWantedList delegates localDid isSeeded releases
        (wanted delegates localDid isSeeded releases) ↔
      ∀ cid, isSeeded cid = false →
        (∃ release ∈ releases, ∃ artifact, release.2.artifact cid = some artifact ∧
          Passes delegates localDid release.2 artifact) →
        NewestCarrierPasses delegates localDid releases cid := by
  constructor
  · intro hwanted cid hseeded hpasses
    obtain ⟨entry, hentry, rfl⟩ := List.mem_map.mp ((hwanted.exact cid).mpr ⟨hseeded, hpasses⟩)
    obtain ⟨carrier, artifact, hcarrier, hartifact, hcheck, -⟩ :=
      (mem_wanted_iff delegates localDid isSeeded releases).mp hentry
    exact ⟨carrier, artifact, hcarrier, hartifact, hcheck⟩
  · intro hnewest
    refine ⟨nodup_cid_wanted delegates localDid isSeeded releases, fun cid => ?_,
      fun entry hentry => ?_⟩
    · constructor
      · intro hcid
        obtain ⟨entry, hentry, rfl⟩ := List.mem_map.mp hcid
        obtain ⟨carrier, artifact, hcarrier, hartifact, hcheck, hseeded, -⟩ :=
          (mem_wanted_iff delegates localDid isSeeded releases).mp hentry
        exact ⟨hseeded, carrier, (newestCarrier_eq_some releases hcarrier).1, artifact,
          hartifact, hcheck⟩
      · rintro ⟨hseeded, hpasses⟩
        obtain ⟨carrier, artifact, hcarrier, hartifact, hcheck⟩ :=
          hnewest cid hseeded hpasses
        exact List.mem_map.mpr
          ⟨(Visit.mk carrier.1 carrier.2 cid artifact).wanted delegates,
            (mem_wanted_iff delegates localDid isSeeded releases).mpr
              ⟨carrier, artifact, hcarrier, hartifact, hcheck, hseeded, rfl⟩, rfl⟩
    · obtain ⟨carrier, artifact, hcarrier, hartifact, hcheck, -, heq⟩ :=
        (mem_wanted_iff delegates localDid isSeeded releases).mp hentry
      obtain ⟨hmem, hlargest⟩ := newestCarrier_eq_some releases hcarrier
      refine ⟨carrier, hmem, artifact, hartifact, hcheck, heq.symm, ?_⟩
      intro other hother artifact' hartifact' _
      exact hlargest other hother (by simp [carries, hartifact'])

end Wanted

/-- A newer release by a stranger carries the artifact of an older one by a
delegate: nothing is wanted. -/
theorem newer_stranger_hides_trusted_release :
    let delegate : Did := .filled 32 1
    let stranger : Did := .filled 32 4
    let cid := blake3HashToCid (.filled 32 7) .blob
    let trusted := (Release.new (.filled 20 1) none delegate 1).run
      [⟨delegate, .registerArtifact cid "app"⟩]
    let newer := (Release.new (.filled 20 2) none stranger 2).run
      [⟨stranger, .registerArtifact cid "app"⟩]
    let releases : List (ReleaseId × Release) :=
      [(.filled 20 1, trusted), (.filled 20 2, newer)]
    wanted {delegate} (.filled 32 3) (fun _ => false) releases = [] ∧
      ¬ IsWantedList {delegate} (.filled 32 3) (fun _ => false) releases
        (wanted {delegate} (.filled 32 3) (fun _ => false) releases) := by
  intro delegate stranger cid trusted newer releases
  have htrusted : trusted.artifact cid = some (Artifact.register delegate "app") := rfl
  have hempty : wanted {delegate} (.filled 32 3) (fun _ => false) releases = [] := rfl
  refine ⟨hempty, fun hwanted => ?_⟩
  have hmem := (hwanted.exact cid).mpr ⟨rfl, (.filled 20 1, trusted), by simp [releases],
    _, htrusted, Trust.check_eq_ok_iff.mpr ⟨by decide, by decide, ?_⟩⟩
  · rw [hempty] at hmem
    simp at hmem
  · rintro ⟨did, -, hredacted⟩
    simp [Artifact.isRedactedBy, Artifact.register] at hredacted

end RadicleArtifact.Watch
