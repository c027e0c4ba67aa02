import RadicleArtifact.Releases.Git

/-!
# What a listing shows

A listing hides what is out of scope and what a trusted party redacted.  For one release
and one of its artifacts this is the rule `verify` applies, asked in another order: an
artifact that is shown is not redacted, so its release is not fully redacted either.
-/

namespace RadicleArtifact.Releases

open RadicleArtifact.Core
open RadicleArtifact.Library
open RadicleArtifact.Cob

/-- Visibility rules for releases and artifacts. -/
structure Filters where
  trust : Trust
  scope : Trust.Scope
  includeRedacted : Bool

/-- Whether the artifact's author or a delegate redacted it. -/
def isRedactedByTrusted (artifact : Artifact) (delegates : BTreeSet Did) : Bool :=
  !(Trust.withdrawals artifact delegates).isEmpty

theorem isRedactedByTrusted_iff {artifact : Artifact} {delegates : BTreeSet Did} :
    isRedactedByTrusted artifact delegates = true ↔ Trust.Withdrawn artifact delegates := by
  rw [isRedactedByTrusted, Bool.not_eq_true', ← Bool.not_eq_true, Trust.withdrawals_isEmpty_iff,
    not_not]

/-- A release is fully redacted when it has artifacts and each of them is withdrawn. -/
theorem isFullyRedacted_iff {release : Release} {delegates : BTreeSet Did} :
    isFullyRedacted release delegates = true ↔
      release.artifacts.entries ≠ [] ∧
        ∀ entry ∈ release.artifacts.entries, Trust.Withdrawn entry.2 delegates := by
  rw [isFullyRedacted, Bool.and_eq_true, Bool.not_eq_true', List.isEmpty_eq_false_iff,
    List.all_eq_true, IndexMap.values, List.forall_mem_map]
  simp only [← isRedactedByTrusted_iff, isRedactedByTrusted]

namespace Filters

variable (filters : Filters)

def showsArtifact (artifact : Artifact) : Bool :=
  if !filters.includeRedacted && isRedactedByTrusted artifact filters.trust.delegates then false
  else filters.trust.admits filters.scope artifact.author

/-- The artifacts of a release that `showsArtifact` lets through. -/
def artifacts (release : Release) : List (Cid × Artifact) :=
  release.artifacts.entries.filter fun entry => filters.showsArtifact entry.2

def showsRelease (release : Release) : Bool :=
  filters.trust.admits filters.scope release.creator &&
    (filters.includeRedacted || !isFullyRedacted release filters.trust.delegates)

variable {filters}

theorem showsArtifact_iff {artifact : Artifact} (hhidden : filters.includeRedacted = false) :
    filters.showsArtifact artifact = true ↔
      ¬Trust.Withdrawn artifact filters.trust.delegates ∧
        filters.trust.admits filters.scope artifact.author := by
  rw [showsArtifact, hhidden, Bool.not_false, Bool.true_and, ← isRedactedByTrusted_iff]
  cases isRedactedByTrusted artifact filters.trust.delegates <;> simp

theorem showsRelease_iff {release : Release} (hhidden : filters.includeRedacted = false) :
    filters.showsRelease release = true ↔
      filters.trust.admits filters.scope release.creator ∧
        ¬isFullyRedacted release filters.trust.delegates := by
  rw [showsRelease, hhidden, Bool.false_or, Bool.and_eq_true, Bool.not_eq_true',
    Bool.not_eq_true]

/-- A release with an artifact that is not withdrawn is not fully redacted. -/
theorem not_isFullyRedacted_of_artifact {release : Release} {cid : Cid} {artifact : Artifact}
    {delegates : BTreeSet Did} (hartifact : release.artifact cid = some artifact)
    (hkept : ¬Trust.Withdrawn artifact delegates) : ¬isFullyRedacted release delegates := by
  intro hredacted
  have hentry := IndexMap.get?_eq_some_iff_mem.mp hartifact
  exact hkept ((isFullyRedacted_iff.mp hredacted).2 _ hentry)

/-- The check accepts an artifact exactly where both its release and it are shown. -/
theorem check_eq_ok_iff_shows (hhidden : filters.includeRedacted = false) {release : Release}
    {cid : Cid} {artifact : Artifact} (hartifact : release.artifact cid = some artifact) :
    filters.trust.check filters.scope release artifact = .ok () ↔
      filters.showsRelease release = true ∧ filters.showsArtifact artifact = true := by
  rw [Trust.check_eq_ok_iff, showsRelease_iff hhidden, showsArtifact_iff hhidden]
  constructor
  · rintro ⟨hcreator, hauthor, hkept⟩
    exact ⟨⟨hcreator, not_isFullyRedacted_of_artifact hartifact hkept⟩, hkept, hauthor⟩
  · rintro ⟨⟨hcreator, -⟩, hkept, hauthor⟩
    exact ⟨hcreator, hauthor, hkept⟩

end Filters

end RadicleArtifact.Releases
