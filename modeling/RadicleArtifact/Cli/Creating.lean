import RadicleArtifact.Library.Transition
import RadicleArtifact.Cli.Publishing

/-!
# Which release `create` gives back

`create` reuses a release only of the user's own, and a tag says which.  Nothing in the
store keeps a user from having two releases for one commit and tag, so that there is at
most one is a property of the commands: run without prompts, they never make a second.
-/

namespace RadicleArtifact.Cli

open RadicleArtifact.Core
open RadicleArtifact.Library
open RadicleArtifact.Cob
open RadicleArtifact.Releases (Listing)
open Workspace (Root Opened)

/-- What happens to the releases of a repository, as one user sees it. -/
inductive Event where
  | create (workspace : Workspace) (command : Create)
  | register (workspace : Workspace) (command : Register)
  /-- Whatever others do, and whatever the user does that makes no release. -/
  | others (after : Listing)

def step (releases : Listing) : Event → Option Listing
  | .create workspace command =>
      match workspace.createRelease command releases with
      | .ok (later, _, _) => some later
      | .error _ => some releases
  | .register workspace command => some (workspace.registerArtifact command releases).1
  | .others after => some after

/-- Releases keep their roots, and a new one is not the user's. -/
def ByOthers (user : Did) (before after : Listing) : Prop :=
  ∀ id release, after.get? id = some release →
    (∃ earlier, before.get? id = some earlier ∧ Root release earlier) ∨
      (before.get? id = none ∧ release.creator ≠ user)

/-- The commands are the user's, and `register` runs without prompts. -/
def Permitted (user : Did) (releases : Listing) : Event → Prop
  | .create workspace _ => workspace.localDid = user
  | .register workspace _ => workspace.localDid = user ∧ workspace.noInput = true
  | .others after => ByOthers user releases after

/-- The user has at most one release for a commit and a tag. -/
def OwnTagsDistinct (user : Did) (releases : Listing) : Prop :=
  ∀ id release other later, releases.get? id = some release → releases.get? other = some later →
    release.creator = user → later.creator = user → release.oid = later.oid →
      release.tag = later.tag → id = other

/-- Releases keep their roots, and at most one of the user's is new, for a commit and a tag
that none of them had. -/
def Extends (user : Did) (before after : Listing) : Prop :=
  ∃ fresh : Option ReleaseId, ∀ id release, after.get? id = some release →
    (∃ earlier, before.get? id = some earlier ∧ Root release earlier) ∨
      (release.creator = user → fresh = some id ∧
        ∀ other earlier, before.get? other = some earlier → earlier.creator = user →
          earlier.oid = release.oid → earlier.tag ≠ release.tag)

theorem Extends.refl (user : Did) (releases : Listing) : Extends user releases releases :=
  ⟨none, fun _ release hrelease => .inl ⟨release, hrelease, .refl release⟩⟩

theorem OwnTagsDistinct.of_extends {user : Did} {before after : Listing}
    (hbefore : OwnTagsDistinct user before) (hextends : Extends user before after) :
    OwnTagsDistinct user after := by
  intro id release other later hrelease hlater hcreator hcreator' hoid htag
  obtain ⟨fresh, hfresh⟩ := hextends
  rcases hfresh id release hrelease with ⟨first, hfirst, hoid₁, htag₁, hcreator₁⟩ | hnew
  · rcases hfresh other later hlater with ⟨second, hsecond, hoid₂, htag₂, hcreator₂⟩ | hnew
    · exact hbefore id first other second hfirst hsecond (hcreator₁.symm.trans hcreator)
        (hcreator₂.symm.trans hcreator') (hoid₁.symm.trans (hoid.trans hoid₂))
        (htag₁.symm.trans (htag.trans htag₂))
    · exact absurd (htag₁.symm.trans htag) ((hnew hcreator').2 id first hfirst
        (hcreator₁.symm.trans hcreator) (hoid₁.symm.trans hoid))
  · obtain ⟨hid, hnone⟩ := hnew hcreator
    rcases hfresh other later hlater with ⟨second, hsecond, hoid₂, htag₂, hcreator₂⟩ | hnew'
    · exact absurd (htag₂.symm.trans htag.symm) (hnone other second hsecond
        (hcreator₂.symm.trans hcreator') (hoid₂.symm.trans hoid.symm))
    · exact Option.some.inj (hid.symm.trans (hnew' hcreator').1)

/-- A new release of the user's, for a commit and a tag that none of theirs had. -/
theorem extends_insert {user : Did} {releases : Listing} {id : ReleaseId} {oid : Oid}
    {tag : Option Oid} {timestamp : Timestamp} (hnone : ∀ other earlier,
      releases.get? other = some earlier → earlier.creator = user → earlier.oid = oid →
        earlier.tag ≠ tag) :
    Extends user releases (releases.insert id (.new oid tag user timestamp)) := by
  refine ⟨some id, fun wanted release hrelease => ?_⟩
  rw [IndexMap.get?_insert] at hrelease
  by_cases hwanted : wanted = id
  · rw [if_pos hwanted] at hrelease
    obtain rfl := Option.some.inj hrelease
    exact .inr fun _ => ⟨by rw [hwanted], hnone⟩
  · rw [if_neg hwanted] at hrelease
    exact .inl ⟨release, hrelease, .refl release⟩

namespace Workspace

variable {workspace : Workspace}

/-! ## One command -/

theorem mem_mine_iff {releases : Listing} {oid : Oid} {candidates : List (ReleaseId × Release)}
    (hcandidates : workspace.collectCandidates releases oid = .ok candidates)
    {entry : ReleaseId × Release} :
    entry ∈ workspace.mine candidates ↔ releases.get? entry.1 = some entry.2 ∧
      entry.2.oid = oid ∧ entry.2.creator = workspace.localDid := by
  rw [mine, List.mem_filter, mem_candidates_iff hcandidates, decide_eq_true_iff, and_assoc,
    @eq_comm _ oid]

/-- A release that is reused is one of the user's for the commit, with the tag if one was
given. -/
theorem mem_of_reuse {oid : Oid} {tag : Option Oid} {mine : List (ReleaseId × Release)}
    {id : ReleaseId} (hreuse : workspace.reuse oid tag mine = .ok (some id)) :
    ∃ release, (id, release) ∈ mine ∧ (tag ≠ none → release.tag = tag) := by
  cases tag with
  | some tag =>
      obtain ⟨⟨found, release⟩, hfound, rfl⟩ := Option.map_eq_some_iff.mp (Except.ok.inj hreuse)
      exact ⟨release, List.mem_of_find?_eq_some hfound,
        fun _ => by simpa using List.find?_some hfound⟩
  | none =>
      simp only [reuse] at hreuse
      split at hreuse
      · simp at hreuse
      · rename_i found release
        obtain rfl := Option.some.inj (Except.ok.inj hreuse)
        exact ⟨release, List.mem_singleton_self _, fun hsome => absurd rfl hsome⟩
      · split at hreuse
        · contradiction
        · split at hreuse
          · rename_i picked hpicked
            obtain rfl := Option.some.inj (Except.ok.inj hreuse)
            obtain ⟨⟨found, release⟩, hfound, rfl⟩ :=
              List.mem_map.mp (workspace.mem_of_pickExistingRelease _ _ hpicked)
            exact ⟨release, hfound, fun hsome => absurd rfl hsome⟩
          · contradiction

/-- None is reused when none of the user's for the commit has the tag, or there is none. -/
theorem tag_ne_of_reuse {oid : Oid} {tag : Option Oid} {mine : List (ReleaseId × Release)}
    (hreuse : workspace.reuse oid tag mine = .ok none) :
    (tag = none → mine = []) ∧ ∀ entry ∈ mine, entry.2.tag ≠ tag := by
  cases tag with
  | some tag =>
      have hnone := Option.map_eq_none_iff.mp (Except.ok.inj hreuse)
      refine ⟨fun hsome => by contradiction, fun entry hentry => ?_⟩
      simpa using List.find?_eq_none.mp hnone entry hentry
  | none =>
      simp only [reuse] at hreuse
      split at hreuse
      · exact ⟨fun _ => rfl, by simp⟩
      · simp at hreuse
      · split at hreuse
        · contradiction
        · split at hreuse
          · simp at hreuse
          · contradiction

/-- `create` gives back a release of the user's for the commit, or makes one where the user
has none with the tag; a bare commit makes one only where the user has none at all. -/
inductive Created (workspace : Workspace) (releases : Listing) (resolved : ResolvedRef) :
    Listing → ReleaseId → Bool → Prop
  | reused (id : ReleaseId) (release : Release) (hrelease : releases.get? id = some release)
      (hoid : release.oid = resolved.commit) (hcreator : release.creator = workspace.localDid)
      (htag : resolved.tag ≠ none → release.tag = resolved.tag) :
      Created workspace releases resolved releases id true
  | minted (id : ReleaseId) (timestamp : Timestamp) (hfresh : releases.get? id = none)
      (hbare : resolved.tag = none → ∀ other earlier, releases.get? other = some earlier →
        earlier.creator = workspace.localDid → earlier.oid ≠ resolved.commit)
      (hnone : ∀ other earlier, releases.get? other = some earlier →
        earlier.creator = workspace.localDid → earlier.oid = resolved.commit →
          earlier.tag ≠ resolved.tag) :
      Created workspace releases resolved
        (releases.insert id (.new resolved.commit resolved.tag workspace.localDid timestamp))
        id false

theorem created_of_createRelease {command : Create} {releases later : Listing} {id : ReleaseId}
    {reused : Bool} (hok : workspace.createRelease command releases = .ok (later, id, reused)) :
    ∃ resolved, workspace.resolveCommit command.revision = .ok resolved ∧
      Created workspace releases resolved later id reused := by
  rw [createRelease] at hok
  obtain ⟨resolved, hresolved, hrest⟩ := bind_eq_ok_iff.mp hok
  refine ⟨resolved, hresolved, ?_⟩
  cases hcandidates : workspace.collectCandidates releases resolved.commit with
  | error err => simp [hcandidates, throw, throwThe, MonadExceptOf.throw] at hrest
  | ok candidates =>
      rw [hcandidates] at hrest
      have hmine := fun entry => @mem_mine_iff workspace _ _ _ hcandidates entry
      obtain ⟨found, hfound, hchoice⟩ := bind_eq_ok_iff.mp hrest
      cases found with
      | some found =>
          obtain ⟨rfl, hpair⟩ := Prod.mk.inj (Except.ok.inj hchoice)
          obtain ⟨rfl, rfl⟩ := Prod.mk.inj hpair
          obtain ⟨release, hmem, htag⟩ := mem_of_reuse hfound
          obtain ⟨hrelease, hoid, hcreator⟩ := (hmine _).mp hmem
          exact .reused found release hrelease hoid hcreator htag
      | none =>
          obtain ⟨hbare, hnone⟩ := tag_ne_of_reuse hfound
          cases hnew : workspace.newRelease releases resolved.commit resolved.tag with
          | error err => simp [hnew, throw, throwThe, MonadExceptOf.throw] at hchoice
          | ok pair =>
              rw [hnew] at hchoice
              obtain ⟨rfl, hpair⟩ := Prod.mk.inj (Except.ok.inj hchoice)
              obtain ⟨rfl, rfl⟩ := Prod.mk.inj hpair
              obtain ⟨timestamp, hfresh, hlater⟩ := newRelease_eq_ok hnew
              rw [hlater]
              refine .minted _ timestamp hfresh (fun htag other earlier hother hcreator hoid => ?_)
                fun other earlier hother hcreator hoid => ?_
              · have hmem := (hmine (other, earlier)).mpr ⟨hother, hoid, hcreator⟩
                rw [hbare htag] at hmem
                contradiction
              · exact hnone _ ((hmine (other, earlier)).mpr ⟨hother, hoid, hcreator⟩)

theorem extends_of_created {releases later : Listing} {resolved : ResolvedRef}
    {id : ReleaseId} {reused : Bool}
    (hcreated : Created workspace releases resolved later id reused) :
    Extends workspace.localDid releases later := by
  cases hcreated with
  | reused => exact .refl workspace.localDid releases
  | minted id timestamp hfresh hbare hnone => exact extends_insert hnone

theorem extends_written {releases opened : Listing} {id : ReleaseId} {release : Release}
    (hrelease : opened.get? id = some release) (artifacts : List Pending)
    (hopened : Extends workspace.localDid releases opened) :
    Extends workspace.localDid releases (workspace.written id artifacts opened) := by
  obtain ⟨fresh, hfresh⟩ := hopened
  obtain ⟨⟨later, hlater, hroot⟩, hothers, -⟩ := written_spec hrelease artifacts
  refine ⟨fresh, fun wanted found hfound => ?_⟩
  by_cases hwanted : wanted = id
  · subst hwanted
    rw [hlater] at hfound
    obtain rfl := Option.some.inj hfound
    rcases hfresh wanted release hrelease with ⟨earlier, hearlier, hsame⟩ | hnew
    · exact .inl ⟨earlier, hearlier, hroot.trans hsame⟩
    · obtain ⟨hoid, htag, hcreator⟩ := hroot
      rw [hoid, htag, hcreator]
      exact .inr hnew
  · rw [hothers wanted hwanted] at hfound
    exact hfresh wanted found hfound

/-- However a registration ends, it wrote some artifacts into the release it opened. -/
theorem exists_written (workspace : Workspace) (command : Register) (before : Listing) :
    (workspace.registerArtifact command before).1 = before ∨
    ∃ opened id release done, Opened workspace command before opened id ∧
      opened.get? id = some release ∧
        (workspace.registerArtifact command before).1 = workspace.written id done opened := by
  cases hrun : workspace.registerArtifact command before with
  | mk after outcome =>
      rcases registerArtifact_eq hrun with ⟨hsame, -⟩ |
        ⟨pending, skipped, opened, id, done, -, hopened, -, hafter, -⟩
      · exact .inl hsame
      · obtain ⟨⟨release, hrelease⟩, -⟩ := exists_of_opened hopened
        exact .inr ⟨opened, id, release, done, hopened, hrelease, hafter⟩

/-- Without prompts a registration makes a release only where the user has none for the
commit: their own are always in view. -/
theorem extends_of_registerArtifact {command : Register} {before : Listing}
    (hinput : workspace.noInput = true) :
    Extends workspace.localDid before (workspace.registerArtifact command before).1 := by
  rcases exists_written workspace command before with hsame |
    ⟨opened, id, release, done, hopened, hrelease, hafter⟩
  · rw [hsame]
    exact .refl workspace.localDid before
  · rw [hafter]
    apply extends_written hrelease
    cases hopened with
    | existing => exact .refl workspace.localDid _
    | created id oid tag timestamp hfresh hnone =>
        refine extends_insert fun other earlier hother hcreator hoid => ?_
        have hhidden := hnone hinput other earlier hother hoid
        rw [releaseVisible, hcreator, admits_local] at hhidden
        contradiction

end Workspace

/-! ## Every run -/

theorem extends_of_step {user : Did} {releases next : Listing} {event : Event}
    (hpermitted : Permitted user releases event) (hstep : step releases event = some next) :
    Extends user releases next := by
  cases event with
  | create workspace command =>
      obtain rfl := hpermitted
      rw [step] at hstep
      split at hstep
      · rename_i later id reused hok
        obtain rfl := Option.some.inj hstep
        obtain ⟨resolved, -, hcreated⟩ := Workspace.created_of_createRelease hok
        exact Workspace.extends_of_created hcreated
      · obtain rfl := Option.some.inj hstep
        exact .refl workspace.localDid _
  | register workspace command =>
      obtain ⟨rfl, hinput⟩ := hpermitted
      obtain rfl := Option.some.inj hstep
      exact Workspace.extends_of_registerArtifact hinput
  | others after =>
      obtain rfl := Option.some.inj hstep
      refine ⟨none, fun id release hrelease => ?_⟩
      rcases hpermitted id release hrelease with hkept | ⟨-, hother⟩
      · exact .inl hkept
      · exact .inr fun hcreator => absurd hcreator hother

/-- However the commands and what others do are ordered, the user never comes to have two
releases for one commit and tag. -/
theorem own_tags_stay_distinct {user : Did} {start releases : Listing}
    (hstart : OwnTagsDistinct user start)
    (hreachable : Reachable step (Permitted user) start releases) :
    OwnTagsDistinct user releases :=
  hreachable.invariant hstart fun _ _ _ hdistinct hpermitted hstep =>
    hdistinct.of_extends (extends_of_step hpermitted hstep)

/-- The release is not removed. -/
def Keeps (id : ReleaseId) : Event → Prop
  | .others after => ∃ release, after.get? id = some release
  | _ => True

/-- A run of the user's commands and of what others do, none of which removes the release. -/
def KeepingRun (user : Did) (id : ReleaseId) : Listing → Listing → Prop :=
  Reachable step fun releases event => Permitted user releases event ∧ Keeps id event

/-- The release is there, with the root it had. -/
def Rooted (id : ReleaseId) (root : Release) (releases : Listing) : Prop :=
  ∃ release, releases.get? id = some release ∧ Root release root

theorem rooted_insert {id other : ReleaseId} {root release : Release} {releases : Listing}
    (hrooted : Rooted id root releases) (hfresh : releases.get? other = none) :
    Rooted id root (releases.insert other release) := by
  obtain ⟨found, hfound, hroot⟩ := hrooted
  have hne : id ≠ other := by
    rintro rfl
    rw [hfound] at hfresh
    contradiction
  refine ⟨found, ?_, hroot⟩
  rw [IndexMap.get?_insert, if_neg hne]
  exact hfound

theorem rooted_written {workspace : Workspace} {id target : ReleaseId} {root release : Release}
    {opened : Listing} (hrooted : Rooted id root opened)
    (hrelease : opened.get? target = some release) (artifacts : List Pending) :
    Rooted id root (workspace.written target artifacts opened) := by
  obtain ⟨⟨later, hlater, hroot⟩, hothers, -⟩ := Workspace.written_spec hrelease artifacts
  obtain ⟨found, hfound, hfoundRoot⟩ := hrooted
  by_cases htarget : id = target
  · subst htarget
    rw [hrelease] at hfound
    obtain rfl := Option.some.inj hfound
    exact ⟨later, hlater, hroot.trans hfoundRoot⟩
  · exact ⟨found, (hothers id htarget).trans hfound, hfoundRoot⟩

theorem rooted_byOthers {user : Did} {id : ReleaseId} {root release : Release}
    {before after : Listing} (hrooted : Rooted id root before)
    (hothers : ByOthers user before after) (hrelease : after.get? id = some release) :
    Rooted id root after := by
  obtain ⟨found, hfound, hfoundRoot⟩ := hrooted
  rcases hothers id release hrelease with ⟨earlier, hearlier, hsame⟩ | ⟨hnone, -⟩
  · rw [hfound] at hearlier
    obtain rfl := Option.some.inj hearlier
    exact ⟨release, hrelease, hsame.trans hfoundRoot⟩
  · rw [hfound] at hnone
    contradiction

theorem rooted_of_step {user : Did} {id : ReleaseId} {root : Release} {releases next : Listing}
    {event : Event} (hrooted : Rooted id root releases)
    (hpermitted : Permitted user releases event ∧ Keeps id event)
    (hstep : step releases event = some next) : Rooted id root next := by
  cases event with
  | create workspace command =>
      rw [step] at hstep
      split at hstep
      · rename_i later created reused hok
        obtain rfl := Option.some.inj hstep
        obtain ⟨resolved, -, hcreated⟩ := Workspace.created_of_createRelease hok
        cases hcreated with
        | reused => exact hrooted
        | minted created timestamp hfresh => exact rooted_insert hrooted hfresh
      · obtain rfl := Option.some.inj hstep
        exact hrooted
  | register workspace command =>
      obtain rfl := Option.some.inj hstep
      rcases Workspace.exists_written workspace command releases with hsame |
        ⟨opened, target, release, done, hopened, hrelease, hafter⟩
      · rw [hsame]
        exact hrooted
      · rw [hafter]
        have hrootedOpened : Rooted id root opened := by
          cases hopened with
          | existing => exact hrooted
          | created target oid tag timestamp hfresh => exact rooted_insert hrooted hfresh
        exact rooted_written hrootedOpened hrelease done
  | others after =>
      obtain rfl := Option.some.inj hstep
      obtain ⟨hothers, release, hrelease⟩ := hpermitted
      exact rooted_byOthers hrooted hothers hrelease

/-- The release stays as long as nobody removes it. -/
theorem rooted_of_keepingRun {user : Did} {id : ReleaseId} {root : Release}
    {start releases : Listing} (hstart : Rooted id root start)
    (hrun : KeepingRun user id start releases) : Rooted id root releases :=
  hrun.invariant hstart fun _ _ _ hrooted hpermitted hstep =>
    rooted_of_step hrooted hpermitted hstep

/-- Without the condition on what is kept, the run is one of the user's. -/
theorem reachable_of_keepingRun {user : Did} {id : ReleaseId} {start middle releases : Listing}
    (hstart : Reachable step (Permitted user) start middle)
    (hrun : KeepingRun user id middle releases) :
    Reachable step (Permitted user) start releases := by
  induction hrun with
  | start => exact hstart
  | step event next _ hpermitted hstep ih => exact ih.step event next hpermitted.1 hstep

/-- What `create` gave back is there, and it is the user's for the commit. -/
theorem rooted_of_created {workspace : Workspace} {releases later : Listing}
    {resolved : ResolvedRef} {id : ReleaseId} {reused : Bool}
    (hcreated : Workspace.Created workspace releases resolved later id reused) :
    ∃ root, Rooted id root later ∧ root.creator = workspace.localDid ∧
      root.oid = resolved.commit ∧ (resolved.tag ≠ none → root.tag = resolved.tag) := by
  cases hcreated with
  | reused id release hrelease hoid hcreator htag =>
      exact ⟨release, ⟨release, hrelease, .refl release⟩, hcreator, hoid, htag⟩
  | minted id timestamp hfresh =>
      exact ⟨.new resolved.commit resolved.tag workspace.localDid timestamp,
        ⟨_, by rw [IndexMap.get?_insert, if_pos rfl], .refl _⟩, rfl, rfl, fun _ => rfl⟩

/-- Creating again, whatever was done in between short of removing the release, makes no
second one: a bare commit finds one of the user's, and the same tag finds the same one. -/
theorem create_again_reuses (user : Did) (start before created later final : Listing)
    (first second : Workspace) (command again : Create) (resolved resolvedAgain : ResolvedRef)
    (id idAgain : ReleaseId) (reused reusedAgain : Bool)
    (hstart : OwnTagsDistinct user start)
    (hbefore : Reachable step (Permitted user) start before)
    (hfirst : first.localDid = user) (hsecond : second.localDid = user)
    (hresolved : first.resolveCommit command.revision = .ok resolved)
    (hcreate : first.createRelease command before = .ok (created, id, reused))
    (hrun : KeepingRun user id created later)
    (hresolvedAgain : second.resolveCommit again.revision = .ok resolvedAgain)
    (hagain : second.createRelease again later = .ok (final, idAgain, reusedAgain))
    (hcommit : resolvedAgain.commit = resolved.commit)
    (htag : resolvedAgain.tag = none ∨ resolvedAgain.tag = resolved.tag) :
    reusedAgain = true ∧ final = later ∧ (resolvedAgain.tag ≠ none → idAgain = id) := by
  obtain ⟨found, hfound, hcreated⟩ := Workspace.created_of_createRelease hcreate
  rw [hresolved] at hfound
  obtain rfl := Except.ok.inj hfound
  obtain ⟨foundAgain, hfoundAgain, hcreatedAgain⟩ := Workspace.created_of_createRelease hagain
  rw [hresolvedAgain] at hfoundAgain
  obtain rfl := Except.ok.inj hfoundAgain
  have hstep : step before (.create first command) = some created := by
    rw [step, hcreate]
  have hpermitted : Permitted user before (.create first command) := hfirst
  have hreachable := hbefore.step _ created hpermitted hstep
  have hdistinct := own_tags_stay_distinct hstart (reachable_of_keepingRun hreachable hrun)
  obtain ⟨root, hrooted, hcreator, hoid, hrootTag⟩ := rooted_of_created hcreated
  obtain ⟨release, hrelease, hreleaseOid, hreleaseTag, hreleaseCreator⟩ :=
    rooted_of_keepingRun hrooted hrun
  have hours : release.creator = second.localDid :=
    hreleaseCreator.trans (hcreator.trans (hfirst.trans hsecond.symm))
  have hsame : release.oid = resolvedAgain.commit :=
    hreleaseOid.trans (hoid.trans hcommit.symm)
  cases hcreatedAgain with
  | reused idAgain other hother hotherOid hotherCreator hotherTag =>
      refine ⟨rfl, rfl, fun hsome => ?_⟩
      have hequal := htag.resolve_left hsome
      refine hdistinct idAgain other id release hother hrelease (hotherCreator.trans hsecond)
        (hours.trans hsecond) (hotherOid.trans hsame.symm) ?_
      rw [hotherTag hsome, hreleaseTag, hrootTag (hequal ▸ hsome), hequal]
  | minted idAgain timestamp hfresh hbare hnone =>
      exfalso
      by_cases hsome : resolvedAgain.tag = none
      · exact hbare hsome id release hrelease hours hsame
      · have hequal := htag.resolve_left hsome
        refine hnone id release hrelease hours hsame ?_
        rw [hreleaseTag, hrootTag (hequal ▸ hsome), hequal]

/-- A user who creates a release for a tag twice, with a file registered in between. -/
theorem create_again_reuses_of_tagged :
    let user : Did := .filled 32 1
    let workspace := Workspace.alone lengthHash (.single (Utf8.encode "app") [7]) user 1
      fun _ => .ok ⟨.filled 20 2, some (.filled 20 2)⟩
    ∃ created id later final idAgain reusedAgain,
      workspace.createRelease ⟨some "v1"⟩ ∅ = .ok (created, id, false) ∧
        workspace.createRelease ⟨some "v1"⟩ later = .ok (final, idAgain, reusedAgain) ∧
          later = (workspace.registerArtifact Workspace.eachCommand created).1 ∧
            reusedAgain = true ∧ idAgain = id := by
  intro user workspace
  refine ⟨_, _, _, _, _, _, rfl, rfl, rfl, ?_⟩
  have hrun : ∀ releases, KeepingRun user (.filled 20 2) releases
      (workspace.registerArtifact Workspace.eachCommand releases).1 := by
    intro releases
    have hpermitted : Permitted user releases (.register workspace Workspace.eachCommand) :=
      ⟨rfl, rfl⟩
    exact Reachable.start.step _ _ ⟨hpermitted, trivial⟩ rfl
  have hagain := create_again_reuses user ∅ ∅ _ _ _ workspace workspace ⟨some "v1"⟩ ⟨some "v1"⟩
    _ _ _ _ false _ (fun _ _ _ _ hnone => by contradiction) .start rfl rfl rfl rfl
    (hrun _) rfl rfl rfl (Or.inr rfl)
  exact ⟨hagain.1, hagain.2.2 (by simp)⟩

end RadicleArtifact.Cli
