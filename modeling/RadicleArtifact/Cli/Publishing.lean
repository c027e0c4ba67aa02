import RadicleArtifact.Cli.Register

/-!
# What a registration leaves behind

A registration writes the artifacts it gathered, in order, into one release, and stops at
the first write that fails.  What each of them does to the release depends on who
registered the same content there before: a name is the author's to set.
-/

namespace RadicleArtifact.Cli

open RadicleArtifact.Core
open RadicleArtifact.Library
open RadicleArtifact.Library.Utf8 (OsString)
open RadicleArtifact.Cob
open RadicleArtifact.Releases (Listing StoreError)
open RadicleArtifact.Replicas (sizeValue)
open RadicleArtifact.Watch (metadataKeySizeBytes)

/-! ## One directory level -/

theorem mem_scan_iff {dir : Path} {entries : DirEntries} {member : Member} :
    member ∈ (scan dir entries).1 ↔
      ∃ contents, (Utf8.encode member.name, .file contents) ∈ entries ∧
        member = ⟨member.name, dir ++ [Utf8.encode member.name], contents.length⟩ := by
  induction entries with
  | nil => simp [scan]
  | cons entry entries ih =>
      obtain ⟨name, entry⟩ := entry
      cases entry with
      | dir inner => simpa [scan] using ih
      | special kind => simpa [scan] using ih
      | file contents =>
          cases hname : Utf8.toStr name with
          | none =>
              have hother : ∀ text, ¬ Utf8.encode text = name := by
                intro text htext
                rw [← htext, Utf8.toStr_encode] at hname
                contradiction
              simpa [scan, hname, hother] using ih
          | some text =>
              obtain rfl := Utf8.toStr_eq_some_iff.mp hname
              have hmembers : (scan dir ((Utf8.encode text, .file contents) :: entries)).1 =
                  ⟨text, dir ++ [Utf8.encode text], contents.length⟩ :: (scan dir entries).1 := by
                simp [scan, hname]
              rw [hmembers, List.mem_cons, ih]
              constructor
              · rintro (rfl | ⟨found, hfound, hmember⟩)
                · exact ⟨contents, by simp⟩
                · exact ⟨found, List.mem_cons_of_mem _ hfound, hmember⟩
              · rintro ⟨found, hfound, hmember⟩
                rcases List.mem_cons.mp hfound with hhead | htail
                · obtain ⟨hname', hcontents⟩ := Prod.mk.inj hhead
                  obtain rfl := FileTree.file.inj hcontents
                  left
                  rw [hmember, Utf8.encode_injective hname']
                · exact Or.inr ⟨found, htail, hmember⟩

/-- A directory lists no name twice, so neither do its members. -/
theorem nodup_names_scan {dir : Path} {entries : DirEntries}
    (hnodup : (entries.map Prod.fst).Nodup) :
    ((scan dir entries).1.map Member.name).Nodup := by
  induction entries with
  | nil => simp [scan]
  | cons entry entries ih =>
      obtain ⟨name, entry⟩ := entry
      obtain ⟨hname, hrest⟩ := List.nodup_cons.mp hnodup
      cases entry with
      | dir inner => simpa [scan] using ih hrest
      | special kind => simpa [scan] using ih hrest
      | file contents =>
          cases htext : Utf8.toStr name with
          | none => simpa [scan, htext] using ih hrest
          | some text =>
              have hfresh : text ∉ (scan dir entries).1.map Member.name := by
                intro hmem
                obtain ⟨member, hmember, rfl⟩ := List.mem_map.mp hmem
                obtain ⟨found, hfound, -⟩ := mem_scan_iff.mp hmember
                rw [← Utf8.toStr_eq_some_iff.mp htext] at hfound
                exact hname (List.mem_map.mpr ⟨_, hfound, rfl⟩)
              simp only [scan, htext, List.map_cons, List.nodup_cons]
              exact ⟨hfresh, ih hrest⟩

/-- Every entry is a member, a subdirectory or counted as something else. -/
theorem length_scan (dir : Path) (entries : DirEntries) :
    (scan dir entries).1.length + (scan dir entries).2.dirs + (scan dir entries).2.other =
      entries.length := by
  induction entries with
  | nil => rfl
  | cons entry entries ih =>
      obtain ⟨name, entry⟩ := entry
      cases entry with
      | dir inner => simp only [scan, List.length_cons]; omega
      | special kind => simp only [scan, List.length_cons]; omega
      | file contents =>
          cases htext : Utf8.toStr name with
          | none => simp only [scan, htext, List.length_cons]; omega
          | some text => simp only [scan, htext, List.length_cons]; omega

/-! ## One write -/

/-- What a registration makes of the artifact it names. -/
def Pending.record (user : Did) (pending : Pending) (artifact : Artifact) : Artifact :=
  pending.actions.foldl (fun artifact action => artifact.apply user action) artifact

/-- What it makes of the slot of a content identifier. -/
def Pending.fill (user : Did) (cid : Cid) (slot : Option Artifact) (pending : Pending) :
    Option Artifact :=
  if pending.cid = cid then
    some (pending.record user (slot.getD (.register user pending.name)))
  else slot

namespace Pending

variable {user : Did} {pending : Pending}

theorem record_eq (artifact : Artifact) :
    pending.record user artifact =
      let named := artifact.apply user (.registerArtifact pending.cid pending.name)
      match pending.size with
      | some bytes => named.writeMetadata user metadataKeySizeBytes (.set (sizeValue bytes))
      | none => named := by
  cases hsize : pending.size <;> simp [record, actions, hsize, Artifact.apply]

@[simp]
theorem author_record (artifact : Artifact) :
    (pending.record user artifact).author = artifact.author := by
  cases hsize : pending.size <;> simp [record, actions, hsize]

theorem name_record (artifact : Artifact) :
    (pending.record user artifact).name =
      if artifact.author = user then pending.name else artifact.name := by
  have hnamed : (artifact.apply user (.registerArtifact pending.cid pending.name)).name =
      if artifact.author = user then pending.name else artifact.name := by
    rw [Artifact.apply]
    split <;> rfl
  rw [record_eq]
  cases pending.size <;> exact hnamed

@[simp]
theorem redactionBy_record (artifact : Artifact) (did : Did) :
    (pending.record user artifact).redactionBy did = artifact.redactionBy did := by
  have hnamed : (artifact.apply user (.registerArtifact pending.cid pending.name)).redactionBy did =
      artifact.redactionBy did :=
    Artifact.read_apply_register (·.redactionBy did) fun name => rfl
  rw [record_eq]
  cases pending.size <;> exact hnamed

end Pending

/-- The actions of one entry are a run of the history that the user signs them into. -/
theorem foldl_actions_eq_run (user : Did) (actions : List Action) (release : Release) :
    actions.foldl (fun release action => release.action user action) release =
      release.run (actions.map fun action => ⟨user, action⟩) := by
  rw [Release.run, List.foldl_map]

theorem artifact_run_of_unnamed {release : Release} {cid : Cid} {history : List SignedAction}
    (hunnamed : ∀ entry ∈ history, entry.action.cid? ≠ some cid) :
    (release.run history).artifact cid = release.artifact cid := by
  induction history generalizing release with
  | nil => rfl
  | cons entry history ih =>
      obtain ⟨hentry, hhistory⟩ := List.forall_mem_cons.mp hunnamed
      rw [Release.run_cons, ih hhistory]
      exact Release.artifact_action_of_unnamed release entry.user hentry

namespace Pending

/-- A registration names its artifact in every action, and registers it first. -/
theorem exists_actions_eq (pending : Pending) :
    ∃ rest, pending.actions = .registerArtifact pending.cid pending.name :: rest ∧
      ∀ action ∈ rest, action.cid? = some pending.cid := by
  cases hsize : pending.size <;> simp [actions, hsize, Action.cid?]

theorem cid?_of_mem_actions {pending : Pending} {action : Action}
    (haction : action ∈ pending.actions) : action.cid? = some pending.cid := by
  obtain ⟨rest, hactions, hrest⟩ := pending.exists_actions_eq
  rw [hactions] at haction
  rcases List.mem_cons.mp haction with rfl | hmem
  · rfl
  · exact hrest action hmem

/-- An observer of the artifact sees every action of its registration. -/
theorem foldl_observe_actions (user : Did) (pending : Pending) (artifact : Artifact) :
    (pending.actions.map fun action => (⟨user, action⟩ : SignedAction)).foldl
      (Artifact.observe pending.cid) artifact = pending.record user artifact := by
  rw [List.foldl_map, record]
  apply List.foldl_ext
  intro earlier action haction
  rw [Artifact.observe, if_pos (cid?_of_mem_actions haction)]

end Pending

/-- The entry of one registration changes the slot it names, and no other. -/
theorem artifact_foldl_actions (user : Did) (pending : Pending) (release : Release) (cid : Cid) :
    (pending.actions.foldl (fun release action => release.action user action)
      release).artifact cid = pending.fill user cid (release.artifact cid) := by
  rw [foldl_actions_eq_run, Pending.fill]
  by_cases hcid : pending.cid = cid
  · subst hcid
    rw [if_pos rfl]
    cases hslot : release.artifact pending.cid with
    | some artifact =>
        rw [Release.artifact_run_of_some hslot, Pending.foldl_observe_actions]
        rfl
    | none =>
        obtain ⟨rest, hactions, -⟩ := pending.exists_actions_eq
        have hname : SignedAction.registeredName pending.cid
            ⟨user, .registerArtifact pending.cid pending.name⟩ = some pending.name := by
          simp [SignedAction.registeredName]
        have hfirst := @Release.artifact_run_of_first release pending.cid hslot []
          (rest.map fun action => ⟨user, action⟩) _ _ hname (by simp)
        rw [hactions, List.map_cons]
        refine hfirst.trans ?_
        rw [Option.getD_none, ← Pending.foldl_observe_actions, hactions, List.map_cons,
          List.foldl_cons]
        congr 2
        simp [Artifact.observe, Action.cid?, Artifact.apply, Artifact.register]
  · rw [if_neg hcid]
    apply artifact_run_of_unnamed
    intro entry hentry
    obtain ⟨action, haction, rfl⟩ := List.mem_map.mp hentry
    rw [Pending.cid?_of_mem_actions haction]
    exact fun hsome => hcid (Option.some.inj hsome)

/-! ## A series of writes -/

/-- What the registrations in a list make of a slot, one after the other. -/
def Pending.fillAll (user : Did) (cid : Cid) (slot : Option Artifact) (pending : List Pending) :
    Option Artifact :=
  pending.foldl (Pending.fill user cid) slot

namespace Pending

variable {user : Did} {cid : Cid} {slot : Option Artifact} {pending : List Pending}

theorem fillAll_of_forall_ne (hne : ∀ other ∈ pending, other.cid ≠ cid) :
    fillAll user cid slot pending = slot := by
  induction pending with
  | nil => rfl
  | cons first rest ih =>
      obtain ⟨hfirst, hrest⟩ := List.forall_mem_cons.mp hne
      rw [fillAll, List.foldl_cons, fill, if_neg hfirst]
      exact ih hrest

/-- What an empty slot is taken for: an artifact of the user's own. -/
def authorIn (user : Did) (slot : Option Artifact) : Did :=
  slot.elim user Artifact.author

theorem author_of_fillAll {artifact : Artifact}
    (hfilled : fillAll user cid slot pending = some artifact) :
    artifact.author = authorIn user slot := by
  induction pending generalizing slot with
  | nil =>
      rw [fillAll, List.foldl_nil] at hfilled
      rw [hfilled]
      rfl
  | cons first rest ih =>
      rw [fillAll, List.foldl_cons] at hfilled
      rw [ih hfilled, fill]
      split
      · cases slot <;> simp [authorIn]
      · rfl

theorem redactionBy_of_fillAll {artifact : Artifact} (did : Did)
    (hfilled : fillAll user cid slot pending = some artifact) :
    artifact.redactionBy did = slot.bind (·.redactionBy did) := by
  induction pending generalizing slot with
  | nil =>
      rw [fillAll, List.foldl_nil] at hfilled
      rw [hfilled]
      rfl
  | cons first rest ih =>
      rw [fillAll, List.foldl_cons] at hfilled
      rw [ih hfilled, fill]
      split
      · cases slot with
        | none =>
            rw [Option.getD_none, Option.bind_some, redactionBy_record]
            simp [Artifact.redactionBy, Artifact.register]
        | some earlier => simp
      · rfl

theorem isSome_fillAll (hsome : slot.isSome ∨ ∃ item ∈ pending, item.cid = cid) :
    (fillAll user cid slot pending).isSome := by
  induction pending generalizing slot with
  | nil => simpa [fillAll] using hsome
  | cons first rest ih =>
      rw [fillAll, List.foldl_cons]
      apply ih
      by_cases hfirst : first.cid = cid
      · left
        rw [fill, if_pos hfirst, Option.isSome_some]
      · rw [fill, if_neg hfirst]
        rcases hsome with hslot | ⟨item, hitem, hcid⟩
        · exact Or.inl hslot
        · rcases List.mem_cons.mp hitem with rfl | hrest
          · exact absurd hcid hfirst
          · exact Or.inr ⟨item, hrest, hcid⟩

/-- The last registration of a content identifier leaves its name, where it may. -/
theorem fillAll_of_last {last : Pending} {earlier later : List Pending} (hlast : last.cid = cid)
    (hlater : ∀ other ∈ later, other.cid ≠ cid) :
    ∃ artifact, fillAll user cid slot (earlier ++ last :: later) = some artifact ∧
      (artifact.author = user → artifact.name = last.name) := by
  have hsplit : fillAll user cid slot (earlier ++ last :: later) =
      fill user cid (fillAll user cid slot earlier) last := by
    rw [fillAll, List.foldl_append, List.foldl_cons]
    exact fillAll_of_forall_ne hlater
  rw [hsplit, fill, if_pos hlast]
  refine ⟨_, rfl, fun hauthor => ?_⟩
  rw [author_record] at hauthor
  rw [name_record, if_pos hauthor]

end Pending

namespace Workspace

variable (workspace : Workspace)

/-- The releases after a list of registrations that all went through. -/
def written (id : ReleaseId) (pending : List Pending) (releases : Listing) : Listing :=
  pending.foldl (fun releases pending => workspace.write id pending releases) releases

/-- The entries before the first failure are written, and nothing else is. -/
theorem writeAll_eq {id : ReleaseId} {pending : List Pending} {releases later : Listing}
    {outcome : Except StoreError Unit}
    (hwrites : workspace.writeAll id pending releases = (later, outcome)) :
    ∃ done, done <+: pending ∧ later = workspace.written id done releases ∧
      (outcome = .ok () → done = pending) := by
  induction pending generalizing releases with
  | nil =>
      obtain ⟨rfl, -⟩ := Prod.mk.inj hwrites
      exact ⟨[], List.prefix_rfl, rfl, fun _ => rfl⟩
  | cons first rest ih =>
      rw [writeAll] at hwrites
      cases hcommit : workspace.commit releases id first.actions with
      | error err =>
          rw [hcommit] at hwrites
          obtain ⟨rfl, rfl⟩ := Prod.mk.inj hwrites
          exact ⟨[], List.nil_prefix, rfl, fun hok => by cases hok⟩
      | ok value =>
          rw [hcommit] at hwrites
          obtain ⟨done, hdone, hlater, hok⟩ := ih hwrites
          refine ⟨first :: done, List.prefix_cons_inj _ |>.mpr hdone, hlater, fun houtcome => ?_⟩
          rw [hok houtcome]

variable {workspace}

theorem get?_write {id wanted : ReleaseId} {pending : Pending} {releases : Listing} :
    (workspace.write id pending releases).get? wanted =
      if wanted = id then (releases.get? wanted).map fun release =>
        pending.actions.foldl (fun release action => release.action workspace.localDid action)
          release
      else releases.get? wanted :=
  IndexMap.get?_modify releases id _ wanted

theorem artifact_write {id wantedId : ReleaseId} {cid : Cid} {pending : Pending}
    {releases : Listing} {release : Release} (hrelease : releases.get? id = some release) :
    (workspace.write id pending releases).artifact wantedId cid =
      if wantedId = id then pending.fill workspace.localDid cid (releases.artifact wantedId cid)
      else releases.artifact wantedId cid := by
  rw [Listing.artifact, get?_write]
  by_cases hid : wantedId = id
  · rw [if_pos hid, if_pos hid, Listing.artifact, hid, hrelease]
    exact artifact_foldl_actions workspace.localDid pending release cid
  · rw [if_neg hid, if_neg hid]
    rfl

/-- What a release keeps whatever is written to it. -/
def Root (release earlier : Release) : Prop :=
  release.oid = earlier.oid ∧ release.tag = earlier.tag ∧ release.creator = earlier.creator

theorem Root.refl (release : Release) : Root release release := ⟨rfl, rfl, rfl⟩

theorem Root.trans {release middle earlier : Release} (hroot : Root release middle)
    (hroot' : Root middle earlier) : Root release earlier :=
  ⟨hroot.1.trans hroot'.1, hroot.2.1.trans hroot'.2.1, hroot.2.2.trans hroot'.2.2⟩

theorem root_foldl_actions (user : Did) (actions : List Action) (release : Release) :
    Root (actions.foldl (fun release action => release.action user action) release) release := by
  obtain ⟨hoid, htag, hcreator, -⟩ :=
    Release.fields_run release (actions.map fun action => ⟨user, action⟩)
  rw [foldl_actions_eq_run]
  exact ⟨hoid, htag, hcreator⟩

/-- A series of writes fills the slots of one release and leaves its root alone. -/
theorem written_spec {id : ReleaseId} {releases : Listing} {release : Release}
    (hrelease : releases.get? id = some release) (pending : List Pending) :
    (∃ later, (workspace.written id pending releases).get? id = some later ∧
      Root later release) ∧
    (∀ wanted, wanted ≠ id →
      (workspace.written id pending releases).get? wanted = releases.get? wanted) ∧
    ∀ cid, (workspace.written id pending releases).artifact id cid =
      Pending.fillAll workspace.localDid cid (releases.artifact id cid) pending := by
  induction pending generalizing releases release with
  | nil => exact ⟨⟨release, hrelease, .refl release⟩, fun _ _ => rfl, fun _ => rfl⟩
  | cons first rest ih =>
      have hwritten : (workspace.write id first releases).get? id =
          some (first.actions.foldl
            (fun release action => release.action workspace.localDid action) release) := by
        rw [get?_write, if_pos rfl, hrelease]
        rfl
      obtain ⟨⟨later, hlater, hroot⟩, hothers, hslots⟩ := ih hwritten
      have hfirst := root_foldl_actions workspace.localDid first.actions release
      refine ⟨⟨later, hlater, hroot.trans hfirst⟩, fun wanted hwanted => ?_, fun cid => ?_⟩
      · refine (hothers wanted hwanted).trans ?_
        rw [get?_write, if_neg hwanted]
      · refine (hslots cid).trans ?_
        rw [artifact_write hrelease, if_pos rfl]
        rfl

/-! ## The release written to -/

theorem mem_candidates_iff {releases : Listing} {oid : Oid}
    {candidates : List (ReleaseId × Release)}
    (hcandidates : workspace.collectCandidates releases oid = .ok candidates)
    {entry : ReleaseId × Release} :
    entry ∈ candidates ↔ releases.get? entry.1 = some entry.2 ∧ oid = entry.2.oid := by
  rw [collectCandidates] at hcandidates
  split at hcandidates
  · rename_i entries hentries
    obtain rfl := Except.ok.inj hcandidates
    rw [List.mem_filter, (workspace.all_perm releases entries hentries).mem_iff,
      IndexMap.get?_eq_some_iff_mem, decide_eq_true_iff]
  · contradiction

theorem newRelease_eq_ok {releases later : Listing} {oid : Oid} {tag : Option Oid}
    {id : ReleaseId} (hok : workspace.newRelease releases oid tag = .ok (later, id)) :
    ∃ timestamp, releases.get? id = none ∧
      later = releases.insert id (.new oid tag workspace.localDid timestamp) := by
  rw [newRelease] at hok
  split at hok
  · contradiction
  · split at hok
    · contradiction
    · rename_i created timestamp hinitial
      obtain ⟨rfl, rfl⟩ := Prod.mk.inj (Except.ok.inj hok)
      exact ⟨timestamp, workspace.initial_fresh _ _ _ _ _ hinitial, rfl⟩

theorem getMut_eq_ok {releases : Listing} {id : ReleaseId} {release : Release}
    (hok : workspace.getMut releases id = .ok release) : releases.get? id = some release := by
  rw [getMut] at hok
  split at hok
  · rename_i found hfound
    obtain rfl := Except.ok.inj hok
    exact (workspace.get_eq releases id _ hfound).symm
  · contradiction
  · contradiction

/-- The release is one of the candidates, or it is new. -/
inductive Chosen (workspace : Workspace) (releases : Listing) (resolved : ResolvedRef)
    (candidates : List (ReleaseId × Release)) : Listing → ReleaseId → Prop
  | existing (id : ReleaseId) (release : Release) (hmem : id ∈ candidates.map Prod.fst)
      (hrelease : releases.get? id = some release) :
      Chosen workspace releases resolved candidates releases id
  | created (id : ReleaseId) (timestamp : Timestamp) (hfresh : releases.get? id = none)
      (hnone : workspace.noInput → candidates = []) :
      Chosen workspace releases resolved candidates
        (releases.insert id (.new resolved.commit resolved.tag workspace.localDid timestamp)) id

theorem chosen_of_newRelease {resolved : ResolvedRef} {releases opened : Listing}
    {candidates : List (ReleaseId × Release)} {id : ReleaseId}
    (hok : (workspace.newRelease releases resolved.commit resolved.tag).mapError
      (RegisterError.create resolved.commit) = .ok (opened, id))
    (hnone : workspace.noInput → candidates = []) :
    Chosen workspace releases resolved candidates opened id := by
  obtain ⟨timestamp, hfresh, rfl⟩ := newRelease_eq_ok (mapError_eq_ok_iff.mp hok)
  exact .created id timestamp hfresh hnone

theorem chosen_of_getMut {resolved : ResolvedRef} {releases opened : Listing}
    {candidates : List (ReleaseId × Release)} {found id : ReleaseId}
    (hok : (workspace.getMut releases found).map (fun _ => (releases, found)) =
      .ok (opened, id)) (hmem : found ∈ candidates.map Prod.fst) :
    Chosen workspace releases resolved candidates opened id := by
  obtain ⟨release, hrelease, heq⟩ := map_eq_ok_iff.mp hok
  obtain ⟨rfl, rfl⟩ := Prod.mk.inj heq
  exact .existing found release hmem (getMut_eq_ok hrelease)

theorem chosen_of_releaseFor {resolved : ResolvedRef} {releases opened : Listing}
    {candidates : List (ReleaseId × Release)} {id : ReleaseId}
    (hok : workspace.releaseFor resolved releases candidates = .ok (opened, id)) :
    Chosen workspace releases resolved candidates opened id := by
  cases candidates with
  | nil => exact chosen_of_newRelease hok fun _ => rfl
  | cons first rest =>
      obtain ⟨found, release⟩ := first
      simp only [releaseFor] at hok
      split at hok
      · exact chosen_of_getMut hok (by simp)
      · split at hok
        · contradiction
        · rename_i hinput
          split at hok
          · contradiction
          · rename_i picked hpicked
            exact chosen_of_getMut hok (workspace.mem_of_pickReleaseOrCreate _ _ _ hpicked)
          · exact chosen_of_newRelease hok fun hno => absurd hno hinput

/-- What a registration opens: a release that is there, and in view unless it was named, or
a new one, which without a terminal is made only when none is in view. -/
inductive Opened (workspace : Workspace) (command : Register) (releases : Listing) :
    Listing → ReleaseId → Prop
  | existing (id : ReleaseId) (release : Release) (hrelease : releases.get? id = some release)
      (hvisible : command.release = none →
        workspace.releaseVisible (scope command.allAuthors) release) :
      Opened workspace command releases releases id
  | created (id : ReleaseId) (oid : Oid) (tag : Option Oid) (timestamp : Timestamp)
      (hfresh : releases.get? id = none)
      (hnone : workspace.noInput → ∀ other release, releases.get? other = some release →
        release.oid = oid → workspace.releaseVisible (scope command.allAuthors) release = false) :
      Opened workspace command releases
        (releases.insert id (.new oid tag workspace.localDid timestamp)) id

theorem opened_of_resolveRegisterTarget {command : Register} {releases opened : Listing}
    {id : ReleaseId}
    (hok : workspace.resolveRegisterTarget command releases = .ok (opened, id)) :
    Opened workspace command releases opened id := by
  rw [resolveRegisterTarget] at hok
  split at hok
  · rename_i text hnamed
    split at hok
    · contradiction
    · rename_i named hid
      split at hok
      · rename_i release hget
        obtain ⟨rfl, rfl⟩ := Prod.mk.inj (Except.ok.inj hok)
        have hrelease := (workspace.get_eq _ _ _ hget).symm
        exact .existing named release hrelease fun hnone => by rw [hnone] at hnamed; cases hnamed
      · contradiction
      · contradiction
  · obtain ⟨resolved, -, hrest⟩ := bind_eq_ok_iff.mp hok
    obtain ⟨candidates, hcandidates, hchosen⟩ := bind_eq_ok_iff.mp hrest
    have hmem := fun entry =>
      @mem_candidates_iff workspace _ _ _ (mapError_eq_ok_iff.mp hcandidates) entry
    cases chosen_of_releaseFor hchosen with
    | existing id release hfound hrelease =>
        refine .existing id release hrelease fun _ => ?_
        obtain ⟨⟨found, candidate⟩, hcandidate, rfl⟩ := List.mem_map.mp hfound
        obtain ⟨hcandidate, hvisible⟩ := List.mem_filter.mp hcandidate
        have hsame := ((hmem _).mp hcandidate).1
        rw [hrelease] at hsame
        obtain rfl := Option.some.inj hsame
        exact hvisible
    | created id timestamp hfresh hnone =>
        refine .created id resolved.commit resolved.tag timestamp hfresh
          fun hno other release hother hoid => ?_
        have hempty := List.filter_eq_nil_iff.mp (hnone hno) (other, release)
          ((hmem _).mpr ⟨hother, hoid.symm⟩)
        exact Bool.eq_false_iff.mpr hempty

/-- The opened release, and what of it there was before. -/
theorem exists_of_opened {command : Register} {releases opened : Listing} {id : ReleaseId}
    (hopened : Opened workspace command releases opened id) :
    (∃ release, opened.get? id = some release) ∧
      ∀ wanted cid, opened.artifact wanted cid = releases.artifact wanted cid := by
  cases hopened with
  | existing id release hrelease => exact ⟨⟨release, hrelease⟩, fun _ _ => rfl⟩
  | created id oid tag timestamp hfresh =>
      refine ⟨⟨_, by rw [IndexMap.get?_insert, if_pos rfl]⟩, fun wanted cid => ?_⟩
      rw [Listing.artifact, Listing.artifact, IndexMap.get?_insert]
      by_cases hwanted : wanted = id
      · rw [if_pos hwanted, hwanted, hfresh]
        rfl
      · rw [if_neg hwanted]

/-- Nothing is written, or a part of what was gathered is, in the release that was opened;
on success all of it is. -/
theorem registerArtifact_eq {command : Register} {before after : Listing}
    {outcome : Except RegisterError Registered}
    (hrun : workspace.registerArtifact command before = (after, outcome)) :
    (after = before ∧ ∀ registered, outcome ≠ .ok registered) ∨
    ∃ pending skipped opened id done, workspace.gather command = .ok (pending, skipped) ∧
      Opened workspace command before opened id ∧ done <+: pending ∧
      after = workspace.written id done opened ∧
      ∀ registered, outcome = .ok registered →
        done = pending ∧ registered = ⟨id, pending, skipped⟩ := by
  rw [registerArtifact] at hrun
  split at hrun
  · obtain ⟨rfl, rfl⟩ := Prod.mk.inj hrun
    exact .inl ⟨rfl, fun registered => by simp⟩
  · rename_i pending skipped hgather
    split at hrun
    · obtain ⟨rfl, rfl⟩ := Prod.mk.inj hrun
      exact .inl ⟨rfl, fun registered => by simp⟩
    · rename_i opened id hresolve
      have hopened := opened_of_resolveRegisterTarget hresolve
      right
      split at hrun
      · obtain ⟨rfl, rfl⟩ := Prod.mk.inj hrun
        exact ⟨pending, skipped, _, id, [], hgather, hopened, List.nil_prefix, rfl, by simp⟩
      · split at hrun
        · rename_i later err hwrites
          obtain ⟨rfl, rfl⟩ := Prod.mk.inj hrun
          obtain ⟨done, hdone, hlater, -⟩ := workspace.writeAll_eq hwrites
          exact ⟨pending, skipped, opened, id, done, hgather, hopened, hdone, hlater, by simp⟩
        · rename_i later hwrites
          obtain ⟨rfl, rfl⟩ := Prod.mk.inj hrun
          obtain ⟨done, hdone, hlater, hall⟩ := workspace.writeAll_eq hwrites
          refine ⟨pending, skipped, opened, id, done, hgather, hopened, hdone, hlater,
            fun registered hregistered => ⟨hall rfl, ?_⟩⟩
          exact (Except.ok.inj hregistered).symm

/-! ## What is gathered -/

theorem computeBlobCid_eq_ok {path : Path} {cid : Cid}
    (hok : workspace.computeBlobCid path = .ok cid) :
    ∃ bytes, workspace.files.read path = .ok bytes ∧
      cid = blake3HashToCid (workspace.blake3 bytes) .blob := by
  rw [computeBlobCid] at hok
  split at hok
  · rename_i bytes hread
    exact ⟨bytes, hread, (Except.ok.inj hok).symm⟩
  · contradiction

theorem path_of_singlePending {source : Source} {name : Option String} {noSize : Bool}
    {pending : Pending} (hok : workspace.singlePending source name noSize = .ok pending)
    {path : Path} (hpath : pending.path = some path) :
    workspace.computeCidFromPath path = .ok pending.cid := by
  rw [singlePending] at hok
  obtain ⟨cid, hcid, hrest⟩ := bind_eq_ok_iff.mp hok
  obtain ⟨size, -, hrest⟩ := bind_eq_ok_iff.mp hrest
  obtain ⟨text, -, hpending⟩ := bind_eq_ok_iff.mp hrest
  obtain rfl := Except.ok.inj hpending
  cases source with
  | cid given => contradiction
  | path given =>
      obtain rfl := Option.some.inj hpath
      exact mapError_eq_ok_iff.mp hcid

theorem memberPending_eq_ok {noSize : Bool} {member : Member} {pending : Pending}
    (hok : workspace.memberPending noSize member = .ok pending) :
    workspace.computeBlobCid member.path = .ok pending.cid ∧ pending.name = member.name ∧
      pending.size = (if noSize then none else some (.ofNat member.bytes)) ∧
      pending.path = some member.path := by
  rw [memberPending] at hok
  split at hok
  · contradiction
  · rename_i cid hcid
    obtain rfl := Except.ok.inj hok
    exact ⟨hcid, rfl, rfl, rfl⟩

theorem topLevelMembers_eq_ok {dir : Path} {members : List Member} {skipped : Skipped}
    (hok : workspace.topLevelMembers dir = .ok (members, skipped)) :
    ∃ listed entries, workspace.files.find dir = some (.dir entries) ∧ listed.Perm entries ∧
      members = sortByKey Member.name (scan dir listed).1 ∧ skipped = (scan dir listed).2 := by
  obtain ⟨listed, hlisted, heq⟩ := map_eq_ok_iff.mp hok
  obtain ⟨rfl, rfl⟩ := Prod.mk.inj heq
  obtain ⟨entries, hfind, hperm⟩ := workspace.files.find_readDir dir listed hlisted
  exact ⟨listed, entries, hfind, hperm, rfl, rfl⟩

theorem onlyPending_eq_ok {command : Register} {source : Source} {pending : List Pending}
    {skipped : Skipped} (hok : workspace.onlyPending command source = .ok (pending, skipped)) :
    ∃ only, workspace.singlePending source command.name command.noSize = .ok only ∧
      pending = [only] := by
  obtain ⟨only, honly, heq⟩ := map_eq_ok_iff.mp hok
  exact ⟨only, honly, (Prod.mk.inj heq).1.symm⟩

/-- A directory is registered as one artifact, when the user had the choice, or file by
file. -/
theorem dirPending_eq_ok {command : Register} {dir : Path} {asked : Bool}
    {pending : List Pending} {skipped : Skipped}
    (hok : workspace.dirPending command dir asked = .ok (pending, skipped)) :
    (asked = true ∧ workspace.onlyPending command (.path dir) = .ok (pending, skipped)) ∨
    ∃ members, workspace.topLevelMembers dir = .ok (members, skipped) ∧
      members.mapM (workspace.memberPending command.noSize) = .ok pending := by
  rw [dirPending] at hok
  split at hok
  · contradiction
  · rename_i members passedOver hmembers
    split at hok
    · contradiction
    · rename_i hmode
      left
      refine ⟨?_, hok⟩
      cases asked with
      | true => rfl
      | false => simp [dirMode] at hmode
    · right
      split at hok
      · contradiction
      · obtain ⟨read, hread, heq⟩ := map_eq_ok_iff.mp hok
        obtain ⟨rfl, rfl⟩ := Prod.mk.inj heq
        exact ⟨members, hmembers, hread⟩

/-- A member's own path gives the CID it registers under. -/
theorem path_of_member {dir : Path} {members : List Member} {skipped : Skipped}
    (hmembers : workspace.topLevelMembers dir = .ok (members, skipped)) {member : Member}
    (hmember : member ∈ members) {cid : Cid}
    (hcid : workspace.computeBlobCid member.path = .ok cid) :
    ∃ entries contents, workspace.files.find dir = some (.dir entries) ∧
      (Utf8.encode member.name, .file contents) ∈ entries ∧
      member = ⟨member.name, dir ++ [Utf8.encode member.name], contents.length⟩ ∧
      cid = blake3HashToCid (workspace.blake3 contents) .blob ∧
      workspace.computeCidFromPath member.path = .ok cid := by
  obtain ⟨listed, entries, hfind, hperm, rfl, -⟩ := topLevelMembers_eq_ok hmembers
  obtain ⟨contents, hlisted, heq⟩ := mem_scan_iff.mp ((mem_sortByKey _).mp hmember)
  have hentry := hperm.mem_iff.mp hlisted
  have hfile : workspace.files.find member.path = some (.file contents) := by
    rw [heq]
    exact workspace.files.find_child dir entries _ contents hfind hentry
  obtain ⟨bytes, hread, hbytes⟩ := computeBlobCid_eq_ok hcid
  obtain rfl := workspace.files.read_file _ _ _ hfile hread
  refine ⟨entries, bytes, hfind, hentry, heq, hbytes, ?_⟩
  have hdir : workspace.files.isDir member.path = false := by
    rw [Files.isDir, hfile]
  rw [computeCidFromPath, hdir, hcid]
  rfl

/-- Hashing the path of anything gathered again gives the same CID. -/
def Rehashes (workspace : Workspace) (pending : List Pending) : Prop :=
  ∀ item ∈ pending, ∀ path, item.path = some path →
    workspace.computeCidFromPath path = .ok item.cid

theorem rehashes_of_onlyPending {command : Register} {source : Source} {pending : List Pending}
    {skipped : Skipped} (hok : workspace.onlyPending command source = .ok (pending, skipped)) :
    Rehashes workspace pending := by
  intro item hitem path hpath
  obtain ⟨only, honly, rfl⟩ := onlyPending_eq_ok hok
  obtain rfl := List.mem_singleton.mp hitem
  exact path_of_singlePending honly hpath

theorem rehashes_of_dirPending {command : Register} {dir : Path} {asked : Bool}
    {pending : List Pending} {skipped : Skipped}
    (hok : workspace.dirPending command dir asked = .ok (pending, skipped)) :
    Rehashes workspace pending := by
  rcases dirPending_eq_ok hok with ⟨-, honly⟩ | ⟨members, hmembers, hpending⟩
  · exact rehashes_of_onlyPending honly
  · intro item hitem path hpath
    obtain ⟨member, hmember, hread⟩ := (mem_of_mapM_eq_ok hpending).mp hitem
    obtain ⟨hcid, -, -, hmemberPath⟩ := memberPending_eq_ok hread
    obtain ⟨-, -, -, -, -, -, hcompute⟩ := path_of_member hmembers hmember hcid
    rw [hmemberPath] at hpath
    obtain rfl := Option.some.inj hpath
    exact hcompute

theorem rehashes_of_gather {command : Register} {pending : List Pending} {skipped : Skipped}
    (hok : workspace.gather command = .ok (pending, skipped)) : Rehashes workspace pending := by
  rw [gather] at hok
  split at hok
  · contradiction
  · contradiction
  · exact rehashes_of_onlyPending hok
  · split at hok
    · contradiction
    · exact rehashes_of_onlyPending hok
    · exact rehashes_of_onlyPending hok
    · exact rehashes_of_dirPending hok
    · exact rehashes_of_dirPending hok

/-- With `--each` a directory is registered file by file. -/
theorem gather_each {command : Register} {dir : Path} (hdir : command.path = some dir)
    (heach : command.each = true) {pending : List Pending} {skipped : Skipped}
    (hok : workspace.gather command = .ok (pending, skipped)) :
    ∃ members, workspace.topLevelMembers dir = .ok (members, skipped) ∧
      members.mapM (workspace.memberPending command.noSize) = .ok pending := by
  rw [gather, hdir] at hok
  cases hcid : command.cid with
  | some cid => simp [hcid] at hok
  | none =>
      simp only [hcid, heach] at hok
      cases hisDir : workspace.files.isDir dir <;> cases hwhole : command.collection <;>
        simp only [hisDir, hwhole, registrationPlan] at hok
      case false.false | false.true => contradiction
      case true.false | true.true =>
        rcases dirPending_eq_ok hok with ⟨hasked, -⟩ | hmembers
        · contradiction
        · exact hmembers

/-! ## `--each` -/

/-- The artifacts are the regular files directly inside the directory, in order of name. -/
structure TopLevel (workspace : Workspace) (noSize : Bool) (dir : Path) (entries : DirEntries)
    (artifacts : List Pending) : Prop where
  sorted : artifacts.Pairwise fun left right => left.name < right.name
  names : ∀ name, name ∈ artifacts.map Pending.name ↔
    ∃ contents, (Utf8.encode name, .file contents) ∈ entries
  items : ∀ item ∈ artifacts, ∃ contents, (Utf8.encode item.name, .file contents) ∈ entries ∧
    item.cid = blake3HashToCid (workspace.blake3 contents) .blob ∧
    item.size = (if noSize then none else some (.ofNat contents.length)) ∧
    item.path = some (dir ++ [Utf8.encode item.name])

theorem topLevel_of_members {noSize : Bool} {dir : Path} {entries : DirEntries}
    {members : List Member} {skipped : Skipped} {artifacts : List Pending}
    (hdir : workspace.files.find dir = some (.dir entries))
    (hmembers : workspace.topLevelMembers dir = .ok (members, skipped))
    (hartifacts : members.mapM (workspace.memberPending noSize) = .ok artifacts) :
    TopLevel workspace noSize dir entries artifacts := by
  have hnames : artifacts.map Pending.name = members.map Member.name :=
    map_of_mapM_eq_ok hartifacts fun member item hitem => (memberPending_eq_ok hitem).2.1
  obtain ⟨listed, found, hfound, hperm, heq, -⟩ := topLevelMembers_eq_ok hmembers
  rw [hdir] at hfound
  obtain rfl := FileTree.dir.inj (Option.some.inj hfound)
  constructor
  case sorted =>
    have hnodup : (listed.map Prod.fst).Nodup :=
      (hperm.map Prod.fst).nodup_iff.mpr
        (FileTree.distinct_dir_iff.mp (workspace.files.distinct dir _ hdir)).1
    have hdistinct : (members.map Member.name).Nodup := by
      rw [heq, ((perm_sortByKey Member.name _).map Member.name).nodup_iff]
      exact nodup_names_scan hnodup
    have hsorted : (members.map Member.name).Pairwise (· ≤ ·) := by
      rw [heq, List.pairwise_map]
      exact pairwise_sortByKey Member.name _
    have hstrict : (members.map Member.name).Pairwise (· < ·) :=
      (hsorted.and hdistinct).imp fun hboth => lt_of_le_of_ne hboth.1 hboth.2
    rwa [← hnames, List.pairwise_map] at hstrict
  case names =>
    intro name
    rw [hnames, heq, List.mem_map]
    constructor
    · rintro ⟨member, hmember, rfl⟩
      obtain ⟨contents, hlisted, -⟩ := mem_scan_iff.mp ((mem_sortByKey _).mp hmember)
      exact ⟨contents, hperm.mem_iff.mp hlisted⟩
    · rintro ⟨contents, hentry⟩
      refine ⟨⟨name, dir ++ [Utf8.encode name], contents.length⟩, (mem_sortByKey _).mpr ?_, rfl⟩
      exact mem_scan_iff.mpr ⟨contents, hperm.mem_iff.mpr hentry, rfl⟩
  case items =>
    intro item hitem
    obtain ⟨member, hmember, hread⟩ := (mem_of_mapM_eq_ok hartifacts).mp hitem
    obtain ⟨hcid, hname, hsize, hpath⟩ := memberPending_eq_ok hread
    obtain ⟨inside, contents, hinside, hentry, hmemberEq, hblob, -⟩ :=
      path_of_member hmembers hmember hcid
    rw [hdir] at hinside
    obtain rfl := FileTree.dir.inj (Option.some.inj hinside)
    rw [hmemberEq] at hsize hpath
    rw [hname]
    exact ⟨contents, hentry, hblob, hsize, hpath⟩

/-- What registering a list of artifacts makes of every slot of the releases. -/
structure Filled (workspace : Workspace) (before after : Listing) (id : ReleaseId)
    (artifacts : List Pending) : Prop where
  /-- Other releases, and other content in this one, are as before. -/
  untouched : ∀ wanted cid, (wanted ≠ id ∨ ∀ item ∈ artifacts, item.cid ≠ cid) →
    after.artifact wanted cid = before.artifact wanted cid
  /-- Whoever registered the content first stays its author, and redactions stay. -/
  kept : ∀ item ∈ artifacts, ∃ artifact, after.artifact id item.cid = some artifact ∧
    artifact.author = Pending.authorIn workspace.localDid (before.artifact id item.cid) ∧
    ∀ did, artifact.redactionBy did =
      (before.artifact id item.cid).bind (·.redactionBy did)
  /-- The last of several artifacts with the same content gives an own one its name. -/
  named : ∀ earlier item later artifact, artifacts = earlier ++ item :: later →
    (∀ other ∈ later, other.cid ≠ item.cid) → after.artifact id item.cid = some artifact →
      artifact.author = workspace.localDid → artifact.name = item.name

theorem filled_of_written {command : Register} {before opened : Listing} {id : ReleaseId}
    (hopened : Opened workspace command before opened id) (artifacts : List Pending) :
    Filled workspace before (workspace.written id artifacts opened) id artifacts := by
  obtain ⟨⟨release, hrelease⟩, hsame⟩ := exists_of_opened hopened
  obtain ⟨-, hothers, hslots⟩ := written_spec hrelease artifacts
  constructor
  case untouched =>
    intro wanted cid huntouched
    rw [← hsame]
    by_cases hwanted : wanted = id
    · rw [hwanted, hslots]
      exact Pending.fillAll_of_forall_ne (huntouched.resolve_left fun hne => hne hwanted)
    · rw [Listing.artifact, hothers wanted hwanted]
      rfl
  case kept =>
    intro item hitem
    have hfilled := @Pending.isSome_fillAll workspace.localDid item.cid
      (opened.artifact id item.cid) artifacts (Or.inr ⟨item, hitem, rfl⟩)
    obtain ⟨artifact, hartifact⟩ := Option.isSome_iff_exists.mp hfilled
    refine ⟨artifact, (hslots item.cid).trans hartifact, ?_, fun did => ?_⟩
    · rw [← hsame]
      exact Pending.author_of_fillAll hartifact
    · rw [← hsame]
      exact Pending.redactionBy_of_fillAll did hartifact
  case named =>
    intro earlier item later artifact hsplit hlater hartifact hauthor
    obtain ⟨filled, hfilled, hname⟩ := @Pending.fillAll_of_last workspace.localDid item.cid
      (opened.artifact id item.cid) item earlier later rfl hlater
    rw [hslots, hsplit, hfilled] at hartifact
    obtain rfl := Option.some.inj hartifact
    exact hname hauthor

/-- `register --each` puts exactly the regular files directly inside the directory into the
release, counts everything else, and changes no other slot; files with the same content
share one artifact, which goes by the greatest of their names when it is the user's own. -/
theorem each_registers_top_level (workspace : Workspace) (command : Register)
    (before after : Listing) (registered : Registered) (dir : Path) (entries : DirEntries)
    (hdir : workspace.files.find dir = some (.dir entries)) (hpath : command.path = some dir)
    (heach : command.each = true)
    (hrun : workspace.registerArtifact command before = (after, .ok registered)) :
    TopLevel workspace command.noSize dir entries registered.artifacts ∧
      registered.artifacts.length + registered.skipped.dirs + registered.skipped.other =
        entries.length ∧
      Filled workspace before after registered.releaseId registered.artifacts ∧
      ∀ item ∈ registered.artifacts, ∀ artifact,
        after.artifact registered.releaseId item.cid = some artifact →
          artifact.author = workspace.localDid →
            (∀ other ∈ registered.artifacts, other.cid = item.cid → other.name ≤ item.name) →
              artifact.name = item.name := by
  rcases registerArtifact_eq hrun with ⟨-, hfailed⟩ |
    ⟨pending, skipped, opened, id, done, hgather, hopened, -, rfl, hok⟩
  · exact absurd rfl (hfailed registered)
  · obtain ⟨rfl, rfl⟩ := hok registered rfl
    obtain ⟨members, hmembers, hread⟩ := gather_each hpath heach hgather
    have htop := topLevel_of_members hdir hmembers hread
    have hfilled := filled_of_written hopened done
    refine ⟨htop, ?_, hfilled, ?_⟩
    · obtain ⟨listed, found, hfound, hperm, heq, hskipped⟩ := topLevelMembers_eq_ok hmembers
      rw [hdir] at hfound
      obtain rfl := FileTree.dir.inj (Option.some.inj hfound)
      have hlength : done.length = (scan dir listed).1.length := by
        rw [← List.length_map Pending.name,
          map_of_mapM_eq_ok hread fun member item hitem => (memberPending_eq_ok hitem).2.1,
          List.length_map, heq, (perm_sortByKey Member.name _).length_eq]
      rw [hlength, hskipped, length_scan, hperm.length_eq]
    · intro item hitem artifact hartifact hauthor hgreatest
      obtain ⟨earlier, later, rfl⟩ := List.append_of_mem hitem
      refine hfilled.named earlier item later artifact rfl (fun other hother hcid => ?_)
        hartifact hauthor
      have hless : item.name < other.name :=
        (List.pairwise_cons.mp (List.pairwise_append.mp htop.sorted).2.1).1 other hother
      exact absurd (hgreatest other (by simp [hother]) hcid) (not_le.mpr hless)

/-- Two files with the same content, a name that is not UTF-8, and a directory. -/
def shelf : DirEntries :=
  [(Utf8.encode "b", .file [7]), ([0xff], .file [8]),
    (Utf8.encode "docs", .dir [(Utf8.encode "c", .file [9])]), (Utf8.encode "a", .file [7])]

theorem distinct_shelf : (FileTree.dir shelf).Distinct := by
  have hnames : (shelf.map Prod.fst).Nodup := by decide
  refine FileTree.distinct_dir_iff.mpr ⟨hnames, ?_⟩
  simp [shelf, FileTree.distinct_dir_iff]

def shelved (now : Timestamp) : Workspace :=
  .alone lengthHash (.ofTree (.dir shelf) distinct_shelf) (.filled 32 1) now
    fun _ => .ok ⟨.filled 20 2, none⟩

def eachCommand : Register where
  path := some []
  cid := none
  revision := some "HEAD"
  release := none
  name := none
  noSize := false
  collection := false
  each := true
  allAuthors := false

/-- The two files are registered twice, and everything else is passed over. -/
theorem each_registers_top_level_again :
    ∃ before first after registered,
      (shelved 1).registerArtifact eachCommand ∅ = (before, .ok first) ∧
      (shelved 2).registerArtifact eachCommand before = (after, .ok registered) ∧
      TopLevel (shelved 2) false [] shelf registered.artifacts ∧
      registered.artifacts.length + registered.skipped.dirs + registered.skipped.other = 4 := by
  let before := ((shelved 1).registerArtifact eachCommand ∅).1
  obtain ⟨first, hfirst⟩ : ∃ first,
    (shelved 1).registerArtifact eachCommand ∅ = (before, .ok first) := ⟨_, rfl⟩
  obtain ⟨after, registered, hrun⟩ : ∃ after registered,
    (shelved 2).registerArtifact eachCommand before = (after, .ok registered) := ⟨_, _, rfl⟩
  obtain ⟨htop, hcount, -⟩ := each_registers_top_level (shelved 2) eachCommand before after
    registered [] shelf rfl rfl rfl hrun
  exact ⟨before, first, after, registered, hfirst, hrun, htop, hcount⟩

/-! ## Verifying what was registered -/

/-- `verify` over the same files and delegates, with the releases as they are now. -/
def verifyContext (workspace : Workspace) (context : VerifyContext) (locate : String → Path)
    (releases : Listing) : VerifyContext :=
  { context with
    computeCidFromPath := fun text => workspace.computeCidFromPath (locate text)
    findByCid := fun cid => .ok (releases.findByCid cid)
    delegates := workspace.delegates
    localDid := workspace.localDid }

/-- The artifact passes the trust rules in one release. -/
def Accepted (workspace : Workspace) (scope : Trust.Scope) (releases : Listing)
    (id : ReleaseId) (cid : Cid) : Prop :=
  ∃ release artifact, releases.get? id = some release ∧ release.artifact cid = some artifact ∧
    workspace.trust.check scope release artifact = .ok ()

/-- Whoever registered the content in the release before is in scope, and no trusted party
has redacted it there. -/
def Clean (workspace : Workspace) (scope : Trust.Scope) (releases : Listing)
    (id : ReleaseId) (cid : Cid) : Prop :=
  ∀ artifact, releases.artifact id cid = some artifact →
    workspace.trust.admits scope artifact.author ∧
      ¬ Trust.Withdrawn artifact workspace.delegates

theorem admits_local (allAuthors : Bool) :
    workspace.trust.admits (scope allAuthors) workspace.localDid := by
  cases allAuthors <;> simp [scope, Trust.admits, Trust.Scope.admits, Trust.trusts, trust]

theorem succeeds_of_accepted {context : VerifyContext} {locate : String → Path}
    {releases : Listing} {command : Verify} {id : ReleaseId} {cid : Cid}
    (hfile : workspace.computeCidFromPath (locate command.path) = .ok cid)
    (haccepted : Accepted workspace (scope command.allAuthors) releases id cid) :
    Succeeds (runVerify (workspace.verifyContext context locate releases) command) := by
  obtain ⟨release, artifact, hrelease, hartifact, hcheck⟩ := haccepted
  have hsucceeds := @VerifyContext.succeeds_verifyIn_iff
    (workspace.verifyContext context locate releases) command cid releases.entries
    (releases.findByCid cid) (scope command.allAuthors) hfile rfl (List.Perm.refl _)
  exact hsucceeds.mpr
    ⟨(id, release), IndexMap.get?_eq_some_iff_mem.mp hrelease, artifact, hartifact, hcheck⟩

/-- The creator of a release that was opened without naming it is in scope. -/
theorem visible_of_opened {command : Register} {before opened : Listing} {id : ReleaseId}
    {release : Release} (hopened : Opened workspace command before opened id)
    (hunnamed : command.release = none) (hrelease : opened.get? id = some release) :
    workspace.releaseVisible (scope command.allAuthors) release = true := by
  cases hopened with
  | existing id found hfound hvisible =>
      rw [hfound] at hrelease
      obtain rfl := Option.some.inj hrelease
      exact hvisible hunnamed
  | created id oid tag timestamp =>
      rw [IndexMap.get?_insert, if_pos rfl] at hrelease
      obtain rfl := Option.some.inj hrelease
      exact admits_local command.allAuthors

/-- Registering leaves the artifact acceptable exactly when the slot was clean before. -/
theorem accepted_written_iff {command : Register} {before opened : Listing} {id : ReleaseId}
    (hopened : Opened workspace command before opened id) (hunnamed : command.release = none)
    {artifacts : List Pending} {item : Pending} (hitem : item ∈ artifacts) :
    Accepted workspace (scope command.allAuthors) (workspace.written id artifacts opened) id
        item.cid ↔
      Clean workspace (scope command.allAuthors) before id item.cid := by
  obtain ⟨⟨release, hrelease⟩, -⟩ := exists_of_opened hopened
  obtain ⟨⟨later, hlater, -, -, hcreator⟩, -, -⟩ := written_spec hrelease artifacts
  obtain ⟨artifact, hartifact, hauthor, hredactions⟩ :=
    (filled_of_written hopened artifacts).kept item hitem
  have hvisible := visible_of_opened hopened hunnamed hrelease
  have hslot : later.artifact item.cid = some artifact := by
    rw [Listing.artifact, hlater] at hartifact
    exact hartifact
  have haccepted : Accepted workspace (scope command.allAuthors)
      (workspace.written id artifacts opened) id item.cid ↔
        workspace.trust.admits (scope command.allAuthors) artifact.author ∧
          ¬ Trust.Withdrawn artifact workspace.delegates := by
    constructor
    · rintro ⟨found, other, hfound, hother, hcheck⟩
      rw [hlater] at hfound
      obtain rfl := Option.some.inj hfound
      rw [hslot] at hother
      obtain rfl := Option.some.inj hother
      exact (Trust.check_eq_ok_iff.mp hcheck).2
    · intro hboth
      refine ⟨later, artifact, hlater, hslot, Trust.check_eq_ok_iff.mpr ⟨?_, hboth⟩⟩
      rw [hcreator]
      exact hvisible
  rw [haccepted, Clean]
  cases hbefore : before.artifact id item.cid with
  | none =>
      rw [hbefore] at hauthor hredactions
      have hclean : ¬ Trust.Withdrawn artifact workspace.delegates := by
        rintro ⟨did, -, hredacted⟩
        rw [Artifact.isRedactedBy_eq_isSome, hredactions did] at hredacted
        contradiction
      have hours : artifact.author = workspace.localDid := hauthor
      simp [hclean, hours, admits_local]
  | some earlier =>
      rw [hbefore] at hauthor hredactions
      have hsame : artifact.author = earlier.author := hauthor
      have hwithdrawn : Trust.Withdrawn artifact workspace.delegates ↔
          Trust.Withdrawn earlier workspace.delegates := by
        simp only [Trust.Withdrawn, Artifact.isRedactedBy_eq_isSome, hredactions, hsame,
          Option.bind_some]
      simp [hwithdrawn, hsame]

/-- A file registered without naming a release verifies afterwards, for the same user and
the same flag, unless someone out of scope had registered its content there before or a
trusted party has redacted it: then the release that was written to does not count. -/
theorem registered_file_verifies (workspace : Workspace) (command : Register)
    (before after : Listing) (registered : Registered) (item : Pending)
    (context : VerifyContext) (locate : String → Path) (verify : Verify)
    (hunnamed : command.release = none)
    (hrun : workspace.registerArtifact command before = (after, .ok registered))
    (hitem : item ∈ registered.artifacts) (hpath : item.path = some (locate verify.path))
    (hflag : verify.allAuthors = command.allAuthors) :
    (Accepted workspace (scope command.allAuthors) after registered.releaseId item.cid ↔
      Clean workspace (scope command.allAuthors) before registered.releaseId item.cid) ∧
    (Clean workspace (scope command.allAuthors) before registered.releaseId item.cid →
      Succeeds (runVerify (workspace.verifyContext context locate after) verify)) := by
  rcases registerArtifact_eq hrun with ⟨-, hfailed⟩ |
    ⟨pending, skipped, opened, id, done, hgather, hopened, -, rfl, hok⟩
  · exact absurd rfl (hfailed registered)
  · obtain ⟨rfl, rfl⟩ := hok registered rfl
    have haccepted := accepted_written_iff hopened hunnamed hitem
    refine ⟨haccepted, fun hclean => ?_⟩
    have hfile := rehashes_of_gather hgather item hitem _ hpath
    apply succeeds_of_accepted hfile
    rw [hflag]
    exact haccepted.mpr hclean

/-- A file verifies that was registered a second time, with the same content as another. -/
theorem registered_file_verifies_again :
    ∃ before first after registered,
      (shelved 1).registerArtifact eachCommand ∅ = (before, .ok first) ∧
      (shelved 2).registerArtifact eachCommand before = (after, .ok registered) ∧
      ∃ item ∈ registered.artifacts, item.name = "b" ∧
        (before.artifact registered.releaseId item.cid).isSome ∧
        Succeeds (runVerify ((shelved 2).verifyContext
          (VerifyContext.ofReleases (.filled 32 1) item.cid [])
          (fun _ => [Utf8.encode "b"]) after) ⟨"b", false, false, true⟩) := by
  let before := ((shelved 1).registerArtifact eachCommand ∅).1
  obtain ⟨first, hfirst⟩ : ∃ first,
    (shelved 1).registerArtifact eachCommand ∅ = (before, .ok first) := ⟨_, rfl⟩
  obtain ⟨after, registered, item, artifact, hrun, hitem, hname, hpath, hbefore, hauthor,
      hredactions⟩ : ∃ after registered item artifact,
    (shelved 2).registerArtifact eachCommand before = (after, .ok registered) ∧
      registered.artifacts.getLast? = some item ∧ item.name = "b" ∧
      item.path = some [Utf8.encode "b"] ∧
      before.artifact registered.releaseId item.cid = some artifact ∧
      artifact.author = (shelved 2).localDid ∧ artifact.redactions = ∅ :=
    ⟨_, _, _, _, rfl, rfl, rfl, rfl, rfl, rfl, rfl⟩
  have hmem := List.mem_of_getLast? hitem
  refine ⟨before, first, after, registered, hfirst, hrun, item, hmem, hname, ?_, ?_⟩
  · rw [hbefore]
    rfl
  · refine (registered_file_verifies (shelved 2) eachCommand before after registered item _ _ _ rfl
      hrun hmem hpath rfl).2 fun found hfound => ?_
    obtain rfl := Option.some.inj (hbefore.symm.trans hfound)
    refine ⟨by rw [hauthor]; exact admits_local false, ?_⟩
    rintro ⟨did, -, hredacted⟩
    rw [Artifact.isRedactedBy_eq_isSome, Artifact.redactionBy, hredactions] at hredacted
    contradiction

end Workspace

end RadicleArtifact.Cli
