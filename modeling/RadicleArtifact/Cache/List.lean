import RadicleArtifact.Cache.Run

/-!
# Listing through the cache

The lazy listing sorts rows in the database and skips a row it cannot parse; the
listing of git sorts releases in memory.  Both order by creation time, then id, but
the database reads a time of more than 63 bits as a double.  So they agree exactly
when every release of the repository is parsed back, and releases whose times the
database does not tell apart come in the order of their ids.
-/

namespace RadicleArtifact.Cache

open RadicleArtifact.Core
open RadicleArtifact.Library
open RadicleArtifact.Cob
open RadicleArtifact.Releases

variable {texts : TextForms} {cobs : CobStore} {repo : Repository} {store : Store}

/-- The database reads the creation time of the release from its text. -/
theorem timestamp_write (repoId : RepoId) (head : String) (release : Release) :
    ReleaseRow.timestamp ⟨repoId, head, (releaseForm texts).write release⟩ =
      (jsonExtract release.timestamp.val : WithBot ℕ) := by
  have hmember : (("oid", (JsonForm.text texts.oid).write release.oid) ::
      tagMember texts release.tag ++
      [("creator", (JsonForm.text texts.did).write release.creator),
        ("artifacts", (artifactsForm texts).write release.artifacts),
        ("timestamp", timestampForm.write release.timestamp)]).lookup "timestamp" =
      some (timestampForm.write release.timestamp) := by
    cases release.tag <;> simp [tagMember, List.lookup]
  have hnumber : ((some (timestampForm.write release.timestamp)).bind fun json =>
      json.asU64.map fun value => jsonExtract value.toNat) =
        some (jsonExtract release.timestamp.val) := by
    simp [timestampForm, Json.asU64]
  exact (congrArg (Option.bind · _) hmember).trans hnumber

/-- Ids compare alike as texts and as bytes. -/
theorem toHex_le_iff {left right : Oid} : left.toHex ≤ right.toHex ↔ left ≤ right := by
  rw [← not_lt, ← not_lt, Oid.toHex_lt_iff]

/-- What the database sorts a release by. -/
def databaseKey : ReleaseEntry → WithBot (ℕ ×ₗ ObjectId)
  | .ok (id, release) => (toLex (jsonExtract release.timestamp.val, id) : ℕ ×ₗ ObjectId)
  | .error _ => ⊥

/-- Of two releases whose creation times the database does not tell apart, the later one has
the larger id. -/
def TimesInIdOrder (entries : List (ReleaseId × Release)) : Prop :=
  ∀ left ∈ entries, ∀ right ∈ entries, left.2.timestamp < right.2.timestamp →
    jsonExtract left.2.timestamp.val = jsonExtract right.2.timestamp.val → left.1 < right.1

/-- Two times in one double, the later one under the smaller id: git lists the later release
first, the database the one with the larger id. -/
example (oid : Oid) (did : Did) :
    ¬ TimesInIdOrder [(.filled 20 9, .new oid none did ⟨2 ^ 63, by decide⟩),
      (.filled 20 6, .new oid none did ⟨2 ^ 63 + 1000, by decide⟩)] := by
  intro hordered
  have htie : jsonExtract (2 ^ 63) = jsonExtract (2 ^ 63 + 1000) := by decide
  have hid := hordered _ List.mem_cons_self _ (List.mem_cons_of_mem _ List.mem_cons_self)
    (Fin.mk_lt_mk.mpr (by decide)) htie
  have hnot : ¬ (FixedBytes.filled 20 9 : ReleaseId) < .filled 20 6 := by decide
  exact hnot hid

/-- The order of the database is that of git, but for times it does not tell apart. -/
theorem listKey_le_of_databaseKey_le {entries : List (ReleaseId × Release)}
    (hordered : TimesInIdOrder entries) {left right : ReleaseId × Release} (hleft : left ∈ entries)
    (hright : right ∈ entries) (hle : databaseKey (.ok left) ≤ databaseKey (.ok right)) :
    Repository.listKey (.ok left) ≤ Repository.listKey (.ok right) := by
  rw [databaseKey, databaseKey, WithBot.coe_le_coe, Prod.Lex.toLex_le_toLex] at hle
  rw [Repository.listKey, Repository.listKey, WithBot.coe_le_coe, Prod.Lex.toLex_le_toLex]
  rcases hle with hlt | ⟨hsame, hid⟩
  · left
    by_contra hnot
    exact absurd hlt (not_lt.mpr (jsonExtract_mono (Fin.le_def.mp (not_lt.mp hnot))))
  · rcases lt_trichotomy left.2.timestamp right.2.timestamp with hlt | heq | hgt
    · exact .inl hlt
    · exact .inr ⟨heq, hid⟩
    · exact absurd (hordered right hright left hleft hgt hsame.symm) (not_lt.mpr hid)

/-- Releases of one listing with the same sort key are the same. -/
theorem eq_of_listKey_eq {left right : ReleaseId × Release}
    (hleft : left ∈ repo.cobList cobs) (hright : right ∈ repo.cobList cobs)
    (hkey : Repository.listKey (.ok left) = Repository.listKey (.ok right)) : left = right := by
  obtain ⟨leftId, leftRelease⟩ := left
  obtain ⟨rightId, rightRelease⟩ := right
  have hid : leftId = rightId := congrArg (fun key => (ofLex key).2) (WithBot.coe_inj.mp hkey)
  subst hid
  rw [← Repository.storeGet_eq_some_iff] at hleft hright
  rw [hleft] at hright
  rw [Option.some.inj (Except.ok.inj hright)]

section List

variable (hcoherent : Coherent texts cobs store) (hrepo : repo.Materializes cobs)

include hcoherent hrepo

/-- A row that is parsed holds a release of git, and sorts by its creation time. -/
theorem release_of_parseEntry {entry : ReleaseId × ReleaseRow} {listed : ReleaseId × Release}
    (hentry : entry ∈ (refreshRepo texts cobs repo store).rows repo.id)
    (hparsed : Store.parseEntry texts entry = .ok listed) :
    listed.1 = entry.1 ∧ listed ∈ repo.cobList cobs ∧
      entry.2.timestamp = (jsonExtract listed.2.timestamp.val : WithBot ℕ) ∧
        entry.2.release = (releaseForm texts).write listed.2 := by
  obtain ⟨id, row⟩ := entry
  obtain ⟨found, release⟩ := listed
  obtain ⟨rfl, hrelease⟩ := parseEntry_eq_ok_iff.mp hparsed
  obtain ⟨tips, written, htips, hmaterialize, rfl⟩ :=
    (mem_rows_refreshRepo hcoherent hrepo).mp hentry
  obtain rfl := eq_of_parseReleaseRow_eq_ok hrelease
  exact ⟨rfl, Repository.mem_cobList.mpr ⟨tips, htips, hmaterialize⟩, timestamp_write _ _ _, rfl⟩

/-- A listing through the cache is in the order of the database. -/
theorem pairwise_list : (list texts cobs repo store).1.Pairwise fun left right =>
    databaseKey right ≤ databaseKey left := by
  let rows := (refreshRepo texts cobs repo store).rows repo.id
  show List.Pairwise _ ((((sortByKeyDesc Store.orderKey rows).map
    (Store.parseEntry texts)).filterMap Except.toOption).map Except.ok)
  rw [List.pairwise_map, List.filterMap_map, List.pairwise_filterMap]
  refine (pairwise_sortByKeyDesc Store.orderKey rows).imp_of_mem
    fun {left right} hleft hright hle leftListed hleftListed rightListed hrightListed => ?_
  obtain ⟨hleftId, -, hleftTime, -⟩ := release_of_parseEntry hcoherent hrepo
    ((mem_sortByKeyDesc Store.orderKey).mp hleft) (toOption_eq_some_iff.mp hleftListed)
  obtain ⟨hrightId, -, hrightTime, -⟩ := release_of_parseEntry hcoherent hrepo
    ((mem_sortByKeyDesc Store.orderKey).mp hright) (toOption_eq_some_iff.mp hrightListed)
  rw [Store.orderKey, Store.orderKey, hleftTime, hrightTime, Prod.Lex.toLex_le_toLex] at hle
  rw [databaseKey, databaseKey, WithBot.coe_le_coe, Prod.Lex.toLex_le_toLex, hleftId, hrightId]
  exact hle.imp WithBot.coe_lt_coe.mp fun htie =>
    ⟨WithBot.coe_inj.mp htie.1, toHex_le_iff.mp htie.2⟩

/-- A listing that agrees with git has skipped no row. -/
theorem readable_of_list_eq (hlist : (list texts cobs repo store).1 = repo.storeList cobs)
    {id : ReleaseId} {release : Release} (hrelease : (id, release) ∈ repo.cobList cobs) :
    release.Readable := by
  have hlisted : .ok (id, release) ∈ (list texts cobs repo store).1 := by
    rw [hlist, Repository.storeList, mem_sortByKeyDesc]
    exact List.mem_map_of_mem hrelease
  obtain ⟨listed, hfound, hlisted⟩ := List.mem_map.mp hlisted
  rw [Except.ok.inj hlisted] at hfound
  obtain ⟨result, hresult, hkept⟩ := List.mem_filterMap.mp hfound
  obtain ⟨entry, hentry, rfl⟩ := List.mem_map.mp hresult
  have hparsed := toOption_eq_some_iff.mp hkept
  obtain ⟨-, -, -, hrow⟩ := release_of_parseEntry hcoherent hrepo
    ((mem_sortByKeyDesc Store.orderKey).mp hentry) hparsed
  by_contra hdeep
  have hread := (parseEntry_eq_ok_iff.mp hparsed).2
  rw [Store.parseReleaseRow, hrow, fromText_release_of_not_readable hdeep] at hread
  cases hread

/-- A listing that agrees with git has exchanged no releases. -/
theorem timesInIdOrder_of_list_eq
    (hlist : (list texts cobs repo store).1 = repo.storeList cobs) :
    TimesInIdOrder (repo.cobList cobs) := by
  intro left hleft right hright hlt hsame
  have hmem : ∀ entry ∈ repo.cobList cobs, .ok entry ∈ repo.storeList cobs := by
    intro entry hentry
    rw [Repository.storeList, mem_sortByKeyDesc]
    exact List.mem_map_of_mem hentry
  have hdatabase := pairwise_list hcoherent hrepo
  rw [hlist] at hdatabase
  have hboth : (repo.storeList cobs).Pairwise fun first second =>
      Repository.listKey second ≤ Repository.listKey first ∧
        databaseKey second ≤ databaseKey first :=
    (pairwise_sortByKeyDesc Repository.listKey (repo.storeAll cobs)).and hdatabase
  have hne : (.ok left : ReleaseEntry) ≠ .ok right := by
    intro heq
    rw [Except.ok.inj heq] at hlt
    exact absurd hlt (lt_irrefl _)
  -- Git lists the later release first, so its id is the larger one.
  have horder := or_flip_of_pairwise hboth (hmem left hleft) (hmem right hright) hne
  have hkey : ¬ Repository.listKey (.ok right) ≤ Repository.listKey (.ok left) := by
    rw [Repository.listKey, Repository.listKey, WithBot.coe_le_coe, Prod.Lex.toLex_le_toLex]
    rintro (hgt | ⟨heq, -⟩)
    · exact absurd hlt (not_lt.mpr hgt.le)
    · exact absurd heq hlt.ne'
  have hrow := (horder.resolve_left fun hpair => hkey hpair.1).2
  rw [databaseKey, databaseKey, WithBot.coe_le_coe, Prod.Lex.toLex_le_toLex] at hrow
  rcases hrow with hbelow | ⟨-, hid⟩
  · exact absurd hsame hbelow.ne
  · refine lt_of_le_of_ne hid fun heq => ?_
    have hget := Repository.storeGet_eq_some_iff.mpr hleft
    rw [heq, Repository.storeGet_eq_some_iff.mpr hright] at hget
    rw [Option.some.inj (Except.ok.inj hget)] at hlt
    exact absurd hlt (lt_irrefl _)

variable (hreadable : ∀ id release, (id, release) ∈ repo.cobList cobs → release.Readable)

include hreadable

/-- Every row is parsed back. -/
theorem exists_release_of_mem_rows {entry : ReleaseId × ReleaseRow}
    (hentry : entry ∈ (refreshRepo texts cobs repo store).rows repo.id) :
    ∃ release : Release, Store.parseEntry texts entry = .ok (entry.1, release) := by
  obtain ⟨id, row⟩ := entry
  obtain ⟨tips, release, htips, hmaterialize, rfl⟩ :=
    (mem_rows_refreshRepo hcoherent hrepo).mp hentry
  have hrelease := Repository.mem_cobList.mpr ⟨tips, htips, hmaterialize⟩
  refine ⟨release, parseEntry_eq_ok_iff.mpr ⟨rfl, ?_⟩⟩
  rw [Store.parseReleaseRow, fromText_release_of_readable (hreadable id release hrelease)]

/-- When every release is parsed back, no row is skipped. -/
theorem perm_list_of_readable :
    (list texts cobs repo store).1.Perm (repo.storeAll cobs) := by
  let rows := (refreshRepo texts cobs repo store).rows repo.id
  obtain ⟨entries, hentries⟩ : ∃ entries,
      (refreshRepo texts cobs repo store).list texts repo.id = .ok entries :=
    mapM_eq_ok_of_forall fun entry hentry =>
      (exists_release_of_mem_rows hcoherent hrepo hreadable hentry).elim
        fun release hrelease => ⟨_, hrelease⟩
  have hsorted := ((perm_sortByKeyDesc Store.orderKey rows).map
    (Store.parseEntry texts)).filterMap Except.toOption
  rw [filterMap_toOption_of_mapM_eq_ok hentries] at hsorted
  exact (hsorted.trans (perm_cobList_of_list_eq_ok hcoherent hrepo hentries)).map _

/-- When moreover the database tells the releases apart, the orders agree. -/
theorem list_eq_of_readable (hordered : TimesInIdOrder (repo.cobList cobs)) :
    (list texts cobs repo store).1 = repo.storeList cobs := by
  have hperm := perm_list_of_readable hcoherent hrepo hreadable
  refine eq_sortByKeyDesc_of_perm Repository.listKey ?_ hperm ?_
  · intro leftEntry hleftEntry rightEntry hrightEntry hkey
    obtain ⟨left, hleft, rfl⟩ := List.mem_map.mp hleftEntry
    obtain ⟨right, hright, rfl⟩ := List.mem_map.mp hrightEntry
    rw [eq_of_listKey_eq hleft hright hkey]
  · refine (pairwise_list hcoherent hrepo).imp_of_mem fun hleft hright hle => ?_
    obtain ⟨left, hleftMem, rfl⟩ := List.mem_map.mp (hperm.mem_iff.mp hleft)
    obtain ⟨right, hrightMem, rfl⟩ := List.mem_map.mp (hperm.mem_iff.mp hright)
    exact listKey_le_of_databaseKey_le hordered hrightMem hleftMem hle

end List

/-- In every state a run reaches, for a repository whose objects materialize: the
two listings agree and every stored release is parsed back, if and only if no
metadata value of its releases is too deep, and releases whose creation times the
database does not tell apart come in the order of their ids. -/
theorem list_refines_git_iff (refs : RepoId → Refs) (steps : List Step) (id : RepoId)
    (hrepo : ((State.run texts cobs ⟨refs, ∅⟩ steps).repository id).Materializes cobs) :
    let state := State.run texts cobs ⟨refs, ∅⟩ steps
    let repo := state.repository id
    ((list texts cobs repo state.store).1 = repo.storeList cobs ∧
        ∀ id release, (id, release) ∈ repo.cobList cobs →
          Json.fromText (releaseForm texts).read ((releaseForm texts).write release) =
            some release) ↔
      (∀ id release, (id, release) ∈ repo.cobList cobs → release.Readable) ∧
        TimesInIdOrder (repo.cobList cobs) := by
  intro state repo
  have hcoherent : Coherent texts cobs state.store := coherent_run coherent_empty steps
  constructor
  · rintro ⟨hlist, -⟩
    exact ⟨fun id release => readable_of_list_eq hcoherent hrepo hlist,
      timesInIdOrder_of_list_eq hcoherent hrepo hlist⟩
  · rintro ⟨hreadable, hordered⟩
    exact ⟨list_eq_of_readable hcoherent hrepo hreadable hordered, fun id release hrelease =>
      fromText_release_of_readable (hreadable id release hrelease)⟩

/-- `depth` arrays, each the only item of the next. -/
def nested : ℕ → Json
  | 0 => .null
  | depth + 1 => .array [nested depth]

theorem depth_nested (depth : ℕ) : (nested depth).depth = depth := by
  induction depth with
  | zero => simp [nested, Json.depth]
  | succ depth ih => simp [nested, Json.depth, Json.depthItems, ih]

theorem normal_nested (depth : ℕ) : (nested depth).Normal := by
  induction depth with
  | zero => simp [nested, Json.Normal]
  | succ depth ih => simp [nested, Json.Normal, Json.NormalItems, ih]

/-- A value of 121 nested arrays is listed, in two releases of one creation time. -/
theorem list_refines_git_at_depth_limit :
    let did : Did := .filled 32 1
    let cid := blake3HashToCid (.filled 32 7) .blob
    let texts := TextForms.sample did
      "did:key:z6MkeXBLjYiSvqnhFb6D7sHm8yKm4jV45wwBFRaatf1cfZ76" cid
      "bafkr4iaha4dqobyha4dqobyha4dqobyha4dqobyha4dqobyha4dqobyha4" (by decide) (by decide)
    let root : Op := ⟨did, [.create (.filled 20 5) none, .registerArtifact cid "app",
      .setMetadata cid "notes" ⟨nested 121, normal_nested 121⟩], 5⟩
    let release := (Release.new (.filled 20 5) none did 5).run (Release.history root [])
    let cobs := CobStore.always release ⟨fun _ => .ok (), root, [], rfl⟩
    let refs : Refs := .collect [(.filled 20 6, ⟨[.filled 20 6], by simp⟩),
      (.filled 20 9, ⟨[.filled 20 9], by simp⟩)]
    let repo : Repository := ⟨.filled 20 1, refs⟩
    (list texts cobs repo ∅).1 = repo.storeList cobs := by
  intro did cid texts root release cobs refs repo
  have hreadable : release.Readable := by
    rintro value ⟨named, artifact, key, user, hartifact, hwrite⟩
    have hentry : (named, artifact) ∈ [(cid, (Artifact.register did "app").writeMetadata did
        "notes" (.set ⟨nested 121, normal_nested 121⟩))] :=
      IndexMap.get?_eq_some_iff_mem.mp hartifact
    rw [(Prod.mk.inj (List.mem_singleton.mp hentry)).2,
      Artifact.metadataWrites_writeMetadata] at hwrite
    have hone : (user, .set value) ∈
        [(did, MetadataWrite.set ⟨nested 121, normal_nested 121⟩)] := by
      split at hwrite
      · simpa [Artifact.metadataWrites, Artifact.register] using hwrite
      · simp [Artifact.metadataWrites, Artifact.register] at hwrite
    have hvalue := MetadataWrite.set.inj (Prod.mk.inj (List.mem_singleton.mp hone)).2
    rw [hvalue, depth_nested]
    decide
  have hlisted : ∀ id listed, (id, listed) ∈ repo.cobList cobs → release = listed := by
    intro id listed hlisted
    obtain ⟨tips, -, hmaterialize⟩ := Repository.mem_cobList.mp hlisted
    exact Option.some.inj (Except.ok.inj hmaterialize)
  refine ((list_refines_git_iff (fun _ => refs) [] (.filled 20 1)
    (repo.materializes_always _ _)).mpr ⟨fun id listed hmem => ?_, ?_⟩).1
  · exact hlisted id listed hmem ▸ hreadable
  · rintro ⟨first, left⟩ hleft ⟨second, right⟩ hright hlt
    rw [← hlisted first left hleft, ← hlisted second right hright] at hlt
    exact absurd hlt (lt_irrefl _)

/-- A value of 122 nested arrays reaches a release through the text of its
action, but the row of that release cannot be parsed and the listing skips it. -/
theorem deep_metadata_is_skipped :
    let did : Did := .filled 32 1
    let cid := blake3HashToCid (.filled 32 7) .blob
    let texts := TextForms.sample did
      "did:key:z6MkeXBLjYiSvqnhFb6D7sHm8yKm4jV45wwBFRaatf1cfZ76" cid
      "bafkr4iaha4dqobyha4dqobyha4dqobyha4dqobyha4dqobyha4dqobyha4" (by decide) (by decide)
    let root : Op := ⟨did, [.create (.filled 20 5) none, .registerArtifact cid "app",
      .setMetadata cid "notes" ⟨nested 122, normal_nested 122⟩], 5⟩
    let release := (Release.new (.filled 20 5) none did 5).run (Release.history root [])
    let cobs := CobStore.always release ⟨fun _ => .ok (), root, [], rfl⟩
    let refs : Refs := .collect [(.filled 20 6, ⟨[.filled 20 6], by simp⟩)]
    let repo : Repository := ⟨.filled 20 1, refs⟩
    release.Reached texts ∧ repo.Materializes cobs ∧
      (list texts cobs repo ∅).1 ≠ repo.storeList cobs ∧
      Json.fromText (releaseForm texts).read ((releaseForm texts).write release) ≠
        some release := by
  intro did cid texts root release cobs refs repo
  have hdeep : ¬ release.Readable := by
    intro hreadable
    have hdepth := hreadable ⟨nested 122, normal_nested 122⟩ ⟨cid, _, "notes", did, rfl,
      (List.mem_cons_self : _ ∈ [(did, MetadataWrite.set ⟨nested 122, normal_nested 122⟩)])⟩
    rw [depth_nested] at hdepth
    exact absurd hdepth (by decide)
  have hreached : release.Reached texts := by
    refine ⟨fun _ => .ok (), root, [], rfl, fun op hop action haction => ?_⟩
    obtain rfl := List.mem_singleton.mp hop
    refine Action.decoded_of_depth_le texts fun named key value hset => ?_
    have hvalue : value = ⟨nested 122, normal_nested 122⟩ := by
      simp only [root, hset, List.mem_cons, List.not_mem_nil, or_false, reduceCtorEq,
        false_or, Action.setMetadata.injEq] at haction
      exact haction.2.2
    rw [hvalue, depth_nested]
    decide
  have hrepo : repo.Materializes cobs := repo.materializes_always _ _
  have hlisted : (FixedBytes.filled 20 6, release) ∈ repo.cobList cobs :=
    Repository.mem_cobList.mpr ⟨⟨[.filled 20 6], by simp⟩, rfl, rfl⟩
  refine ⟨hreached, hrepo, fun hlist => hdeep ?_, fun hparsed => ?_⟩
  · exact readable_of_list_eq coherent_empty hrepo hlist hlisted
  · rw [fromText_release_of_not_readable hdeep] at hparsed
    cases hparsed

end RadicleArtifact.Cache
