import RadicleArtifact.Node.Dispatch

/-!
# The service behind the one-shot requests

Whatever fails on the way, the tags of a node stand for a set of triples, and a request does
to the set what its answer says: an artifact is seeded only if what stands at the path has its
content id, removals are reported exactly, and an error leaves the set as it was, but for an
unseed of every release, which may have got through some of them.  No request loses bytes.
-/

namespace RadicleArtifact.Node

open RadicleArtifact.Core
open RadicleArtifact.Library
open RadicleArtifact.Library.Utf8 (OsString)

/-! ## Imports -/

section Imports

variable {blake3 : Blake3} {run : RequestRun} {ctx : DispatchCtx blake3}

theorem extends_importFiles (faults : ImportFaults) (index : ℕ) (store : BlobStore blake3)
    (files : List (String × List UInt8)) :
    store.Extends (importFiles faults index store files).1 := by
  induction files generalizing index store with
  | nil => exact .refl store
  | cons file files ih =>
      rw [importFiles]
      split
      · exact .refl store
      · have hrest := (BlobStore.extends_add store file.2).trans (ih (index + 1) (store.add file.2))
        split <;> rename_i heq <;> rwa [heq] at hrest

theorem extends_addCollection (store : BlobStore blake3) (entries : List (String × Hash)) :
    store.Extends (store.addCollection entries).1 :=
  (BlobStore.extends_add store _).trans (BlobStore.extends_add _ _)

theorem extends_importCollection (faults : ImportFaults) (cidText : Cid → String)
    (store : BlobStore blake3) (tree : FileTree OsString (List UInt8)) (expected : Cid) :
    store.Extends (importCollection faults cidText store tree expected).1 := by
  have hfiles := extends_importFiles faults 0 store (canonicalWalk tree)
  rw [importCollection]
  split
  · exact .refl store
  · split <;> rename_i after _ heq <;> rw [heq] at hfiles
    · exact hfiles
    · split
      · exact hfiles
      · dsimp only
        split <;> exact hfiles.trans (extends_addCollection after _)

theorem extends_importBlob (store : BlobStore blake3) (tree : FileTree OsString (List UInt8))
    (expected : Cid) : store.Extends (importBlob ctx run store tree expected).1 := by
  cases tree with
  | file contents =>
      rw [importBlob]
      split
      · exact .refl store
      · dsimp only
        split <;> exact BlobStore.extends_add store contents
  | _ =>
      rw [importBlob]
      · split <;> exact .refl store
      · simp

/-- Every file that was imported is listed under its hash. -/
theorem importFiles_eq_ok {faults : ImportFaults} {index : ℕ} {store after : BlobStore blake3}
    {files : List (String × List UInt8)} {pairs : List (String × Hash)}
    (himport : importFiles faults index store files = (after, .ok pairs)) :
    pairs = files.map fun file => (file.1, blake3 file.2) := by
  induction files generalizing index store after pairs with
  | nil => exact (Except.ok.inj (Prod.mk.inj himport).2).symm
  | cons file files ih =>
      rw [importFiles] at himport
      split at himport
      · simp at himport
      · split at himport
        · simp at himport
        · rename_i rest heq
          have hrest := ih heq
          rw [← Except.ok.inj (Prod.mk.inj himport).2, hrest, List.map_cons]

/-- The content identifier is that of what stands at the path. -/
def Identifies (blake3 : Blake3) (tree : FileTree OsString (List UInt8)) (cid : Cid) :
    ArtifactKind → Prop
  | .blob => ∃ contents, tree = .file contents ∧ cid = blake3HashToCid (blake3 contents) .blob
  | .collection => cid = computeContentId blake3 tree

theorem importBlob_eq_ok {store after : BlobStore blake3}
    {tree : FileTree OsString (List UInt8)} {cid : Cid} {hash : Hash}
    (himport : importBlob ctx run store tree cid = (after, .ok hash)) :
    cid = blake3HashToCid hash .blob ∧ Identifies blake3 tree cid .blob := by
  cases tree with
  | file contents =>
      rw [importBlob] at himport
      split at himport
      · simp at himport
      · dsimp only at himport
        split at himport
        · simp at himport
        · rename_i hsame
          have hcid := (not_not.mp hsame).symm
          rw [← Except.ok.inj (Prod.mk.inj himport).2]
          exact ⟨hcid, contents, rfl, hcid⟩
  | _ =>
      rw [importBlob] at himport
      · split at himport <;> simp at himport
      · simp

theorem importCollection_eq_ok {faults : ImportFaults} {store after : BlobStore blake3}
    {tree : FileTree OsString (List UInt8)} {cid : Cid} {hash : Hash}
    (himport : importCollection faults ctx.cidText store tree cid = (after, .ok hash)) :
    cid = blake3HashToCid hash .collection ∧ Identifies blake3 tree cid .collection := by
  rw [importCollection] at himport
  split at himport
  · simp at himport
  · split at himport
    · simp at himport
    · rename_i pairs heq
      have hpairs := importFiles_eq_ok heq
      split at himport
      · simp at himport
      · dsimp only at himport
        split at himport
        · simp at himport
        · rename_i hsame
          have hcid := (not_not.mp hsame).symm
          rw [← Except.ok.inj (Prod.mk.inj himport).2]
          refine ⟨hcid, ?_⟩
          rw [Identifies, hcid, hpairs]
          rfl

theorem extends_importArtifact (store : BlobStore blake3)
    (tree : FileTree OsString (List UInt8)) (cid : Cid) (kind : ArtifactKind) :
    store.Extends (importArtifact ctx run store tree cid kind).1 := by
  cases kind with
  | blob => exact extends_importBlob store tree cid
  | collection => exact extends_importCollection run.importing ctx.cidText store tree cid

theorem importArtifact_eq_ok {store after : BlobStore blake3}
    {tree : FileTree OsString (List UInt8)} {cid : Cid} {kind : ArtifactKind} {hash : Hash}
    (himport : importArtifact ctx run store tree cid kind = (after, .ok hash)) :
    cid = blake3HashToCid hash kind ∧ Identifies blake3 tree cid kind := by
  cases kind with
  | blob => exact importBlob_eq_ok himport
  | collection => exact importCollection_eq_ok himport

/-- What a seed leaves: bytes are only added, and the tags change only if the import was
verified. -/
theorem seedArtifact_spec {state next : NodeState blake3} {rid release : Oid} {cid : Cid}
    {tree : FileTree OsString (List UInt8)} {kind : ArtifactKind}
    {result : Except ShareError Hash}
    (hseed : seedArtifact ctx run state rid release cid tree kind = (next, result)) :
    state.blobs.Extends next.blobs ∧ (∀ err, result = .error err → next.tags = state.tags) ∧
      ∀ hash, result = .ok hash → Identifies blake3 tree cid kind ∧
        cidToBlake3Hash cid = .ok hash ∧
        state.tags.tagSeeded ctx.bytes rid release cid hash = .ok next.tags := by
  have hextends : state.blobs.Extends (importArtifact ctx run state.blobs tree cid kind).1 :=
    extends_importArtifact state.blobs tree cid kind
  rw [seedArtifact] at hseed
  split at hseed
  · rename_i blobs err himport
    rw [himport] at hextends
    obtain ⟨rfl, rfl⟩ := Prod.mk.inj hseed
    exact ⟨hextends, fun _ _ => rfl, fun _ hok => by contradiction⟩
  · rename_i blobs hash himport
    rw [himport] at hextends
    obtain ⟨hcid, hidentifies⟩ := importArtifact_eq_ok himport
    split at hseed
    · obtain ⟨rfl, rfl⟩ := Prod.mk.inj hseed
      exact ⟨hextends, fun _ _ => rfl, fun _ hok => by contradiction⟩
    · rename_i tags htags
      obtain ⟨rfl, rfl⟩ := Prod.mk.inj hseed
      refine ⟨hextends, fun _ herr => by contradiction, fun found hfound => ?_⟩
      obtain rfl := Except.ok.inj hfound
      refine ⟨hidentifies, (reads_iff_eq_blake3HashToCid.mpr hcid).2, ?_⟩
      cases htag : state.tags.tagSeeded ctx.bytes rid release cid hash with
      | error err => simp [RequestRun.tagSeeded, htag, bind, Except.bind] at htags
      | ok tagged =>
          cases hset : run.set with
          | some err => simp [RequestRun.tagSeeded, htag, hset, bind, Except.bind] at htags
          | none =>
              simp only [RequestRun.tagSeeded, htag, hset, bind, Except.bind,
                Except.ok.injEq] at htags
              rw [htags]

end Imports

/-! ## Deletions -/

section Deletions

variable {run : RequestRun} {bytes : CidBytes} {tags : Tags} {seeded : Seeded}

/-- The tally of deletions starts at any count. -/
theorem foldl_delete (count : ℕ) (tags : Tags) (names : List (List Byte)) :
    names.foldl (fun (removed, tags) name =>
      let (count, tags) := Tags.delete tags name
      (removed + count, tags)) (count, tags) =
    (count + (tags.deleteAll names).1, (tags.deleteAll names).2) := by
  induction names generalizing count tags with
  | nil => rfl
  | cons name names ih =>
      rw [Tags.deleteAll, List.foldl_cons, List.foldl_cons]
      dsimp only
      rw [ih, ih (0 + (tags.delete name).1), Nat.zero_add, Nat.add_assoc]

theorem deleteAll_cons (tags : Tags) (name : List Byte) (names : List (List Byte)) :
    tags.deleteAll (name :: names) =
      ((tags.delete name).1 + ((tags.delete name).2.deleteAll names).1,
        ((tags.delete name).2.deleteAll names).2) := by
  rw [Tags.deleteAll, List.foldl_cons]
  dsimp only
  rw [foldl_delete, Nat.zero_add]

/-- Deleting names one by one deletes a first part of them, all of them when nothing fails. -/
theorem exists_deleteEach (run : RequestRun) (index removed : ℕ) (tags : Tags)
    (names : List (List Byte)) :
    ∃ first rest, names = first ++ rest ∧
      (run.deleteEach index removed tags names).1 = (tags.deleteAll first).2 ∧
      ∀ count, (run.deleteEach index removed tags names).2 = .ok count →
        rest = [] ∧ count = removed + (tags.deleteAll first).1 := by
  induction names generalizing index removed tags with
  | nil =>
      refine ⟨[], [], rfl, rfl, fun count hcount => ⟨rfl, ?_⟩⟩
      rw [RequestRun.deleteEach] at hcount
      exact (Except.ok.inj hcount).symm
  | cons name names ih =>
      rw [RequestRun.deleteEach]
      split
      · exact ⟨[], name :: names, rfl, rfl, fun count hcount => by simp at hcount⟩
      · obtain ⟨first, rest, hnames, htags, hcount⟩ :=
          ih (index + 1) (removed + (tags.delete name).1) (tags.delete name).2
        refine ⟨name :: first, rest, by rw [hnames, List.cons_append], ?_, fun count hok => ?_⟩
        · rw [deleteAll_cons]
          exact htags
        · obtain ⟨hrest, hsum⟩ := hcount count hok
          exact ⟨hrest, by rw [hsum, deleteAll_cons, Nat.add_assoc]⟩

/-- The names an unseed of every release deletes are those of triples of the set. -/
theorem exists_names_of_untagAll (hrefines : Refines bytes tags seeded) (rid : RepoId)
    (cid : Cid) :
    ∃ triples : List Triple,
      ((tags.listPrefix (Tags.seededRidPrefix rid)).map Prod.fst).filter
        (Tags.namesCid bytes cid) = triples.map (Tags.name bytes) ∧
      triples.Nodup ∧
      ∀ triple, triple ∈ triples ↔ triple ∈ seeded.keys ∧ Seeded.Seeds rid cid triple := by
  obtain ⟨listed, hlisted, hnodup, hmem⟩ :=
    hrefines.listPrefix (Tags.seededRidPrefix rid) (by simp [Tags.seededRidPrefix])
  have hkeys := Refines.keys_filter_perm hnodup hmem cid
  refine ⟨(listed.map Prod.fst).filter (Seeded.Seeds rid cid ·), ?_, hnodup.filter _, ?_⟩
  · have hmap : (tags.listPrefix (Tags.seededRidPrefix rid)).map Prod.fst =
        (listed.map Prod.fst).map (Tags.name bytes) := by
      rw [hlisted, List.map_map, List.map_map]
      rfl
    rw [hmap, List.filter_map]
    congr 1
    apply List.filter_congr
    intro triple htriple
    obtain ⟨⟨triple, value⟩, hentry, rfl⟩ := List.mem_map.mp htriple
    have hrid := (Tags.seededRidPrefix_prefix_iff rid triple).mp ((hmem triple value).mp hentry).2
    rw [Function.comp_apply, Tags.namesCid_name]
    simp only [Seeded.Seeds, hrid, true_and]
  · intro triple
    rw [← hkeys.mem_iff, List.mem_filter, decide_eq_true_eq]

end Deletions

/-! ## What an answer says -/

/-- The listing of a repository: every content identifier once, with the releases that seed it. -/
structure Listed (seeded : Seeded) (rid : RepoId) (entries : List SeededEntry) : Prop where
  distinct : (entries.map SeededEntry.cid).Nodup
  nodup : ∀ entry ∈ entries, entry.releases.Nodup
  releases : ∀ entry ∈ entries, ∀ release,
    release ∈ entry.releases ↔ (rid, release, entry.cid) ∈ seeded.keys
  covers : ∀ release cid, (rid, release, cid) ∈ seeded.keys → ∃ entry ∈ entries, entry.cid = cid

/-- What a request does to the set of triples, by its answer. -/
def Serves (blake3 : Blake3) (run : RequestRun) (seeded after : Seeded) :
    (cmd : Command) → CommandResult (replyTo cmd).Payload → Prop
  | .seed rid release cid path kind _, .okay receipt =>
      receipt.rid = rid ∧ receipt.cid = cid ∧
        (receipt.wasNew = true ↔ (rid, release, cid) ∉ seeded.keys) ∧
        (∃ tree, run.file path = some tree ∧ Identifies blake3 tree cid kind) ∧
        ∃ content, hashAndFormat cid = .ok content ∧
          after = seeded.insert (rid, release, cid) content
  | .unseed rid (some release) cid, .okay receipt =>
      receipt.rid = rid ∧ receipt.cid = cid ∧
        (receipt.wasRemoved, after) = seeded.untag (rid, release, cid)
  | .unseed rid none cid, .okay receipt =>
      receipt.rid = rid ∧ receipt.cid = cid ∧
        receipt.wasRemoved = decide (0 < (seeded.untagAll rid cid).1) ∧
        after = (seeded.untagAll rid cid).2
  | .unseed rid none cid, .error _ =>
      ∃ removed : List Triple, (∀ triple ∈ removed, Seeded.Seeds rid cid triple) ∧
        after = seeded.retain fun triple => !removed.contains triple
  | .isSeeding rid cid, .okay seeding =>
      (seeding = true ↔ ∃ release, (rid, release, cid) ∈ seeded.keys) ∧ after = seeded
  | .listSeeded rid, .okay entries =>
      Listed seeded rid entries ∧ after = seeded
  | _, _ => after = seeded

/-- Unseeding every release takes away the triples of any listing of them, and counts them. -/
theorem untagAll_of_mem_iff {seeded : Seeded} {rid : RepoId} {cid : Cid}
    {triples : List Triple} (hnodup : triples.Nodup)
    (hmem : ∀ triple, triple ∈ triples ↔ triple ∈ seeded.keys ∧ Seeded.Seeds rid cid triple) :
    (seeded.untagAll rid cid).1 = triples.length ∧
      ∀ triple, (seeded.retain fun triple => ¬ triple ∈ triples).get? triple =
        (seeded.untagAll rid cid).2.get? triple := by
  have hperm : (seeded.keys.filter (Seeded.Seeds rid cid ·)).Perm triples := by
    apply (List.perm_ext_iff_of_nodup (seeded.nodup_keys.filter _) hnodup).mpr
    intro triple
    rw [List.mem_filter, decide_eq_true_eq]
    exact (hmem triple).symm
  refine ⟨hperm.length_eq, fun triple => ?_⟩
  rw [Seeded.untagAll, IndexMap.get?_retain_not, IndexMap.get?_retain_not]
  by_cases hkey : triple ∈ seeded.keys
  · exact if_congr ((hmem triple).trans (and_iff_right hkey)) rfl rfl
  · rw [IndexMap.get?_eq_none_iff.mpr hkey, ite_self, ite_self]

section Serves

variable {blake3 : Blake3} {ctx : DispatchCtx blake3} {run : RequestRun}
  {state : NodeState blake3} {seeded : Seeded} (hrefines : Refines ctx.bytes state.tags seeded)
include hrefines

theorem isSeeded_eq (rid release : Oid) (cid : Cid) {seeding : Bool}
    (hseeding : run.isSeeded ctx.bytes state.tags rid release cid = .ok seeding) :
    seeding = decide ((rid, release, cid) ∈ seeded.keys) := by
  rw [RequestRun.isSeeded] at hseeding
  split at hseeding
  · contradiction
  · rw [← Except.ok.inj hseeding, Bool.eq_iff_iff, decide_eq_true_eq]
    exact hrefines.isSeeded (rid, release, cid)

/-- A seed that succeeds has verified the import, and sets one tag. -/
theorem serves_seedResponse (rid release : Oid) (cid : Cid) (path : PathBuf)
    (kind : ArtifactKind) (mode : ImportMode) {next : NodeState blake3}
    {result : CommandResult SeedReceipt}
    (hresult : seedResponse ctx run state rid release cid path kind = (next, result)) :
    ∃ after, Refines ctx.bytes next.tags after ∧ state.blobs.Extends next.blobs ∧
      Serves blake3 run seeded after (.seed rid release cid path kind mode) result := by
  rw [seedResponse] at hresult
  split at hresult
  · obtain ⟨rfl, rfl⟩ := Prod.mk.inj hresult
    exact ⟨seeded, hrefines, .refl _, rfl⟩
  · rename_i tree htree
    split at hresult
    · obtain ⟨rfl, rfl⟩ := Prod.mk.inj hresult
      exact ⟨seeded, hrefines, .refl _, rfl⟩
    · rename_i wasAlready hwas
      have halready := isSeeded_eq hrefines rid release cid hwas
      cases hseed : seedArtifact ctx run state rid release cid tree kind with
      | mk after imported =>
          rw [hseed] at hresult
          obtain ⟨hextends, hfailed, hdone⟩ := seedArtifact_spec hseed
          cases imported with
          | error err =>
              obtain ⟨rfl, rfl⟩ := Prod.mk.inj hresult
              exact ⟨seeded, hfailed err rfl ▸ hrefines, hextends, rfl⟩
          | ok hash =>
              obtain ⟨rfl, rfl⟩ := Prod.mk.inj hresult
              obtain ⟨hidentifies, hhash, htagged⟩ := hdone hash rfl
              have hstep := hrefines.tagSeeded (rid, release, cid) hash
              rw [htagged, Seeded.tag] at hstep
              cases hvalue : tagValue cid hash with
              | error err => simp [hvalue, Except.map] at hstep
              | ok content =>
                  simp only [hvalue, Except.map] at hstep
                  refine ⟨_, hstep, hextends, rfl, rfl, ?_, ⟨tree, htree, hidentifies⟩, content,
                    hashAndFormat_eq_ok_iff.mpr ⟨hash, hhash, hvalue⟩, rfl⟩
                  rw [halready, ← decide_not, decide_eq_true_eq]

/-- One release is unseeded, and its removal reported, unless the deletion fails. -/
theorem unseed_release_spec (rid release : Oid) (cid : Cid) {tags : Tags}
    {result : Except ShareError Bool}
    (hresult : run.unseed ctx.bytes state.tags rid cid (some release) = (tags, result)) :
    match result with
    | .error _ => tags = state.tags
    | .ok removed => removed = (seeded.untag (rid, release, cid)).1 ∧
        Refines ctx.bytes tags (seeded.untag (rid, release, cid)).2 := by
  obtain ⟨hremoved, hleft⟩ := hrefines.untagSeeded (rid, release, cid)
  rw [RequestRun.unseed, RequestRun.untagSeeded] at hresult
  cases hdelete : run.delete 0 with
  | some err =>
      rw [hdelete] at hresult
      obtain ⟨rfl, rfl⟩ := Prod.mk.inj hresult
      rfl
  | none =>
      rw [hdelete] at hresult
      obtain ⟨rfl, rfl⟩ := Prod.mk.inj hresult
      exact ⟨hremoved, hleft⟩

/-- Every release is unseeded, and a removal reported if there was one; a deletion that fails
leaves some of them. -/
theorem unseed_all_spec (rid : RepoId) (cid : Cid) {tags : Tags}
    {result : Except ShareError Bool}
    (hresult : run.unseed ctx.bytes state.tags rid cid none = (tags, result)) :
    match result with
    | .error _ => ∃ removed : List Triple, (∀ triple ∈ removed, Seeded.Seeds rid cid triple) ∧
        Refines ctx.bytes tags (seeded.retain fun triple => ¬ triple ∈ removed)
    | .ok removed => removed = decide (0 < (seeded.untagAll rid cid).1) ∧
        Refines ctx.bytes tags (seeded.untagAll rid cid).2 := by
  have hnone : Refines ctx.bytes state.tags (seeded.retain fun triple => ¬ triple ∈ []) := by
    apply hrefines.congr
    intro triple
    rw [IndexMap.get?_retain_not, if_neg List.not_mem_nil]
  obtain ⟨triples, hnames, hnodup, hmem⟩ := exists_names_of_untagAll hrefines rid cid
  rw [RequestRun.unseed, RequestRun.untagAll] at hresult
  cases hlisting : run.listing with
  | some fault =>
      rw [hlisting] at hresult
      obtain ⟨rfl, rfl⟩ := Prod.mk.inj hresult
      exact ⟨[], fun _ hnot => absurd hnot List.not_mem_nil, hnone⟩
  | none =>
      simp only [hlisting, hnames] at hresult
      obtain ⟨first, rest, hsplit, htags, hcount⟩ :=
        exists_deleteEach run 0 0 state.tags (triples.map (Tags.name ctx.bytes))
      -- What was deleted are the names of the first few of the triples.
      obtain ⟨removed, left, rfl, rfl, rfl⟩ := List.map_eq_append_iff.mp hsplit
      have hsub : ∀ triple ∈ removed, triple ∈ seeded.keys ∧ Seeded.Seeds rid cid triple :=
        fun triple htriple => (hmem triple).mp (List.mem_append_left _ htriple)
      obtain ⟨htally, hleft⟩ := hrefines.deleteAll (List.nodup_append.mp hnodup).1
        fun triple htriple => (hsub triple htriple).1
      rw [← htags] at hleft
      cases heach : run.deleteEach 0 0 state.tags ((removed ++ left).map (Tags.name ctx.bytes)) with
      | mk after outcome =>
          rw [heach] at hresult hleft
          cases outcome with
          | error err =>
              obtain ⟨rfl, rfl⟩ := Prod.mk.inj hresult
              exact ⟨removed, fun triple htriple => (hsub triple htriple).2, hleft⟩
          | ok count =>
              obtain ⟨rfl, rfl⟩ := Prod.mk.inj hresult
              obtain ⟨hrest, rfl⟩ := hcount count (by rw [heach])
              obtain rfl := List.map_eq_nil_iff.mp hrest
              rw [List.append_nil] at hnodup hmem
              obtain ⟨hlength, hretain⟩ := untagAll_of_mem_iff hnodup hmem
              refine ⟨?_, hleft.congr hretain⟩
              rw [htally, Nat.zero_add, hlength]

theorem serves_unseedResponse (rid : RepoId) (release : Option Oid) (cid : Cid)
    {next : NodeState blake3} {result : CommandResult UnseedReceipt}
    (hresult : unseedResponse ctx run state rid release cid = (next, result)) :
    ∃ after, Refines ctx.bytes next.tags after ∧ state.blobs.Extends next.blobs ∧
      Serves blake3 run seeded after (.unseed rid release cid) result := by
  rw [unseedResponse] at hresult
  split at hresult <;> rename_i tags outcome houtcome <;>
    obtain ⟨rfl, rfl⟩ := Prod.mk.inj hresult
  · cases release with
    | some release =>
        have hspec := unseed_release_spec hrefines rid release cid houtcome
        exact ⟨seeded, hspec ▸ hrefines, .refl _, rfl⟩
    | none =>
        obtain ⟨removed, hseeds, hleft⟩ := unseed_all_spec hrefines rid cid houtcome
        refine ⟨_, hleft, .refl _, removed, hseeds, ?_⟩
        simp only [List.contains_eq_mem, decide_not]
  · cases release with
    | some release =>
        obtain ⟨hremoved, hleft⟩ := unseed_release_spec hrefines rid release cid houtcome
        exact ⟨_, hleft, .refl _, rfl, rfl, Prod.ext hremoved rfl⟩
    | none =>
        obtain ⟨hremoved, hleft⟩ := unseed_all_spec hrefines rid cid houtcome
        exact ⟨_, hleft, .refl _, rfl, rfl, hremoved, rfl⟩

/-- A listing that fails after a hit has already answered. -/
theorem serves_isSeedingResponse (rid : RepoId) (cid : Cid) :
    Serves blake3 run seeded seeded (.isSeeding rid cid)
      (isSeedingResponse ctx run state rid cid) := by
  have hany := hrefines.isSeededAny rid cid
  rw [isSeedingResponse]
  split
  · rename_i seeding hseeding
    refine ⟨?_, rfl⟩
    rw [RequestRun.isSeededAny] at hseeding
    split at hseeding
    · dsimp only at hseeding
      split at hseeding
      · contradiction
      · split at hseeding
        · rename_i hhit
          rw [← Except.ok.inj hseeding, ← hany, Tags.isSeededAny]
          obtain ⟨info, hinfo, hnames⟩ := List.any_eq_true.mp hhit
          simp only [List.any_eq_true]
          exact ⟨fun _ => ⟨info, List.mem_of_mem_take hinfo, hnames⟩, fun _ => rfl⟩
        · contradiction
    · rw [← Except.ok.inj hseeding]
      exact hany
  · rfl

theorem serves_listSeededResponse (rid : RepoId) :
    Serves blake3 run seeded seeded (.listSeeded rid)
      (listSeededResponse ctx run state rid) := by
  rw [listSeededResponse]
  split
  · rfl
  · rename_i cids hcids
    rw [RequestRun.seededCids] at hcids
    split at hcids
    · contradiction
    · obtain rfl := Except.ok.inj hcids
      have hperm := run.listed.perm (state.tags.seededCids ctx.bytes rid).entries
      have hlists : ∀ cid hash releases,
          (cid, hash, releases) ∈ run.listed.iterate (state.tags.seededCids ctx.bytes rid).entries ↔
            (state.tags.seededCids ctx.bytes rid).get? cid = some (hash, releases) := by
        intro cid hash releases
        rw [hperm.mem_iff, IndexMap.get?_eq_some_iff_mem]
      have hspec := hrefines.seededCids rid
      refine ⟨⟨?_, ?_, ?_, ?_⟩, rfl⟩
      · rw [List.map_map]
        exact (hperm.map Prod.fst).nodup_iff.mpr (state.tags.seededCids ctx.bytes rid).nodup_keys
      · intro entry hentry
        obtain ⟨⟨cid, hash, releases⟩, hrow, rfl⟩ := List.mem_map.mp hentry
        have hlist := hspec cid
        rw [(hlists cid hash releases).mp hrow] at hlist
        exact hlist.1
      · intro entry hentry release
        obtain ⟨⟨cid, hash, releases⟩, hrow, rfl⟩ := List.mem_map.mp hentry
        have hlist := hspec cid
        rw [(hlists cid hash releases).mp hrow] at hlist
        exact hlist.2.1 release
      · intro release cid hkey
        have hlist := hspec cid
        cases hget : (state.tags.seededCids ctx.bytes rid).get? cid with
        | none =>
            rw [hget] at hlist
            exact absurd hkey (hlist release)
        | some row =>
            exact ⟨_, List.mem_map_of_mem ((hlists cid row.1 row.2).mpr hget), rfl⟩

/-- Every request does what its answer says. -/
theorem serves_dispatch {cmd : Command} {next : NodeState blake3}
    {result : CommandResult (replyTo cmd).Payload}
    (hdispatch : dispatch ctx run state cmd = some (next, result)) :
    ∃ after, Refines ctx.bytes next.tags after ∧ state.blobs.Extends next.blobs ∧
      Serves blake3 run seeded after cmd result := by
  cases cmd with
  | seed rid release cid path kind mode =>
      exact serves_seedResponse hrefines rid release cid path kind mode (Option.some.inj hdispatch)
  | unseed rid release cid =>
      exact serves_unseedResponse hrefines rid release cid (Option.some.inj hdispatch)
  | isSeeding rid cid =>
      obtain ⟨rfl, rfl⟩ := Prod.mk.inj (Option.some.inj hdispatch)
      exact ⟨seeded, hrefines, .refl _, serves_isSeedingResponse hrefines rid cid⟩
  | listSeeded rid =>
      obtain ⟨rfl, rfl⟩ := Prod.mk.inj (Option.some.inj hdispatch)
      exact ⟨seeded, hrefines, .refl _, serves_listSeededResponse hrefines rid⟩
  | «export» cid dest => contradiction
  | fetch rid cid locations seed => contradiction
  | download rid cid locations dest seed => contradiction
  | _ =>
      obtain ⟨rfl, rfl⟩ := Prod.mk.inj (Option.some.inj hdispatch)
      exact ⟨seeded, hrefines, .refl _, rfl⟩

end Serves

end RadicleArtifact.Node
