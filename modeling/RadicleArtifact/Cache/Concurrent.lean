import RadicleArtifact.Cache.Refinement
import RadicleArtifact.Library.Transition

/-!
# Concurrent readers

Processes share the cache and the git repositories, and nothing makes a read
atomic: it reads tips from git, looks at the cache, materializes from git and
writes its row in separate steps, and refs may change between any two of them.  A
row is then only as good as the agreement of the tips read first with the refs it
was materialized from.
-/

namespace RadicleArtifact.Cache.Concurrent

open RadicleArtifact.Core
open RadicleArtifact.Library
open RadicleArtifact.Cob
open RadicleArtifact.Releases

/-- A `cached_get`, with the tips it read first. -/
structure Getting where
  repo : RepoId
  id : ReleaseId
  tips : Option Tips
  /-- How many git writes there had been when it read them. -/
  started : ℕ

/-- A `refresh_repo`, with the refs and the rows it read first. -/
structure Walk where
  repo : Repository
  cached : BTreeMap ReleaseId String

/-- Where a reading process is. -/
inductive Reader where
  | idle
  /-- Next: look at the cached row. -/
  | tipsRead (get : Getting)
  /-- Next: materialize from git. -/
  | stale (get : Getting) (tips : Tips)
  /-- Next: write what git gave. -/
  | materialized (get : Getting) (tips : Tips) (found : Except StoreError (Option Release))
  | got (get : Getting) (result : Except CacheOpError (Option Release))
  /-- Next: read the heads of the cached rows. -/
  | refsRead (repo : Repository)
  /-- Next: compare the first object, and materialize it if it is stale. -/
  | visiting (walk : Walk) (todo : List (ObjectId × Tips))
  /-- Next: write what git gave for the object. -/
  | visited (walk : Walk) (entry : ObjectId × Tips) (todo : List (ObjectId × Tips))
      (found : Except StoreError (Option Release))
  /-- Next: remove the first row if its object was gone. -/
  | pruning (walk : Walk) (todo : List ReleaseId)

/-- The object that a reader materializes in its next step, with the tips it read first. -/
def Reader.materializes : Reader → Option (RepoId × ReleaseId × Tips)
  | .stale get tips => some (get.repo, get.id, tips)
  | .visiting walk (entry :: _) =>
      if walk.cached[entry.1]? = some (headToken entry.2.oids) then none
      else some (walk.repo.id, entry.1, entry.2)
  | _ => none

structure World (Process : Type) where
  refs : RepoId → Refs
  /-- How many git writes there have been. -/
  writes : ℕ
  store : Store
  readers : Process → Reader

inductive Event (Process : Type) where
  /-- Refs of a repository are created, moved or removed. -/
  | git (repo : RepoId) (refs : Refs)
  | startGet (process : Process) (repo : RepoId) (id : ReleaseId)
  | startRefresh (process : Process) (repo : RepoId)
  | advance (process : Process)

/-- Write what git gave under the tips read first; a broken object is skipped. -/
def writeFound (texts : TextForms) (store : Store) (repo : RepoId) (id : ReleaseId)
    (tips : Tips) : Except StoreError (Option Release) → Store
  | .ok (some release) => store.update texts repo id (headToken tips.oids) release
  | .ok none => store.remove repo id
  | .error _ => store

namespace World

variable {Process : Type} [DecidableEq Process] (texts : TextForms) (cobs : CobStore)
  (world : World Process)

/-- Nothing cached, nobody reading. -/
def initial (refs : RepoId → Refs) : World Process :=
  ⟨refs, 0, ∅, fun _ => .idle⟩

def repository (repo : RepoId) : Repository :=
  ⟨repo, world.refs repo⟩

def enter (process : Process) (reader : Reader) : World Process :=
  { world with readers := Function.update world.readers process reader }

/-- The next step of a `cached_get` or a `refresh_repo`. -/
def advance (process : Process) : Option (World Process) :=
  match world.readers process with
  | .idle | .got _ _ => none
  | .tipsRead get =>
      match get.tips with
      | none =>
          some ({ world with store := world.store.remove get.repo get.id }.enter process
            (.got get (.ok none)))
      | some tips =>
          match world.store.get texts get.repo get.id with
          | .ok (some (head, release)) =>
              some (world.enter process
                (if head = headToken tips.oids then .got get (.ok (some release))
                else .stale get tips))
          | .ok none | .error .json => some (world.enter process (.stale get tips))
          | .error err => some (world.enter process (.got get (.error (.cache err))))
  | .stale get tips =>
      some (world.enter process
        (.materialized get tips ((world.repository get.repo).storeGet cobs get.id)))
  | .materialized get tips found =>
      some ({ world with store := writeFound texts world.store get.repo get.id tips found }.enter
        process (.got get (found.mapError .store)))
  | .refsRead repo =>
      some (world.enter process (.visiting ⟨repo, world.store.heads repo.id⟩ repo.refs.entries))
  | .visiting walk [] => some (world.enter process (.pruning walk walk.cached.keys))
  | .visiting walk (entry :: todo) =>
      some (world.enter process
        (if walk.cached[entry.1]? = some (headToken entry.2.oids) then .visiting walk todo
        else .visited walk entry todo
          ((world.repository walk.repo.id).storeGet cobs entry.1)))
  | .visited walk entry todo found =>
      some ({ world with
        store := writeFound texts world.store walk.repo.id entry.1 entry.2 found }.enter process
          (.visiting walk todo))
  | .pruning _ [] => some (world.enter process .idle)
  | .pruning walk (id :: todo) =>
      some ({ world with store := pruneObject walk.repo world.store id }.enter process
        (.pruning walk todo))

/-- A process that reads nothing can start a read. -/
def step : Event Process → Option (World Process)
  | .git repo refs =>
      some { world with
        refs := Function.update world.refs repo refs
        writes := world.writes + 1 }
  | .startGet process repo id =>
      match world.readers process with
      | .idle | .got _ _ =>
          some (world.enter process
            (.tipsRead ⟨repo, id, (world.refs repo).get? id, world.writes⟩))
      | _ => none
  | .startRefresh process repo =>
      match world.readers process with
      | .idle | .got _ _ => some (world.enter process (.refsRead (world.repository repo)))
      | _ => none
  | .advance process => world.advance texts cobs process

/-- The object is gone, or its tips are the given ones. -/
def Unmoved (repo : RepoId) (id : ReleaseId) (tips : Tips) : Prop :=
  ∀ now ∈ (world.refs repo).get? id, now.oids.toFinset = tips.oids.toFinset

instance (repo : RepoId) (id : ReleaseId) (tips : Tips) :
    Decidable (world.Unmoved repo id tips) :=
  inferInstanceAs (Decidable (∀ now ∈ (world.refs repo).get? id,
    now.oids.toFinset = tips.oids.toFinset))

/-- A reader that materializes an object finds it gone, or at the tips the reader
read first. -/
def FindsSameTips : Event Process → Prop
  | .advance process =>
      match world.readers process with
      | .stale get tips => world.Unmoved get.repo get.id tips
      | .visiting walk (entry :: _) =>
          walk.cached[entry.1]? = some (headToken entry.2.oids) ∨
            world.Unmoved walk.repo.id entry.1 entry.2
      | _ => True
  | _ => True

end World

/-! ## Reads without interruption -/

section Alone

variable {Process : Type} [DecidableEq Process] (texts : TextForms) (cobs : CobStore)

/-- The process alone takes its steps until it is at the given reader. -/
def World.Leads (world : World Process) (process : Process) (store : Store)
    (reader : Reader) : Prop :=
  ∃ count, run (World.step texts cobs) world (List.replicate count (.advance process)) =
    some ({ world with store := store }.enter process reader)

variable {texts cobs} {world : World Process} {process : Process}

@[simp]
theorem World.enter_readers_self (world : World Process) (process : Process) (reader : Reader) :
    (world.enter process reader).readers process = reader := by
  simp [World.enter]

theorem World.Leads.refl {store : Store} {reader : Reader} :
    ({ world with store := store }.enter process reader).Leads texts cobs process store reader :=
  ⟨0, by simp [run, World.enter]⟩

/-- One more step before the others. -/
theorem World.Leads.head (next : Store) {store : Store} {reader final : Reader}
    (hstep : world.advance texts cobs process =
      some ({ world with store := next }.enter process reader))
    (hleads : ({ world with store := next }.enter process reader).Leads texts cobs process
      store final) : world.Leads texts cobs process store final := by
  obtain ⟨count, hrun⟩ := hleads
  refine ⟨count + 1, ?_⟩
  rw [List.replicate_succ, run, World.step, hstep, Option.bind_some, hrun]
  simp [World.enter]

omit [DecidableEq Process] in
/-- Materializing and writing, with nothing in between, is rebuilding. -/
theorem rebuild_eq {get : Getting} {tips : Tips}
    (htips : (world.refs get.repo).get? get.id = some tips) :
    rebuild texts cobs (world.repository get.repo) get.id tips world.store =
      (((world.repository get.repo).storeGet cobs get.id).mapError .store,
        writeFound texts world.store get.repo get.id tips
          ((world.repository get.repo).storeGet cobs get.id)) := by
  have hfound : (world.repository get.repo).storeGet cobs get.id =
      (world.repository get.repo).materialize cobs get.id tips := by
    simp only [Repository.storeGet, World.repository, htips]
  rw [hfound, rebuild]
  cases (world.repository get.repo).materialize cobs get.id tips with
  | error err => rfl
  | ok found => cases found <;> rfl

theorem World.leads_rebuild {get : Getting} {tips : Tips}
    (hreader : world.readers process = .stale get tips)
    (htips : (world.refs get.repo).get? get.id = some tips) :
    world.Leads texts cobs process
      (rebuild texts cobs (world.repository get.repo) get.id tips world.store).2
      (.got get (rebuild texts cobs (world.repository get.repo) get.id tips world.store).1) := by
  rw [rebuild_eq htips]
  refine .head world.store (by simp only [World.advance, hreader]; rfl) ?_
  exact .head _ (by simp only [World.advance, World.enter_readers_self]; rfl) .refl

/-- A `cached_get` that nobody interrupts is the cached read. -/
theorem World.leads_cachedGet {get : Getting}
    (hreader : world.readers process = .tipsRead get)
    (htips : get.tips = (world.refs get.repo).get? get.id) :
    world.Leads texts cobs process
      (cachedGet texts cobs (world.repository get.repo) get.id world.store).2
      (.got get (cachedGet texts cobs (world.repository get.repo) get.id world.store).1) := by
  have hgit : (world.repository get.repo).refs.get? get.id = get.tips := htips.symm
  rw [cachedGet, hgit]
  cases hread : get.tips with
  | none => exact .head _ (by simp only [World.advance, hreader, hread]; rfl) .refl
  | some tips =>
      have hstale : (world.enter process (.stale get tips)).Leads texts cobs process
          (rebuild texts cobs (world.repository get.repo) get.id tips world.store).2
          (.got get (rebuild texts cobs (world.repository get.repo) get.id tips
            world.store).1) :=
        World.leads_rebuild (World.enter_readers_self world process (.stale get tips))
          (htips.symm.trans hread)
      have howner : (world.repository get.repo).id = get.repo := rfl
      cases hrow : world.store.get texts get.repo get.id with
      | ok cached =>
          cases cached with
          | none =>
              simp only [howner, hrow]
              exact .head world.store
                (by simp only [World.advance, hreader, hread, hrow]) hstale
          | some cached =>
              by_cases hhead : cached.1 = headToken tips.oids
              · simp only [howner, hrow, if_pos hhead]
                exact .head world.store
                  (by simp only [World.advance, hreader, hread, hrow, if_pos hhead]) .refl
              · simp only [howner, hrow, if_neg hhead]
                exact .head world.store
                  (by simp only [World.advance, hreader, hread, hrow, if_neg hhead]) hstale
      | error err =>
          cases err with
          | json =>
              simp only [howner, hrow]
              exact .head world.store
                (by simp only [World.advance, hreader, hread, hrow]) hstale
          | parse =>
              simp only [howner, hrow]
              exact .head world.store
                (by simp only [World.advance, hreader, hread, hrow]) .refl

theorem refreshObject_eq (repo : Repository) (cached : BTreeMap ReleaseId String)
    (store : Store) (entry : ObjectId × Tips) :
    refreshObject texts cobs repo cached store entry =
      if cached[entry.1]? = some (headToken entry.2.oids) then store
      else writeFound texts store repo.id entry.1 entry.2
        (repo.materialize cobs entry.1 entry.2) := by
  rw [refreshObject]
  refine if_congr Iff.rfl rfl ?_
  cases repo.materialize cobs entry.1 entry.2 with
  | error err => rfl
  | ok found => cases found <;> rfl

/-- Visiting an object is refreshing it, with nothing in between. -/
theorem World.leads_visit {walk : Walk} {entry : ObjectId × Tips}
    {todo : List (ObjectId × Tips)}
    (hreader : world.readers process = .visiting walk (entry :: todo))
    (hentry : (world.refs walk.repo.id).get? entry.1 = some entry.2) {store : Store}
    {final : Reader}
    (hrest : ({ world with
      store := refreshObject texts cobs walk.repo walk.cached world.store entry }.enter process
        (.visiting walk todo)).Leads texts cobs process store final) :
    world.Leads texts cobs process store final := by
  rw [refreshObject_eq] at hrest
  by_cases hfresh : walk.cached[entry.1]? = some (headToken entry.2.oids)
  · rw [if_pos hfresh] at hrest
    exact .head world.store
      (by simp only [World.advance, hreader, if_pos hfresh]) hrest
  · have hfound : (world.repository walk.repo.id).storeGet cobs entry.1 =
        walk.repo.materialize cobs entry.1 entry.2 := by
      simp only [Repository.storeGet, World.repository, hentry, Repository.materialize]
    rw [if_neg hfresh] at hrest
    refine .head world.store
      (by simp only [World.advance, hreader, if_neg hfresh, hfound]; rfl) ?_
    refine .head _ (by simp only [World.advance, World.enter_readers_self]; rfl) ?_
    simpa only [World.enter, Function.update_idem] using hrest

theorem World.enter_eq_self {reader : Reader} (hreader : world.readers process = reader) :
    world.enter process reader = world := by
  rw [World.enter, ← hreader, Function.update_eq_self]

theorem World.leads_visits {walk : Walk} {todo : List (ObjectId × Tips)}
    (hreader : world.readers process = .visiting walk todo)
    (htodo : ∀ entry ∈ todo, (world.refs walk.repo.id).get? entry.1 = some entry.2)
    {store : Store} {final : Reader}
    (hrest : ({ world with
      store := todo.foldl (refreshObject texts cobs walk.repo walk.cached) world.store }.enter
        process (.visiting walk [])).Leads texts cobs process store final) :
    world.Leads texts cobs process store final := by
  induction todo generalizing world with
  | nil =>
      have hself : world.enter process (.visiting walk []) = world :=
        World.enter_eq_self hreader
      rw [← hself]
      exact hrest
  | cons entry todo ih =>
      refine World.leads_visit hreader (htodo entry List.mem_cons_self) ?_
      refine ih (World.enter_readers_self _ process _)
        (fun later hlater => htodo later (List.mem_cons_of_mem entry hlater)) ?_
      simpa only [World.enter, Function.update_idem, List.foldl_cons] using hrest

theorem World.leads_prunes {walk : Walk} {todo : List ReleaseId}
    (hreader : world.readers process = .pruning walk todo) :
    world.Leads texts cobs process (todo.foldl (pruneObject walk.repo) world.store) .idle := by
  induction todo generalizing world with
  | nil => exact .head _ (by simp only [World.advance, hreader]; rfl) .refl
  | cons id todo ih =>
      refine .head _ (by simp only [World.advance, hreader]; rfl) ?_
      exact ih (World.enter_readers_self _ process _)

/-- A `refresh_repo` that nobody interrupts is the refresh. -/
theorem World.leads_refreshRepo {repo : RepoId}
    (hreader : world.readers process = .refsRead (world.repository repo)) :
    world.Leads texts cobs process
      (refreshRepo texts cobs (world.repository repo) world.store) .idle := by
  refine .head world.store (by simp only [World.advance, hreader]; rfl) ?_
  refine World.leads_visits (World.enter_readers_self _ process _)
    (fun entry hentry => IndexMap.get?_eq_some_iff_mem.mpr hentry) ?_
  refine .head _ (by simp only [World.advance, World.enter_readers_self]; rfl) ?_
  exact World.leads_prunes (World.enter_readers_self _ process _)

end Alone

/-! ## What a reader may rely on -/

/-- The tips read first are current as long as no git write has followed. -/
def Getting.Current (get : Getting) (refs : RepoId → Refs) (writes : ℕ) : Prop :=
  get.started ≤ writes ∧ (get.started = writes → get.tips = (refs get.repo).get? get.id)

/-- What git gave is what it gives for the given tips. -/
def GivenBy (cobs : CobStore) (repo : RepoId) (id : ReleaseId) (tips : Tips)
    (found : Except StoreError (Option Release)) : Prop :=
  ∀ release, found = .ok (some release) →
    cobs.materialize repo id tips.oids.toFinset = .ok (some release)

def Reader.Sound (cobs : CobStore) (refs : RepoId → Refs) (writes : ℕ) : Reader → Prop
  | .tipsRead get => get.Current refs writes
  | .stale get tips => get.Current refs writes ∧ get.tips = some tips
  | .materialized get tips found =>
      get.started ≤ writes ∧ GivenBy cobs get.repo get.id tips found ∧
        (get.started = writes → found = Repository.storeGet cobs ⟨get.repo, refs get.repo⟩ get.id)
  | .got get result =>
      get.started ≤ writes ∧ (get.started = writes →
        result = (Repository.storeGet cobs ⟨get.repo, refs get.repo⟩ get.id).mapError .store)
  | .visited walk entry _ found => GivenBy cobs walk.repo.id entry.1 entry.2 found
  | .idle | .refsRead _ | .visiting _ _ | .pruning _ _ => True

/-- Every row is what an update would write for the tips its token names, and every
reader holds what its next step relies on. -/
structure World.Sound {Process : Type} (texts : TextForms) (cobs : CobStore)
    (world : World Process) : Prop where
  coherent : Coherent texts cobs world.store
  readers : ∀ process, (world.readers process).Sound cobs world.refs world.writes

variable {Process : Type} [DecidableEq Process] {texts : TextForms} {cobs : CobStore}
  {world : World Process}

theorem coherent_writeFound {store : Store} (hcoherent : Coherent texts cobs store)
    {repo : RepoId} {id : ReleaseId} {tips : Tips} {found : Except StoreError (Option Release)}
    (hfound : GivenBy cobs repo id tips found) :
    Coherent texts cobs (writeFound texts store repo id tips found) := by
  cases found with
  | error err => exact hcoherent
  | ok found =>
      cases found with
      | none => exact hcoherent.remove repo id
      | some release => exact hcoherent.update (hfound release rfl)

omit [DecidableEq Process] in
/-- An object found at the tips read first is given by them. -/
theorem World.givenBy_storeGet {repo : RepoId} {id : ReleaseId} {tips : Tips}
    (hunmoved : world.Unmoved repo id tips) :
    GivenBy cobs repo id tips ((world.repository repo).storeGet cobs id) := by
  intro release hrelease
  rw [Repository.storeGet, World.repository] at hrelease
  cases hnow : (world.refs repo).get? id with
  | none => simp [hnow] at hrelease
  | some now =>
      rw [hnow] at hrelease
      rw [← hunmoved now hnow]
      exact hrelease

omit [DecidableEq Process] in
/-- What git gives for an object is given by some tips, whatever git has, exactly when the object
is gone or at these tips. -/
theorem World.unmoved_iff_givenBy {repo : RepoId} {id : ReleaseId} {tips : Tips} :
    world.Unmoved repo id tips ↔ ∀ other : CobStore,
      GivenBy other repo id tips ((world.repository repo).storeGet other id) := by
  refine ⟨fun hunmoved other => givenBy_storeGet hunmoved, fun hgiven now hnow => ?_⟩
  let did : Did := .filled 32 1
  let root : Op := ⟨did, [.create (.filled 20 5) none], 5⟩
  let release := Release.new (.filled 20 5) none did 5
  have hreplayed : release.Replayed := ⟨fun _ => .ok (), root, [], rfl⟩
  -- A store that gives a release for the tips of the object as they are, and no other.
  let other : CobStore :=
    { materialize := fun _ _ seen => .ok (if seen = now.oids.toFinset then some release else none)
      replayed := fun _ _ seen found hfound => by
        by_cases hseen : seen = now.oids.toFinset
        · rw [if_pos hseen] at hfound
          exact Option.some.inj (Except.ok.inj hfound) ▸ hreplayed
        · simp [if_neg hseen] at hfound }
  have hfound : (world.repository repo).storeGet other id = .ok (some release) := by
    simp [Repository.storeGet, World.repository, Option.mem_def.mp hnow, Repository.materialize,
      other]
  have hsame := hgiven other release hfound
  by_contra hne
  simp [other, Ne.symm hne] at hsame

omit [DecidableEq Process] in
theorem World.findsSameTips_advance_iff {process : Process} :
    world.FindsSameTips (.advance process) ↔
      ∀ repo id tips, (world.readers process).materializes = some (repo, id, tips) →
        world.Unmoved repo id tips := by
  rw [World.FindsSameTips]
  cases hreader : world.readers process with
  | stale get tips => simp [Reader.materializes]
  | visiting walk todo =>
      cases todo with
      | nil => simp [Reader.materializes]
      | cons entry todo =>
          obtain ⟨id, tips⟩ := entry
          by_cases hfresh : walk.cached[id]? = some (headToken tips.oids)
          · simp [Reader.materializes, hfresh]
          · simp [Reader.materializes, hfresh]
  | _ => simp [Reader.materializes]

/-- A query of one row fails only when the row does not parse. -/
theorem eq_json_of_get_eq_error {store : Store} {repo : RepoId} {id : ReleaseId} {err : Error}
    (hget : store.get texts repo id = .error err) : err = .json := by
  rw [Store.get] at hget
  split at hget
  · contradiction
  · split at hget
    · rename_i row _ _
      rw [Store.parseReleaseRow] at hget
      split at hget
      · contradiction
      · exact (Except.error.inj hget).symm
    · contradiction

/-- The refs a git write replaces were current for nobody who reads on. -/
theorem Reader.Sound.git {reader : Reader} {refs : RepoId → Refs} {writes : ℕ}
    (hreader : reader.Sound cobs refs writes) (next : RepoId → Refs) :
    reader.Sound cobs next (writes + 1) := by
  have hlate : ∀ {started : ℕ} {claim : Prop}, started ≤ writes →
      started ≤ writes + 1 ∧ (started = writes + 1 → claim) := by
    intro started claim hstarted
    exact ⟨by omega, fun heq => absurd heq (by omega)⟩
  cases reader with
  | tipsRead get => exact hlate hreader.1
  | stale get tips => exact ⟨hlate hreader.1.1, hreader.2⟩
  | materialized get tips found =>
      obtain ⟨hstarted, hclaim⟩ := hlate hreader.1
      exact ⟨hstarted, hreader.2.1, hclaim⟩
  | got get result => exact hlate hreader.1
  | visited walk entry todo found => exact hreader
  | idle | refsRead _ | visiting _ _ | pruning _ _ => trivial

namespace World.Sound

omit [DecidableEq Process] in
theorem initial (refs : RepoId → Refs) :
    (World.initial refs : World Process).Sound texts cobs where
  coherent := coherent_empty
  readers _ := trivial

theorem enter (hsound : world.Sound texts cobs) {store : Store}
    (hstore : Coherent texts cobs store) (process : Process) {reader : Reader}
    (hreader : reader.Sound cobs world.refs world.writes) :
    ({ world with store := store }.enter process reader).Sound texts cobs where
  coherent := hstore
  readers other := by
    by_cases hother : other = process
    · subst hother
      simpa [World.enter] using hreader
    · simpa [World.enter, hother] using hsound.readers other

/-- A reader that enters a next state without writing. -/
theorem move (hsound : world.Sound texts cobs) (process : Process) {reader : Reader}
    (hreader : reader.Sound cobs world.refs world.writes) :
    (world.enter process reader).Sound texts cobs :=
  hsound.enter hsound.coherent process hreader

theorem advance_tipsRead (hsound : world.Sound texts cobs) {process : Process} {get : Getting}
    (hreader : world.readers process = .tipsRead get) {next : World Process}
    (hstep : world.advance texts cobs process = some next) : next.Sound texts cobs := by
  have hcurrent : get.Current world.refs world.writes := by
    have hsaid := hsound.readers process
    rwa [hreader] at hsaid
  simp only [World.advance, hreader] at hstep
  split at hstep
  · rename_i hnone
    rw [← Option.some.inj hstep]
    refine hsound.enter (hsound.coherent.remove get.repo get.id) process
      ⟨hcurrent.1, fun hquiet => ?_⟩
    rw [Repository.storeGet, ← hcurrent.2 hquiet, hnone]
    rfl
  · rename_i tips htips
    split at hstep
    · rename_i head release hget
      rw [← Option.some.inj hstep]
      refine hsound.move process ?_
      split
      · rename_i hhead
        refine ⟨hcurrent.1, fun hquiet => ?_⟩
        rw [hhead] at hget
        have hmaterialize : (world.repository get.repo).materialize cobs get.id tips =
            .ok (some release) :=
          materialize_of_get_eq_some hsound.coherent hget
        rw [Repository.storeGet, ← hcurrent.2 hquiet, htips]
        exact (congrArg (Except.mapError CacheOpError.store) hmaterialize).symm
      · exact ⟨hcurrent, htips⟩
    · exact Option.some.inj hstep ▸ hsound.move process ⟨hcurrent, htips⟩
    · exact Option.some.inj hstep ▸ hsound.move process ⟨hcurrent, htips⟩
    · rename_i err herr hget
      exact absurd (eq_json_of_get_eq_error hget) herr

theorem advance (hsound : world.Sound texts cobs) {process : Process}
    (hsame : world.FindsSameTips (.advance process)) {next : World Process}
    (hstep : world.advance texts cobs process = some next) : next.Sound texts cobs := by
  have hsaid := hsound.readers process
  rw [World.FindsSameTips] at hsame
  cases hreader : world.readers process with
  | tipsRead get => exact hsound.advance_tipsRead hreader hstep
  | idle | got get result =>
      simp only [World.advance, hreader] at hstep
      contradiction
  | stale get tips =>
      simp only [World.advance, hreader] at hstep hsaid hsame
      obtain ⟨hcurrent, htips⟩ := hsaid
      exact Option.some.inj hstep ▸ hsound.move process
        ⟨hcurrent.1, World.givenBy_storeGet hsame, fun _ => rfl⟩
  | materialized get tips found =>
      simp only [World.advance, hreader] at hstep hsaid
      obtain ⟨hstarted, hgiven, hquiet⟩ := hsaid
      rw [← Option.some.inj hstep]
      refine hsound.enter (coherent_writeFound hsound.coherent hgiven) process
        ⟨hstarted, fun heq => ?_⟩
      rw [hquiet heq]
  | refsRead repo =>
      simp only [World.advance, hreader] at hstep
      exact Option.some.inj hstep ▸ hsound.move process trivial
  | visiting walk todo =>
      cases todo with
      | nil =>
          simp only [World.advance, hreader] at hstep
          exact Option.some.inj hstep ▸ hsound.move process trivial
      | cons entry todo =>
          simp only [World.advance, hreader] at hstep hsame
          rw [← Option.some.inj hstep]
          refine hsound.move process ?_
          split
          · trivial
          · rename_i hstale
            exact World.givenBy_storeGet (hsame.resolve_left hstale)
  | visited walk entry todo found =>
      simp only [World.advance, hreader] at hstep hsaid
      exact Option.some.inj hstep ▸
        hsound.enter (coherent_writeFound hsound.coherent hsaid) process trivial
  | pruning walk todo =>
      cases todo with
      | nil =>
          simp only [World.advance, hreader] at hstep
          exact Option.some.inj hstep ▸ hsound.move process trivial
      | cons id todo =>
          simp only [World.advance, hreader] at hstep
          exact Option.some.inj hstep ▸
            hsound.enter (hsound.coherent.pruneObject id) process trivial

/-- Every step at which readers find the tips they read first keeps the invariant. -/
theorem step (hsound : world.Sound texts cobs) {event : Event Process}
    (hsame : world.FindsSameTips event) {next : World Process}
    (hstep : world.step texts cobs event = some next) : next.Sound texts cobs := by
  cases event with
  | git repo refs =>
      exact Option.some.inj hstep ▸
        ⟨hsound.coherent, fun process => (hsound.readers process).git _⟩
  | startGet process repo id =>
      rw [World.step] at hstep
      split at hstep
      · exact Option.some.inj hstep ▸ hsound.move process ⟨le_refl _, fun _ => rfl⟩
      · exact Option.some.inj hstep ▸ hsound.move process ⟨le_refl _, fun _ => rfl⟩
      · contradiction
  | startRefresh process repo =>
      rw [World.step] at hstep
      split at hstep
      · exact Option.some.inj hstep ▸ hsound.move process trivial
      · exact Option.some.inj hstep ▸ hsound.move process trivial
      · contradiction
  | advance process => exact hsound.advance hsame hstep

end World.Sound

/-- In every run from an empty cache whose readers find each object they materialize
gone or at the tips they read first, a `cached_get` with no git write in between
returns what git gives for the object.  A step that does not find it so materializes
content that the tips it is stored under need not give. -/
theorem quiet_get_is_fresh (refs : RepoId → Refs) :
    ∀ world : World Process,
      Reachable (World.step texts cobs) World.FindsSameTips (.initial refs) world →
      (∀ process get result, world.readers process = .got get result →
        get.started = world.writes →
          result = ((world.repository get.repo).storeGet cobs get.id).mapError .store) ∧
      ∀ process, world.FindsSameTips (.advance process) ↔
        ∀ repo id tips, (world.readers process).materializes = some (repo, id, tips) →
          ∀ other : CobStore,
            GivenBy other repo id tips ((world.repository repo).storeGet other id) := by
  intro world hreachable
  have hsound : world.Sound texts cobs := hreachable.invariant (.initial refs)
    fun state event next hstate hpermitted hstep => hstate.step hpermitted hstep
  refine ⟨fun process get result hgot hquiet => ?_, fun process => ?_⟩
  · have hsaid := hsound.readers process
    rw [hgot] at hsaid
    exact hsaid.2 hquiet
  · simp only [World.findsSameTips_advance_iff, World.unmoved_iff_givenBy]

/-- One process gets an object, its refs move, and another process rebuilds the row it finds. -/
theorem gets_around_git_write (texts : TextForms) (repo : RepoId) {id : ReleaseId}
    {tips moved : Tips} {before after : Release}
    (hbefore : cobs.materialize repo id tips.oids.toFinset = .ok (some before))
    (hafter : cobs.materialize repo id moved.oids.toFinset = .ok (some after))
    (hreadable : before.Readable) (hmoved : headToken tips.oids ≠ headToken moved.oids) :
    ∃ world : World ℕ,
      Reachable (World.step texts cobs) World.FindsSameTips
        (.initial fun _ => (∅ : Refs).insert id tips) world ∧
      (∃ result, world.readers 2 = .got ⟨repo, id, some moved, 1⟩ result) ∧
      world.writes = 1 ∧ (world.refs repo).get? id = some moved := by
  let start : World ℕ := .initial fun _ => (∅ : Refs).insert id tips
  let get : Getting := ⟨repo, id, some tips, 0⟩
  let late : Getting := ⟨repo, id, some moved, 1⟩
  let cached : World ℕ := { start with
    store := Store.update texts ∅ repo id (headToken tips.oids) before }
  let shared : World ℕ := { cached with
    refs := Function.update start.refs repo ((∅ : Refs).insert id moved), writes := 1 }
  have hrow : shared.store.get texts repo id = .ok (some (headToken tips.oids, before)) := by
    rw [Store.get, Store.releases_update, if_pos rfl]
    simp only [↓reduceIte, Store.parseReleaseRow, fromText_release_of_readable hreadable]
    rfl
  have hnone : (∅ : Store).releases[id]? = none := Std.ExtTreeMap.getElem?_empty
  have hget : ∀ tips : Tips, ((∅ : Refs).insert id tips).get? id = some tips := fun tips => by
    rw [IndexMap.get?_insert, if_pos rfl]
  have hunmoved : ∀ (world : World ℕ) (tips : Tips),
      world.refs repo = (∅ : Refs).insert id tips → world.Unmoved repo id tips := by
    intro world tips hrefs now hnow
    rw [hrefs, hget] at hnow
    rw [Option.some.inj hnow]
  have h1 : Reachable (World.step texts cobs) World.FindsSameTips start
      (start.enter 1 (.tipsRead get)) :=
    .step (.startGet 1 repo id) _ .start (by trivial) (by
      simp [World.step, start, World.initial, hget, get])
  have h2 := h1.step (.advance 1) (start.enter 1 (.stale get tips)) (by trivial) (by
    simp [World.step, World.advance, get, start, World.initial, World.enter, Store.get, hnone])
  have h3 := h2.step (.advance 1) (start.enter 1 (.materialized get tips (.ok (some before))))
    (by exact hunmoved _ tips rfl) (by
      simp [World.step, World.advance, World.enter, World.repository, Repository.storeGet, start,
        World.initial, get, hget, Repository.materialize, hbefore])
  have h4 := h3.step (.advance 1) (cached.enter 1 (.got get (.ok (some before)))) (by trivial) (by
    simp [World.step, World.advance, World.enter, writeFound, cached, get, start,
      World.initial, Except.mapError])
  have h5 := h4.step (.git repo ((∅ : Refs).insert id moved))
    (shared.enter 1 (.got get (.ok (some before)))) (by trivial) rfl
  have h6 := h5.step (.startGet 2 repo id)
    ((shared.enter 1 (.got get (.ok (some before)))).enter 2 (.tipsRead late)) (by trivial) (by
      simp [World.step, World.enter, shared, late, hget, cached, start, World.initial])
  have h7 := h6.step (.advance 2)
    ((shared.enter 1 (.got get (.ok (some before)))).enter 2 (.stale late moved)) (by trivial) (by
      simp [World.step, World.advance, World.enter, late, hrow, hmoved])
  have h8 := h7.step (.advance 2) ((shared.enter 1 (.got get (.ok (some before)))).enter 2
    (.materialized late moved (.ok (some after))))
    (by exact hunmoved _ moved (Function.update_self repo _ _)) (by
      simp [World.step, World.advance, World.enter, World.repository, Repository.storeGet, shared,
        late, hget, Repository.materialize, hafter])
  have h9 := h8.step (.advance 2) _ (by trivial) rfl
  exact ⟨_, h9, ⟨_, World.enter_readers_self _ 2 _⟩, rfl, by simp [World.enter, shared, hget]⟩

/-- One process gets an object, a contributor's ref comes in, and another process gets the
contributor's artifact. -/
theorem quiet_get_is_fresh_after_contribution :
    let did : Did := .filled 32 1
    let cid := blake3HashToCid (.filled 32 7) .blob
    let texts := TextForms.sample did
      "did:key:z6MkeXBLjYiSvqnhFb6D7sHm8yKm4jV45wwBFRaatf1cfZ76" cid
      "bafkr4iaha4dqobyha4dqobyha4dqobyha4dqobyha4dqobyha4dqobyha4" (by decide) (by decide)
    let root : Op := ⟨did, [.create (.filled 20 5) none], 5⟩
    let contribution : Op := ⟨.filled 32 2, [.registerArtifact cid "app"], 6⟩
    let release (later : List Op) :=
      (Release.new (.filled 20 5) none did 5).run (Release.history root later)
    let tips : Tips := ⟨[.filled 20 6], by simp⟩
    let moved : Tips := ⟨[.filled 20 6, .filled 20 8], by simp⟩
    let cobs : CobStore :=
      { materialize := fun _ _ now => .ok (some
          (release (if now = {.filled 20 6} then [] else [contribution])))
        replayed := fun _ _ _ _ hrelease => Option.some.inj (Except.ok.inj hrelease) ▸
          ⟨fun _ => .ok (), root, _, Release.replay_eq_ok_iff.mpr ⟨_, _, _, rfl, rfl, rfl⟩⟩ }
    ∃ world : World ℕ,
      Reachable (World.step texts cobs) World.FindsSameTips
        (.initial fun _ => (∅ : Refs).insert (.filled 20 6) tips) world ∧
      world.readers 2 =
        .got ⟨.filled 20 1, .filled 20 6, some moved, 1⟩ (.ok (some (release [contribution]))) := by
  intro did cid texts root contribution release tips moved cobs
  have hbefore : cobs.materialize (.filled 20 1) (.filled 20 6) tips.oids.toFinset =
      .ok (some (release [])) :=
    congrArg (fun later => Except.ok (some (release later))) (if_pos (by decide))
  have hafter : cobs.materialize (.filled 20 1) (.filled 20 6) moved.oids.toFinset =
      .ok (some (release [contribution])) :=
    congrArg (fun later => Except.ok (some (release later))) (if_neg (by decide))
  have hreadable : (release []).Readable := by
    rintro value ⟨named, artifact, key, user, hartifact, hwrite⟩
    contradiction
  have hmoved : headToken tips.oids ≠ headToken moved.oids := fun htoken =>
    absurd (perm_of_headToken_eq tips.nonempty moved.nonempty htoken).length_eq (by decide)
  obtain ⟨world, hreachable, ⟨result, hgot⟩, hwrites, hrefs⟩ :=
    gets_around_git_write texts (.filled 20 1) hbefore hafter hreadable hmoved
  refine ⟨world, hreachable, ?_⟩
  have hfresh := (quiet_get_is_fresh _ world hreachable).1 2 _ result hgot hwrites.symm
  simp only [Repository.storeGet, World.repository, hrefs, Repository.materialize, hafter] at hfresh
  rw [hgot, hfresh]
  rfl

/-- The object's refs move while a process materializes it, then return: the row pairs
the tips it read with the content of the others, and every later read takes it. -/
theorem returning_tips_meet_stale_row (texts : TextForms) (repo : RepoId) {id : ReleaseId}
    (tips : Tips) {moved : Tips} {release : Release}
    (hmoved : cobs.materialize repo id moved.oids.toFinset = .ok (some release))
    (hreadable : release.Readable) :
    ∃ world : World ℕ,
      Reachable (World.step texts cobs) anyStep (.initial fun _ => (∅ : Refs).insert id tips)
        world ∧
      world.readers 2 = .got ⟨repo, id, some tips, 2⟩ (.ok (some release)) ∧
      world.writes = 2 ∧ (world.refs repo).get? id = some tips := by
  let start : World ℕ := .initial fun _ => (∅ : Refs).insert id tips
  let get : Getting := ⟨repo, id, some tips, 0⟩
  let late : Getting := ⟨repo, id, some tips, 2⟩
  let away : World ℕ := { start with
    refs := Function.update start.refs repo ((∅ : Refs).insert id moved), writes := 1 }
  let back : World ℕ := { start with
    refs := Function.update away.refs repo ((∅ : Refs).insert id tips)
    writes := 2
    store := Store.update texts ∅ repo id (headToken tips.oids) release }
  have hrow : back.store.get texts repo id = .ok (some (headToken tips.oids, release)) := by
    rw [Store.get, Store.releases_update, if_pos rfl]
    simp only [↓reduceIte, Store.parseReleaseRow, fromText_release_of_readable hreadable]
    rfl
  have hnone : (∅ : Store).releases[id]? = none := Std.ExtTreeMap.getElem?_empty
  have hget : ∀ tips : Tips, ((∅ : Refs).insert id tips).get? id = some tips := fun tips => by
    rw [IndexMap.get?_insert, if_pos rfl]
  have h1 : Reachable (World.step texts cobs) anyStep start
      (start.enter 1 (.tipsRead get)) :=
    .step (.startGet 1 repo id) _ .start trivial (by
      simp [World.step, start, World.initial, hget, get])
  have h2 := h1.step (.advance 1) (start.enter 1 (.stale get tips)) trivial (by
    simp [World.step, World.advance, get, start, World.initial, World.enter, Store.get, hnone])
  have h3 := h2.step (.git repo ((∅ : Refs).insert id moved))
    (away.enter 1 (.stale get tips)) trivial rfl
  have h4 := h3.step (.advance 1)
    (away.enter 1 (.materialized get tips (.ok (some release)))) trivial (by
      simp [World.step, World.advance, World.enter, World.repository, Repository.storeGet,
        away, get, hget, Repository.materialize, hmoved])
  have h5 := h4.step (.advance 1) ({ away with store := back.store }.enter 1
    (.got get (.ok (some release)))) trivial (by
      simp [World.step, World.advance, World.enter, writeFound, away, back, get, start,
        World.initial, Except.mapError])
  have h6 := h5.step (.git repo ((∅ : Refs).insert id tips))
    (back.enter 1 (.got get (.ok (some release)))) trivial rfl
  have h7 := h6.step (.startGet 2 repo id)
    ((back.enter 1 (.got get (.ok (some release)))).enter 2 (.tipsRead late)) trivial (by
      simp [World.step, World.enter, back, late, hget, start, World.initial])
  have h8 := h7.step (.advance 2) ((back.enter 1
    (.got get (.ok (some release)))).enter 2 (.got late (.ok (some release)))) trivial (by
      simp [World.step, World.advance, World.enter, late, hrow])
  exact ⟨_, h8, by simp [World.enter, late], rfl, by simp [World.enter, back, hget]⟩

/-- A contributor's ref comes and goes while one process reads: another then gets the
contributor's artifact from the cache, which git no longer gives. -/
theorem removed_contribution_is_served :
    let did : Did := .filled 32 1
    let cid := blake3HashToCid (.filled 32 7) .blob
    let texts := TextForms.sample did
      "did:key:z6MkeXBLjYiSvqnhFb6D7sHm8yKm4jV45wwBFRaatf1cfZ76" cid
      "bafkr4iaha4dqobyha4dqobyha4dqobyha4dqobyha4dqobyha4dqobyha4" (by decide) (by decide)
    let root : Op := ⟨did, [.create (.filled 20 5) none], 5⟩
    let contribution : Op := ⟨.filled 32 2, [.registerArtifact cid "app"], 6⟩
    let release (later : List Op) :=
      (Release.new (.filled 20 5) none did 5).run (Release.history root later)
    let tips : Tips := ⟨[.filled 20 6], by simp⟩
    let cobs : CobStore :=
      { materialize := fun _ _ now => .ok (some
          (release (if now = {.filled 20 6} then [] else [contribution])))
        replayed := fun _ _ _ _ hrelease => Option.some.inj (Except.ok.inj hrelease) ▸
          ⟨fun _ => .ok (), root, _, Release.replay_eq_ok_iff.mpr ⟨_, _, _, rfl, rfl, rfl⟩⟩ }
    ¬ ∀ world : World ℕ,
      Reachable (World.step texts cobs) anyStep
        (.initial fun _ => (∅ : Refs).insert (.filled 20 6) tips) world →
      ∀ process get result, world.readers process = .got get result →
        get.started = world.writes →
          result = ((world.repository get.repo).storeGet cobs get.id).mapError .store := by
  intro did cid texts root contribution release tips cobs hfresh
  let moved : Tips := ⟨[.filled 20 6, .filled 20 8], by simp⟩
  have hmoved : cobs.materialize (.filled 20 1) (.filled 20 6) moved.oids.toFinset =
      .ok (some (release [contribution])) :=
    congrArg (fun later => Except.ok (some (release later))) (if_neg (by decide))
  have hreadable : (release [contribution]).Readable := by
    rintro value ⟨named, artifact, key, user, hartifact, hwrite⟩
    have hentry : (named, artifact) ∈ [(cid, Artifact.register (.filled 32 2) "app")] :=
      IndexMap.get?_eq_some_iff_mem.mp hartifact
    rw [(Prod.mk.inj (List.mem_singleton.mp hentry)).2] at hwrite
    simp [Artifact.metadataWrites, Artifact.register] at hwrite
  obtain ⟨world, hreachable, hgot, hwrites, htips⟩ := returning_tips_meet_stale_row
    texts (.filled 20 1) tips hmoved hreadable
  have hserved := hfresh world hreachable 2 _ _ hgot hwrites.symm
  simp only [Repository.storeGet, World.repository, htips, Repository.materialize] at hserved
  have hbare : release [contribution] = release [] := Option.some.inj (Except.ok.inj hserved)
  have hartifacts : (release [contribution]).artifacts.entries.length = 0 := by
    rw [hbare]
    rfl
  exact absurd hartifacts (by decide)

end RadicleArtifact.Cache.Concurrent
