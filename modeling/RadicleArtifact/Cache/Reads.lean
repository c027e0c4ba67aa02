import RadicleArtifact.Cache.Store
import RadicleArtifact.Releases.Git

/-!
# Reads through the cache

Every read of a whole repository first refreshes it: objects whose tips changed
are materialized again, and rows of objects without refs are removed.  A read of
one object refreshes that object alone.  When the cache fails, the read falls
back to git; a git failure is passed on.
-/

namespace RadicleArtifact.Cache

open RadicleArtifact.Core
open RadicleArtifact.Library
open RadicleArtifact.Cob
open RadicleArtifact.Releases

/-- Why a read through the cache has no result. -/
inductive CacheOpError where
  /-- A git or store error; pass it on. -/
  | store (err : StoreError)
  /-- A cache failure; fall back to git. -/
  | cache (err : Error)

/-- The result of a cached read, or what git says when the cache failed. -/
def orGit {Value : Type} (cached : Except CacheOpError Value) (git : Except StoreError Value) :
    Except StoreError Value :=
  match cached with
  | .ok value => .ok value
  | .error (.store err) => .error err
  | .error (.cache _) => git

/-- A query result, as the result of a cached read. -/
def queried {Value : Type} (result : Except Error Value) : Except CacheOpError Value :=
  result.mapError .cache

section Reads

variable (texts : TextForms) (cobs : CobStore) (repo : Repository)

/-! ## Refreshing -/

/-- One object of the ref walk. -/
def refreshObject (cached : BTreeMap ReleaseId String) (store : Store)
    (entry : ObjectId × Tips) : Store :=
  if cached[entry.1]? = some (headToken entry.2.oids) then store
  else
    match repo.materialize cobs entry.1 entry.2 with
    | .ok (some release) =>
        store.update texts repo.id entry.1 (headToken entry.2.oids) release
    | .ok none => store.remove repo.id entry.1
    -- A broken object is skipped.
    | .error _ => store

/-- Prune a cached release whose object no longer exists in git. -/
def pruneObject (store : Store) (id : ReleaseId) : Store :=
  if id ∈ repo.refs.keys then store else store.remove repo.id id

def refreshRepo (store : Store) : Store :=
  let cached := store.heads repo.id
  let refreshed := repo.refs.entries.foldl (refreshObject texts cobs repo cached) store
  cached.keys.foldl (pruneObject repo) refreshed

/-! ## Cached reads -/

def cachedAll (store : Store) : Except CacheOpError (List (ReleaseId × Release)) × Store :=
  let store := refreshRepo texts cobs repo store
  (queried (store.list texts repo.id), store)

/-- The rows that parse; a bad row is skipped. -/
def cachedList (store : Store) : List ReleaseEntry × Store :=
  let store := refreshRepo texts cobs repo store
  (((store.listByTimestamp texts repo.id).filterMap Except.toOption).map .ok, store)

/-- Rebuild one object from git. -/
def rebuild (id : ReleaseId) (tips : Tips) (store : Store) :
    Except CacheOpError (Option Release) × Store :=
  match repo.materialize cobs id tips with
  | .error err => (.error (.store err), store)
  | .ok (some release) =>
      (.ok (some release), store.update texts repo.id id (headToken tips.oids) release)
  | .ok none => (.ok none, store.remove repo.id id)

def cachedGet (id : ReleaseId) (store : Store) :
    Except CacheOpError (Option Release) × Store :=
  match repo.refs.get? id with
  | none => (.ok none, store.remove repo.id id)
  | some tips =>
      match store.get texts repo.id id with
      | .ok (some (head, release)) =>
          if head = headToken tips.oids then (.ok (some release), store)
          else rebuild texts cobs repo id tips store
      -- A row in an older format fails to parse.
      | .ok none | .error .json => rebuild texts cobs repo id tips store
      | .error err => (.error (.cache err), store)

/-- A cached release, when it holds the content identifier. -/
def holding (cid : Cid) (id : ReleaseId) :
    Option (String × Release) → List (ReleaseId × Release)
  | some (_, release) => if (release.artifact cid).isSome then [(id, release)] else []
  | none => []

/-- The cached releases among `ids` that hold the content identifier. -/
def getHolding (store : Store) (cid : Cid) (ids : List ReleaseId) :
    Except Error (List (ReleaseId × Release)) :=
  (ids.mapM fun id => (store.get texts repo.id id).map (holding cid id)).map List.flatten

def cachedFindByCid (cid : Cid) (store : Store) :
    Except CacheOpError (List (ReleaseId × Release)) × Store :=
  let store := refreshRepo texts cobs repo store
  (queried (getHolding texts repo store cid (store.releasesForCid repo.id cid)), store)

def cachedLocationsFor (cid : Cid) (store : Store) :
    Except CacheOpError (List (ReleaseId × Did × Url)) × Store :=
  let store := refreshRepo texts cobs repo store
  (queried (store.locationsFor texts repo.id cid), store)

/-! ## Public reads -/

def all (store : Store) : Except StoreError (List ReleaseEntry) × Store :=
  let (cached, store) := cachedAll texts cobs repo store
  (orGit (cached.map fun list => list.map .ok) (.ok (repo.storeAll cobs)), store)

def list (store : Store) : List ReleaseEntry × Store :=
  cachedList texts cobs repo store

def get (id : ReleaseId) (store : Store) : Except StoreError (Option Release) × Store :=
  let (cached, store) := cachedGet texts cobs repo id store
  (orGit cached (repo.storeGet cobs id), store)

def findByCid (cid : Cid) (store : Store) :
    Except StoreError (List (ReleaseId × Release)) × Store :=
  let (cached, store) := cachedFindByCid texts cobs repo cid store
  (orGit cached (Releases.findByCid cid (repo.storeAll cobs)), store)

def locationsFor (cid : Cid) (store : Store) :
    Except StoreError (List (ReleaseId × Did × Url)) × Store :=
  let (cached, store) := cachedLocationsFor texts cobs repo cid store
  (orGit cached (Releases.locationsFor cid (repo.storeAll cobs)), store)

def counts (delegates : BTreeSet Did) (store : Store) :
    Except StoreError ReleaseCounts × Store :=
  let (entries, store) := all texts cobs repo store
  (entries.map (Releases.counts delegates), store)

end Reads

end RadicleArtifact.Cache
