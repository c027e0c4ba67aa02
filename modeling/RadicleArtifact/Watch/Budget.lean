import RadicleArtifact.Cli.Retrieval
import RadicleArtifact.Core.ContentId
import RadicleArtifact.Library.Sweep
import RadicleArtifact.Watch.Wanted

/-!
# The budget of a watching node

A pass over a repository asks the node for its seeded total before each fetch and compares
it, with the size hint of the artifact where there is one, against the budget.  What the
node and the repository do in a pass is a parameter: which calls fail, and how many bytes
each fetch adds to the total.
-/

namespace RadicleArtifact.Watch

open RadicleArtifact.Core
open RadicleArtifact.Library
open RadicleArtifact.Cob
open RadicleArtifact.Cli

/-- Failure modes of a pass. -/
inductive PassError where
  | usage (message : String)
  | repository (rid : RepoId) (err : String)
  | node (message : String)
  | artifact (message : String)

/-- Everything the per-artifact work needs that does not change. -/
structure Ctx where
  endpoints : Endpoints
  endpointId : EndpointId
  localDid : Did
  budget : Option UInt64
  dryRun : Bool
  noAnnounce : Bool
  ridText : RepoId → String
  cidText : Cid → String
  humanBytes : UInt64 → String

/-- What the node does with one fetch. -/
structure FetchReply where
  /-- Bytes that the fetch adds to the seeded total, whether or not it succeeds. -/
  added : ℕ
  result : Except String Unit

/-- A fetch that was requested. -/
structure Fetched where
  want : Wanted
  added : ℕ

/-- What happens while one artifact is handled. -/
structure Turn where
  status : Except String Unit
  fetch : FetchReply
  addLocation : Except String Unit

/-- What one pass over a repository finds. -/
structure Pass where
  rid : RepoId
  repository : Except String Unit
  /-- The delegates and the releases of the store. -/
  releases : Except String (BTreeSet Did × List (ReleaseId × Release))
  listSeeded : Except String (List Cid)
  status : Except String Unit
  turn : Cid → Turn
  announce : RepoId → Except String Unit

/-- The watching process and the node it talks to. -/
structure Watcher where
  /-- Bytes the node's store holds across every seeded tag. -/
  seededBytes : ℕ
  fetched : List Fetched
  unannounced : BTreeSet RepoId
  said : BTreeSet String
  printed : List String

def PassError.message (ridText : RepoId → String) : PassError → String
  | .usage text => text
  | .repository rid err => "failed to open repository " ++ ridText rid ++ ": " ++ err
  | .node text => text
  | .artifact text => text

namespace Watcher

/-- A process that has just started, beside a node with some total. -/
def start (seededBytes : ℕ) : Watcher := ⟨seededBytes, [], ∅, ∅, []⟩

def print (watch : Watcher) (message : String) : Watcher :=
  { watch with printed := watch.printed ++ [message] }

/-- Print a message the first time it comes up. -/
def sayOnce (watch : Watcher) (message : String) : Watcher :=
  if message ∈ watch.said then watch
  else { watch with said := watch.said.insert message }.print message

def fetch (watch : Watcher) (want : Wanted) (reply : FetchReply) : Watcher :=
  { watch with
    seededBytes := watch.seededBytes + reply.added
    fetched := watch.fetched ++ [⟨want, reply.added⟩] }

@[simp]
theorem seededBytes_fetch (watch : Watcher) (want : Wanted) (reply : FetchReply) :
    (watch.fetch want reply).seededBytes = watch.seededBytes + reply.added := rfl

@[simp]
theorem fetched_fetch (watch : Watcher) (want : Wanted) (reply : FetchReply) :
    (watch.fetch want reply).fetched = watch.fetched ++ [⟨want, reply.added⟩] := rfl

end Watcher

/-- `u64::saturating_add` -/
def saturatingSum (left right : UInt64) : UInt64 :=
  .ofNat (saturatingAdd left.toNat right.toNat)

/-- Whether seeding an artifact keeps the store within `limit` total bytes. -/
def fits (limit : Option UInt64) (seededBytes : UInt64) (sizeHint : Option UInt64) : Bool :=
  match limit with
  | none => true
  | some limit =>
      match sizeHint with
      | some size => decide (saturatingSum seededBytes size ≤ limit)
      | none => decide (seededBytes < limit)

section Pass

variable (ctx : Ctx)

/-- The total that the node's status reports; its sum saturates. -/
def storeSize (status : Except String Unit) (watch : Watcher) : Except PassError UInt64 :=
  match status with
  | .error err => .error (.node err)
  | .ok () => .ok (.ofNat (min watch.seededBytes (2 ^ 64 - 1)))

/-- Fetch one artifact from the locations of every release carrying it, and record the
location of this node. -/
def retrieve (releases : List (ReleaseId × Release)) (turn : Turn) (watch : Watcher)
    (want : Wanted) : Watcher × Except PassError Bool :=
  match artifactLocations ctx.endpoints
      (releases.filterMap fun entry => entry.2.artifact want.cid) with
  | .error err => (watch, .error (.artifact err.message))
  | .ok found =>
      let locations := found.filter fun location => location ≠ .iroh ctx.endpointId
      let named := want.name ++ " (" ++ ctx.cidText want.cid ++ ")"
      if locations.isEmpty then
        (watch.sayOnce ("skipped " ++ named ++ ": no locations to fetch from"), .ok false)
      else if ctx.dryRun then
        (watch.sayOnce ("would seed " ++ named ++ " from " ++ toString locations.length ++
          " location(s)"), .ok false)
      else
        let fetched := watch.fetch want turn.fetch
        match turn.fetch.result with
        | .error err => (fetched, .error (.node err))
        | .ok () =>
            match turn.addLocation with
            | .error err =>
                (fetched, .error (.artifact (err ++ "\n  hint: the bytes are seeded; " ++
                  "`rad-artifact reconcile` adds the missing location")))
            | .ok () => (fetched, .ok true)

/-- Seed one artifact if there is room for it; whether a location was written. -/
def seed (releases : List (ReleaseId × Release)) (turn : Turn) (watch : Watcher)
    (want : Wanted) : Watcher × Except PassError Bool :=
  match ctx.budget with
  | none => retrieve ctx releases turn watch want
  | some limit =>
      match storeSize turn.status watch with
      | .error err => (watch, .error err)
      | .ok seededBytes =>
          if fits (some limit) seededBytes want.sizeHint then
            retrieve ctx releases turn watch want
          else
            (watch.sayOnce ("skipped " ++ want.name ++ " (" ++ ctx.cidText want.cid ++
              "): over the budget, " ++ ctx.humanBytes seededBytes ++ " already seeded"),
              .ok false)

/-- One turn of the loop over the wanted artifacts. -/
def seedNext (releases : List (ReleaseId × Release)) (turn : Cid → Turn)
    (progress : Watcher × Bool) (want : Wanted) : Watcher × Bool :=
  match seed ctx releases (turn want.cid) progress.1 want with
  | (watch, .ok added) => (watch, progress.2 || added)
  | (watch, .error err) =>
      (watch.print ("warning: " ++ want.name ++ " (" ++ ctx.cidText want.cid ++ "): " ++
        err.message ctx.ridText), progress.2)

/-- Announce one repository, or keep it for the next attempt. -/
def flushNext (announce : RepoId → Except String Unit) (watch : Watcher) (rid : RepoId) : Watcher :=
  match announce rid with
  | .ok () => { watch with unannounced := watch.unannounced.erase rid }
  | .error err =>
      watch.print ("warning: " ++ ctx.ridText rid ++ ": cannot announce yet, will retry: " ++ err)

def flushAnnouncements (announce : RepoId → Except String Unit) (watch : Watcher) : Watcher :=
  watch.unannounced.toList.foldl (flushNext ctx announce) watch

/-- Seed everything wanted, and announce what was written. -/
def seedWanted (pass : Pass) (releases : List (ReleaseId × Release)) (wants : List Wanted)
    (watch : Watcher) : Watcher :=
  let (watch, wrote) := wants.foldl (seedNext ctx releases pass.turn) (watch, false)
  if wrote && !ctx.noAnnounce then
    flushAnnouncements ctx pass.announce
      { watch with unannounced := watch.unannounced.insert pass.rid }
  else watch

/-- Hold back all of the wanted artifacts when the store is full. -/
def processWanted (pass : Pass) (releases : List (ReleaseId × Release)) (wants : List Wanted)
    (watch : Watcher) : Watcher × Except PassError Unit :=
  match ctx.budget with
  | none => (seedWanted ctx pass releases wants watch, .ok ())
  | some limit =>
      match storeSize pass.status watch with
      | .error err => (watch, .error err)
      | .ok seededBytes =>
          if seededBytes ≥ limit then
            (watch.sayOnce (ctx.ridText pass.rid ++ ": holding back " ++
              toString wants.length ++ " artifact(s), " ++ ctx.humanBytes seededBytes ++
              " already seeded"), .ok ())
          else (seedWanted ctx pass releases wants watch, .ok ())

/-- Seed everything trusted and unseeded in one repository. -/
def processRepo (pass : Pass) (watch : Watcher) : Watcher × Except PassError Unit :=
  match pass.repository with
  | .error err => (watch, .error (.repository pass.rid err))
  | .ok () =>
      match pass.releases with
      | .error err => (watch, .error (.usage err))
      | .ok (delegates, releases) =>
          match pass.listSeeded with
          | .error err => (watch, .error (.node err))
          | .ok seeded =>
              let wants := wanted delegates ctx.localDid (fun cid => decide (cid ∈ seeded)) releases
              if wants.isEmpty then (watch, .ok ())
              else processWanted ctx pass releases wants watch

/-- A repository that cannot be read is a warning, never fatal. -/
def process (watch : Watcher) (pass : Pass) : Watcher :=
  match processRepo ctx pass watch with
  | (watch, .ok ()) => watch
  | (watch, .error err) =>
      watch.print ("warning: " ++ ctx.ridText pass.rid ++ ": " ++ err.message ctx.ridText)

/-- A run of the watch: passes over repositories, one after the other. -/
def passes (watch : Watcher) (run : List Pass) : Watcher :=
  run.foldl (process ctx) watch

end Pass

/-! ## What a step does to the total -/

/-- The fetch added no more than the hint of its artifact. -/
def Fetched.WithinHint (fetched : Fetched) : Prop :=
  ∃ hint, fetched.want.sizeHint = some hint ∧ fetched.added ≤ hint.toNat

/-- The total is bounded by where it started and by the limit, but for one fetch whose
artifact is larger than its hint or has none. -/
structure Budgeted (limit : UInt64) (start : ℕ) (watch : Watcher) : Prop where
  hinted : watch.seededBytes < 2 ^ 64 → (∀ fetched ∈ watch.fetched, fetched.WithinHint) →
    watch.seededBytes ≤ max start limit.toNat
  oneOver : watch.seededBytes < 2 ^ 64 → watch.seededBytes ≤ max start limit.toNat ∨
    ∃ fetched ∈ watch.fetched, watch.seededBytes ≤ max start limit.toNat + fetched.added

section Step

variable {ctx : Ctx} {limit : UInt64} {total : ℕ} {watch : Watcher}

theorem toNat_saturatingSum (left right : UInt64) :
    (saturatingSum left right).toNat = min (left.toNat + right.toNat) (2 ^ 64 - 1) := by
  have hbound : min (left.toNat + right.toNat) (2 ^ 64 - 1) < 2 ^ 64 := by omega
  exact UInt64.toNat_ofNat_of_lt' hbound

/-- What the status reports is the total, as long as the sum does not saturate. -/
theorem toNat_of_storeSize {status : Except String Unit} {seededBytes : UInt64}
    (hsize : storeSize status watch = .ok seededBytes) :
    seededBytes.toNat = min watch.seededBytes (2 ^ 64 - 1) := by
  cases status with
  | error err => cases hsize
  | ok answered =>
      have hbound : min watch.seededBytes (2 ^ 64 - 1) < 2 ^ 64 := by omega
      rw [← Except.ok.inj hsize]
      exact UInt64.toNat_ofNat_of_lt' hbound

/-- There is room for what the hint says. -/
theorem room_of_fits {seededBytes hint : UInt64} {added : ℕ}
    (hfits : fits (some limit) seededBytes (some hint) = true) (hadded : added ≤ hint.toNat)
    (hbound : seededBytes.toNat + added < 2 ^ 64) :
    seededBytes.toNat + added ≤ limit.toNat := by
  have hsum := UInt64.le_iff_toNat_le.mp (of_decide_eq_true hfits)
  rw [toNat_saturatingSum] at hsum
  omega

/-- Nothing fits a store that is over the limit. -/
theorem le_of_fits {seededBytes : UInt64} {hint : Option UInt64}
    (hfits : fits (some limit) seededBytes hint = true) :
    seededBytes.toNat ≤ limit.toNat := by
  cases hint with
  | none => exact le_of_lt (UInt64.lt_iff_toNat_lt.mp (of_decide_eq_true hfits))
  | some size =>
      have hsum := UInt64.le_iff_toNat_le.mp (of_decide_eq_true hfits)
      have hsmall := seededBytes.toNat_lt
      rw [toNat_saturatingSum] at hsum
      omega

namespace Budgeted

theorem start (limit : UInt64) (total : ℕ) : Budgeted limit total (.start total) where
  hinted _ _ := le_max_left _ _
  oneOver _ := .inl (le_max_left _ _)

theorem congr (hbudgeted : Budgeted limit total watch) {other : Watcher}
    (hbytes : other.seededBytes = watch.seededBytes) (hfetched : other.fetched = watch.fetched) :
    Budgeted limit total other where
  hinted := by
    rw [hbytes, hfetched]
    exact hbudgeted.hinted
  oneOver := by
    rw [hbytes, hfetched]
    exact hbudgeted.oneOver

theorem print (hbudgeted : Budgeted limit total watch) (message : String) :
    Budgeted limit total (watch.print message) :=
  hbudgeted.congr rfl rfl

theorem sayOnce (hbudgeted : Budgeted limit total watch) (message : String) :
    Budgeted limit total (watch.sayOnce message) := by
  rw [Watcher.sayOnce]
  split
  · exact hbudgeted
  · exact hbudgeted.congr rfl rfl

/-- A fetch that was let through. -/
theorem fetch {seededBytes : UInt64} {want : Wanted}
    (hsize : seededBytes.toNat = min watch.seededBytes (2 ^ 64 - 1))
    (hfits : fits (some limit) seededBytes want.sizeHint = true) (reply : FetchReply) :
    Budgeted limit total (watch.fetch want reply) where
  hinted hbound hhints := by
    have hmem : (⟨want, reply.added⟩ : Fetched) ∈ (watch.fetch want reply).fetched := by simp
    obtain ⟨hint, hhint, hadded⟩ := hhints ⟨want, reply.added⟩ hmem
    rw [Watcher.seededBytes_fetch] at hbound ⊢
    rw [hhint] at hfits
    have hroom := room_of_fits hfits hadded (by dsimp only; omega)
    dsimp only at hroom
    omega
  oneOver hbound := by
    have hle := le_of_fits hfits
    rw [Watcher.seededBytes_fetch] at hbound ⊢
    refine .inr ⟨⟨want, reply.added⟩, by simp, ?_⟩
    dsimp only
    omega

theorem retrieve (hbudgeted : Budgeted limit total watch) {seededBytes : UInt64} {want : Wanted}
    (hsize : seededBytes.toNat = min watch.seededBytes (2 ^ 64 - 1))
    (hfits : fits (some limit) seededBytes want.sizeHint = true)
    (releases : List (ReleaseId × Release)) (turn : Turn) :
    Budgeted limit total (retrieve ctx releases turn watch want).1 := by
  rw [Watch.retrieve]
  cases artifactLocations ctx.endpoints
      (releases.filterMap fun entry => entry.2.artifact want.cid) with
  | error err => exact hbudgeted
  | ok found =>
      dsimp only
      split
      · exact hbudgeted.sayOnce _
      · split
        · exact hbudgeted.sayOnce _
        · cases turn.fetch.result with
          | error err => exact .fetch hsize hfits turn.fetch
          | ok fetched =>
              cases turn.addLocation with
              | error err => exact .fetch hsize hfits turn.fetch
              | ok added => exact .fetch hsize hfits turn.fetch

theorem seed (hbudgeted : Budgeted limit total watch) (hbudget : ctx.budget = some limit)
    (releases : List (ReleaseId × Release)) (turn : Turn) (want : Wanted) :
    Budgeted limit total (seed ctx releases turn watch want).1 := by
  rw [Watch.seed, hbudget]
  cases hsize : storeSize turn.status watch with
  | error err => exact hbudgeted
  | ok seededBytes =>
      dsimp only
      split
      · exact hbudgeted.retrieve (toNat_of_storeSize hsize) ‹_› releases turn
      · exact hbudgeted.sayOnce _

/-- One turn of the loop keeps the bound. -/
theorem seedNext (hbudget : ctx.budget = some limit) (releases : List (ReleaseId × Release))
    (turn : Cid → Turn) (progress : Watcher × Bool) (want : Wanted)
    (hbudgeted : Budgeted limit total progress.1) :
    Budgeted limit total (seedNext ctx releases turn progress want).1 := by
  have hseed := hbudgeted.seed hbudget releases (turn want.cid) want
  rw [Watch.seedNext]
  rcases hresult : Watch.seed ctx releases (turn want.cid) progress.1 want with ⟨after, result⟩
  rw [hresult] at hseed
  cases result with
  | ok added => exact hseed
  | error err => exact hseed.print _

theorem flushAnnouncements (hbudgeted : Budgeted limit total watch)
    (announce : RepoId → Except String Unit) :
    Budgeted limit total (flushAnnouncements ctx announce watch) := by
  refine foldl_preserves (fun state rid hstate => ?_) _ hbudgeted
  rw [flushNext]
  cases announce rid with
  | ok announced => exact hstate.congr rfl rfl
  | error err => exact hstate.print _

theorem seedWanted (hbudgeted : Budgeted limit total watch) (hbudget : ctx.budget = some limit)
    (pass : Pass) (releases : List (ReleaseId × Release)) (wants : List Wanted) :
    Budgeted limit total (seedWanted ctx pass releases wants watch) := by
  have hloop : Budgeted limit total
      (wants.foldl (Watch.seedNext ctx releases pass.turn) (watch, false)).1 :=
    @foldl_preserves _ _ _ (fun progress => Budgeted limit total progress.1)
      (seedNext hbudget releases pass.turn) wants (watch, false) hbudgeted
  rw [Watch.seedWanted]
  dsimp only
  split
  · refine flushAnnouncements ?_ pass.announce
    exact hloop.congr rfl rfl
  · exact hloop

theorem processWanted (hbudgeted : Budgeted limit total watch)
    (hbudget : ctx.budget = some limit) (pass : Pass) (releases : List (ReleaseId × Release))
    (wants : List Wanted) :
    Budgeted limit total (processWanted ctx pass releases wants watch).1 := by
  rw [Watch.processWanted, hbudget]
  cases storeSize pass.status watch with
  | error err => exact hbudgeted
  | ok seededBytes =>
      dsimp only
      split
      · exact hbudgeted.sayOnce _
      · exact hbudgeted.seedWanted hbudget pass releases wants

theorem processRepo (hbudgeted : Budgeted limit total watch) (hbudget : ctx.budget = some limit)
    (pass : Pass) : Budgeted limit total (processRepo ctx pass watch).1 := by
  rw [Watch.processRepo]
  cases pass.repository with
  | error err => exact hbudgeted
  | ok opened =>
      cases pass.releases with
      | error err => exact hbudgeted
      | ok store =>
          cases pass.listSeeded with
          | error err => exact hbudgeted
          | ok seeded =>
              dsimp only
              split
              · exact hbudgeted
              · exact hbudgeted.processWanted hbudget pass _ _

/-- One pass over a repository keeps the bound. -/
theorem process (hbudget : ctx.budget = some limit) (watch : Watcher) (pass : Pass)
    (hbudgeted : Budgeted limit total watch) :
    Budgeted limit total (process ctx watch pass) := by
  have hpass := hbudgeted.processRepo hbudget pass
  rw [Watch.process]
  rcases hresult : Watch.processRepo ctx pass watch with ⟨after, result⟩
  rw [hresult] at hpass
  cases result with
  | ok done => exact hpass
  | error err => exact hpass.print _

theorem passes (hbudget : ctx.budget = some limit) (run : List Pass) :
    Budgeted limit total (passes ctx (.start total) run) :=
  foldl_preserves (process hbudget) run (.start limit total)

end Budgeted

end Step

/-- Over a run of passes the total stays within the budget where fetches keep to the hints,
and otherwise exceeds it by at most what one fetch added. -/
theorem watch_keeps_budget (ctx : Ctx) {limit : UInt64} (hbudget : ctx.budget = some limit)
    (total : ℕ) (run : List Pass)
    (hbound : (passes ctx (.start total) run).seededBytes < 2 ^ 64) :
    ((∀ fetched ∈ (passes ctx (.start total) run).fetched, fetched.WithinHint) →
        (passes ctx (.start total) run).seededBytes ≤ max total limit.toNat) ∧
      ((passes ctx (.start total) run).seededBytes ≤ max total limit.toNat ∨
        ∃ fetched ∈ (passes ctx (.start total) run).fetched,
          (passes ctx (.start total) run).seededBytes ≤
            max total limit.toNat + fetched.added) := by
  have hbudgeted : Budgeted limit total (passes ctx (.start total) run) :=
    .passes hbudget run
  exact ⟨hbudgeted.hinted hbound, hbudgeted.oneOver hbound⟩

/-- With 70 of 100 bytes seeded, an artifact with a hint adds the 20 bytes that it names and one
without adds 40; either way the next pass holds back. -/
theorem watch_keeps_budget_with_and_without_hint :
    let delegate : Did := .filled 32 1
    let cid := blake3HashToCid (.filled 32 7) .blob
    let history : List SignedAction :=
      [⟨delegate, .registerArtifact cid "app"⟩,
        ⟨delegate, .addLocation cid ⟨"https://example.com/app", by decide⟩⟩]
    let hint : SignedAction :=
      ⟨delegate, .setMetadata cid metadataKeySizeBytes (JsonValue.parse (.number (.posInt 20)))⟩
    let ctx : Ctx :=
      ⟨⟨.sample (.filled 32 3) "ambqgaydambqgaydambqgaydambqgaydambqgaydambqgaydambq"
          (by decide) (by decide), .ok, Url.serialization⟩,
        .filled 32 3, .filled 32 3, some 100, false, true, Oid.toHex, fun _ => "bafy",
        fun size => toString size.toNat ++ " B"⟩
    let pass (history : List SignedAction) (added : ℕ) : Pass :=
      ⟨.filled 20 9, .ok (), .ok ({delegate},
          [(.filled 20 1, (Release.new (.filled 20 1) none delegate 1).run history)]),
        .ok [], .ok (), fun _ => ⟨.ok (), ⟨added, .ok ()⟩, .ok ()⟩, fun _ => .ok ()⟩
    let hinted := passes ctx (.start 70) [pass (history ++ [hint]) 20, pass (history ++ [hint]) 20]
    let final := passes ctx (.start 70) [pass history 40, pass history 40]
    (hinted.seededBytes = 90 ∧ hinted.fetched.length = 1 ∧ hinted.seededBytes ≤ max 70 100) ∧
      final.seededBytes = 110 ∧
        ∃ fetched ∈ final.fetched, final.seededBytes ≤ max 70 100 + fetched.added := by
  intro delegate cid history hint ctx pass hinted final
  have hnamed : hinted.seededBytes = 90 := by decide +kernel
  have hfetched : hinted.fetched.length = 1 := by decide +kernel
  have hwithin : (hinted.fetched.all fun fetched =>
      fetched.want.sizeHint.any fun hint => fetched.added ≤ hint.toNat) = true := by
    decide +kernel
  have hbytes : final.seededBytes = 110 := by decide +kernel
  have hsmall : hinted.seededBytes < 2 ^ 64 := hnamed ▸ by decide
  have hbound : final.seededBytes < 2 ^ 64 := hbytes ▸ by decide
  refine ⟨⟨hnamed, hfetched, ?_⟩, hbytes, ?_⟩
  · refine (watch_keeps_budget ctx rfl 70 _ hsmall).1 fun fetched hmem => ?_
    obtain ⟨hint, hhint, hadded⟩ :=
      (Option.any_eq_true _ _).mp (List.all_eq_true.mp hwithin fetched hmem)
    exact ⟨hint, hhint, of_decide_eq_true hadded⟩
  · rcases (watch_keeps_budget ctx rfl 70 _ hbound).2 with hkept | hover
    · rw [hbytes] at hkept
      exact absurd hkept (by decide)
    · exact hover

end RadicleArtifact.Watch
