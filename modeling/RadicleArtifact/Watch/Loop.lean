import RadicleArtifact.Library.History
import RadicleArtifact.Library.Transition
import RadicleArtifact.Watch.Budget

/-!
# The watch loop

One thread sweeps over the watched repositories when a sweep is due, and reads the event
stream of the Radicle node until the next one is.  A step is what the thread does between two
readings of its clock; what the storage, the policies and the stream answer, and how long it
takes, is the input of the step.
-/

namespace RadicleArtifact.Watch

open RadicleArtifact.Core
open RadicleArtifact.Library

/-- Times and durations are in nanoseconds. -/
def second : ℕ :=
  1000000000

/-- `RECONNECT_DELAY` -/
def reconnectDelay : ℕ :=
  10 * second

/-- `TYPENAME` -/
def typename : String :=
  "dev.radicle.artifact"

/-! ## The Radicle node -/

/-- `radicle::storage::RefUpdate`, with the name of the reference. -/
inductive RefUpdate where
  | updated (name : String)
  | created (name : String)
  | deleted (name : String)
  | skipped (name : String)

def refName : RefUpdate → String
  | .updated name => name
  | .created name => name
  | .deleted name => name
  | .skipped name => name

/-- Whether any updated ref belongs to an artifact release COB. -/
def touchesArtifacts (updated : List RefUpdate) : Bool :=
  updated.any fun update =>
    decide (("/cobs/" ++ typename ++ "/").toList <:+: (refName update).toList)

/-- `radicle::node::Event` -/
inductive NodeEvent where
  | refsFetched (rid : RepoId) (updated : List RefUpdate)
  | other

inductive StreamError where
  | timedOut
  | other (message : String)

/-- What the seeding policies say of a repository; nothing when they cannot be read. -/
abbrev Policies : Type :=
  RepoId → Option Bool

def policiesMessage : String :=
  "failed to read the radicle node's seeding policies"

/-- What the loop is started with: `interval` is `--sweep`, in seconds. -/
structure Settings where
  ctx : Ctx
  only : BTreeSet RepoId
  sweep : UInt64

def Settings.interval (settings : Settings) : ℕ :=
  second * max settings.sweep.toNat 1

/-- A process without a budget, beside a node with a fixed endpoint. -/
noncomputable def Ctx.sample : Ctx :=
  ⟨⟨.sample (.filled 32 3) "ambqgaydambqgaydambqgaydambqgaydambqgaydambqgaydambq" (by decide)
      (by decide), .ok, Url.serialization⟩,
    .filled 32 3, .filled 32 3, none, false, false, Oid.toHex, fun _ => "bafy",
    fun size => toString size.toNat ++ " B"⟩

/-- Failures before the loop starts. -/
inductive LaunchError where
  | node (message : String)
  | policies
  | notSeeded (rid : RepoId)

/-- The named repositories have to be seeded by the Radicle node. -/
def checkNamed (policies : Policies) : List RepoId → Except LaunchError Unit
  | [] => .ok ()
  | rid :: rids =>
      match policies rid with
      | none => .error .policies
      | some false => .error (.notSeeded rid)
      | some true => checkNamed policies rids

/-- The node has to be up, for its endpoint is the location that is published. -/
def launch (status : Except String EndpointId) (policies : Policies)
    (settings : EndpointId → Settings) : Except LaunchError Settings :=
  match status with
  | .error err => .error (.node err)
  | .ok endpointId =>
      match checkNamed policies (settings endpointId).only.toList with
      | .error err => .error err
      | .ok () => .ok (settings endpointId)

theorem checkNamed_eq_ok_iff {policies : Policies} {rids : List RepoId} :
    checkNamed policies rids = .ok () ↔ ∀ rid ∈ rids, policies rid = some true := by
  induction rids with
  | nil => simp [checkNamed]
  | cons rid rids ih =>
      rw [checkNamed, List.forall_mem_cons]
      cases policies rid with
      | none => simp
      | some seeding => cases seeding <;> simp [ih]

/-- The loop is started only if the node seeds every repository that was named. -/
theorem launch_eq_ok_iff {status : Except String EndpointId} {policies : Policies}
    {settings : EndpointId → Settings} {launched : Settings} :
    launch status policies settings = .ok launched ↔
      ∃ endpointId, status = .ok endpointId ∧ launched = settings endpointId ∧
        ∀ rid ∈ launched.only, policies rid = some true := by
  cases status with
  | error err => simp [launch]
  | ok endpointId =>
      rw [launch.eq_def]
      dsimp only
      have hnamed := @checkNamed_eq_ok_iff policies (settings endpointId).only.toList
      simp only [Std.ExtTreeSet.mem_toList] at hnamed
      cases hcheck : checkNamed policies (settings endpointId).only.toList with
      | error err =>
          rw [hcheck] at hnamed
          simp only [reduceCtorEq, false_iff] at hnamed ⊢
          rintro ⟨found, hfound, rfl, hseeded⟩
          exact hnamed (Except.ok.inj hfound ▸ hseeded)
      | ok checked =>
          rw [hcheck] at hnamed
          have hseeded := hnamed.mp rfl
          constructor
          · intro hlaunched
            obtain rfl := Except.ok.inj hlaunched
            exact ⟨endpointId, rfl, rfl, hseeded⟩
          · rintro ⟨found, hfound, rfl, -⟩
            rw [Except.ok.inj hfound]

/-- The repositories among these that the Radicle node seeds. -/
def seededAmong (policies : Policies) : List RepoId → Except String (List RepoId)
  | [] => .ok []
  | rid :: rids =>
      match policies rid with
      | none => .error policiesMessage
      | some true => (seededAmong policies rids).map (rid :: ·)
      | some false => seededAmong policies rids

/-- The repositories a sweep covers: the named ones, else every repository that the Radicle
node seeds. -/
def targets (only : BTreeSet RepoId) (repositories : Except String (List RepoId))
    (policies : Policies) : Except String (List RepoId) :=
  if !only.isEmpty then .ok only.toList
  else
    match repositories with
    | .error err => .error ("failed to read local storage: " ++ err)
    | .ok rids => seededAmong policies rids

/-- A repository that is not among the named ones. -/
def unwatched (only : BTreeSet RepoId) (rid : RepoId) : Bool :=
  !only.isEmpty && !only.contains rid

/-! ## What is announced -/

/-- A location was written, or an announcement was tried, no earlier than at this time. -/
inductive Notice where
  | wrote (rid : RepoId)
  | tried (rid : RepoId) (time : ℕ) (announced : Bool)
  deriving DecidableEq

/-- The call that adds a location was made for the fetch, and succeeded. -/
def located (turn : Cid → Turn) (fetched : Fetched) : Bool :=
  match (turn fetched.want.cid).fetch.result, (turn fetched.want.cid).addLocation with
  | .ok (), .ok () => true
  | _, _ => false

/-- A pass has written a location. -/
def wrote (ctx : Ctx) (watch : Watcher) (pass : Pass) : Bool :=
  ((process ctx watch pass).fetched.drop watch.fetched.length).any (located pass.turn)

/-- The announcements that a flush tries. -/
def triedBy (announce : RepoId → Except String Unit) (time : ℕ)
    (unannounced : BTreeSet RepoId) : List Notice :=
  unannounced.toList.map fun rid => .tried rid time (announce rid).isOk

/-- What a pass writes, and what it announces at once. -/
def noticesOf (ctx : Ctx) (time : ℕ) (watch : Watcher) (pass : Pass) : List Notice :=
  if wrote ctx watch pass then
    .wrote pass.rid ::
      if ctx.noAnnounce then []
      else triedBy pass.announce time (watch.unannounced.insert pass.rid)
  else []

/-! ## The loop -/

/-- Where the thread is: at the top of the loop, about to subscribe, reading the stream under
a timeout, or sleeping before it reconnects. -/
inductive Phase where
  | top
  | subscribing
  | draining (timeout : ℕ)
  | asleep
  deriving DecidableEq

structure Loop where
  watcher : Watcher
  clock : ℕ
  nextSweep : ℕ
  phase : Phase
  /-- The passes begun, each no earlier than the time beside it. -/
  passes : List (RepoId × ℕ)
  /-- The repositories of events that were read, without a pass since. -/
  owed : List RepoId
  notices : List Notice

/-- What a sweep finds, and how long it takes. -/
structure Sweep where
  repositories : Except String (List RepoId)
  policies : Policies
  pass : RepoId → Pass
  announce : RepoId → Except String Unit
  elapsed : ℕ

/-- An item of the stream, what its handling finds, and how long both take. -/
structure Arrival where
  wait : ℕ
  item : Except StreamError NodeEvent
  policies : Policies
  pass : RepoId → Pass
  work : ℕ

inductive WatchEvent where
  | turn (sweep : Sweep)
  | subscribe (result : Except String Unit) (elapsed : ℕ)
  | arrive (arrival : Arrival)
  | hangUp (wait : ℕ)
  | wake (elapsed : ℕ)

namespace Loop

/-- The first sweep is due immediately. -/
def start (seededBytes started : ℕ) : Loop :=
  ⟨.start seededBytes, started, started, .top, [], [], []⟩

def elapse (loop : Loop) (elapsed : ℕ) : Loop :=
  { loop with clock := loop.clock + elapsed }

def print (loop : Loop) (message : String) : Loop :=
  { loop with watcher := loop.watcher.print message }

def process (ctx : Ctx) (loop : Loop) (pass : Pass) : Loop :=
  { loop with
    watcher := Watch.process ctx loop.watcher pass
    passes := loop.passes ++ [(pass.rid, loop.clock)]
    owed := loop.owed.filter fun rid => rid ≠ pass.rid
    notices := loop.notices ++ noticesOf ctx loop.clock loop.watcher pass }

def flush (ctx : Ctx) (announce : RepoId → Except String Unit) (loop : Loop) : Loop :=
  { loop with
    watcher := flushAnnouncements ctx announce loop.watcher
    notices := loop.notices ++ triedBy announce loop.clock loop.watcher.unannounced }

def processAll (ctx : Ctx) (pass : RepoId → Pass) (rids : List RepoId) (loop : Loop) : Loop :=
  rids.foldl (fun (loop : Loop) rid => loop.process ctx { pass rid with rid := rid }) loop

/-- A pass over every target, and the announcements that are not out yet. -/
def sweep (settings : Settings) (found : Sweep) (loop : Loop) : Loop :=
  let swept :=
    match targets settings.only found.repositories found.policies with
    | .ok rids => loop.processAll settings.ctx found.pass rids
    | .error err => loop.print ("warning: cannot list repositories to watch: " ++ err)
  let flushed := (swept.flush settings.ctx found.announce).elapse found.elapsed
  { flushed with nextSweep := flushed.clock + settings.interval }

/-- What an item of the stream does before the deadline. -/
def handle (settings : Settings) (arrival : Arrival) (loop : Loop) : Loop :=
  match arrival.item with
  | .ok (.refsFetched rid updated) =>
      if !touchesArtifacts updated then loop
      else if unwatched settings.only rid then loop
      else
        match arrival.policies rid with
        | some true => loop.process settings.ctx { arrival.pass rid with rid := rid }
        | some false => loop
        | none =>
            loop.print ("warning: " ++ settings.ctx.ridText rid ++ ": " ++ policiesMessage)
  | .ok .other => loop
  | .error .timedOut => { loop with phase := .top }
  | .error (.other err) =>
      { loop.print ("warning: lost the radicle node's event stream: " ++ err) with
        phase := .asleep }

/-- The repository that an item is about, when the loop watches it. -/
def concerns (only : BTreeSet RepoId) : Except StreamError NodeEvent → Option RepoId
  | .ok (.refsFetched rid updated) =>
      if touchesArtifacts updated && !unwatched only rid then some rid else none
  | _ => none

/-- An item was read. -/
def hear (settings : Settings) (arrival : Arrival) (loop : Loop) : Loop :=
  { loop with
    clock := loop.clock + arrival.wait
    owed := loop.owed ++ (concerns settings.only arrival.item).toList }

def step (settings : Settings) (loop : Loop) : WatchEvent → Option Loop
  | .turn found =>
      if loop.phase = .top then
        if loop.clock ≥ loop.nextSweep then
          some { loop.sweep settings found with phase := .subscribing }
        else some { loop with phase := .subscribing }
      else none
  | .subscribe result elapsed =>
      if loop.phase = .subscribing then
        -- the time until the sweep is read before the call
        let untilSweep := max (loop.nextSweep - loop.clock) second
        match result with
        | .ok () => some { loop.elapse elapsed with phase := .draining untilSweep }
        | .error err =>
            some { (loop.elapse elapsed).print ("warning: cannot reach the radicle node: " ++ err)
              with phase := .asleep }
      else none
  | .arrive arrival =>
      match loop.phase with
      | .draining _ =>
          let heard := loop.hear settings arrival
          -- the tick has to win over a busy stream
          if heard.clock ≥ heard.nextSweep then some { heard with phase := .top }
          else some ((heard.handle settings arrival).elapse arrival.work)
      | _ => none
  | .hangUp wait =>
      match loop.phase with
      | .draining _ => some { loop.elapse wait with phase := .asleep }
      | _ => none
  | .wake elapsed =>
      if loop.phase = .asleep then some { loop.elapse elapsed with phase := .top } else none

/-! ## What a step can do -/

/-- What handling an item comes to: a pass over the repository that it is about, or a message
and perhaps the end of the reading. -/
inductive Handled (settings : Settings) (loop : Loop) (arrival : Arrival) : Loop → Prop
  | pass (rid : RepoId) (hconcerns : concerns settings.only arrival.item = some rid)
      (hseeded : arrival.policies rid = some true) :
      Handled settings loop arrival
        (loop.process settings.ctx { arrival.pass rid with rid := rid })
  | message (hskipped : ∀ rid, concerns settings.only arrival.item = some rid →
        arrival.policies rid ≠ some true)
      (printed : List String) (phase : Phase)
      (hphase : phase = loop.phase ∨ phase = .top ∨ phase = .asleep) :
      Handled settings loop arrival
        { loop with watcher := { loop.watcher with printed := printed }, phase := phase }

/-- The two tests of a fetched reference are one. -/
theorem handle_refsFetched {settings : Settings} {loop : Loop} {arrival : Arrival} {rid : RepoId}
    {updated : List RefUpdate} (hitem : arrival.item = .ok (.refsFetched rid updated)) :
    loop.handle settings arrival =
      if touchesArtifacts updated && !unwatched settings.only rid then
        match arrival.policies rid with
        | some true => loop.process settings.ctx { arrival.pass rid with rid := rid }
        | some false => loop
        | none =>
            loop.print ("warning: " ++ settings.ctx.ridText rid ++ ": " ++ policiesMessage)
      else loop := by
  rw [handle, hitem]
  dsimp only
  cases touchesArtifacts updated <;> cases unwatched settings.only rid <;> rfl

theorem handled_of_handle (settings : Settings) (loop : Loop) (arrival : Arrival) :
    Handled settings loop arrival (loop.handle settings arrival) := by
  cases hitem : arrival.item with
  | ok event =>
      cases event with
      | other =>
          rw [handle, hitem]
          exact .message (by simp [hitem, concerns]) _ _ (.inl rfl)
      | refsFetched rid updated =>
          rw [handle_refsFetched hitem]
          split
          · rename_i hwatched
            have hconcerns : concerns settings.only arrival.item = some rid := by
              rw [hitem]
              exact if_pos hwatched
            cases hpolicy : arrival.policies rid with
            | none => exact .message (by simp [hconcerns, hpolicy]) _ _ (.inl rfl)
            | some seeding =>
                cases seeding with
                | true => exact .pass rid hconcerns hpolicy
                | false => exact .message (by simp [hconcerns, hpolicy]) _ _ (.inl rfl)
          · rename_i hwatched
            have hconcerns : concerns settings.only arrival.item = none := by
              rw [hitem]
              exact if_neg hwatched
            exact .message (by simp [hconcerns]) _ _ (.inl rfl)
  | error err =>
      rw [handle, hitem]
      cases err with
      | timedOut => exact .message (by simp [hitem, concerns]) _ _ (.inr (.inl rfl))
      | other message => exact .message (by simp [hitem, concerns]) _ _ (.inr (.inr rfl))

/-- The steps of the loop, with their guards. -/
inductive Change (settings : Settings) (loop : Loop) : WatchEvent → Loop → Prop
  | sweep (found : Sweep) (hphase : loop.phase = .top) (hdue : loop.nextSweep ≤ loop.clock) :
      Change settings loop (.turn found)
        { loop.sweep settings found with phase := .subscribing }
  | skip (found : Sweep) (hphase : loop.phase = .top) (hearly : loop.clock < loop.nextSweep) :
      Change settings loop (.turn found) { loop with phase := .subscribing }
  | subscribed (elapsed : ℕ) (hphase : loop.phase = .subscribing) :
      Change settings loop (.subscribe (.ok ()) elapsed)
        { loop.elapse elapsed with
          phase := .draining (max (loop.nextSweep - loop.clock) second) }
  | refused (err : String) (elapsed : ℕ) (hphase : loop.phase = .subscribing) :
      Change settings loop (.subscribe (.error err) elapsed)
        { (loop.elapse elapsed).print ("warning: cannot reach the radicle node: " ++ err) with
          phase := .asleep }
  | due (arrival : Arrival) (timeout : ℕ) (hphase : loop.phase = .draining timeout)
      (hdue : loop.nextSweep ≤ loop.clock + arrival.wait) :
      Change settings loop (.arrive arrival) { loop.hear settings arrival with phase := .top }
  | handled (arrival : Arrival) (timeout : ℕ) (hphase : loop.phase = .draining timeout)
      (hearly : loop.clock + arrival.wait < loop.nextSweep) (after : Loop)
      (hhandled : Handled settings (loop.hear settings arrival) arrival after) :
      Change settings loop (.arrive arrival) (after.elapse arrival.work)
  | hungUp (wait timeout : ℕ) (hphase : loop.phase = .draining timeout) :
      Change settings loop (.hangUp wait) { loop.elapse wait with phase := .asleep }
  | woken (elapsed : ℕ) (hphase : loop.phase = .asleep) :
      Change settings loop (.wake elapsed) { loop.elapse elapsed with phase := .top }

theorem change_of_step {settings : Settings} {loop next : Loop} {event : WatchEvent}
    (hstep : loop.step settings event = some next) : Change settings loop event next := by
  cases event with
  | turn found =>
      rw [step] at hstep
      split at hstep
      · rename_i hphase
        split at hstep
        · rename_i hdue
          exact Option.some.inj hstep ▸ .sweep found hphase hdue
        · rename_i hearly
          exact Option.some.inj hstep ▸ .skip found hphase (not_le.mp hearly)
      · contradiction
  | subscribe result elapsed =>
      rw [step] at hstep
      split at hstep
      · rename_i hphase
        cases result with
        | ok answered => exact Option.some.inj hstep ▸ .subscribed elapsed hphase
        | error err => exact Option.some.inj hstep ▸ .refused err elapsed hphase
      · contradiction
  | arrive arrival =>
      rw [step] at hstep
      split at hstep
      · rename_i timeout hphase
        dsimp only at hstep
        split at hstep
        · rename_i hdue
          exact Option.some.inj hstep ▸ .due arrival timeout hphase hdue
        · rename_i hearly
          exact Option.some.inj hstep ▸ .handled arrival timeout hphase (not_le.mp hearly) _
            (handled_of_handle settings _ arrival)
      · contradiction
  | hangUp wait =>
      rw [step] at hstep
      split at hstep
      · rename_i timeout hphase
        exact Option.some.inj hstep ▸ .hungUp wait timeout hphase
      · contradiction
  | wake elapsed =>
      rw [step] at hstep
      split at hstep
      · rename_i hphase
        exact Option.some.inj hstep ▸ .woken elapsed hphase
      · contradiction

/-! ## Sweeps -/

section Sweep

variable {settings : Settings} {loop : Loop}

/-- The repositories that a sweep lists. -/
def listed (only : BTreeSet RepoId) (found : Sweep) : List RepoId :=
  match targets only found.repositories found.policies with
  | .ok rids => rids
  | .error _ => []

/-- The named repositories are swept whatever the policies say. -/
theorem listed_of_named {only : BTreeSet RepoId} (hnamed : only.isEmpty = false) (found : Sweep) :
    listed only found = only.toList := by
  rw [listed, targets.eq_def, hnamed]
  rfl

theorem mem_of_seededAmong {policies : Policies} {rids seeded : List RepoId}
    (hseeded : seededAmong policies rids = .ok seeded) (rid : RepoId) :
    rid ∈ seeded ↔ rid ∈ rids ∧ policies rid = some true := by
  induction rids generalizing seeded with
  | nil => simp [← Except.ok.inj hseeded]
  | cons other rids ih =>
      rw [seededAmong] at hseeded
      split at hseeded
      · contradiction
      · rename_i hpolicy
        cases hrest : seededAmong policies rids with
        | error err => simp [hrest, Except.map] at hseeded
        | ok rest =>
            rw [hrest] at hseeded
            rw [← Except.ok.inj hseeded, List.mem_cons, List.mem_cons, ih hrest, or_and_right]
            refine or_congr ⟨?_, And.left⟩ Iff.rfl
            rintro rfl
            exact ⟨rfl, hpolicy⟩
      · rename_i hpolicy
        rw [ih hseeded, List.mem_cons, or_and_right, or_iff_right]
        rintro ⟨rfl, htrue⟩
        rw [hpolicy] at htrue
        contradiction

/-- Without names, the repositories that the node seeds are swept. -/
theorem mem_listed_iff {only : BTreeSet RepoId} (hall : only.isEmpty = true) {found : Sweep}
    {rids seeded : List RepoId} (hrepositories : found.repositories = .ok rids)
    (hseeded : seededAmong found.policies rids = .ok seeded) (rid : RepoId) :
    rid ∈ listed only found ↔ rid ∈ rids ∧ found.policies rid = some true := by
  rw [listed, targets.eq_def, hall, hrepositories]
  simp only [Bool.not_true, Bool.false_eq_true, if_false, hseeded]
  exact mem_of_seededAmong hseeded rid

theorem processAll_cons (ctx : Ctx) (pass : RepoId → Pass) (rid : RepoId) (rids : List RepoId) :
    loop.processAll ctx pass (rid :: rids) =
      (loop.process ctx { pass rid with rid := rid }).processAll ctx pass rids := rfl

theorem clock_processAll (ctx : Ctx) (pass : RepoId → Pass) (rids : List RepoId) :
    (loop.processAll ctx pass rids).clock = loop.clock := by
  induction rids generalizing loop with
  | nil => rfl
  | cons rid rids ih => exact (processAll_cons ctx pass rid rids).symm ▸ ih

theorem passes_processAll (ctx : Ctx) (pass : RepoId → Pass) (rids : List RepoId) :
    (loop.processAll ctx pass rids).passes =
      loop.passes ++ rids.map fun rid => (rid, loop.clock) := by
  induction rids generalizing loop with
  | nil => exact (List.append_nil _).symm
  | cons rid rids ih =>
      rw [processAll_cons, ih, process, List.append_assoc]
      rfl

theorem owed_processAll (ctx : Ctx) (pass : RepoId → Pass) (rids : List RepoId) :
    (loop.processAll ctx pass rids).owed = loop.owed.filter fun rid => rid ∉ rids := by
  induction rids generalizing loop with
  | nil => simp [processAll]
  | cons rid rids ih =>
      rw [processAll_cons, ih, process, List.filter_filter]
      apply List.filter_congr
      intro other _
      simp [Bool.and_comm]

theorem clock_sweep (found : Sweep) :
    (loop.sweep settings found).clock = loop.clock + found.elapsed := by
  rw [sweep]
  split
  · exact congrArg (· + found.elapsed) (clock_processAll settings.ctx found.pass _)
  · rfl

theorem nextSweep_sweep (found : Sweep) :
    (loop.sweep settings found).nextSweep = loop.clock + found.elapsed + settings.interval := by
  rw [← @clock_sweep settings]
  rfl

theorem passes_sweep (found : Sweep) :
    (loop.sweep settings found).passes =
      loop.passes ++ (listed settings.only found).map fun rid => (rid, loop.clock) := by
  rw [sweep, listed]
  split
  · exact passes_processAll settings.ctx found.pass _
  · exact (List.append_nil _).symm

theorem owed_sweep (found : Sweep) :
    (loop.sweep settings found).owed =
      loop.owed.filter fun rid => rid ∉ listed settings.only found := by
  rw [sweep, listed]
  split
  · exact owed_processAll settings.ctx found.pass _
  · simp [flush, elapse, print]

/-- The total stays within the budget, as it does over passes. -/
def InBudget (limit : UInt64) (total : ℕ) (loop : Loop) : Prop :=
  Budgeted limit total loop.watcher

theorem InBudget.step {limit : UInt64} {total : ℕ} {event : WatchEvent} {next : Loop}
    (hbudget : settings.ctx.budget = some limit) (hbudgeted : loop.InBudget limit total)
    (hstep : loop.step settings event = some next) : next.InBudget limit total := by
  rw [InBudget] at hbudgeted ⊢
  cases change_of_step hstep with
  | sweep found hphase hdue =>
      have hpasses : ∀ rids : List RepoId,
          Budgeted limit total (loop.processAll settings.ctx found.pass rids).watcher :=
        fun rids => @foldl_preserves _ _ _ (fun loop : Loop => Budgeted limit total loop.watcher)
          (fun loop rid hstate => .process hbudget loop.watcher _ hstate) rids loop hbudgeted
      show Budgeted limit total (loop.sweep settings found).watcher
      rw [sweep]
      split
      · exact (hpasses _).flushAnnouncements found.announce
      · exact (hbudgeted.print _).flushAnnouncements found.announce
  | handled arrival timeout hphase hearly after hhandled =>
      cases hhandled with
      | pass rid hconcerns hseeded => exact .process hbudget loop.watcher _ hbudgeted
      | message hskipped printed phase hchange => exact hbudgeted.congr rfl rfl
  | refused err elapsed hphase => exact hbudgeted.print _
  | skip found hphase hearly | subscribed elapsed hphase | due arrival timeout hphase hdue
  | hungUp wait timeout hphase | woken elapsed hphase => exact hbudgeted

/-- The loop is a run of passes, so it keeps the budget. -/
theorem budgeted_of_reachable {permitted : Loop → WatchEvent → Prop} {limit : UInt64}
    {total started : ℕ} (hbudget : settings.ctx.budget = some limit)
    (hreachable : Reachable (step settings) permitted (start total started) loop) :
    loop.InBudget limit total := by
  have hstart : (start total started).InBudget limit total := Budgeted.start limit total
  exact hreachable.invariant hstart fun _ _ _ hbudgeted _ hstep => hbudgeted.step hbudget hstep

end Sweep

end Loop

end RadicleArtifact.Watch
