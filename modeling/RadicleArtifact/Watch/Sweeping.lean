import RadicleArtifact.Watch.Loop

/-!
# Sweeps are not starved

However many events the stream yields, and however often it is lost, the next sweep begins
soon after it is due: an item that is read past the deadline ends the reading.  So every
repository that the sweeps list is passed over again and again, and no event about it is lost.

The stream is read under the time that was left when it was subscribed to.  A stream that falls
silent after its first events can therefore hold a sweep up by almost an interval.
-/

namespace RadicleArtifact.Watch

open RadicleArtifact.Core
open RadicleArtifact.Library

/-! ## Timely steps -/

def Phase.timeout : Phase → ℕ
  | .draining timeout => timeout
  | _ => 0

/-- The stream honours its timeout, and everything else takes at most the slack. -/
def Timely (slack : ℕ) (loop : Loop) : WatchEvent → Prop
  | .turn found => found.elapsed ≤ slack
  | .subscribe _ elapsed => elapsed ≤ slack
  | .arrive arrival => arrival.wait ≤ loop.phase.timeout + slack ∧ arrival.work ≤ slack
  | .hangUp wait => wait ≤ loop.phase.timeout + slack
  | .wake elapsed => elapsed ≤ reconnectDelay + slack

instance (slack : ℕ) (loop : Loop) : ∀ event, Decidable (Timely slack loop event)
  | .turn found => inferInstanceAs (Decidable (found.elapsed ≤ slack))
  | .subscribe _ elapsed => inferInstanceAs (Decidable (elapsed ≤ slack))
  | .arrive arrival =>
      inferInstanceAs
        (Decidable (arrival.wait ≤ loop.phase.timeout + slack ∧ arrival.work ≤ slack))
  | .hangUp wait => inferInstanceAs (Decidable (wait ≤ loop.phase.timeout + slack))
  | .wake elapsed => inferInstanceAs (Decidable (elapsed ≤ reconnectDelay + slack))

/-- How far past the deadline a sweep can begin. -/
def lateness (settings : Settings) (slack : ℕ) : ℕ :=
  settings.interval + 3 * slack + reconnectDelay

/-- The same of each phase. -/
def Phase.lateness (settings : Settings) (slack : ℕ) : Phase → ℕ
  | .top => Watch.lateness settings slack
  | .subscribing => 0
  | .draining _ => slack
  | .asleep => settings.interval + 2 * slack

theorem Phase.lateness_le (settings : Settings) (slack : ℕ) (phase : Phase) :
    phase.lateness settings slack ≤ Watch.lateness settings slack := by
  cases phase <;> simp only [Phase.lateness, Watch.lateness] <;> omega

theorem second_le_interval (settings : Settings) : second ≤ settings.interval :=
  Nat.le_mul_of_pos_right second (Nat.lt_of_lt_of_le Nat.zero_lt_one (le_max_right _ 1))

namespace Loop

/-- The loop is not far past its deadline, whatever it waits for. -/
structure Punctual (settings : Settings) (slack : ℕ) (loop : Loop) : Prop where
  late : loop.clock ≤ loop.nextSweep + loop.phase.lateness settings slack
  timeout : loop.phase.timeout ≤ settings.interval
  ahead : loop.nextSweep ≤ loop.clock + settings.interval

variable {settings : Settings} {slack : ℕ} {loop next : Loop} {event : WatchEvent}

theorem punctual_start (seededBytes started : ℕ) :
    Punctual settings slack (start seededBytes started) where
  late := Nat.le_add_right _ _
  timeout := Nat.zero_le _
  ahead := Nat.le_add_right _ _

/-- What was read before the deadline is handled within the slack. -/
theorem Punctual.handled (hpunctual : Punctual settings slack loop) {arrival : Arrival}
    {timeout : ℕ} (hphase : loop.phase = .draining timeout)
    (hearly : loop.clock + arrival.wait < loop.nextSweep) (hwork : arrival.work ≤ slack)
    {after : Loop} (hhandled : Handled settings (loop.hear settings arrival) arrival after) :
    Punctual settings slack (after.elapse arrival.work) := by
  have htimeout := hpunctual.timeout
  have hahead := hpunctual.ahead
  cases hhandled with
  | pass rid hconcerns hseeded =>
      refine ⟨?_, htimeout, ?_⟩
      · show loop.clock + arrival.wait + arrival.work ≤
          loop.nextSweep + loop.phase.lateness settings slack
        rw [hphase, Phase.lateness]
        omega
      · show loop.nextSweep ≤ loop.clock + arrival.wait + arrival.work + settings.interval
        omega
  | message hskipped printed phase hchange =>
      have hslack : slack ≤ phase.lateness settings slack := by
        rcases hchange with rfl | rfl | rfl
        · exact (congrArg (Phase.lateness settings slack) hphase).ge
        · simp only [Phase.lateness, lateness]
          omega
        · simp only [Phase.lateness]
          omega
      refine ⟨?_, ?_, ?_⟩
      · show loop.clock + arrival.wait + arrival.work ≤
          loop.nextSweep + phase.lateness settings slack
        omega
      · rcases hchange with rfl | rfl | rfl
        · exact htimeout
        · exact Nat.zero_le _
        · exact Nat.zero_le _
      · show loop.nextSweep ≤ loop.clock + arrival.wait + arrival.work + settings.interval
        omega

/-- A timely step keeps the loop punctual. -/
theorem Punctual.step (hpunctual : Punctual settings slack loop)
    (htimely : Timely slack loop event) (hstep : loop.step settings event = some next) :
    Punctual settings slack next := by
  obtain ⟨hlate, htimeout, hahead⟩ := hpunctual
  have hsecond := second_le_interval settings
  cases change_of_step hstep with
  | sweep found hphase hdue =>
      refine ⟨?_, Nat.zero_le _, ?_⟩
      · show (loop.sweep settings found).clock ≤ (loop.sweep settings found).nextSweep + 0
        rw [clock_sweep, nextSweep_sweep]
        omega
      · show (loop.sweep settings found).nextSweep ≤
          (loop.sweep settings found).clock + settings.interval
        rw [clock_sweep, nextSweep_sweep]
  | skip found hphase hearly => exact ⟨hearly.le, Nat.zero_le _, hahead⟩
  | subscribed elapsed hphase =>
      rw [hphase] at hlate
      simp only [Timely] at htimely
      refine ⟨?_, ?_, ?_⟩
      · show loop.clock + elapsed ≤ loop.nextSweep + slack
        exact Nat.add_le_add hlate htimely
      · show max (loop.nextSweep - loop.clock) second ≤ settings.interval
        omega
      · show loop.nextSweep ≤ loop.clock + elapsed + settings.interval
        omega
  | refused err elapsed hphase =>
      rw [hphase, Phase.lateness] at hlate
      simp only [Timely] at htimely
      refine ⟨?_, Nat.zero_le _, ?_⟩
      · show loop.clock + elapsed ≤ loop.nextSweep + (settings.interval + 2 * slack)
        omega
      · show loop.nextSweep ≤ loop.clock + elapsed + settings.interval
        omega
  | due arrival timeout hphase hdue =>
      simp only [Timely] at htimely
      rw [hphase] at hlate htimeout htimely
      simp only [Phase.lateness, Phase.timeout] at hlate htimeout htimely
      refine ⟨?_, Nat.zero_le _, ?_⟩
      · show loop.clock + arrival.wait ≤
          loop.nextSweep + (settings.interval + 3 * slack + reconnectDelay)
        omega
      · show loop.nextSweep ≤ loop.clock + arrival.wait + settings.interval
        omega
  | handled arrival timeout hphase hearly after hhandled =>
      exact Punctual.handled ⟨hlate, htimeout, hahead⟩ hphase hearly htimely.2 hhandled
  | hungUp wait timeout hphase =>
      simp only [Timely] at htimely
      rw [hphase] at hlate htimeout htimely
      simp only [Phase.lateness, Phase.timeout] at hlate htimeout htimely
      refine ⟨?_, Nat.zero_le _, ?_⟩
      · show loop.clock + wait ≤ loop.nextSweep + (settings.interval + 2 * slack)
        omega
      · show loop.nextSweep ≤ loop.clock + wait + settings.interval
        omega
  | woken elapsed hphase =>
      rw [hphase, Phase.lateness] at hlate
      simp only [Timely] at htimely
      refine ⟨?_, Nat.zero_le _, ?_⟩
      · show loop.clock + elapsed ≤
          loop.nextSweep + (settings.interval + 3 * slack + reconnectDelay)
        omega
      · show loop.nextSweep ≤ loop.clock + elapsed + settings.interval
        omega

theorem punctual_of_reachable {permitted : Loop → WatchEvent → Prop}
    (htimely : ∀ loop event, permitted loop event → Timely slack loop event)
    {seededBytes started : ℕ}
    (hreachable : Reachable (Loop.step settings) permitted (start seededBytes started) loop) :
    Punctual settings slack loop :=
  hreachable.invariant (punctual_start seededBytes started)
    fun loop event _ hpunctual hpermitted hstep =>
      hpunctual.step (htimely loop event hpermitted) hstep

/-- A sweep passes over what it lists; every other step keeps the deadline, which is still
ahead at the top of the loop. -/
theorem passes_of_step (hstep : loop.step settings event = some next) :
    (∃ found, event = .turn found ∧
        next.nextSweep = loop.clock + found.elapsed + settings.interval ∧
        next.passes =
          loop.passes ++ (listed settings.only found).map fun rid => (rid, loop.clock)) ∨
      ((loop.phase = .top → loop.clock < loop.nextSweep) ∧
        next.nextSweep = loop.nextSweep ∧ loop.passes <+: next.passes) := by
  cases change_of_step hstep with
  | sweep found hphase hdue =>
      exact .inl ⟨found, rfl, nextSweep_sweep found, passes_sweep found⟩
  | skip found hphase hearly => exact .inr ⟨fun _ => hearly, rfl, List.prefix_refl _⟩
  | handled arrival timeout hphase hearly after hhandled =>
      refine .inr ⟨fun htop => absurd (htop.symm.trans hphase) Phase.noConfusion, ?_⟩
      cases hhandled with
      | pass rid hconcerns hseeded => exact ⟨rfl, List.prefix_append _ _⟩
      | message hskipped printed phase hchange => exact ⟨rfl, List.prefix_refl _⟩
  | subscribed elapsed hphase | refused err elapsed hphase | due arrival timeout hphase hdue
  | hungUp wait timeout hphase | woken elapsed hphase =>
      exact .inr ⟨fun htop => absurd (htop.symm.trans hphase) Phase.noConfusion, rfl,
        List.prefix_refl _⟩

/-! ## Passes -/

/-- The sweeps of a run list the repository. -/
def Lists (settings : Settings) (rid : RepoId) : WatchEvent → Prop
  | .turn found => rid ∈ listed settings.only found
  | _ => True

instance (settings : Settings) (rid : RepoId) : ∀ event, Decidable (Lists settings rid event)
  | .turn found => inferInstanceAs (Decidable (rid ∈ listed settings.only found))
  | .subscribe _ _ => inferInstanceAs (Decidable True)
  | .arrive _ => inferInstanceAs (Decidable True)
  | .hangUp _ => inferInstanceAs (Decidable True)
  | .wake _ => inferInstanceAs (Decidable True)

/-- A sweep reads the storage and the policies, and finds the repository there and seeded. -/
def Finds (rid : RepoId) : WatchEvent → Prop
  | .turn found =>
      ∃ rids seeded, found.repositories = .ok rids ∧
        seededAmong found.policies rids = .ok seeded ∧ rid ∈ rids ∧
        found.policies rid = some true
  | _ => True

/-- A named repository is listed by every sweep, any other by those that find it. -/
theorem mem_listed_of_watched {only : BTreeSet RepoId} {rid : RepoId} {found : Sweep}
    (hwatched : unwatched only rid = false)
    (hfinds : only.isEmpty = true → Finds rid (.turn found)) : rid ∈ listed only found := by
  cases hnamed : only.isEmpty with
  | true =>
      obtain ⟨rids, seeded, hrepositories, hseeded, hrid, hpolicy⟩ := hfinds hnamed
      exact (mem_listed_iff hnamed hrepositories hseeded rid).mpr ⟨hrid, hpolicy⟩
  | false =>
      have hrid : rid ∈ only := by simpa [unwatched, hnamed] using hwatched
      rw [listed_of_named hnamed]
      exact Std.ExtTreeSet.mem_toList.mpr hrid

theorem lists_of_watched {rid : RepoId} (hwatched : unwatched settings.only rid = false)
    (hfinds : settings.only.isEmpty = true → Finds rid event) : Lists settings rid event := by
  cases event with
  | turn found => exact mem_listed_of_watched hwatched hfinds
  | subscribe result elapsed => trivial
  | arrive arrival => trivial
  | hangUp wait => trivial
  | wake elapsed => trivial

/-- A repository was passed over in the last sweep or later, unless none was due yet. -/
def Covered (settings : Settings) (slack started : ℕ) (rid : RepoId) (loop : Loop) : Prop :=
  (loop.phase = .top ∧ loop.clock = started ∧ loop.nextSweep = started) ∨
    ∃ began, (rid, began) ∈ loop.passes ∧ loop.nextSweep ≤ began + slack + settings.interval

theorem Covered.step {started : ℕ} {rid : RepoId}
    (hcovered : Covered settings slack started rid loop)
    (htimely : Timely slack loop event) (hlists : Lists settings rid event)
    (hstep : loop.step settings event = some next) : Covered settings slack started rid next := by
  rcases passes_of_step hstep with ⟨found, rfl, hdeadline, hpasses⟩ | ⟨htop, hsame, hpasses⟩
  · refine .inr ⟨loop.clock, ?_, ?_⟩
    · rw [hpasses]
      exact List.mem_append_right _ (List.mem_map.mpr ⟨rid, hlists, rfl⟩)
    · rw [hdeadline]
      exact Nat.add_le_add_right (Nat.add_le_add_left htimely _) _
  · rcases hcovered with ⟨hphase, hclock, hnext⟩ | ⟨began, hmem, hnext⟩
    · exact absurd (htop hphase) (by rw [hclock, hnext]; exact lt_irrefl started)
    · exact .inr ⟨began, hpasses.subset hmem, hsame ▸ hnext⟩

/-- A pass over a repository that cannot be opened. -/
def unopened (rid : RepoId) : Pass :=
  ⟨rid, .error "", .error "", .error "", .error "", fun _ => ⟨.error "", ⟨0, .error ""⟩, .error ""⟩,
    fun _ => .ok ()⟩

/-- How long a repository can go without a pass. -/
def freshness (settings : Settings) (slack : ℕ) : ℕ :=
  slack + settings.interval + lateness settings slack

/-- A repository that is passed over in every sweep has not been left longer than that. -/
theorem Covered.exists_pass {started : ℕ} {rid : RepoId}
    (hcovered : Covered settings slack started rid loop)
    (hpunctual : Punctual settings slack loop) {moved : ℕ}
    (hmoved : max moved started + freshness settings slack < loop.clock) :
    ∃ began, (rid, began) ∈ loop.passes ∧ moved < began := by
  have hlate := hpunctual.late.trans
    (Nat.add_le_add_left (Phase.lateness_le settings slack loop.phase) _)
  rcases hcovered with ⟨-, hclock, -⟩ | ⟨began, hmem, hnext⟩
  · omega
  · refine ⟨began, hmem, ?_⟩
    rw [freshness] at hmoved
    omega

theorem covered_of_reachable {permitted : Loop → WatchEvent → Prop} {rid : RepoId}
    (htimely : ∀ loop event, permitted loop event → Timely slack loop event)
    (hlists : ∀ loop event, permitted loop event → Lists settings rid event)
    {seededBytes started : ℕ}
    (hreachable : Reachable (Loop.step settings) permitted (start seededBytes started) loop) :
    Covered settings slack started rid loop :=
  hreachable.invariant (.inl ⟨rfl, rfl, rfl⟩) fun loop event _ hcovered hpermitted hstep =>
    hcovered.step (htimely loop event hpermitted) (hlists loop event hpermitted) hstep

/-- A watch that was launched keeps its budget, and passes over a repository that it watches:
one that was named, which the node then seeds, or else one that the sweeps find. -/
theorem launched_watches {status : Except String EndpointId} {policies : Policies}
    {settingsFor : EndpointId → Settings}
    (hlaunch : launch status policies settingsFor = .ok settings)
    {rid : RepoId} (hwatched : unwatched settings.only rid = false) (seededBytes started : ℕ)
    (hreachable : Reachable (Loop.step settings)
      (fun loop event => Timely slack loop event ∧
        (settings.only.isEmpty = true → Finds rid event))
      (start seededBytes started) loop) :
    (settings.only.isEmpty = false → policies rid = some true) ∧
      (∀ limit, settings.ctx.budget = some limit → loop.InBudget limit seededBytes) ∧
      ∀ moved, max moved started + freshness settings slack < loop.clock →
        ∃ began, (rid, began) ∈ loop.passes ∧ moved < began := by
  obtain ⟨endpointId, -, -, hseeded⟩ := launch_eq_ok_iff.mp hlaunch
  have hpunctual := punctual_of_reachable (fun _ _ hpermitted => hpermitted.1) hreachable
  have hcovered : Covered settings slack started rid loop :=
    covered_of_reachable (fun _ _ hpermitted => hpermitted.1)
      (fun _ _ hpermitted => lists_of_watched hwatched hpermitted.2) hreachable
  refine ⟨fun hnamed => ?_, fun limit hbudget => budgeted_of_reachable hbudget hreachable,
    fun moved hmoved => hcovered.exists_pass hpunctual hmoved⟩
  have hrid : rid ∈ settings.only := by simpa [unwatched, hnamed] using hwatched
  exact hseeded rid hrid

/-! ## How long a repository can be left -/

theorem step_turn (hphase : loop.phase = .top) (hdue : loop.nextSweep ≤ loop.clock)
    (found : Sweep) :
    loop.step settings (.turn found) =
      some { loop.sweep settings found with phase := .subscribing } := by
  rw [step, if_pos hphase, if_pos hdue]

theorem step_subscribe (hphase : loop.phase = .subscribing) (elapsed : ℕ) :
    loop.step settings (.subscribe (.ok ()) elapsed) =
      some { loop.elapse elapsed with
        phase := .draining (max (loop.nextSweep - loop.clock) second) } := by
  rw [step, if_pos hphase]

theorem step_arrive {timeout : ℕ} (hphase : loop.phase = .draining timeout) (arrival : Arrival) :
    loop.step settings (.arrive arrival) =
      if loop.nextSweep ≤ loop.clock + arrival.wait then
        some { loop.hear settings arrival with phase := .top }
      else some (((loop.hear settings arrival).handle settings arrival).elapse arrival.work) := by
  rw [step, hphase]
  rfl

theorem step_hangUp {timeout : ℕ} (hphase : loop.phase = .draining timeout) (wait : ℕ) :
    loop.step settings (.hangUp wait) = some { loop.elapse wait with phase := .asleep } := by
  rw [step, hphase]

theorem step_wake (hphase : loop.phase = .asleep) (elapsed : ℕ) :
    loop.step settings (.wake elapsed) = some { loop.elapse elapsed with phase := .top } := by
  rw [step, if_pos hphase]

/-- After the first sweep the stream is read under the whole interval. -/
theorem exists_draining {rid : RepoId} (hwatched : unwatched settings.only rid = false)
    (seededBytes started : ℕ) :
    ∃ loop timeout, Reachable (Loop.step settings)
        (fun loop event => Timely 0 loop event ∧ Lists settings rid event)
        (start seededBytes started) loop ∧
      loop.phase = .draining timeout ∧ settings.interval ≤ timeout ∧ loop.clock = started ∧
      loop.nextSweep = started + settings.interval ∧ (rid, started) ∈ loop.passes ∧
      ∀ began, (rid, began) ∈ loop.passes → began = started := by
  let found : Sweep := ⟨.ok [rid], fun _ => some true, unopened, fun _ => .ok (), 0⟩
  have hlisted : rid ∈ listed settings.only found :=
    mem_listed_of_watched hwatched fun _ =>
      ⟨[rid], [rid], rfl, rfl, List.mem_singleton_self rid, rfl⟩
  have hdue : (start seededBytes started).nextSweep ≤ (start seededBytes started).clock :=
    le_refl started
  have hswept : Timely 0 (start seededBytes started) (.turn found) ∧
      Lists settings rid (.turn found) := ⟨Nat.le_refl 0, hlisted⟩
  have hturn := (@Reachable.start _ _ (Loop.step settings)
    (fun loop event => Timely 0 loop event ∧ Lists settings rid event) _).step (.turn found) _
      hswept (step_turn rfl hdue found)
  have hclock := @clock_sweep settings (start seededBytes started) found
  have hnext := @nextSweep_sweep settings (start seededBytes started) found
  have hpasses := @passes_sweep settings (start seededBytes started) found
  revert hturn hclock hnext hpasses
  generalize (start seededBytes started).sweep settings found = swept
  intro hturn hclock hnext hpasses
  have hsubscribes : Timely 0 { swept with phase := .subscribing } (.subscribe (.ok ()) 0) ∧
      Lists settings rid (.subscribe (.ok ()) 0) := ⟨Nat.le_refl 0, trivial⟩
  refine ⟨_, _, hturn.step _ _ hsubscribes (step_subscribe rfl 0), rfl, ?_, hclock, hnext, ?_,
    fun began hbegan => ?_⟩
  · show settings.interval ≤ max (swept.nextSweep - swept.clock) second
    rw [hclock, hnext, Nat.add_sub_cancel_left]
    exact le_max_left _ _
  · show (rid, started) ∈ swept.passes
    rw [hpasses]
    exact List.mem_append_right _ (List.mem_map.mpr ⟨rid, hlisted, rfl⟩)
  · have hmem : (rid, began) ∈ swept.passes := hbegan
    rw [hpasses] at hmem
    obtain ⟨other, -, hother⟩ := List.mem_map.mp hmem
    exact (congrArg Prod.snd hother).symm

/-- The bound cannot be lowered: a stream that falls silent after an event and is then lost
leaves a repository for as long, but for a nanosecond. -/
theorem freshness_reached {rid : RepoId} (hwatched : unwatched settings.only rid = false)
    (seededBytes started : ℕ) :
    ∃ loop, Reachable (Loop.step settings)
        (fun loop event => Timely 0 loop event ∧ Lists settings rid event)
        (start seededBytes started) loop ∧
      loop.clock + 1 = started + freshness settings 0 ∧ (rid, started) ∈ loop.passes ∧
      ∀ began, (rid, began) ∈ loop.passes → began = started := by
  obtain ⟨loop, timeout, hreachable, hphase, htimeout, hclock, hnext, hpass, hpasses⟩ :=
    exists_draining hwatched seededBytes started
  have hsecond := second_le_interval settings
  have hpos : 0 < second := by decide
  let spoken : Arrival := ⟨settings.interval - 1, .ok .other, fun _ => none, unopened, 0⟩
  have hspoken : loop.step settings (.arrive spoken) = some (loop.hear settings spoken) := by
    rw [step_arrive hphase, if_neg]
    · rfl
    · show ¬ loop.nextSweep ≤ loop.clock + (settings.interval - 1)
      omega
  have hlistening : (loop.hear settings spoken).phase = .draining timeout := hphase
  have hlost : (loop.hear settings spoken).step settings (.hangUp settings.interval) =
      some { (loop.hear settings spoken).elapse settings.interval with phase := .asleep } :=
    step_hangUp hlistening settings.interval
  have hreads : Timely 0 loop (.arrive spoken) ∧ Lists settings rid (.arrive spoken) := by
    refine ⟨⟨?_, le_refl 0⟩, trivial⟩
    rw [hphase]
    exact (Nat.sub_le settings.interval 1).trans htimeout
  have hwaits : Timely 0 (loop.hear settings spoken) (.hangUp settings.interval) ∧
      Lists settings rid (.hangUp settings.interval) := by
    refine ⟨?_, trivial⟩
    simp only [Timely]
    rw [hlistening]
    exact htimeout
  have hasleep := (hreachable.step _ _ hreads hspoken).step _ _ hwaits hlost
  have hwakes : Timely 0 { (loop.hear settings spoken).elapse settings.interval with
      phase := .asleep } (.wake reconnectDelay) ∧ Lists settings rid (.wake reconnectDelay) :=
    ⟨le_refl _, trivial⟩
  refine ⟨_, hasleep.step _ _ hwakes (step_wake rfl reconnectDelay), ?_, hpass, hpasses⟩
  show loop.clock + (settings.interval - 1) + settings.interval + reconnectDelay + 1 =
    started + freshness settings 0
  rw [freshness, lateness]
  omega

/-! ## Events -/

/-- The node seeds the repository, and the sweeps list it. -/
def Follows (settings : Settings) (rid : RepoId) : WatchEvent → Prop
  | .turn found => rid ∈ listed settings.only found
  | .arrive arrival => arrival.policies rid = some true
  | _ => True

instance (settings : Settings) (rid : RepoId) : ∀ event, Decidable (Follows settings rid event)
  | .turn found => inferInstanceAs (Decidable (rid ∈ listed settings.only found))
  | .subscribe _ _ => inferInstanceAs (Decidable True)
  | .arrive arrival => inferInstanceAs (Decidable (arrival.policies rid = some true))
  | .hangUp _ => inferInstanceAs (Decidable True)
  | .wake _ => inferInstanceAs (Decidable True)

/-- A repository is owed a pass only while the sweep that makes it is due. -/
def Owing (rid : RepoId) (loop : Loop) : Prop :=
  rid ∈ loop.owed → loop.phase = .top ∧ loop.nextSweep ≤ loop.clock

theorem Owing.step {rid : RepoId} (howing : Owing rid loop) (hfollows : Follows settings rid event)
    (hstep : loop.step settings event = some next) : Owing rid next := by
  intro howed
  cases change_of_step hstep with
  | sweep found hphase hdue =>
      have hkept : rid ∈ (loop.sweep settings found).owed := howed
      rw [owed_sweep, List.mem_filter, decide_eq_true_eq] at hkept
      exact absurd hfollows hkept.2
  | skip found hphase hearly => exact absurd (howing howed).2 hearly.not_ge
  | due arrival timeout hphase hdue => exact ⟨rfl, hdue⟩
  | handled arrival timeout hphase hearly after hhandled =>
      -- While the stream is read nothing is owed but what the item is about.
      have hitem : ∀ {owed}, rid ∈ loop.owed ++ owed → rid ∈ owed := by
        intro owed hmem
        refine (List.mem_append.mp hmem).resolve_left fun hold => ?_
        exact absurd ((howing hold).1.symm.trans hphase) Phase.noConfusion
      cases hhandled with
      | pass other hconcerns hseeded =>
          obtain ⟨hheard, hne⟩ := List.mem_filter.mp howed
          have hother := hitem hheard
          rw [hconcerns, Option.toList_some, List.mem_singleton] at hother
          exact absurd hother (of_decide_eq_true hne)
      | message hskipped printed phase hchange =>
          have hconcerns := hitem howed
          rw [Option.mem_toList] at hconcerns
          exact absurd hfollows (hskipped rid hconcerns)
  | subscribed elapsed hphase | refused err elapsed hphase | hungUp wait timeout hphase
  | woken elapsed hphase =>
      exact absurd ((howing howed).1.symm.trans hphase) Phase.noConfusion

/-- An event about a repository is followed by a pass over it at once, or by a sweep before the
loop waits for anything else. -/
theorem pass_follows_event (rid : RepoId) (seededBytes started : ℕ)
    (hreachable : Reachable (Loop.step settings) (fun _ event => Follows settings rid event)
      (start seededBytes started) loop)
    (howed : rid ∈ loop.owed) : loop.phase = .top ∧ loop.nextSweep ≤ loop.clock := by
  have howing : Owing rid loop :=
    hreachable.invariant (fun hmem => absurd hmem List.not_mem_nil)
      fun _ _ _ howing hfollows hstep => howing.step hfollows hstep
  exact howing howed

/-- An event that is read at the deadline is left to the sweep. -/
theorem pass_follows_event_at_deadline :
    let rid : RepoId := .filled 20 9
    let settings : Settings := ⟨.sample, ∅, 1⟩
    ∃ loop, Reachable (Loop.step settings) (fun _ event => Follows settings rid event)
        (start 70 0) loop ∧ rid ∈ loop.owed ∧ loop.phase = .top ∧ loop.nextSweep ≤ loop.clock := by
  intro rid settings
  let found : Sweep := ⟨.ok [rid], fun _ => some true, unopened, fun _ => .ok (), 0⟩
  let moved : NodeEvent :=
    .refsFetched rid [.created "refs/namespaces/z6Mk/refs/cobs/dev.radicle.artifact/9a"]
  let arrival : Arrival := ⟨second, .ok moved, fun _ => some true, unopened, 0⟩
  obtain ⟨loop, hreachable, hcheck⟩ := Reachable.exists_of_run
    (show (run (guarded (Loop.step settings) fun _ event => Follows settings rid event)
      (start 70 0) [.turn found, .subscribe (.ok ()) 0, .arrive arrival]).any
        (fun loop => rid ∈ loop.owed) = true by decide +kernel)
  have howed : rid ∈ loop.owed := of_decide_eq_true hcheck
  exact ⟨loop, hreachable, howed, pass_follows_event rid 70 0 hreachable howed⟩

end Loop

end RadicleArtifact.Watch
