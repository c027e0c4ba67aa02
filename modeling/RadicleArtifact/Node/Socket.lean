import RadicleArtifact.Library.Transition

/-!
# Starting and stopping nodes

Any number of node processes share one home directory: the control socket's path
and the blob store, which one process at a time can open.  A process runs through
the steps of `run`; others may take steps between any two of them, and a crash may
end it anywhere, leaving its socket file behind.
-/

namespace RadicleArtifact.Node.Socket

open RadicleArtifact.Library

/-- The next step of a process. -/
inductive Phase where
  | stopped
  /-- `probe.is_running()` -/
  | probing
  /-- `remove_file(&socket_path)` before the bootstrap -/
  | unlinking
  /-- `seeder::bootstrap`, which opens the store -/
  | bootstrapping
  /-- `UnixListener::bind(&socket_path)` -/
  | binding
  /-- The accept loop. -/
  | serving
  /-- The listener is dropped, its file not yet removed. -/
  | closing
  /-- Handlers drain; the store is still open. -/
  | draining
  deriving DecidableEq

structure Home (Process : Type) where
  /-- The process whose `bind` made the file at the socket path. -/
  socket : Option Process
  /-- The process that has the store open. -/
  store : Option Process
  phase : Process → Phase

inductive Event (Process : Type) where
  /-- The process takes its next step: a stopped one starts, a serving one
  receives its shutdown signal. -/
  | advance (process : Process)
  | crash (process : Process)

namespace Home

variable {Process : Type} [DecidableEq Process] (home : Home Process) (process : Process)

def enter (phase : Phase) : Home Process :=
  { home with phase := Function.update home.phase process phase }

/-- A process ends: the store it has open becomes free, its socket file stays. -/
def stop : Home Process :=
  { home.enter process .stopped with
    store := if home.store = some process then none else home.store }

/-- A live listener is at the path. -/
def Answers : Prop :=
  ∃ owner, home.socket = some owner ∧ home.phase owner = .serving

instance : Decidable home.Answers :=
  decidable_of_iff (∃ owner ∈ home.socket, home.phase owner = .serving) Iff.rfl

/-- `none` while the process waits for the store. -/
def advance : Option (Home Process) :=
  match home.phase process with
  | .stopped =>
      some (home.enter process (if home.socket.isSome then .probing else .bootstrapping))
  | .probing =>
      if home.Answers then some (home.stop process)  -- `AlreadyRunning`
      else some (home.enter process .unlinking)
  | .unlinking =>
      match home.socket with
      | none => some (home.stop process)
      | some _ => some ({ home with socket := none }.enter process .bootstrapping)
  | .bootstrapping =>
      match home.store with
      | none => some ({ home with store := some process }.enter process .binding)
      | some _ => none
  | .binding =>
      match home.socket with
      | none => some ({ home with socket := some process }.enter process .serving)
      | some _ => some (home.stop process)
  | .serving => some (home.enter process .closing)
  | .closing => some ({ home with socket := none }.enter process .draining)
  | .draining => some (home.stop process)

def step : Event Process → Option (Home Process)
  | .advance process => home.advance process
  | .crash process => some (home.stop process)

/-- No process runs; a crashed one may have left its socket file behind. -/
def Fresh : Prop :=
  home.store = none ∧ ∀ process, home.phase process = .stopped

/-- Every serving node's path leads to its listener. -/
def Owned : Prop :=
  ∀ process, home.phase process = .serving → home.socket = some process

/-- A step of a starting process that unlinks the path finds no live listener. -/
def SparesListener : Event Process → Prop
  | .advance process => home.phase process = .unlinking → ¬ home.Answers
  | .crash _ => True

instance : ∀ event, Decidable (home.SparesListener event)
  | .advance process => inferInstanceAs
      (Decidable (home.phase process = .unlinking → ¬ home.Answers))
  | .crash _ => inferInstanceAs (Decidable True)

/-! ## The store and the socket

A process has the store open from its bootstrap to its end, so at most one process
serves, and only a start that has not opened the store yet can take its socket.
-/

end Home

/-- The process has the store open. -/
def Phase.Opened (phase : Phase) : Prop :=
  phase ∈ [.binding, .serving, .closing, .draining]

instance (phase : Phase) : Decidable phase.Opened :=
  inferInstanceAs (Decidable (phase ∈ [.binding, .serving, .closing, .draining]))

namespace Home

variable {Process : Type} [DecidableEq Process] {home next : Home Process}
  {process : Process}

structure Sound (home : Home Process) : Prop where
  store : ∀ process, (home.phase process).Opened → home.store = some process
  owned : home.Owned

@[simp]
theorem enter_phase_self (phase : Phase) :
    (home.enter process phase).phase process = phase := by
  simp [enter]

theorem enter_phase_of_ne {other : Process} (hne : other ≠ process) (phase : Phase) :
    (home.enter process phase).phase other = home.phase other := by
  simp [enter, hne]

omit [DecidableEq Process] in
theorem Fresh.sound (hfresh : home.Fresh) : home.Sound where
  store process hopened := by
    rw [hfresh.2 process] at hopened
    exact absurd hopened (by decide)
  owned process hserving := by
    rw [hfresh.2 process] at hserving
    contradiction

theorem Sound.enter (hsound : home.Sound) {phase : Phase}
    (hstore : phase.Opened → home.store = some process)
    (hsocket : phase = .serving → home.socket = some process) :
    (home.enter process phase).Sound where
  store other hopened := by
    by_cases hother : other = process
    · subst hother
      rw [enter_phase_self] at hopened
      exact hstore hopened
    · rw [enter_phase_of_ne hother] at hopened
      exact hsound.store other hopened
  owned other hserving := by
    by_cases hother : other = process
    · subst hother
      rw [enter_phase_self] at hserving
      exact hsocket hserving
    · rw [enter_phase_of_ne hother] at hserving
      exact hsound.owned other hserving

theorem Sound.stop (hsound : home.Sound) (process : Process) : (home.stop process).Sound := by
  have hentered : (home.enter process .stopped).Sound :=
    hsound.enter (fun hopened => absurd hopened (by decide)) (fun heq => by contradiction)
  refine ⟨fun other hopened => ?_, hentered.owned⟩
  have hother : home.store = some other := hentered.store other hopened
  have hne : other ≠ process := by
    rintro rfl
    have hstopped : (home.enter other .stopped).phase other = .stopped := enter_phase_self _
    rw [show (home.stop other).phase = (home.enter other .stopped).phase from rfl,
      hstopped] at hopened
    exact absurd hopened (by decide)
  show (if home.store = some process then none else home.store) = some other
  rw [if_neg (by simpa [hother] using hne), hother]

omit [DecidableEq Process] in
/-- Unlinking the path keeps the invariant when nobody serves there. -/
theorem Sound.unlink (hsound : home.Sound) (hnobody : ∀ owner, home.phase owner ≠ .serving) :
    Sound { home with socket := none } where
  store := hsound.store
  owned owner hserving := absurd hserving (hnobody owner)

omit [DecidableEq Process] in
theorem Sound.openStore (hsound : home.Sound) (hfree : home.store = none) :
    Sound { home with store := some process } where
  store other hopened := by
    have hother := hsound.store other hopened
    rw [hfree] at hother
    contradiction
  owned := hsound.owned

omit [DecidableEq Process] in
theorem Sound.bind (hsound : home.Sound) (hfree : home.socket = none) :
    Sound { home with socket := some process } where
  store := hsound.store
  owned other hserving := by
    have hother := hsound.owned other hserving
    rw [hfree] at hother
    contradiction

omit [DecidableEq Process] in
/-- Only a process that has the store open can serve. -/
theorem Sound.not_serving_of_opened (hsound : home.Sound)
    (hopened : (home.phase process).Opened) (hphase : home.phase process ≠ .serving)
    (owner : Process) : home.phase owner ≠ .serving := by
  intro hserving
  have howner : home.store = some owner := hsound.store owner (by rw [hserving]; decide)
  have hprocess : home.store = some process := hsound.store process hopened
  rw [howner, Option.some.injEq] at hprocess
  exact hphase (hprocess ▸ hserving)

omit [DecidableEq Process] in
theorem Sound.not_serving_of_not_answers (hsound : home.Sound) (hanswers : ¬ home.Answers)
    (owner : Process) : home.phase owner ≠ .serving :=
  fun hserving => hanswers ⟨owner, hsound.owned owner hserving, hserving⟩

/-- Every step that spares live listeners keeps the invariant. -/
theorem Sound.step (hsound : home.Sound) {event : Event Process}
    (hspares : home.SparesListener event) (hstep : home.step event = some next) :
    next.Sound := by
  cases event with
  | crash process => exact Option.some.inj hstep ▸ hsound.stop process
  | advance process =>
      rw [Home.step, advance] at hstep
      cases hphase : home.phase process with
      | stopped =>
          rw [hphase] at hstep
          have hnext := Option.some.inj hstep
          rw [← hnext]
          split <;> exact hsound.enter (fun h => absurd h (by decide)) (fun h => by contradiction)
      | probing =>
          simp only [hphase] at hstep
          split at hstep
          · exact Option.some.inj hstep ▸ hsound.stop process
          · exact Option.some.inj hstep ▸
              hsound.enter (fun h => absurd h (by decide)) (fun h => by contradiction)
      | unlinking =>
          simp only [hphase] at hstep
          split at hstep
          · exact Option.some.inj hstep ▸ hsound.stop process
          · have hnobody := hsound.not_serving_of_not_answers (hspares hphase)
            exact Option.some.inj hstep ▸ (hsound.unlink hnobody).enter
              (fun h => absurd h (by decide)) (fun h => by contradiction)
      | bootstrapping =>
          simp only [hphase] at hstep
          split at hstep
          · rename_i hfree
            exact Option.some.inj hstep ▸
              (hsound.openStore hfree).enter (fun _ => rfl) (fun h => by contradiction)
          · contradiction
      | binding =>
          simp only [hphase] at hstep
          split at hstep
          · rename_i hfree
            have hstore := hsound.store process (by rw [hphase]; decide)
            exact Option.some.inj hstep ▸
              (hsound.bind hfree).enter (fun _ => hstore) (fun _ => rfl)
          · exact Option.some.inj hstep ▸ hsound.stop process
      | serving =>
          simp only [hphase] at hstep
          have hstore := hsound.store process (by rw [hphase]; decide)
          exact Option.some.inj hstep ▸ hsound.enter (fun _ => hstore) (fun h => by contradiction)
      | closing =>
          simp only [hphase] at hstep
          have hopened : (home.phase process).Opened := by rw [hphase]; decide
          have hnobody := hsound.not_serving_of_opened hopened (by rw [hphase]; decide)
          exact Option.some.inj hstep ▸ (hsound.unlink hnobody).enter
            (fun _ => hsound.store process hopened) (fun h => by contradiction)
      | draining =>
          simp only [hphase] at hstep
          exact Option.some.inj hstep ▸ hsound.stop process

/-- A start that unlinks a live listener's path takes it from its owner. -/
theorem not_owned_of_unlink {event : Event Process} (htaken : ¬ home.SparesListener event)
    (hstep : home.step event = some next) : ¬ next.Owned := by
  cases event with
  | crash process => exact absurd trivial htaken
  | advance process =>
      simp only [SparesListener, not_forall, not_not] at htaken
      obtain ⟨hphase, owner, hsocket, hserving⟩ := htaken
      rw [Home.step, advance] at hstep
      simp only [hphase, hsocket] at hstep
      intro howned
      have hne : owner ≠ process := by
        rintro rfl
        rw [hserving] at hphase
        contradiction
      have hsome : next.socket = some owner := howned owner (by
        rw [← Option.some.inj hstep, enter_phase_of_ne hne]
        exact hserving)
      rw [← Option.some.inj hstep] at hsome
      contradiction

/-- From a home directory where no process runs, as long as no start unlinks the
path of a live listener, every serving node keeps its socket; a start that does
takes it. -/
theorem serving_node_keeps_socket {fresh : Home Process} (hfresh : fresh.Fresh) :
    ∀ home, Reachable Home.step SparesListener fresh home →
      home.Owned ∧ ∀ event next, home.step event = some next →
        (next.Owned ↔ home.SparesListener event) := by
  intro home hreachable
  have hsound : home.Sound := hreachable.invariant hfresh.sound
    fun state event next hstate hpermitted hstep => hstate.step hpermitted hstep
  refine ⟨hsound.owned, fun event next hstep => ⟨fun howned => ?_, fun hspares => ?_⟩⟩
  · by_contra htaken
    exact not_owned_of_unlink htaken hstep howned
  · exact (hsound.step hspares hstep).owned

end Home

/-- A stale file at the path, one process after the other: the first serves, the
second finds it answering and bails out. -/
theorem serving_node_keeps_socket_after_probe :
    let stale : Home ℕ := ⟨some 0, none, fun _ => .stopped⟩
    ∃ home, Reachable Home.step Home.SparesListener stale home ∧ home.phase 1 = .serving ∧
      home.Owned := by
  intro stale
  have hrun : (run (guarded Home.step Home.SparesListener) stale [.advance 1, .advance 1,
      .advance 1, .advance 1, .advance 1, .advance 2, .advance 2]).any
      (fun home => home.phase 1 = .serving) = true := by decide
  obtain ⟨home, hreachable, hserving⟩ := Reachable.exists_of_run hrun
  exact ⟨home, hreachable, of_decide_eq_true hserving,
    (Home.serving_node_keeps_socket ⟨rfl, fun _ => rfl⟩ home hreachable).1⟩

/-- Two processes probe a stale file; the first goes on to serve, then the second
unlinks the path that leads to it. -/
theorem second_start_unlinks_live_socket :
    let stale : Home ℕ := ⟨some 0, none, fun _ => .stopped⟩
    ¬ ∀ home, Reachable Home.step anyStep stale home → home.Owned := by
  intro stale howned
  have hrun : (run (guarded Home.step anyStep) stale [.advance 1, .advance 2, .advance 1,
      .advance 2, .advance 1, .advance 1, .advance 1, .advance 2]).any
      (fun home => home.phase 1 = .serving ∧ home.socket = none) = true := by decide
  obtain ⟨home, hreachable, htaken⟩ := Reachable.exists_of_run hrun
  obtain ⟨hserving, hsocket⟩ := of_decide_eq_true htaken
  have hkept : home.socket = some 1 := howned home hreachable 1 hserving
  rw [hsocket] at hkept
  contradiction

end RadicleArtifact.Node.Socket
