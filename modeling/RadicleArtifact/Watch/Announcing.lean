import RadicleArtifact.Watch.Sweeping

/-!
# No announcement is lost

An artifact is seeded once and then skipped as seeded, so nothing but the set of unannounced
repositories recalls that its location has yet to be announced.  A repository stays in that set
from the write until an announcement succeeds, and every sweep tries again.
-/

namespace RadicleArtifact.Watch

open RadicleArtifact.Core
open RadicleArtifact.Library
open RadicleArtifact.Cob
open RadicleArtifact.Cli

variable (ctx : Ctx) (watch : Watcher)

/-! ## What a pass writes -/

/-- What a part of a pass does: it makes some fetches, announces nothing, and says whether a
location was written. -/
def Fetches (turn : Cid → Turn) (watch after : Watcher) (added : Bool) : Prop :=
  ∃ fetched, after.fetched = watch.fetched ++ fetched ∧ after.unannounced = watch.unannounced ∧
    added = fetched.any (located turn)

variable {watch} in
theorem Fetches.of_same {turn : Cid → Turn} {after : Watcher}
    (hfetched : after.fetched = watch.fetched)
    (hunannounced : after.unannounced = watch.unannounced) : Fetches turn watch after false :=
  ⟨[], by rw [hfetched, List.append_nil], hunannounced, rfl⟩

variable {watch} in
theorem Fetches.trans {turn : Cid → Turn} {middle after : Watcher} {added later : Bool}
    (hearlier : Fetches turn watch middle added) (hlater : Fetches turn middle after later) :
    Fetches turn watch after (added || later) := by
  obtain ⟨first, hfirst, hsame, rfl⟩ := hearlier
  obtain ⟨second, hsecond, hkept, rfl⟩ := hlater
  exact ⟨first ++ second, by rw [hsecond, hfirst, List.append_assoc], hkept.trans hsame,
    List.any_append.symm⟩

theorem fetches_sayOnce (turn : Cid → Turn) (message : String) :
    Fetches turn watch (watch.sayOnce message) false := by
  rw [Watcher.sayOnce]
  split
  · exact .of_same rfl rfl
  · exact .of_same rfl rfl

/-- A result that is not `true` says that no location was written. -/
def wroteOne (result : Except PassError Bool) : Bool :=
  match result with
  | .ok added => added
  | .error _ => false

theorem fetches_retrieve (releases : List (ReleaseId × Release)) (turn : Cid → Turn)
    (want : Wanted) :
    Fetches turn watch (retrieve ctx releases (turn want.cid) watch want).1
      (wroteOne (retrieve ctx releases (turn want.cid) watch want).2) := by
  have hfetch (added : Bool) (hadded : located turn ⟨want, (turn want.cid).fetch.added⟩ = added) :
      Fetches turn watch (watch.fetch want (turn want.cid).fetch) added :=
    ⟨[⟨want, (turn want.cid).fetch.added⟩], rfl, rfl, by simp [hadded]⟩
  rw [retrieve]
  cases artifactLocations ctx.endpoints
      (releases.filterMap fun entry => entry.2.artifact want.cid) with
  | error err => exact .of_same rfl rfl
  | ok found =>
      dsimp only
      split
      · exact fetches_sayOnce watch turn _
      · split
        · exact fetches_sayOnce watch turn _
        · cases hresult : (turn want.cid).fetch.result with
          | error err =>
              apply hfetch
              rw [located, hresult]
              rfl
          | ok fetched =>
              cases hadd : (turn want.cid).addLocation with
              | error err | ok added =>
                  apply hfetch
                  rw [located, hresult, hadd]
                  rfl

theorem fetches_seed (releases : List (ReleaseId × Release)) (turn : Cid → Turn) (want : Wanted) :
    Fetches turn watch (seed ctx releases (turn want.cid) watch want).1
      (wroteOne (seed ctx releases (turn want.cid) watch want).2) := by
  rw [seed]
  split
  · exact fetches_retrieve ctx watch releases turn want
  · split
    · exact .of_same rfl rfl
    · split
      · exact fetches_retrieve ctx watch releases turn want
      · exact fetches_sayOnce watch turn _

/-- One turn of the loop over the wanted artifacts. -/
theorem fetches_seedNext (releases : List (ReleaseId × Release)) (turn : Cid → Turn)
    (added : Bool) (want : Wanted) :
    ∃ more, (seedNext ctx releases turn (watch, added) want).2 = (added || more) ∧
      Fetches turn watch (seedNext ctx releases turn (watch, added) want).1 more := by
  have hseed := fetches_seed ctx watch releases turn want
  rw [seedNext]
  dsimp only
  generalize seed ctx releases (turn want.cid) watch want = outcome at hseed
  obtain ⟨after, result⟩ := outcome
  cases result with
  | ok more => exact ⟨more, rfl, hseed⟩
  | error err => exact ⟨false, (Bool.or_false added).symm, hseed.trans (.of_same rfl rfl)⟩

theorem fetches_foldl_seedNext (releases : List (ReleaseId × Release)) (turn : Cid → Turn)
    (wants : List Wanted) (progress : Watcher × Bool) :
    ∃ more, (wants.foldl (seedNext ctx releases turn) progress).2 = (progress.2 || more) ∧
      Fetches turn progress.1 (wants.foldl (seedNext ctx releases turn) progress).1 more := by
  induction wants generalizing progress with
  | nil => exact ⟨false, (Bool.or_false _).symm, .of_same rfl rfl⟩
  | cons want wants ih =>
      obtain ⟨more, hmore, hfirst⟩ := fetches_seedNext ctx progress.1 releases turn progress.2 want
      obtain ⟨rest, hrest, hlater⟩ := ih (seedNext ctx releases turn progress want)
      refine ⟨more || rest, ?_, hfirst.trans hlater⟩
      rw [List.foldl_cons, hrest, hmore, Bool.or_assoc]

/-! ## What a flush announces -/

theorem mem_unannounced_foldl (announce : RepoId → Except String Unit) (rid : RepoId)
    (rids : List RepoId) :
    rid ∈ (rids.foldl (flushNext ctx announce) watch).unannounced ↔
      rid ∈ watch.unannounced ∧ (rid ∈ rids → (announce rid).isOk = false) := by
  induction rids generalizing watch with
  | nil => simp
  | cons other rids ih =>
      rw [List.foldl_cons, ih, List.mem_cons, flushNext]
      cases hannounce : announce other with
      | ok announced =>
          simp only [Std.ExtTreeSet.mem_erase, compare_eq_iff_eq, ne_eq]
          by_cases hsame : rid = other
          · subst hsame
            simp [hannounce, Except.isOk, Except.toBool]
          · simp [hsame, Ne.symm hsame]
      | error err =>
          by_cases hsame : rid = other
          · subst hsame
            simp [hannounce, Watcher.print, Except.isOk, Except.toBool]
          · simp [hsame, Watcher.print]

/-- What is left after a flush is what could not be announced. -/
theorem mem_unannounced_flush (announce : RepoId → Except String Unit) (rid : RepoId) :
    rid ∈ (flushAnnouncements ctx announce watch).unannounced ↔
      rid ∈ watch.unannounced ∧ (announce rid).isOk = false := by
  rw [flushAnnouncements, mem_unannounced_foldl, Std.ExtTreeSet.mem_toList]
  exact and_congr_right fun hmem => imp_iff_right hmem

def Notice.rid : Notice → RepoId
  | .wrote rid => rid
  | .tried rid _ _ => rid

def Notice.about (rid : RepoId) (notice : Notice) : Option Notice :=
  if notice.rid = rid then some notice else none

/-- The last notice about a repository. -/
def lastNotice (rid : RepoId) (notices : List Notice) : Option Notice :=
  lastWrite (Notice.about rid) notices

theorem lastNotice_append (rid : RepoId) (earlier later : List Notice) :
    lastNotice rid (earlier ++ later) = (lastNotice rid later).or (lastNotice rid earlier) :=
  lastWrite_append _ earlier later

theorem lastNotice_map_tried (announce : RepoId → Except String Unit) (time : ℕ)
    (rids : List RepoId) (rid : RepoId) :
    lastNotice rid (rids.map fun rid => .tried rid time (announce rid).isOk) =
      if rid ∈ rids then some (.tried rid time (announce rid).isOk) else none := by
  induction rids with
  | nil => rfl
  | cons other rids ih =>
      rw [List.map_cons, lastNotice, lastWrite_cons, ← lastNotice, ih]
      by_cases hrest : rid ∈ rids
      · rw [if_pos hrest, if_pos (List.mem_cons_of_mem other hrest), Option.some_or]
      · rw [if_neg hrest, Option.none_or, Notice.about, Notice.rid]
        by_cases hsame : other = rid
        · rw [if_pos hsame, if_pos (List.mem_cons.mpr (.inl hsame.symm)), hsame]
        · rw [if_neg hsame, if_neg]
          exact List.not_mem_cons_of_ne_of_not_mem (Ne.symm hsame) hrest

/-- A flush tries each repository that is not announced, once. -/
theorem lastNotice_triedBy (announce : RepoId → Except String Unit) (time : ℕ)
    (unannounced : BTreeSet RepoId) (rid : RepoId) :
    lastNotice rid (triedBy announce time unannounced) =
      if rid ∈ unannounced then some (.tried rid time (announce rid).isOk) else none :=
  (lastNotice_map_tried announce time unannounced.toList rid).trans
    (if_congr Std.ExtTreeSet.mem_toList rfl rfl)

/-! ## What a pass announces -/

/-- A pass that has written a location adds its repository to those to announce, and announces
them at once unless it must not.  Any other leaves them as they are. -/
def Announces (pass : Pass) (watch after : Watcher) : Prop :=
  ∃ fetched, after.fetched = watch.fetched ++ fetched ∧
    ∀ rid, rid ∈ after.unannounced ↔
      if (fetched.any (located pass.turn) && !ctx.noAnnounce) = true then
        rid ∈ watch.unannounced.insert pass.rid ∧ (pass.announce rid).isOk = false
      else rid ∈ watch.unannounced

theorem announces_refl (pass : Pass) : Announces ctx pass watch watch :=
  ⟨[], (List.append_nil _).symm, fun _ => Iff.rfl⟩

theorem fetched_flush (announce : RepoId → Except String Unit) :
    (flushAnnouncements ctx announce watch).fetched = watch.fetched := by
  have hkeeps : ∀ (state : Watcher) rid, state.fetched = watch.fetched →
      (flushNext ctx announce state rid).fetched = watch.fetched := by
    intro state rid hsame
    rw [flushNext]
    split
    · exact hsame
    · exact hsame
  exact foldl_preserves hkeeps watch.unannounced.toList rfl

theorem announces_seedWanted (pass : Pass) (releases : List (ReleaseId × Release))
    (wants : List Wanted) :
    Announces ctx pass watch (seedWanted ctx pass releases wants watch) := by
  obtain ⟨added, hadded, fetched, hfetched, hsame, hlocated⟩ :=
    fetches_foldl_seedNext ctx releases pass.turn wants (watch, false)
  rw [Bool.false_or] at hadded
  rw [seedWanted]
  generalize wants.foldl (seedNext ctx releases pass.turn) (watch, false) = progress at *
  obtain ⟨after, found⟩ := progress
  obtain rfl : found = added := hadded
  dsimp only at hfetched hsame ⊢
  rw [hlocated]
  split
  · rename_i hannounce
    refine ⟨fetched, (fetched_flush ctx _ pass.announce).trans hfetched, fun rid => ?_⟩
    rw [if_pos hannounce, mem_unannounced_flush, hsame]
  · rename_i hquiet
    refine ⟨fetched, hfetched, fun rid => ?_⟩
    rw [if_neg hquiet, hsame]

theorem announces_process (pass : Pass) :
    Announces ctx pass watch (process ctx watch pass) := by
  have hrepo : Announces ctx pass watch (processRepo ctx pass watch).1 := by
    rw [processRepo]
    split
    · exact announces_refl ctx watch pass
    · split
      · exact announces_refl ctx watch pass
      · split
        · exact announces_refl ctx watch pass
        · dsimp only
          split
          · exact announces_refl ctx watch pass
          · rw [processWanted]
            split
            · exact announces_seedWanted ctx watch pass _ _
            · split
              · exact announces_refl ctx watch pass
              · split
                · rw [Watcher.sayOnce]
                  split
                  · exact announces_refl ctx watch pass
                  · exact announces_refl ctx watch pass
                · exact announces_seedWanted ctx watch pass _ _
  rw [process]
  split
  · rename_i after hafter
    rwa [hafter] at hrepo
  · rename_i after err hafter
    rwa [hafter] at hrepo

theorem mem_unannounced_process (pass : Pass) (rid : RepoId) :
    rid ∈ (process ctx watch pass).unannounced ↔
      if (wrote ctx watch pass && !ctx.noAnnounce) = true then
        rid ∈ watch.unannounced.insert pass.rid ∧ (pass.announce rid).isOk = false
      else rid ∈ watch.unannounced := by
  obtain ⟨fetched, hfetched, hannounces⟩ := announces_process ctx watch pass
  have hwrote : wrote ctx watch pass = fetched.any (located pass.turn) := by
    rw [wrote, hfetched, List.drop_left]
  rw [hwrote]
  exact hannounces rid

/-! ## The set and the notices -/

/-- What the last notice about a repository tells: it was not announced exactly if the last try
failed, and that try is recent. -/
inductive Tells (recent : ℕ → Prop) (unannounced : BTreeSet RepoId) (rid : RepoId) :
    Option Notice → Prop
  | nothing (hout : rid ∉ unannounced) : Tells recent unannounced rid none
  | announced (time : ℕ) (hout : rid ∉ unannounced) :
      Tells recent unannounced rid (some (.tried rid time true))
  | failed (time : ℕ) (hin : rid ∈ unannounced) (hrecent : recent time) :
      Tells recent unannounced rid (some (.tried rid time false))

section Tells

variable {recent later : ℕ → Prop} {unannounced after : BTreeSet RepoId} {rid : RepoId}
  {notices : List Notice}

/-- A repository that is not in the set has nothing to be tried again. -/
theorem Tells.of_not_mem {last : Option Notice} (htells : Tells recent unannounced rid last)
    (hout : rid ∉ unannounced) (hafter : rid ∉ after) : Tells later after rid last := by
  cases htells with
  | nothing => exact .nothing hafter
  | announced time => exact .announced time hafter
  | failed time hin => exact absurd hin hout

theorem Tells.congr {last : Option Notice} (htells : Tells recent unannounced rid last)
    (hsame : rid ∈ after ↔ rid ∈ unannounced) : Tells recent after rid last := by
  cases htells with
  | nothing hout => exact .nothing fun hafter => hout (hsame.mp hafter)
  | announced time hout => exact .announced time fun hafter => hout (hsame.mp hafter)
  | failed time hin hrecent => exact .failed time (hsame.mpr hin) hrecent

/-- A try makes the last notice. -/
theorem Tells.of_tried {announced : Bool} {time : ℕ}
    (hafter : rid ∈ after ↔ announced = false) (hrecent : later time) :
    Tells later after rid (some (.tried rid time announced)) := by
  cases announced with
  | true => exact .announced time fun hin => absurd (hafter.mp hin) Bool.noConfusion
  | false => exact .failed time (hafter.mpr rfl) hrecent

/-- A flush tries what is not announced, and leaves what failed. -/
theorem Tells.flush {announce : RepoId → Except String Unit} {time : ℕ}
    (htells : Tells recent unannounced rid (lastNotice rid notices)) (hrecent : later time)
    (hafter : rid ∈ after ↔ rid ∈ unannounced ∧ (announce rid).isOk = false) :
    Tells later after rid (lastNotice rid (notices ++ triedBy announce time unannounced)) := by
  rw [lastNotice_append, lastNotice_triedBy]
  by_cases hin : rid ∈ unannounced
  · rw [if_pos hin, Option.some_or]
    exact .of_tried (hafter.trans (and_iff_right hin)) hrecent
  · rw [if_neg hin, Option.none_or]
    exact htells.of_not_mem hin fun hmem => hin (hafter.mp hmem).1

variable {ctx watch}

theorem Tells.process (hannounce : ctx.noAnnounce = false) (pass : Pass) {time : ℕ}
    (htells : Tells recent watch.unannounced rid (lastNotice rid notices))
    (hrecent : recent time) :
    Tells recent (process ctx watch pass).unannounced rid
      (lastNotice rid (notices ++ noticesOf ctx time watch pass)) := by
  have hmem := mem_unannounced_process ctx watch pass rid
  rw [hannounce, Bool.not_false, Bool.and_true] at hmem
  rw [lastNotice_append, noticesOf, hannounce]
  by_cases hwrote : wrote ctx watch pass = true
  · rw [if_pos hwrote] at hmem ⊢
    have hnotices (found : List Notice) :
        lastNotice rid (.wrote pass.rid :: found) =
          (lastNotice rid found).or (Notice.about rid (.wrote pass.rid)) :=
      lastWrite_cons _ _ found
    rw [hnotices, if_neg Bool.false_ne_true, lastNotice_triedBy]
    by_cases hin : rid ∈ watch.unannounced.insert pass.rid
    · rw [if_pos hin, Option.some_or, Option.some_or]
      exact .of_tried (hmem.trans (and_iff_right hin)) hrecent
    · have hout := hin
      rw [Std.ExtTreeSet.mem_insert, compare_eq_iff_eq, not_or] at hout
      rw [if_neg hin, Option.none_or, Notice.about, Notice.rid, if_neg hout.1, Option.none_or]
      exact htells.of_not_mem hout.2 fun hafter => hin (hmem.mp hafter).1
  · rw [if_neg hwrote] at hmem ⊢
    have hnone : lastNotice rid [] = none := rfl
    rw [hnone, Option.none_or]
    exact htells.congr hmem

end Tells

namespace Loop

variable {settings : Settings} {slack : ℕ} {loop next : Loop} {event : WatchEvent} {rid : RepoId}
  {recent later : ℕ → Prop}

/-- What the notices of the loop tell of a repository. -/
def Told (recent : ℕ → Prop) (rid : RepoId) (loop : Loop) : Prop :=
  Tells recent loop.watcher.unannounced rid (lastNotice rid loop.notices)

theorem Told.processAll (hannounce : settings.ctx.noAnnounce = false) (pass : RepoId → Pass)
    (rids : List RepoId) (htold : loop.Told recent rid) (hrecent : recent loop.clock) :
    (loop.processAll settings.ctx pass rids).Told recent rid := by
  induction rids generalizing loop with
  | nil => exact htold
  | cons other rids ih =>
      rw [processAll_cons]
      exact ih (Tells.process hannounce { pass other with rid := other } htold hrecent) hrecent

/-- A sweep tries every repository that is not announced. -/
theorem Told.sweep (hannounce : settings.ctx.noAnnounce = false) (found : Sweep)
    (htold : loop.Told recent rid) (hrecent : recent loop.clock) (hlater : later loop.clock) :
    (loop.sweep settings found).Told later rid := by
  have hswept : ∀ swept : Loop, swept.Told recent rid → swept.clock = loop.clock →
      (swept.flush settings.ctx found.announce).Told later rid := by
    intro swept hswept hclock
    exact Tells.flush hswept (hclock ▸ hlater) (mem_unannounced_flush _ _ _ rid)
  rw [Loop.sweep]
  split
  · exact hswept _ (htold.processAll hannounce found.pass _ hrecent)
      (clock_processAll settings.ctx found.pass _)
  · exact hswept _ htold rfl

/-- The time of a try is recent when no two sweeps have ended since. -/
def Recent (settings : Settings) (slack : ℕ) (loop : Loop) (time : ℕ) : Prop :=
  loop.nextSweep ≤ time + slack + settings.interval

theorem Punctual.recent_clock (hpunctual : Punctual settings slack loop) :
    Recent settings slack loop loop.clock := by
  have hahead := hpunctual.ahead
  rw [Recent]
  omega

/-- The loop is punctual, and the notices about a repository tell whether it is announced. -/
structure Accounted (settings : Settings) (slack : ℕ) (rid : RepoId) (loop : Loop) : Prop where
  punctual : Punctual settings slack loop
  told : loop.Told (Recent settings slack loop) rid

theorem accounted_start (rid : RepoId) (seededBytes started : ℕ) :
    Accounted settings slack rid (start seededBytes started) where
  punctual := punctual_start seededBytes started
  told := .nothing Std.ExtTreeSet.not_mem_empty

theorem Accounted.step (hannounce : settings.ctx.noAnnounce = false)
    (haccounted : Accounted settings slack rid loop) (htimely : Timely slack loop event)
    (hstep : loop.step settings event = some next) : Accounted settings slack rid next := by
  obtain ⟨hpunctual, htold⟩ := haccounted
  refine ⟨hpunctual.step htimely hstep, ?_⟩
  cases change_of_step hstep with
  | sweep found hphase hdue =>
      refine htold.sweep hannounce found hpunctual.recent_clock ?_
      show (loop.sweep settings found).nextSweep ≤ loop.clock + slack + settings.interval
      rw [nextSweep_sweep]
      exact Nat.add_le_add_right (Nat.add_le_add_left htimely _) _
  | handled arrival timeout hphase hearly after hhandled =>
      cases hhandled with
      | pass other hconcerns hseeded =>
          refine Tells.process hannounce { arrival.pass other with rid := other } htold ?_
          have hrecent := hpunctual.recent_clock
          simp only [Recent] at hrecent ⊢
          show loop.nextSweep ≤ loop.clock + arrival.wait + slack + settings.interval
          omega
      | message hskipped printed phase hchange => exact htold
  | skip found hphase hearly | subscribed elapsed hphase | refused err elapsed hphase
  | due arrival timeout hphase hdue | hungUp wait timeout hphase | woken elapsed hphase =>
      exact htold

/-- A repository in which a location was written has been tried to be announced since.  It is
announced, or it is still in the set and the last try was recent. -/
theorem writes_are_announced (rid : RepoId) (seededBytes started : ℕ)
    (hannounce : settings.ctx.noAnnounce = false)
    (hreachable : Reachable (Loop.step settings) (Timely slack) (start seededBytes started) loop)
    (hwrote : .wrote rid ∈ loop.notices) :
    ∃ time announced, lastNotice rid loop.notices = some (.tried rid time announced) ∧
      (announced = true ∧ rid ∉ loop.watcher.unannounced ∨
        announced = false ∧ rid ∈ loop.watcher.unannounced ∧
          loop.clock ≤ time + freshness settings slack) := by
  obtain ⟨hpunctual, htold⟩ : Accounted settings slack rid loop :=
    hreachable.invariant (accounted_start rid seededBytes started)
      fun _ _ _ haccounted htimely hstep => haccounted.step hannounce htimely hstep
  rw [Told] at htold
  generalize hlast : lastNotice rid loop.notices = last at htold
  cases htold with
  | nothing hout =>
      have hnone := lastWrite_eq_none_iff.mp hlast _ hwrote
      rw [Notice.about, if_pos (by rfl)] at hnone
      contradiction
  | announced time hout => exact ⟨time, true, rfl, .inl ⟨rfl, hout⟩⟩
  | failed time hin hrecent =>
      refine ⟨time, false, rfl, .inr ⟨rfl, hin, ?_⟩⟩
      have hlate := hpunctual.late.trans
        (Nat.add_le_add_left (Phase.lateness_le settings slack loop.phase) _)
      rw [Recent] at hrecent
      rw [freshness]
      omega

/-- A location written while the announcement fails is left in the set. -/
theorem writes_are_announced_later :
    let rid : RepoId := .filled 20 9
    let settings : Settings := ⟨.sample, {rid}, 900⟩
    ∃ loop, Reachable (Loop.step settings) (Timely 0) (start 70 0) loop ∧
      .wrote rid ∈ loop.notices ∧
      ∃ time announced, lastNotice rid loop.notices = some (.tried rid time announced) ∧
        (announced = true ∧ rid ∉ loop.watcher.unannounced ∨
          announced = false ∧ rid ∈ loop.watcher.unannounced ∧
            loop.clock ≤ time + freshness settings 0) := by
  intro rid settings
  let delegate : Did := .filled 32 1
  let cid := blake3HashToCid (.filled 32 7) .blob
  let release := (Release.new (.filled 20 1) none delegate 1).run
    [⟨delegate, .registerArtifact cid "app"⟩,
      ⟨delegate, .addLocation cid ⟨"https://example.com/app", by decide⟩⟩]
  let pass (rid : RepoId) : Pass :=
    ⟨rid, .ok (), .ok ({delegate}, [(.filled 20 1, release)]), .ok [], .ok (),
      fun _ => ⟨.ok (), ⟨40, .ok ()⟩, .ok ()⟩, fun _ => .error "offline"⟩
  let found : Sweep := ⟨.error "", fun _ => none, pass, fun _ => .error "offline", 0⟩
  obtain ⟨loop, hreachable, hcheck⟩ := Reachable.exists_of_run
    (show (run (guarded (Loop.step settings) (Timely 0)) (start 70 0) [.turn found]).any
        (fun loop => .wrote rid ∈ loop.notices) = true by decide +kernel)
  have hwrote : .wrote rid ∈ loop.notices := of_decide_eq_true hcheck
  exact ⟨loop, hreachable, hwrote, writes_are_announced rid 70 0 rfl hreachable hwrote⟩

end Loop

end RadicleArtifact.Watch
