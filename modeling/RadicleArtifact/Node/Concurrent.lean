import RadicleArtifact.Node.Handlers

/-!
# Unseeds among seeds

An unseed of every release lists the tags and deletes those it found, so what is seeded of the
content when it answers was seeded after the listing.  A seed lasts until an unseed of its
release deletes the tag.  The log of calls carries both: it tells which tags there are, and
which request made each call.
-/

namespace RadicleArtifact.Node

open RadicleArtifact.Core
open RadicleArtifact.Library

/-- A call of the store, with the connection that made it. -/
abbrev LogEntry : Type :=
  ℕ × TagEvent

/-! ## What the log tells -/

/-- What a call makes of a tag. -/
def TagEvent.writes (name : List Byte) : TagEvent → Option Bool
  | .set other => if other = name then some true else none
  | .listed _ => none
  | .deleted other _ => if other = name then some false else none

/-- Whether there is a tag, after the calls. -/
def tagAfter (start : Tags) (log : List LogEntry) (name : List Byte) : Bool :=
  (lastWrite (fun entry : LogEntry => entry.2.writes name) log).getD (decide (name ∈ start))

/-- The deletions of a connection, with their counts. -/
def deletions (connection : ℕ) (log : List LogEntry) : List (List Byte × ℕ) :=
  log.filterMap fun
    | (other, .deleted name count) => if other = connection then some (name, count) else none
    | _ => none

/-- An unseed of every release under way: it has listed the names of the triples it is about,
deleted some of them and has the others to delete. -/
def Unseeding (bytes : CidBytes) (start : Tags) (log : List LogEntry) (connection : ℕ)
    (rid : RepoId) (cid : Cid) (removed : ℕ) (names : List (List Byte)) : Prop :=
  ∃ before after done,
    log = before ++ (connection, .listed (done ++ names)) :: after ∧
    (∀ triple, Tags.name bytes triple ∈ done ++ names ↔
      Seeded.Seeds rid cid triple ∧ tagAfter start before (Tags.name bytes triple) = true) ∧
    (deletions connection after).map Prod.fst = done ∧
    removed = ((deletions connection after).map Prod.snd).sum

/-- What the log tells of a request. -/
def Recorded (bytes : CidBytes) (start : Tags) (log : List LogEntry) (connection : ℕ) :
    Request → Prop
  | ⟨.unseed rid none cid, _, .deleting _ removed names⟩ =>
      Unseeding bytes start log connection rid cid removed names
  | ⟨.unseed rid none cid, _, .answered (.okay receipt)⟩ =>
      ∃ removed, receipt.wasRemoved = decide (removed > 0) ∧
        Unseeding bytes start log connection rid cid removed []
  | ⟨cmd, _, stage⟩ =>
      ∀ triple, seedsOf cmd = some triple → stage.tagged cmd = true →
        (connection, .set (Tags.name bytes triple)) ∈ log

/-- The command unseeds the triple. -/
def Unseeds : Command → Triple → Prop
  | .unseed rid release cid, triple =>
      Seeded.Seeds rid cid triple ∧ ∀ wanted ∈ release, triple.2.1 = wanted
  | _, _ => False

/-- A request that asked for what the call does. -/
def Asked (bytes : CidBytes) (cmd : Command) : TagEvent → Prop
  | .set name => ∃ triple, seedsOf cmd = some triple ∧ name = Tags.name bytes triple
  | .listed _ => True
  | .deleted name _ => ∀ triple, name = Tags.name bytes triple → Unseeds cmd triple

section Log

variable {bytes : CidBytes} {start tags after : Tags} {log later : List LogEntry}
  {connection : ℕ} {name : List Byte}

theorem tagAfter_append :
    tagAfter start (log ++ later) name =
      (lastWrite (fun entry : LogEntry => entry.2.writes name) later).getD
        (tagAfter start log name) := by
  rw [tagAfter, tagAfter, lastWrite_append]
  cases lastWrite (fun entry : LogEntry => entry.2.writes name) later <;> rfl

theorem deletions_append :
    deletions connection (log ++ later) = deletions connection log ++ deletions connection later :=
  List.filterMap_append

theorem deletions_of_others (hothers : ∀ entry ∈ later, entry.1 ≠ connection) :
    deletions connection later = [] := by
  rw [deletions, List.filterMap_eq_nil_iff]
  rintro ⟨other, event⟩ hentry
  have hne : other ≠ connection := hothers _ hentry
  cases event with
  | deleted name count => exact if_neg hne
  | _ => rfl

theorem mem_deletions_iff {count : ℕ} :
    (name, count) ∈ deletions connection log ↔ (connection, .deleted name count) ∈ log := by
  rw [deletions, List.mem_filterMap]
  constructor
  · rintro ⟨⟨other, event⟩, hentry, hfound⟩
    cases event with
    | deleted found found' =>
        dsimp only at hfound
        split at hfound
        · rename_i hsame
          obtain ⟨rfl, rfl⟩ := Prod.mk.inj (Option.some.inj hfound)
          exact hsame ▸ hentry
        · contradiction
    | _ => contradiction
  · intro hentry
    exact ⟨_, hentry, if_pos rfl⟩

/-- The names an unseed lists are those of the seeded triples it is about. -/
theorem name_mem_listedNames_iff {rid : RepoId} {cid : Cid} {triple : Triple} :
    Tags.name bytes triple ∈ listedNames bytes tags rid cid ↔
      Seeded.Seeds rid cid triple ∧ Tags.name bytes triple ∈ tags := by
  rw [listedNames, List.mem_filter, Tags.namesCid_name, decide_eq_true_eq, List.mem_map]
  constructor
  · rintro ⟨⟨⟨found, value⟩, hlisted, hname⟩, hcid⟩
    obtain ⟨hmem, hinitial⟩ := List.mem_filter.mp hlisted
    obtain rfl : found = Tags.name bytes triple := hname
    have hget := BTreeMap.mem_toList.mp hmem
    refine ⟨⟨?_, hcid⟩, ?_⟩
    · exact (Tags.seededRidPrefix_prefix_iff rid triple).mp (List.isPrefixOf_iff_prefix.mp hinitial)
    · rw [Std.ExtTreeMap.mem_iff_isSome_getElem?, hget]
      rfl
  · rintro ⟨⟨hrid, hcid⟩, hmem⟩
    refine ⟨?_, hcid⟩
    rw [Std.ExtTreeMap.mem_iff_isSome_getElem?, Option.isSome_iff_exists] at hmem
    obtain ⟨value, hvalue⟩ := hmem
    refine ⟨(Tags.name bytes triple, value), List.mem_filter.mpr ⟨?_, ?_⟩, rfl⟩
    · exact BTreeMap.mem_toList.mpr hvalue
    · exact List.isPrefixOf_iff_prefix.mpr ((Tags.seededRidPrefix_prefix_iff rid triple).mpr hrid)

/-- The log goes on with what a call does to the tags. -/
theorem tag_of_moves {cmd : Command} {stage next : Stage (replyTo cmd).Payload}
    {event : Option TagEvent} (hmoves : Moves bytes tags cmd stage after next event)
    (name : List Byte) :
    decide (name ∈ after) =
      ((event.bind (TagEvent.writes name)).getD (decide (name ∈ tags))) := by
  have hdelete : ∀ {other count}, tags.delete other = (count, after) →
      decide (name ∈ after) =
        ((if other = name then some false else none).getD (decide (name ∈ tags))) := by
    intro other count hdelete
    obtain ⟨rfl, rfl⟩ := Prod.mk.inj hdelete
    by_cases hname : other = name
    · simp [hname]
    · have hsame : name ∈ tags.erase other ↔ name ∈ tags := by
        rw [Std.ExtTreeMap.mem_erase, ne_eq, compare_eq_iff_eq]
        exact and_iff_right hname
      simp only [if_neg hname, hsame, Option.getD_none]
  cases hmoves with
  | quiet cmd stage next hsilent => rfl
  | tag cmd stage next triple value hseeds htagged =>
      simp only [Option.bind_some, TagEvent.writes]
      by_cases hname : Tags.name bytes triple = name
      · simp [hname]
      · simp only [Std.ExtTreeMap.mem_insert, compare_eq_iff_eq, hname, false_or, ↓reduceIte,
          Option.getD_none]
  | untag rid release cid stage count after hdeleted => exact hdelete hdeleted
  | list rid cid stage => rfl
  | sweep rid cid index removed other names count after hdeleted => exact hdelete hdeleted
  | swept rid cid index removed => rfl

/-- What makes a tag that is there now, when there was none or it was deleted, is a call that
set it since. -/
theorem exists_set_of_tagAfter (htag : tagAfter start (log ++ later) name = true)
    (haway : tagAfter start log name = false ∨
      ∃ connection count, (connection, .deleted name count) ∈ later) :
    ∃ connection, (connection, .set name) ∈ later := by
  rw [tagAfter_append] at htag
  cases hlast : lastWrite (fun entry : LogEntry => entry.2.writes name) later with
  | none =>
      rw [hlast, Option.getD_none] at htag
      rcases haway with hfalse | ⟨connection, count, hentry⟩
      · rw [htag] at hfalse
        contradiction
      · have hnone := lastWrite_eq_none_iff.mp hlast _ hentry
        simp [TagEvent.writes] at hnone
  | some value =>
      rw [hlast, Option.getD_some] at htag
      subst htag
      obtain ⟨⟨connection, event⟩, hentry, hwrites⟩ := exists_of_lastWrite_eq_some hlast
      cases event with
      | set other =>
          obtain rfl : other = name := by
            by_contra hne
            simp [TagEvent.writes, hne] at hwrites
          exact ⟨connection, hentry⟩
      | listed names => contradiction
      | deleted other count =>
          rw [TagEvent.writes] at hwrites
          split at hwrites <;> contradiction

/-- What takes a tag away is a deletion. -/
theorem exists_deleted_of_tagAfter (htag : tagAfter start (log ++ later) name = false)
    (hthere : tagAfter start log name = true) :
    ∃ connection count, (connection, .deleted name count) ∈ later := by
  rw [tagAfter_append, hthere] at htag
  cases hlast : lastWrite (fun entry : LogEntry => entry.2.writes name) later with
  | none =>
      rw [hlast, Option.getD_none] at htag
      contradiction
  | some value =>
      rw [hlast, Option.getD_some] at htag
      subst htag
      obtain ⟨⟨connection, event⟩, hentry, hwrites⟩ := exists_of_lastWrite_eq_some hlast
      cases event with
      | set other =>
          rw [TagEvent.writes] at hwrites
          split at hwrites <;> contradiction
      | listed names => contradiction
      | deleted other count =>
          obtain rfl : other = name := by
            by_contra hne
            simp [TagEvent.writes, hne] at hwrites
          exact ⟨connection, count, hentry⟩

/-- A listing sets nothing. -/
theorem set_mem_of_cons {names : List (List Byte)}
    (hset : ∃ other, (other, .set name) ∈ ((connection, .listed names) : LogEntry) :: later) :
    ∃ other, (other, .set name) ∈ later := by
  obtain ⟨other, hentry⟩ := hset
  rcases List.mem_cons.mp hentry with heq | hentry
  · exact TagEvent.noConfusion (Prod.mk.inj heq).2
  · exact ⟨other, hentry⟩

end Log

/-! ## What is recorded of a request -/

section Recorded

variable {bytes : CidBytes} {start tags after : Tags} {log later : List LogEntry}
  {connection : ℕ}

/-- A request that tells of no tag needs nothing in the log. -/
theorem recorded_of_tells_eq_false {request : Request}
    (hsilent : request.stage.tells request.cmd = false) :
    Recorded bytes start log connection request := by
  rw [Recorded.eq_def]
  split
  · contradiction
  · contradiction
  · rename_i cmd run stage hdeleting hanswered
    intro triple hseeds htagged
    rw [Stage.tagged.eq_def] at htagged
    split at htagged
    · contradiction
    · subst htagged
      cases cmd <;> contradiction
    · contradiction

/-- A request that asked to seed needs no more than its own call. -/
theorem recorded_of_seeds {request : Request} {triple : Triple}
    (hseeds : seedsOf request.cmd = some triple)
    (hset : (connection, .set (Tags.name bytes triple)) ∈ log) :
    Recorded bytes start log connection request := by
  rw [Recorded.eq_def]
  split
  · contradiction
  · contradiction
  · intro other hother htagged
    obtain rfl := Option.some.inj (hseeds.symm.trans hother)
    exact hset

theorem set_mem_of_recorded {request : Request} {triple : Triple}
    (hseeds : seedsOf request.cmd = some triple)
    (htagged : request.stage.tagged request.cmd = true)
    (hrecorded : Recorded bytes start log connection request) :
    (connection, .set (Tags.name bytes triple)) ∈ log := by
  rw [Recorded.eq_def] at hrecorded
  split at hrecorded
  · contradiction
  · contradiction
  · exact hrecorded triple hseeds htagged

theorem Unseeding.append_others {rid : RepoId} {cid : Cid} {removed : ℕ} {names : List (List Byte)}
    (hunseeding : Unseeding bytes start log connection rid cid removed names)
    (hothers : ∀ entry ∈ later, entry.1 ≠ connection) :
    Unseeding bytes start (log ++ later) connection rid cid removed names := by
  obtain ⟨before, behind, done, rfl, hlisted, hdone, hremoved⟩ := hunseeding
  have hsame : deletions connection (behind ++ later) = deletions connection behind := by
    rw [deletions_append, deletions_of_others hothers, List.append_nil]
  refine ⟨before, behind ++ later, done, ?_, hlisted, ?_, ?_⟩
  · rw [List.append_assoc, List.cons_append]
  · rw [hsame]
    exact hdone
  · rw [hsame]
    exact hremoved

/-- The calls of others change nothing that is recorded. -/
theorem Recorded.append_others {request : Request}
    (hrecorded : Recorded bytes start log connection request)
    (hothers : ∀ entry ∈ later, entry.1 ≠ connection) :
    Recorded bytes start (log ++ later) connection request := by
  rw [Recorded.eq_def] at hrecorded ⊢
  split at hrecorded
  · exact hrecorded.append_others hothers
  · obtain ⟨removed, hreceipt, hunseeding⟩ := hrecorded
    exact ⟨removed, hreceipt, hunseeding.append_others hothers⟩
  · intro triple hseeds htagged
    exact List.mem_append_left later (hrecorded triple hseeds htagged)

theorem unseeding_of_list {rid : RepoId} {cid : Cid}
    (htags : ∀ name, decide (name ∈ tags) = tagAfter start log name) :
    Unseeding bytes start (log ++ [(connection, .listed (listedNames bytes tags rid cid))])
      connection rid cid 0 (listedNames bytes tags rid cid) := by
  refine ⟨log, [], [], rfl, fun triple => ?_, rfl, rfl⟩
  rw [List.nil_append, name_mem_listedNames_iff, ← htags, decide_eq_true_eq]

theorem Unseeding.sweep {rid : RepoId} {cid : Cid} {removed : ℕ} {name : List Byte}
    {names : List (List Byte)}
    (hunseeding : Unseeding bytes start log connection rid cid removed (name :: names))
    (count : ℕ) :
    Unseeding bytes start (log ++ [(connection, .deleted name count)]) connection rid cid
      (removed + count) names := by
  obtain ⟨before, behind, done, rfl, hlisted, hdone, hremoved⟩ := hunseeding
  have hnext : deletions connection (behind ++ [(connection, .deleted name count)]) =
      deletions connection behind ++ [(name, count)] := by
    rw [deletions_append]
    simp [deletions]
  have hnames : (done ++ [name]) ++ names = done ++ name :: names := by
    rw [List.append_assoc, List.singleton_append]
  refine ⟨before, behind ++ [(connection, .deleted name count)], done ++ [name], ?_, ?_, ?_, ?_⟩
  · rw [hnames, List.append_assoc, List.cons_append]
  · rw [hnames]
    exact hlisted
  · rw [hnext, List.map_append, hdone]
    rfl
  · rw [hnext, List.map_append, List.sum_append, hremoved]
    rfl

variable {cmd : Command} {stage next : Stage (replyTo cmd).Payload} {event : Option TagEvent}

theorem recorded_of_moves (run : RequestRun)
    (hmoves : Moves bytes tags cmd stage after next event)
    (hrecorded : Recorded bytes start log connection ⟨cmd, run, stage⟩)
    (htags : ∀ name, decide (name ∈ tags) = tagAfter start log name) :
    Recorded bytes start (log ++ event.toList.map fun event => (connection, event)) connection
      ⟨cmd, run, next⟩ := by
  cases hmoves with
  | quiet cmd stage next hsilent => exact recorded_of_tells_eq_false hsilent
  | tag cmd stage next triple value hseeds htagged =>
      exact recorded_of_seeds hseeds (List.mem_append_right log (List.mem_singleton_self _))
  | untag rid release cid stage count after hdelete =>
      intro triple hseeds htagged
      contradiction
  | list rid cid stage => exact unseeding_of_list htags
  | sweep rid cid index removed name names count after hdelete =>
      have hunseeding : Unseeding bytes start log connection rid cid removed (name :: names) :=
        hrecorded
      exact hunseeding.sweep count
  | swept rid cid index removed =>
      have hunseeding : Unseeding bytes start log connection rid cid removed [] := hrecorded
      exact ⟨removed, rfl, hunseeding.append_others (List.forall_mem_nil _)⟩

/-- A call does what the request asked for. -/
theorem asked_of_moves (run : RequestRun) {made : TagEvent}
    (hmoves : Moves bytes tags cmd stage after next (some made))
    (hrecorded : Recorded bytes start log connection ⟨cmd, run, stage⟩) :
    Asked bytes cmd made := by
  cases hmoves with
  | tag cmd stage next triple value hseeds htagged => exact ⟨triple, hseeds, rfl⟩
  | untag rid release cid stage count after hdelete =>
      intro triple hname
      obtain rfl := Tags.name_injective hname
      refine ⟨⟨rfl, rfl⟩, fun wanted hwanted => ?_⟩
      exact Option.some.inj hwanted
  | list rid cid stage => trivial
  | sweep rid cid index removed name names count after hdelete =>
      have hunseeding : Unseeding bytes start log connection rid cid removed (name :: names) :=
        hrecorded
      obtain ⟨before, behind, done, -, hlisted, -, -⟩ := hunseeding
      intro triple hname
      subst hname
      have hmine := (hlisted triple).mp (List.mem_append_right done List.mem_cons_self)
      exact ⟨hmine.1, fun wanted hwanted => by contradiction⟩

end Recorded

/-! ## Runs -/

namespace Server

variable {blake3 : Blake3} {ctx : DispatchCtx blake3} {server next : Server blake3}
  {node : NodeState blake3}

structure Logged (bytes : CidBytes) (start : Tags) (server : Server blake3) : Prop where
  tags : ∀ name, decide (name ∈ server.node.tags) = tagAfter start server.log name
  recorded : ∀ connection request, server.request connection = some request →
    Recorded bytes start server.log connection request
  asked : ∀ entry ∈ server.log, ∃ request,
    server.request entry.1 = some request ∧ Asked bytes request.cmd entry.2

theorem request_setHandler {connection : ℕ} {handler : Handler}
    (hhandler : server.handlers[connection]? = some handler) (other : Handler) (wanted : ℕ) :
    (server.setHandler connection other).request wanted =
      if wanted = connection then other.request else server.request wanted := by
  obtain ⟨hlt, -⟩ := List.getElem?_eq_some_iff.mp hhandler
  rw [request, setHandler]
  by_cases hwanted : wanted = connection
  · subst hwanted
    rw [if_pos rfl, List.getElem?_set_self hlt, Option.bind_some]
  · rw [if_neg hwanted, List.getElem?_set_ne (Ne.symm hwanted)]
    rfl

/-- A connection that was just accepted has no request. -/
theorem request_accept (wanted : ℕ) :
    (server.handlers ++ [(⟨none, true⟩ : Handler)])[wanted]?.bind Handler.request =
      server.request wanted := by
  rw [request, List.getElem?_append]
  split
  · rfl
  · rename_i hle
    rw [List.getElem?_eq_none (Nat.not_lt.mp hle)]
    cases wanted - server.handlers.length <;> rfl

/-- A request of a connection gives way to one that tells of no tag. -/
theorem Logged.setRequest {bytes : CidBytes} {start : Tags} (hlogged : server.Logged bytes start)
    {connection : ℕ} {handler : Handler}
    (hhandler : server.handlers[connection]? = some handler) {request : Request}
    (hsilent : request.stage.tells request.cmd = false)
    (hcmd : ∀ prior, handler.request = some prior → prior.cmd = request.cmd) :
    (server.setHandler connection ⟨some request, true⟩).Logged bytes start where
  tags := hlogged.tags
  recorded := by
    intro wanted found hfound
    rw [request_setHandler hhandler] at hfound
    split at hfound
    · obtain rfl := Option.some.inj hfound
      exact recorded_of_tells_eq_false hsilent
    · exact hlogged.recorded wanted found hfound
  asked := by
    intro entry hentry
    obtain ⟨prior, hprior, hasked⟩ := hlogged.asked entry hentry
    rw [request_setHandler hhandler]
    split
    · rename_i hconnection
      rw [Server.request, hconnection, hhandler, Option.bind_some] at hprior
      exact ⟨request, rfl, hcmd prior hprior ▸ hasked⟩
    · exact ⟨prior, hprior, hasked⟩

theorem Logged.advance (hlogged : server.Logged ctx.bytes node.tags) {connection : ℕ}
    {request : Request} (hhandler : server.handlers[connection]? = some ⟨some request, true⟩)
    {after : NodeState blake3} {stage : Stage (replyTo request.cmd).Payload}
    {event : Option TagEvent}
    (hmoves : Moves ctx.bytes server.node.tags request.cmd request.stage after.tags stage event) :
    Server.Logged ctx.bytes node.tags
      { server.setHandler connection ⟨some { request with stage := stage }, true⟩ with
        node := after
        log := server.log ++ event.toList.map fun event => (connection, event) } := by
  have hrequest : server.request connection = some request := by
    rw [Server.request, hhandler, Option.bind_some]
  have hprior := hlogged.recorded connection request hrequest
  have hmine : ∀ entry ∈ event.toList.map fun event => ((connection, event) : LogEntry),
      entry.1 = connection := by
    intro entry hentry
    obtain ⟨made, -, rfl⟩ := List.mem_map.mp hentry
    rfl
  constructor
  · intro name
    rw [tagAfter_append, ← hlogged.tags, tag_of_moves hmoves name]
    cases event with
    | none => rfl
    | some made =>
        rw [Option.toList_some, List.map_singleton, lastWrite_cons]
        rfl
  · intro wanted found hfound
    have hget : (server.setHandler connection
        ⟨some { request with stage := stage }, true⟩).request wanted = some found := hfound
    rw [request_setHandler hhandler] at hget
    split at hget
    · rename_i hwanted
      obtain rfl := Option.some.inj hget
      subst hwanted
      exact recorded_of_moves request.run hmoves hprior hlogged.tags
    · rename_i hwanted
      apply (hlogged.recorded wanted found hget).append_others
      intro entry hentry
      rw [hmine entry hentry]
      exact Ne.symm hwanted
  · intro entry hentry
    show ∃ prior, (server.setHandler connection
      ⟨some { request with stage := stage }, true⟩).request entry.1 = some prior ∧ _
    rw [request_setHandler hhandler]
    rcases List.mem_append.mp hentry with hold | hnew
    · obtain ⟨prior, hfound, hasked⟩ := hlogged.asked entry hold
      split
      · rename_i hconnection
        rw [hconnection, hrequest] at hfound
        obtain rfl := Option.some.inj hfound
        exact ⟨_, rfl, hasked⟩
      · exact ⟨prior, hfound, hasked⟩
    · rw [if_pos (hmine entry hnew)]
      obtain ⟨made, hmade, rfl⟩ := List.mem_map.mp hnew
      obtain rfl := Option.mem_toList.mp hmade
      exact ⟨_, rfl, asked_of_moves request.run hmoves hprior⟩

theorem Logged.change (hlogged : server.Logged ctx.bytes node.tags)
    (hchange : Change ctx server next) : next.Logged ctx.bytes node.tags := by
  cases hchange with
  | signal => exact ⟨hlogged.tags, hlogged.recorded, hlogged.asked⟩
  | accept =>
      refine ⟨hlogged.tags, fun wanted found hfound => ?_, fun entry hentry => ?_⟩
      · exact hlogged.recorded wanted found ((request_accept wanted).symm.trans hfound)
      · obtain ⟨prior, hprior, hasked⟩ := hlogged.asked entry hentry
        exact ⟨prior, (request_accept entry.1).trans hprior, hasked⟩
  | receive connection cmd run hhandler =>
      refine hlogged.setRequest hhandler ?_ fun prior hprior => by contradiction
      cases cmd <;> rfl
  | fetch connection request hhandler hstage =>
      refine hlogged.setRequest hhandler ?_ fun prior hprior => ?_
      · cases request.cmd <;> rfl
      · obtain rfl := Option.some.inj hprior
        rfl
  | advance connection request hhandler after stage event hended hmoves =>
      exact hlogged.advance hhandler hmoves
  | finish connection handler hhandler hrunning hdone =>
      have hsame : ∀ wanted, (server.finish connection handler).request wanted =
          server.request wanted := by
        intro wanted
        have hset := request_setHandler hhandler { handler with running := false } wanted
        refine Eq.trans hset ?_
        split
        · rename_i hwanted
          rw [Server.request, hwanted, hhandler, Option.bind_some]
        · rfl
      refine ⟨hlogged.tags, fun wanted found hfound => ?_, fun entry hentry => ?_⟩
      · exact hlogged.recorded wanted found (hsame wanted ▸ hfound)
      · rw [hsame]
        exact hlogged.asked entry hentry
  | stop => exact ⟨hlogged.tags, hlogged.recorded, hlogged.asked⟩
  | down givenUp hempty => exact ⟨hlogged.tags, hlogged.recorded, hlogged.asked⟩

theorem logged_start : (start node).Logged ctx.bytes node.tags where
  tags _ := rfl
  recorded _ _ hfound := by
    simp [start, Server.request] at hfound
  asked := List.forall_mem_nil _

theorem logged_of_reachable
    (hreachable : Reachable (Server.step ctx) anyStep (start node) server) :
    server.Logged ctx.bytes node.tags :=
  hreachable.invariant logged_start fun _ _ _ hlogged _ hstep =>
    hlogged.change (change_of_step hstep).2

/-- An unseed of every release that was answered has listed the tags and deleted those it found
and no others, and it says whether any was there to delete.  Whatever order the calls of the
store came in, a release that seeds the content now was tagged after that listing. -/
theorem unseed_leaves_later_seeds
    (hreachable : Reachable (Server.step ctx) anyStep (start node) server) {connection : ℕ}
    {rid : RepoId} {cid : Cid} {run : RequestRun} {receipt : UnseedReceipt}
    (hrequest : server.request connection =
      some ⟨.unseed rid none cid, run, .answered (.okay receipt)⟩) :
    ∃ before after, ∃ listed : List (List Byte),
      server.log = before ++ (connection, .listed listed) :: after ∧
      (∀ triple, Tags.name ctx.bytes triple ∈ listed ↔ Seeded.Seeds rid cid triple ∧
        tagAfter node.tags before (Tags.name ctx.bytes triple) = true) ∧
      (∀ name, name ∈ listed ↔ ∃ count, (connection, .deleted name count) ∈ after) ∧
      (receipt.wasRemoved = true ↔
        ∃ name count, 0 < count ∧ (connection, .deleted name count) ∈ after) ∧
      ∀ release, server.node.tags.isSeeded ctx.bytes rid release cid = true →
        ∃ other, (other, .set (Tags.seededTag ctx.bytes rid release cid)) ∈ after := by
  have hlogged := logged_of_reachable hreachable
  obtain ⟨removed, hreceipt, before, after, done, hlog, hlisted, hdone, hremoved⟩ :=
    hlogged.recorded connection _ hrequest
  rw [List.append_nil] at hlog hlisted
  have hdeleted : ∀ name, name ∈ done ↔ ∃ count, (connection, .deleted name count) ∈ after := by
    intro name
    rw [← hdone, List.mem_map]
    constructor
    · rintro ⟨⟨found, count⟩, hfound, rfl⟩
      exact ⟨count, mem_deletions_iff.mp hfound⟩
    · rintro ⟨count, hentry⟩
      exact ⟨(name, count), mem_deletions_iff.mpr hentry, rfl⟩
  refine ⟨before, after, done, hlog, hlisted, hdeleted, ?_, fun release hseeded => ?_⟩
  · rw [hreceipt, decide_eq_true_eq, hremoved, gt_iff_lt, List.sum_pos_iff_exists_pos_nat]
    constructor
    · rintro ⟨count, hcount, hpos⟩
      obtain ⟨⟨name, found⟩, hfound, rfl⟩ := List.mem_map.mp hcount
      exact ⟨name, found, hpos, mem_deletions_iff.mp hfound⟩
    · rintro ⟨name, count, hpos, hentry⟩
      exact ⟨count, List.mem_map.mpr ⟨(name, count), mem_deletions_iff.mpr hentry, rfl⟩, hpos⟩
  · have hname : Tags.seededTag ctx.bytes rid release cid =
        Tags.name ctx.bytes (rid, release, cid) := rfl
    rw [Tags.isSeeded, ← Std.ExtTreeMap.mem_iff_isSome_getElem?] at hseeded
    have htag : tagAfter node.tags (before ++ (connection, .listed done) :: after)
        (Tags.seededTag ctx.bytes rid release cid) = true := by
      rw [← hlog, ← hlogged.tags]
      exact decide_eq_true hseeded
    by_cases hthere : Tags.name ctx.bytes (rid, release, cid) ∈ done
    · obtain ⟨count, hentry⟩ := (hdeleted _).mp hthere
      have hlater := exists_set_of_tagAfter htag
        (.inr ⟨connection, count, List.mem_cons_of_mem _ hentry⟩)
      exact set_mem_of_cons hlater
    · have haway : tagAfter node.tags before (Tags.name ctx.bytes (rid, release, cid)) = false := by
        rw [← Bool.not_eq_true]
        exact fun htrue => hthere ((hlisted _).mpr ⟨⟨rfl, rfl⟩, htrue⟩)
      exact set_mem_of_cons (exists_set_of_tagAfter htag (.inl haway))

set_option maxRecDepth 4000 in
/-- An unseed lists the tag of one release, and a seed of another comes before it is deleted: the
node starts with the tag of an artifact. -/
theorem unseed_leaves_later_seeds_of_seed :
    let cid := blake3HashToCid (lengthHash [1]) .blob
    let bytes := CidBytes.sample cid ([0x01, 0x55, 0x1e, 0x20] ++ List.replicate 32 1) (by decide)
    let ctx := DispatchCtx.sample lengthHash bytes
    let tags : Tags := Std.ExtTreeMap.insert ∅
      (Tags.seededTag bytes (.filled 20 1) (.filled 20 5) cid) ⟨lengthHash [1], .raw⟩
    ∃ server, Reachable (Server.step ctx) anyStep (start ⟨.empty lengthHash, tags, false⟩) server ∧
      (∃ name count, 0 < count ∧ (0, .deleted name count) ∈ server.log) ∧
      ∀ release, server.node.tags.isSeeded bytes (.filled 20 1) release cid = true →
        ∃ other, (other, .set (Tags.seededTag bytes (.filled 20 1) release cid)) ∈ server.log := by
  intro cid bytes ctx tags
  let run := RequestRun.faultless (some (.file [1]))
  let unseed : Command := .unseed (.filled 20 1) none cid
  let seed : Command := .seed (.filled 20 1) (.filled 20 6) cid (Utf8.encode "app") .blob .copy
  have hrun : (Library.run (guarded (Server.step ctx) anyStep)
      (start ⟨.empty lengthHash, tags, false⟩) [.accept, .accept, .receive 0 unseed run,
        .advance 0, .receive 1 seed run, .advance 1, .advance 1, .advance 1, .advance 0,
        .advance 0]).map (fun server => server.request 0) =
      some (some ⟨unseed, run, .answered (.okay ⟨.filled 20 1, cid, true⟩)⟩) := rfl
  obtain ⟨server, hserver, hrequest⟩ := Option.map_eq_some_iff.mp hrun
  have hreachable := Reachable.of_run hserver
  obtain ⟨before, after, listed, hlog, -, -, hremoved, hlater⟩ :=
    unseed_leaves_later_seeds hreachable hrequest
  have hmade : ∀ entry ∈ after, entry ∈ server.log := fun entry hentry =>
    hlog ▸ List.mem_append_right before (List.mem_cons_of_mem _ hentry)
  refine ⟨server, hreachable, ?_, fun release hseeded => ?_⟩
  · obtain ⟨name, count, hpos, hentry⟩ := hremoved.mp rfl
    exact ⟨name, count, hpos, hmade _ hentry⟩
  · obtain ⟨other, hentry⟩ := hlater release hseeded
    exact ⟨other, hmade _ hentry⟩

/-- The tag of a seed that was answered, or that a stream has set, is there until an unseed that
covers its release deletes it. -/
theorem seed_lasts_until_unseed
    (hreachable : Reachable (Server.step ctx) anyStep (start node) server) {connection : ℕ}
    {request : Request} (hrequest : server.request connection = some request) {triple : Triple}
    (hseeds : seedsOf request.cmd = some triple)
    (htagged : request.stage.tagged request.cmd = true) :
    ∃ before after,
      server.log = before ++ (connection, .set (Tags.name ctx.bytes triple)) :: after ∧
      (Tags.name ctx.bytes triple ∈ server.node.tags ∨
        ∃ other count unseed, (other, .deleted (Tags.name ctx.bytes triple) count) ∈ after ∧
          server.request other = some unseed ∧ Unseeds unseed.cmd triple) := by
  have hlogged := logged_of_reachable hreachable
  have hset := set_mem_of_recorded hseeds htagged (hlogged.recorded connection request hrequest)
  obtain ⟨before, after, hlog⟩ := List.append_of_mem hset
  refine ⟨before, after, hlog, ?_⟩
  by_cases hmem : Tags.name ctx.bytes triple ∈ server.node.tags
  · exact .inl hmem
  · right
    have htag : tagAfter node.tags
        ((before ++ [(connection, .set (Tags.name ctx.bytes triple))]) ++ after)
        (Tags.name ctx.bytes triple) = false := by
      rw [List.append_assoc, List.singleton_append, ← hlog, ← hlogged.tags]
      exact decide_eq_false hmem
    have hthere : tagAfter node.tags
        (before ++ [(connection, .set (Tags.name ctx.bytes triple))])
        (Tags.name ctx.bytes triple) = true := by
      rw [tagAfter_append]
      simp [lastWrite, TagEvent.writes]
    obtain ⟨other, count, hentry⟩ := exists_deleted_of_tagAfter htag hthere
    have hmade : (other, .deleted (Tags.name ctx.bytes triple) count) ∈ server.log := by
      rw [hlog]
      exact List.mem_append_right before (List.mem_cons_of_mem _ hentry)
    obtain ⟨unseed, hunseed, hasked⟩ := hlogged.asked _ hmade
    exact ⟨other, count, unseed, hentry, hunseed, hasked triple rfl⟩

/-- A fetch tags the artifact, and an unseed of the release comes after. -/
theorem seed_lasts_until_unseed_of_fetch :
    let cid := blake3HashToCid (lengthHash [1]) .blob
    let bytes := CidBytes.sample cid ([0x01, 0x55, 0x1e, 0x20] ++ List.replicate 32 1) (by decide)
    let ctx := DispatchCtx.sample lengthHash bytes
    let triple : Triple := (.filled 20 1, .filled 20 5, cid)
    ∃ server, Reachable (Server.step ctx) anyStep (start ⟨.empty lengthHash, ∅, false⟩) server ∧
      server.handlers.length = 2 ∧
      (Tags.name bytes triple ∈ server.node.tags ∨ ∃ other count unseed,
        (other, .deleted (Tags.name bytes triple) count) ∈ server.log ∧
          server.request other = some unseed ∧ Unseeds unseed.cmd triple) := by
  intro cid bytes ctx triple
  let run := RequestRun.faultless none
  let fetch : Command := .fetch (.filled 20 1) cid [] (some (.filled 20 5))
  let unseed : Command := .unseed (.filled 20 1) (some (.filled 20 5)) cid
  have hrun : (Library.run (guarded (Server.step ctx) anyStep)
      (start ⟨.empty lengthHash, ∅, false⟩) [.accept, .accept, .receive 0 fetch run, .fetch 0,
        .advance 0, .receive 1 unseed run, .advance 1]).map
      (fun server => (server.request 0, server.handlers.length)) =
        some (some ⟨fetch, run, .streamed true⟩, 2) := rfl
  obtain ⟨server, hserver, hchecks⟩ := Option.map_eq_some_iff.mp hrun
  obtain ⟨hrequest, hlength⟩ := Prod.mk.inj hchecks
  have hreachable := Reachable.of_run hserver
  have hseeds : seedsOf fetch = some triple := rfl
  obtain ⟨before, after, hlog, hlasts⟩ := seed_lasts_until_unseed hreachable hrequest hseeds rfl
  refine ⟨server, hreachable, hlength, ?_⟩
  rcases hlasts with hmem | ⟨other, count, found, hentry, hfound, hunseeds⟩
  · exact .inl hmem
  · refine .inr ⟨other, count, found, ?_, hfound, hunseeds⟩
    rw [hlog]
    exact List.mem_append_right before (List.mem_cons_of_mem _ hentry)

end Server

end RadicleArtifact.Node
