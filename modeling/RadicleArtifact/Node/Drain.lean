import RadicleArtifact.Node.Handlers

/-!
# Counting handlers

Two counts hold in every order of steps.  The handlers in flight are those that run, so a node
that stops waiting because none is left has cut none off.  And of the removals that are
reported for a release there are never more than seeds of it.
-/

namespace RadicleArtifact.Node

open RadicleArtifact.Core
open RadicleArtifact.Library

/-- The request of a handler that has returned is over. -/
def Handler.Done (handler : Handler) : Prop :=
  handler.running = false → ∀ request, handler.request = some request →
    streams request.cmd = true ∨ ∃ result, request.stage = .answered result

namespace Server

variable {blake3 : Blake3} {ctx : DispatchCtx blake3} {server next : Server blake3}

/-- Counting after one handler was replaced. -/
theorem countP_setHandler {connection : ℕ} {handler : Handler}
    (hhandler : server.handlers[connection]? = some handler) (other : Handler)
    (test : Handler → Bool) :
    (server.setHandler connection other).handlers.countP test + (test handler).toNat =
      server.handlers.countP test + (test other).toNat := by
  obtain ⟨hlt, hget⟩ := List.getElem?_eq_some_iff.mp hhandler
  have hset : (server.setHandler connection other).handlers.countP test =
      server.handlers.countP test - (test handler).toNat + (test other).toNat := by
    rw [setHandler, List.countP_set hlt, hget]
    cases test handler <;> cases test other <;> rfl
  have hle : (test handler).toNat ≤ server.handlers.countP test := by
    cases htest : test handler with
    | false => exact Nat.zero_le _
    | true => exact List.countP_pos_iff.mpr ⟨handler, List.mem_of_getElem? hhandler, htest⟩
  omega

/-- The handler in the place of another is the new one. -/
theorem mem_setHandler {connection : ℕ} {handler other : Handler}
    (hmem : handler ∈ (server.setHandler connection other).handlers) :
    handler ∈ server.handlers ∨ handler = other :=
  List.mem_or_eq_of_mem_set hmem

/-! ## Handlers in flight -/

structure Counted (server : Server blake3) : Prop where
  inFlight : server.inFlight = server.handlers.countP Handler.running
  drained : server.loop = .down false → server.inFlight = 0
  done : ∀ handler ∈ server.handlers, Handler.Done handler

theorem counted_start (node : NodeState blake3) : (start node).Counted where
  inFlight := rfl
  drained := fun _ => rfl
  done := List.forall_mem_nil _

/-- Replacing a running handler by a running one. -/
theorem Counted.setRunning (hcounted : server.Counted) {connection : ℕ}
    {request : Option Request} (other : Option Request)
    (hhandler : server.handlers[connection]? = some ⟨request, true⟩) :
    (server.setHandler connection ⟨other, true⟩).handlers.countP Handler.running =
        server.inFlight ∧
      ∀ handler ∈ (server.setHandler connection ⟨other, true⟩).handlers, Handler.Done handler := by
  have hcount := countP_setHandler hhandler ⟨other, true⟩ Handler.running
  constructor
  · rw [hcounted.inFlight]
    exact Nat.add_right_cancel hcount
  · intro handler hmem
    rcases mem_setHandler hmem with hold | rfl
    · exact hcounted.done handler hold
    · exact fun hrunning => by contradiction

theorem Counted.change (hcounted : server.Counted)
    (hlive : ∀ givenUp, server.loop ≠ .down givenUp) (hchange : Change ctx server next) :
    next.Counted := by
  cases hchange with
  | signal => exact ⟨hcounted.inFlight, hcounted.drained, hcounted.done⟩
  | accept =>
      refine ⟨?_, fun hdown => absurd hdown (hlive false), ?_⟩
      · rw [List.countP_append, ← hcounted.inFlight]
        rfl
      · intro handler hmem
        rcases List.mem_append.mp hmem with hold | hnew
        · exact hcounted.done handler hold
        · obtain rfl := List.mem_singleton.mp hnew
          exact fun hrunning => by contradiction
  | receive connection cmd run hhandler =>
      obtain ⟨hcount, hdone⟩ := hcounted.setRunning (some ⟨cmd, run, .received⟩) hhandler
      exact ⟨hcount.symm, hcounted.drained, hdone⟩
  | fetch connection request hhandler hstage =>
      obtain ⟨hcount, hdone⟩ :=
        hcounted.setRunning (some { request with stage := .fetched }) hhandler
      exact ⟨hcount.symm, hcounted.drained, hdone⟩
  | advance connection request hhandler node stage event hended hmoves =>
      obtain ⟨hcount, hdone⟩ :=
        hcounted.setRunning (some { request with stage := stage }) hhandler
      exact ⟨hcount.symm, hcounted.drained, hdone⟩
  | finish connection handler hhandler hrunning hdone =>
      have hcount := countP_setHandler hhandler { handler with running := false } Handler.running
      rw [hrunning] at hcount
      refine ⟨?_, fun hdown => absurd hdown (hlive false), ?_⟩
      · have hsum : (server.setHandler connection { handler with running := false }).handlers.countP
            Handler.running + 1 = server.inFlight + 0 := by
          rw [hcounted.inFlight]
          exact hcount
        show server.inFlight - 1 = _
        exact (Nat.eq_sub_of_add_eq hsum).symm
      · intro other hmem
        rcases mem_setHandler hmem with hold | rfl
        · exact hcounted.done other hold
        · exact fun _ => hdone
  | stop => exact ⟨hcounted.inFlight, fun hdown => by contradiction, hcounted.done⟩
  | down givenUp hempty =>
      refine ⟨hcounted.inFlight, fun hdown => hempty ?_, hcounted.done⟩
      exact Loop.down.inj hdown

theorem counted_of_reachable {node : NodeState blake3}
    (hreachable : Reachable (Server.step ctx) anyStep (start node) server) : server.Counted :=
  hreachable.invariant (counted_start node) fun _ _ _ hcounted _ hstep =>
    hcounted.change (change_of_step hstep).1 (change_of_step hstep).2

/-- In whatever order connections are accepted, served and closed, the count in flight is that of
the handlers that run, and when a node returns without giving up its wait, every handler has
returned and every one-shot command that was read has its answer. -/
theorem drained_before_return {node : NodeState blake3}
    (hreachable : Reachable (Server.step ctx) anyStep (start node) server) :
    server.inFlight = server.handlers.countP Handler.running ∧
      (server.loop = .down false → ∀ handler ∈ server.handlers, handler.running = false ∧
        ∀ request, handler.request = some request →
          streams request.cmd = true ∨ ∃ result, request.stage = .answered result) := by
  have hcounted := counted_of_reachable hreachable
  refine ⟨hcounted.inFlight, fun hdown handler hmem => ?_⟩
  have hnone : server.handlers.countP Handler.running = 0 :=
    hcounted.inFlight.symm.trans (hcounted.drained hdown)
  have hstopped : handler.running = false := by
    rw [← Bool.not_eq_true]
    exact List.countP_eq_zero.mp hnone handler hmem
  exact ⟨hstopped, hcounted.done handler hmem hstopped⟩

/-- A client asks for a shutdown while another connection is open; the node waits for both. -/
theorem drained_before_return_of_shutdown :
    let bytes := CidBytes.sample (blake3HashToCid (.filled 32 7) .blob)
      ([0x01, 0x55, 0x1e, 0x20] ++ List.replicate 32 7) (by decide)
    let ctx := DispatchCtx.sample lengthHash bytes
    ∃ server, Reachable (Server.step ctx) anyStep (start ⟨.empty lengthHash, ∅, false⟩) server ∧
      server.loop = .down false ∧ server.handlers.length = 2 ∧
        ∀ handler ∈ server.handlers, handler.running = false := by
  intro bytes ctx
  have hrun : (run (guarded (Server.step ctx) anyStep) (start ⟨.empty lengthHash, ∅, false⟩)
      [.accept, .accept, .receive 1 .shutdown (.faultless none), .advance 1, .stop, .close 1,
        .receive 0 .alive (.faultless none), .advance 0, .close 0, .drained]).any
      (fun server => server.loop = .down false ∧ server.handlers.length = 2) = true := by decide
  obtain ⟨server, hreachable, hcheck⟩ := Reachable.exists_of_run hrun
  obtain ⟨hdown, hlength⟩ := of_decide_eq_true hcheck
  exact ⟨server, hreachable, hdown, hlength, fun handler hmem =>
    ((drained_before_return hreachable).2 hdown handler hmem).1⟩

end Server

/-! ## Removals -/

/-- The request has set the tag of the triple. -/
def Request.tags (triple : Triple) (request : Request) : Bool :=
  decide (seedsOf request.cmd = some triple) && request.stage.tagged request.cmd

/-- The request is an unseed of one release, answered that it was seeded. -/
def Request.reports (triple : Triple) : Request → Bool
  | ⟨.unseed rid (some release) cid, _, .answered (.okay receipt)⟩ =>
      decide ((rid, release, cid) = triple) && receipt.wasRemoved
  | _ => false

def Handler.counts (test : Request → Bool) (handler : Handler) : Bool :=
  handler.request.any test

@[simp]
theorem counts_none (test : Request → Bool) (running : Bool) :
    Handler.counts test ⟨none, running⟩ = false := rfl

@[simp]
theorem counts_some (test : Request → Bool) (request : Request) (running : Bool) :
    Handler.counts test ⟨some request, running⟩ = test request := rfl

section Removals

variable {bytes : CidBytes} {tags after : Tags} {triple : Triple}

/-- Whether the triple is seeded, as a number. -/
def present (bytes : CidBytes) (tags : Tags) (triple : Triple) : ℕ :=
  (decide (Tags.name bytes triple ∈ tags)).toNat

theorem present_insert_self (value : HashAndFormat) :
    present bytes (tags.insert (Tags.name bytes triple) value) triple = 1 := by
  rw [present, decide_eq_true Std.ExtTreeMap.mem_insert_self]
  rfl

theorem present_insert_of_ne {other : Triple} (hne : other ≠ triple) (value : HashAndFormat) :
    present bytes (tags.insert (Tags.name bytes other) value) triple =
      present bytes tags triple := by
  have hnames : Tags.name bytes other ≠ Tags.name bytes triple :=
    fun heq => hne (Tags.name_injective heq)
  simp only [present, Std.ExtTreeMap.mem_insert, compare_eq_iff_eq, hnames, false_or]

/-- A deletion that is reported takes the triple away, and any deletion leaves it away. -/
theorem present_delete (bytes : CidBytes) (triple : Triple) {name : List Byte} {count : ℕ}
    (hdelete : tags.delete name = (count, after)) :
    present bytes after triple ≤ present bytes tags triple ∧
      (name = Tags.name bytes triple → (decide (count > 0)).toNat + present bytes after triple =
        present bytes tags triple) := by
  obtain ⟨rfl, rfl⟩ := Prod.mk.inj hdelete
  by_cases hname : name = Tags.name bytes triple
  · subst hname
    have haway : present bytes (tags.erase (Tags.name bytes triple)) triple = 0 := by
      simp [present]
    rw [haway]
    by_cases hmem : Tags.name bytes triple ∈ tags <;> simp [present, hmem]
  · have hsame : Tags.name bytes triple ∈ tags.erase name ↔ Tags.name bytes triple ∈ tags := by
      rw [Std.ExtTreeMap.mem_erase, ne_eq, compare_eq_iff_eq]
      exact and_iff_right hname
    refine ⟨?_, fun heq => absurd heq hname⟩
    simp only [present, hsame, le_refl]

/-- Only the end of a request tells of a tag that was set. -/
theorem tells_of_tagged {cmd : Command} {stage : Stage (replyTo cmd).Payload}
    (htagged : stage.tagged cmd = true) : stage.tells cmd = true ∧ stage.ended = true := by
  rw [Stage.tagged.eq_def] at htagged
  split at htagged
  · exact ⟨rfl, rfl⟩
  · refine ⟨?_, rfl⟩
    rw [← htagged]
    cases cmd <;> rfl
  · contradiction

/-- Only the end of an unseed tells of a tag that was removed. -/
theorem tells_of_reports {request : Request} (hreports : request.reports triple = true) :
    request.stage.tells request.cmd = true ∧ request.stage.ended = true ∧
      seedsOf request.cmd = none := by
  rw [Request.reports.eq_def] at hreports
  split at hreports
  · exact ⟨rfl, rfl, rfl⟩
  · contradiction

theorem tags_eq_true_iff {request : Request} :
    request.tags triple = true ↔
      seedsOf request.cmd = some triple ∧ request.stage.tagged request.cmd = true := by
  rw [Request.tags, Bool.and_eq_true, decide_eq_true_eq]

/-- A request that is under way, or tells of no tag, has set and removed none. -/
theorem silent_of_eq_false (triple : Triple) (request : Request)
    (hsilent : request.stage.ended = false ∨ request.stage.tells request.cmd = false) :
    request.reports triple = false ∧ request.tags triple = false := by
  constructor
  · rw [← Bool.not_eq_true]
    intro hreports
    obtain ⟨htells, hended, -⟩ := tells_of_reports hreports
    rcases hsilent with hfalse | hfalse
    · exact Bool.false_ne_true (hfalse.symm.trans hended)
    · exact Bool.false_ne_true (hfalse.symm.trans htells)
  · rw [← Bool.not_eq_true, tags_eq_true_iff]
    rintro ⟨-, htagged⟩
    obtain ⟨htells, hended⟩ := tells_of_tagged htagged
    rcases hsilent with hfalse | hfalse
    · exact Bool.false_ne_true (hfalse.symm.trans hended)
    · exact Bool.false_ne_true (hfalse.symm.trans htells)

/-- A removal is reported of a triple that was seeded and is no more, and a triple that was not
seeded and is now was set by the request. -/
theorem balance_of_moves (triple : Triple) {cmd : Command}
    {stage next : Stage (replyTo cmd).Payload} {event : Option TagEvent} (run : RequestRun)
    (hmoves : Moves bytes tags cmd stage after next event) :
    (Request.reports triple ⟨cmd, run, next⟩).toNat + present bytes after triple ≤
      (Request.tags triple ⟨cmd, run, next⟩).toNat + present bytes tags triple := by
  cases hmoves with
  | quiet cmd stage next hsilent =>
      have hnone : Request.reports triple ⟨cmd, run, next⟩ = false ∧ _ :=
        silent_of_eq_false triple _ (.inr hsilent)
      rw [hnone.1, hnone.2]
  | tag cmd stage next other value hseeds htagged =>
      have hreports : Request.reports triple ⟨cmd, run, next⟩ = false := by
        rw [← Bool.not_eq_true]
        intro hreports
        rw [(tells_of_reports hreports).2.2] at hseeds
        contradiction
      rw [hreports, Bool.toNat_false, Nat.zero_add]
      by_cases hother : other = triple
      · subst hother
        have htags : Request.tags other ⟨cmd, run, next⟩ = true :=
          tags_eq_true_iff.mpr ⟨hseeds, htagged⟩
        rw [present_insert_self, htags]
        exact Nat.le_add_right _ _
      · rw [present_insert_of_ne hother]
        exact Nat.le_add_left _ _
  | untag rid release cid stage count after hdelete =>
      obtain ⟨hle, hreported⟩ := present_delete bytes triple hdelete
      have htags : Request.tags triple ⟨.unseed rid (some release) cid, run,
          .answered (.okay ⟨rid, cid, decide (count > 0)⟩)⟩ = false := rfl
      have hreports : Request.reports triple ⟨.unseed rid (some release) cid, run,
          .answered (.okay ⟨rid, cid, decide (count > 0)⟩)⟩ =
            (decide (((rid, release, cid) : Triple) = triple) && decide (count > 0)) := rfl
      rw [htags, hreports]
      by_cases htriple : ((rid, release, cid) : Triple) = triple
      · subst htriple
        rw [decide_eq_true rfl, Bool.true_and, hreported rfl]
        exact Nat.le_add_left _ _
      · rw [decide_eq_false htriple, Bool.false_and, Bool.toNat_false]
        exact Nat.add_le_add_left hle 0
  | list rid cid stage =>
      exact Nat.le_refl _
  | sweep rid cid index removed name names count after hdelete =>
      exact Nat.add_le_add_left (present_delete bytes triple hdelete).1 0
  | swept rid cid index removed =>
      exact Nat.le_refl _

end Removals

namespace Server

variable {blake3 : Blake3} {ctx : DispatchCtx blake3} {server next : Server blake3}
  {node : NodeState blake3} {triple : Triple}

/-- How many requests a test holds of. -/
def count (server : Server blake3) (test : Request → Bool) : ℕ :=
  server.handlers.countP (Handler.counts test)

/-- The removals reported, and the triple if it is there, against the seeds and the triple if it
was there. -/
def Balanced (bytes : CidBytes) (start : Tags) (triple : Triple) (server : Server blake3) : Prop :=
  server.count (Request.reports triple) + present bytes server.node.tags triple ≤
    server.count (Request.tags triple) + present bytes start triple

/-- The balance is kept when a handler gives way to one that reports no more than it takes from
the tags. -/
theorem Balanced.setHandler {bytes : CidBytes} {start : Tags}
    (hbalanced : server.Balanced bytes start triple) (after : Tags) {connection : ℕ}
    {handler other : Handler}
    (hhandler : server.handlers[connection]? = some handler)
    (hgain : (other.counts (Request.reports triple)).toNat + present bytes after triple +
        (handler.counts (Request.tags triple)).toNat ≤
      (other.counts (Request.tags triple)).toNat + present bytes server.node.tags triple +
        (handler.counts (Request.reports triple)).toNat) :
    (server.setHandler connection other).count (Request.reports triple) +
        present bytes after triple ≤
      (server.setHandler connection other).count (Request.tags triple) +
        present bytes start triple := by
  have hreports := countP_setHandler hhandler other (Handler.counts (Request.reports triple))
  have htags := countP_setHandler hhandler other (Handler.counts (Request.tags triple))
  simp only [Balanced, count] at hbalanced ⊢
  omega

theorem Balanced.change {start : Tags} (hbalanced : server.Balanced ctx.bytes start triple)
    (hchange : Change ctx server next) : next.Balanced ctx.bytes start triple := by
  cases hchange with
  | signal => exact hbalanced
  | accept =>
      have hcount : ∀ test : Request → Bool,
          (server.handlers ++ [(⟨none, true⟩ : Handler)]).countP (Handler.counts test) =
            server.count test := by
        intro test
        rw [List.countP_append]
        rfl
      rw [Balanced, count, count, hcount, hcount]
      exact hbalanced
  | receive connection cmd run hhandler =>
      obtain ⟨hreports, htags⟩ := silent_of_eq_false triple ⟨cmd, run, .received⟩ (.inl rfl)
      apply hbalanced.setHandler server.node.tags hhandler
      simp only [counts_some, counts_none, hreports, htags, le_refl]
  | fetch connection request hhandler hstage =>
      obtain ⟨hreports, htags⟩ :=
        silent_of_eq_false triple { request with stage := .fetched } (.inl rfl)
      obtain ⟨hbefore, hbefore'⟩ := silent_of_eq_false triple request (.inl (by rw [hstage]; rfl))
      apply hbalanced.setHandler server.node.tags hhandler
      simp only [counts_some, hreports, htags, hbefore, hbefore', le_refl]
  | advance connection request hhandler node stage event hended hmoves =>
      obtain ⟨hbefore, hbefore'⟩ := silent_of_eq_false triple request (.inl hended)
      have hgain := balance_of_moves triple request.run hmoves
      apply hbalanced.setHandler node.tags hhandler
      simp only [counts_some, hbefore, hbefore', Bool.toNat_false, Nat.add_zero]
      exact hgain
  | finish connection handler hhandler hrunning hdone =>
      apply hbalanced.setHandler server.node.tags hhandler
      have hsame : ∀ test : Request → Bool,
          Handler.counts test { handler with running := false } = handler.counts test :=
        fun _ => rfl
      rw [hsame, hsame]
      omega
  | stop => exact hbalanced
  | down givenUp hempty => exact hbalanced

/-- In whatever order requests are served, no more unseeds of a release are answered that it was
seeded than seeds of it were served, and one more if it was seeded when the node was started; and
one fewer while it is seeded. -/
theorem removals_are_reported_once
    (hreachable : Reachable (Server.step ctx) anyStep (start node) server) (triple : Triple) :
    server.count (Request.reports triple) + present ctx.bytes server.node.tags triple ≤
      server.count (Request.tags triple) + present ctx.bytes node.tags triple := by
  have hbalanced : server.Balanced ctx.bytes node.tags triple := by
    refine hreachable.invariant ?_ fun _ _ _ hkept _ hstep => hkept.change (change_of_step hstep).2
    exact Nat.le_refl _
  exact hbalanced

/-- Two clients unseed one release at the same time. -/
theorem removals_are_reported_once_of_two :
    let cid := blake3HashToCid (.filled 32 7) .blob
    let bytes := CidBytes.sample cid ([0x01, 0x55, 0x1e, 0x20] ++ List.replicate 32 7) (by decide)
    let ctx := DispatchCtx.sample lengthHash bytes
    let triple : Triple := (.filled 20 1, .filled 20 5, cid)
    let tags : Tags := (∅ : Tags).insert (Tags.name bytes triple) ⟨.filled 32 7, .raw⟩
    ∃ server, Reachable (Server.step ctx) anyStep (start ⟨.empty lengthHash, tags, false⟩) server ∧
      (∀ handler ∈ server.handlers, ∀ request ∈ handler.request, request.stage.ended = true) ∧
      server.count (Request.reports triple) ≤ 1 := by
  intro cid bytes ctx triple tags
  let unseed : Command := .unseed (.filled 20 1) (some (.filled 20 5)) cid
  have hrun : (run (guarded (Server.step ctx) anyStep) (start ⟨.empty lengthHash, tags, false⟩)
      [.accept, .accept, .receive 0 unseed (.faultless none), .receive 1 unseed (.faultless none),
        .advance 0, .advance 1]).any
      (fun server => (∀ handler ∈ server.handlers, ∀ request ∈ handler.request,
        request.stage.ended = true) ∧ server.count (Request.tags triple) = 0) = true := by decide
  obtain ⟨server, hreachable, hcheck⟩ := Reachable.exists_of_run hrun
  obtain ⟨hended, hnone⟩ := of_decide_eq_true hcheck
  have hbalance := removals_are_reported_once hreachable triple
  have hstart : present ctx.bytes tags triple ≤ 1 := Bool.toNat_le _
  refine ⟨server, hreachable, hended, ?_⟩
  rw [hnone] at hbalance
  exact (Nat.le_of_add_right_le hbalance).trans (Nat.zero_add _ ▸ hstart)

end Server

end RadicleArtifact.Node
