import RadicleArtifact.Cob.Invariants
import RadicleArtifact.Replicas.Invariants
import RadicleArtifact.Trust.History

/-!
# Replicas agree

Two nodes with the same entries may evaluate them in different orders.  When every user signs
at a node of their own and one registration comes before everything else that names an
artifact, the order does not show: each user's entries form a chain, and every component of
the artifact is decided by one user's entries.  Metadata is decided by several, so it needs
the trusted writes of a key to form a chain.
-/

namespace RadicleArtifact.Replicas

open RadicleArtifact.Core
open RadicleArtifact.Library
open RadicleArtifact.Cob

/-! ## Artifacts told apart by their readings -/

/-- The same record, but for the metadata. -/
structure SameRecord (left right : Artifact) : Prop where
  author : left.author = right.author
  name : left.name = right.name
  locations : left.locations = right.locations
  attestations : left.attestations = right.attestations
  redactions : left.redactions = right.redactions

section Readings

variable {left right : Artifact}

/-- Nobody is left with an empty set of locations, so the URLs decide the locations. -/
theorem locations_eq_of_hasLocation (hleft : left.WellFormed) (hright : right.WellFormed)
    (hsame : ∀ user url, left.hasLocation user url = right.hasLocation user url) :
    left.locations = right.locations := by
  have hnonempty : ∀ {artifact : Artifact} {user : Did} {urls : BTreeSet Url},
      artifact.WellFormed → artifact.locationsOf user = some urls →
        ∃ url, artifact.hasLocation user url = true := by
    intro artifact user urls hartifact hurls
    have hne : urls ≠ ∅ := by
      rintro rfl
      exact hartifact.locations_nonempty user hurls
    obtain ⟨url, hurl⟩ : ∃ url, url ∈ urls := by
      by_contra hnone
      push Not at hnone
      exact hne (Std.ExtTreeSet.eq_empty_iff_forall_not_mem.mpr hnone)
    exact ⟨url, by simp [Artifact.hasLocation, hurls, hurl]⟩
  apply Std.ExtTreeMap.ext_getElem?
  intro user
  have huser := hsame user
  cases hurls : left.locationsOf user with
  | none =>
      cases hothers : right.locationsOf user with
      | none => exact hurls.trans hothers.symm
      | some others =>
          obtain ⟨url, hurl⟩ := hnonempty hright hothers
          rw [← huser url, Artifact.hasLocation, hurls] at hurl
          contradiction
  | some urls =>
      cases hothers : right.locationsOf user with
      | none =>
          obtain ⟨url, hurl⟩ := hnonempty hleft hurls
          rw [huser url, Artifact.hasLocation, hothers] at hurl
          contradiction
      | some others =>
          have hmem : urls = others := by
            apply Std.ExtTreeSet.ext_mem
            intro url
            have hurl := huser url
            simpa [Artifact.hasLocation, hurls, hothers] using hurl
          exact hurls.trans ((congrArg some hmem).trans hothers.symm)

theorem attestations_eq_of_isAttestedBy
    (hsame : ∀ user, left.isAttestedBy user = right.isAttestedBy user) :
    left.attestations = right.attestations := by
  apply Std.ExtTreeSet.ext_mem
  intro user
  simpa [Artifact.isAttestedBy] using hsame user

theorem redactions_eq_of_redactionBy
    (hsame : ∀ user, left.redactionBy user = right.redactionBy user) :
    left.redactions = right.redactions :=
  Std.ExtTreeMap.ext_getElem? hsame

end Readings

namespace World

/-! ## Every user signs at home -/

/-- Users sign at the node they live at, and a node keeps the entries of those who do. -/
def StaysHome {Node Process : Type} (home : Did → Node) (world : World Node Process) :
    Event Node Process → Prop
  | .call process signer _ _ _ =>
      ∀ handle, world.handles process = some handle → handle.node = home signer
  | .remove node kept => ∀ id ∈ world.storage node, ∀ entry, world.entries[id]? = some entry →
      home entry.op.author = node → id ∈ kept
  | _ => True

/-- A user's own entries are all at their node, each made after the ones before it. -/
structure Ordered {Node Process : Type} (home : Did → Node) (world : World Node Process) :
    Prop where
  held : ∀ (id : ℕ) (entry : Entry), world.entries[id]? = some entry →
    id ∈ world.storage (home entry.op.author)
  chain : ∀ (id other : ℕ) (entry later : Entry), world.entries[id]? = some entry →
    world.entries[other]? = some later → entry.op.author = later.op.author → id < other →
      id ∈ world.past other

section Ordered

variable {Node Process : Type} [DecidableEq Node] {home : Did → Node} {floats : Json.Floats}
  {creation : Creation} {commit : Node → Oid → Except String Unit} {world next : World Node Process}

namespace Ordered

theorem sign (hordered : Ordered home world) (op : Op) :
    Ordered home (world.sign (home op.author) op) where
  held id entry hentry := by
    rw [mem_storage_sign]
    rcases eq_of_getElem?_sign world _ op hentry with ⟨-, hold⟩ | ⟨rfl, rfl⟩
    · exact .inl (hordered.held id entry hold)
    · exact .inr ⟨rfl, rfl⟩
  chain id other entry later hentry hlater hauthor hlt := by
    rcases eq_of_getElem?_sign world _ op hlater with ⟨hother, hold⟩ | ⟨rfl, rfl⟩
    · rw [past_sign world _ op hother]
      rw [getElem?_sign world _ op (hlt.trans hother)] at hentry
      exact hordered.chain id other entry later hentry hold hauthor hlt
    · rw [past_sign_length, ← hauthor]
      rw [getElem?_sign world _ op hlt] at hentry
      exact hordered.held id entry hentry

theorem store (hordered : Ordered home world) (node : Node) {ids : Finset ℕ}
    (hkept : ∀ id ∈ world.storage node, ∀ entry, world.entries[id]? = some entry →
      home entry.op.author = node → id ∈ ids) : Ordered home (world.store node ids) where
  held id entry hentry := by
    have hmem := hordered.held id entry hentry
    rw [mem_storage_store]
    split
    · rename_i hnode
      exact hkept id (hnode ▸ hmem) entry hentry hnode
    · exact hmem
  chain := hordered.chain

variable [DecidableEq Process]

theorem of_change (hordered : Ordered home world)
    (hchange : Change floats creation commit (StaysHome home) world next) :
    Ordered home next := by
  cases hchange with
  | same => exact hordered
  | opened | closed => exact ⟨hordered.held, hordered.chain⟩
  | signed process handle release signer method actions timestamp order hpermitted hhandle _ _ _ =>
      have hsign := hordered.sign ⟨signer, actions, timestamp⟩
      rw [← hpermitted handle hhandle] at hsign
      exact ⟨hsign.held, hsign.chain⟩
  | fetched node ids hids hclosed =>
      exact hordered.store node fun id hid _ _ _ => Finset.mem_union_left ids hid
  | removed node kept hpermitted hkept hclosed => exact hordered.store node hpermitted

theorem of_reachable
    (hreachable : Reachable (step floats creation commit) (StaysHome home) initial world) :
    Ordered home world := by
  apply hreachable.invariant
  · exact ⟨fun id entry hentry => by simp [initial] at hentry,
      fun id other entry later hentry => by simp [initial] at hentry⟩
  · intro state event next hordered hpermitted hstep
    exact hordered.of_change (change_of_step hpermitted hstep)

end Ordered

end Ordered

/-! ## What decides a component -/

section Writes

variable {Node Process : Type} (world : World Node Process)

/-- The actions of an entry. -/
def signedAt (id : ℕ) : List SignedAction :=
  (world.entries[id]?).elim [] fun entry => entry.op.signedActions

/-- The entry names the artifact. -/
def names (cid : Cid) (id : ℕ) : Bool :=
  (world.signedAt id).any fun signed => signed.action.cid? = some cid

/-- The entry writes a component. -/
def writes {Value : Type} (write : SignedAction → Option Value) (id : ℕ) : Bool :=
  (world.signedAt id).any fun signed => (write signed).isSome

variable {world} {past : ℕ → Finset ℕ} {known : Finset ℕ} {Value : Type}
  {write : SignedAction → Option Value} {cid : Cid}

theorem signedAt_of_getElem? {id : ℕ} {entry : Entry} (hentry : world.entries[id]? = some entry) :
    world.signedAt id = entry.op.signedActions := by
  rw [signedAt, hentry]
  rfl

theorem flatMap_signedActions (order : List ℕ) :
    (world.ops order).flatMap Op.signedActions = order.flatMap world.signedAt := by
  induction order with
  | nil => rfl
  | cons id order ih =>
      rw [List.flatMap_cons, ← ih, ops, List.filterMap_cons, signedAt]
      cases world.entries[id]? <;> rfl

theorem write_eq_none_of_writes {id : ℕ} (hwrites : world.writes write id = false) :
    ∀ signed ∈ world.signedAt id, write signed = none := by
  intro signed hsigned
  rw [writes, List.any_eq_false] at hwrites
  simpa using hwrites signed hsigned

/-- A write to the artifact is by an entry that names it. -/
theorem writes_eq_false (hnames : ∀ signed, write signed ≠ none → signed.action.cid? = some cid)
    {id : ℕ} (hid : world.names cid id = false) : world.writes write id = false := by
  rw [names, List.any_eq_false] at hid
  rw [writes, List.any_eq_false]
  intro signed hsigned hwrite
  have hcid := hnames signed (Option.isSome_iff_ne_none.mp hwrite)
  exact hid signed hsigned (by simpa using hcid)

/-- The entries of one user form a chain. -/
theorem Ordered.chain_writes {home : Did → Node} (hordered : Ordered home world) {user : Did}
    (huser : ∀ signed, write signed ≠ none → signed.user = user) :
    Chain world.past known (world.writes write) := by
  have hauthor : ∀ {id : ℕ}, world.writes write id = true →
      ∃ entry, world.entries[id]? = some entry ∧ entry.op.author = user := by
    intro id hid
    obtain ⟨signed, hsigned, hwrite⟩ := List.any_eq_true.mp hid
    cases hentry : world.entries[id]? with
    | none => simp [signedAt, hentry] at hsigned
    | some entry =>
        rw [signedAt_of_getElem? hentry] at hsigned
        obtain ⟨action, -, rfl⟩ := List.mem_map.mp hsigned
        exact ⟨entry, rfl, huser _ (Option.isSome_iff_ne_none.mp hwrite)⟩
  intro left _ right _ hleft hright hne
  obtain ⟨entry, hentry, hmine⟩ := hauthor hleft
  obtain ⟨other, hother, hyours⟩ := hauthor hright
  rcases Nat.lt_or_gt_of_ne hne with hlt | hgt
  · exact .inl (hordered.chain left right entry other hentry hother (hmine.trans hyours.symm) hlt)
  · exact .inr (hordered.chain right left other entry hother hentry (hyours.trans hmine.symm) hgt)

/-- Behind an entry that comes before all others that name the artifact, two arrangements end in
the same write, where the writes form a chain. -/
theorem lastWrite_agrees {first : ℕ} {earlier later earlier' later' : List ℕ}
    (horder : Arranges past known (earlier ++ first :: later))
    (hother : Arranges past known (earlier' ++ first :: later'))
    (hearlier : ∀ id ∈ earlier, world.names cid id = false)
    (hearlier' : ∀ id ∈ earlier', world.names cid id = false)
    (hnames : ∀ signed, write signed ≠ none → signed.action.cid? = some cid)
    (hchain : Chain past known (world.writes write)) (own : List SignedAction) :
    lastWrite write (own ++ later.flatMap world.signedAt) =
      lastWrite write (own ++ later'.flatMap world.signedAt) := by
  have hfilter := horder.filter_eq_of_split hother
    (fun id hid => writes_eq_false hnames (hearlier id hid))
    (fun id hid => writes_eq_false hnames (hearlier' id hid)) hchain
  have hskip : ∀ ids : List ℕ,
      lastWrite write ((ids.filter (world.writes write)).flatMap world.signedAt) =
        lastWrite write (ids.flatMap world.signedAt) :=
    lastWrite_flatMap_filter world.signedAt (world.writes write)
      fun id hid => write_eq_none_of_writes hid
  rw [lastWrite_append, lastWrite_append, ← hskip later, hfilter, hskip later']

/-- What every view shows of an artifact whose registration comes before all else. -/
theorem exists_artifact_of_first (creation : Creation) {first : ℕ}
    (hregisters : world.Registers cid first) :
    ∃ registration name own, SignedAction.registeredName cid registration = some name ∧
      ∀ commit earlier later release, (∀ id ∈ earlier, world.names cid id = false) →
        world.view creation commit (earlier ++ first :: later) = .ok release →
          release.artifact cid = some ((own ++ later.flatMap world.signedAt).foldl
            (Artifact.observe cid) (Artifact.register registration.user name)) := by
  obtain ⟨entry, written, hentry, haction⟩ := hregisters
  have hsome : ∃ signed ∈ entry.op.signedActions, ∃ name,
      signed.registeredName cid = some name :=
    ⟨⟨entry.op.author, .registerArtifact cid written⟩, List.mem_map_of_mem haction, written,
      registeredName_eq_some_iff.mpr rfl⟩
  obtain ⟨before, registration, own, name, hsplit, hname, hbefore⟩ :=
    Release.exists_first_registration hsome
  refine ⟨registration, name, own, hname, fun commit earlier later release hearlier hview => ?_⟩
  have hhistory : Release.history creation.root (world.ops (earlier ++ first :: later)) =
      (earlier.flatMap world.signedAt ++ before) ++
        registration :: (own ++ later.flatMap world.signedAt) := by
    rw [history_root, flatMap_signedActions, List.flatMap_append, List.flatMap_cons,
      signedAt_of_getElem? hentry, hsplit]
    simp
  refine Release.artifact_replay_of_first hview hhistory hname fun signed hsigned => ?_
  rcases List.mem_append.mp hsigned with hsigned | hsigned
  · obtain ⟨id, hid, hsigned⟩ := List.mem_flatMap.mp hsigned
    have hnamed := List.any_eq_false.mp (hearlier id hid) signed hsigned
    rw [Option.eq_none_iff_forall_ne_some]
    intro registered hregistered
    rw [registeredName_eq_some_iff] at hregistered
    simp [hregistered, Action.cid?] at hnamed
  · exact hbefore signed hsigned

end Writes

end World

/-! ## Agreement -/

section Agreement

variable {cid : Cid} {user : Did}

theorem cid_and_user_of_nameWrite {signed : SignedAction}
    (hwrite : signed.nameWrite cid user ≠ none) :
    signed.action.cid? = some cid ∧ signed.user = user := by
  rw [SignedAction.nameWrite] at hwrite
  split at hwrite
  · rename_i huser
    obtain ⟨name, hname⟩ := Option.ne_none_iff_exists'.mp hwrite
    rw [World.registeredName_eq_some_iff] at hname
    exact ⟨by rw [hname, Action.cid?], huser⟩
  · contradiction

theorem cid_and_user_of_locationWrite {signed : SignedAction} {url : Url}
    (hwrite : signed.locationWrite cid user url ≠ none) :
    signed.action.cid? = some cid ∧ signed.user = user := by
  obtain ⟨signer, action⟩ := signed
  cases action <;> simp_all [SignedAction.locationWrite, Action.cid?]

theorem cid_and_user_of_redactWrite {signed : SignedAction}
    (hwrite : signed.redactWrite cid user ≠ none) :
    signed.action.cid? = some cid ∧ signed.user = user := by
  obtain ⟨signer, action⟩ := signed
  cases action <;> simp_all [SignedAction.redactWrite, Action.cid?]

/-- An attestation as a write. -/
def attestWrite (cid : Cid) (user : Did) (signed : SignedAction) : Option Unit :=
  if signed.attests cid user then some () else none

theorem cid_and_user_of_attestWrite {signed : SignedAction}
    (hwrite : attestWrite cid user signed ≠ none) :
    signed.action.cid? = some cid ∧ signed.user = user := by
  obtain ⟨signer, action⟩ := signed
  cases action <;> simp_all [attestWrite, SignedAction.attests, Action.cid?]

theorem exists_attests_iff {history : List SignedAction} :
    (∃ entry ∈ history, entry.attests cid user = true) ↔
      lastWrite (attestWrite cid user) history ≠ none := by
  rw [Ne, lastWrite_eq_none_iff]
  simp [attestWrite]

theorem cid_of_trustedWrite {signed : SignedAction} {author : Did} {delegates : BTreeSet Did}
    {key : String} (hwrite : Trust.trustedWrite author delegates cid key signed ≠ none) :
    signed.action.cid? = some cid := by
  obtain ⟨signer, action⟩ := signed
  cases action <;> simp_all [Trust.trustedWrite, Trust.metadataWrite, Action.cid?]

/-- Histories that end in the same writes of every user leave the same record. -/
theorem sameRecord_of_lastWrite {left right : Artifact} {registration : SignedAction}
    {later later' : List SignedAction} (hleft : left.Reflects cid registration later)
    (hright : right.Reflects cid registration later') (hwell : left.WellFormed)
    (hwell' : right.WellFormed)
    (hsame : ∀ (Value : Type) (write : SignedAction → Option Value) (user : Did),
      (∀ signed, write signed ≠ none → signed.action.cid? = some cid ∧ signed.user = user) →
        lastWrite write later = lastWrite write later') : SameRecord left right where
  author := hleft.author.trans hright.author.symm
  name := by
    have hname := hsame String (SignedAction.nameWrite cid registration.user) registration.user
      fun _ => cid_and_user_of_nameWrite
    apply Option.some.inj
    rw [← hleft.name, ← hright.name, lastWrite_cons, lastWrite_cons, hname]
  locations := by
    apply locations_eq_of_hasLocation hwell hwell'
    intro user url
    rw [Bool.eq_iff_iff, hleft.locations, hright.locations,
      hsame Bool (SignedAction.locationWrite cid user url) user
        fun _ => cid_and_user_of_locationWrite]
  attestations := by
    apply attestations_eq_of_isAttestedBy
    intro user
    rw [Bool.eq_iff_iff, hleft.attestations, hright.attestations, exists_attests_iff,
      exists_attests_iff, ← lastWrite_eq_none_iff, ← lastWrite_eq_none_iff,
      hsame Unit (attestWrite cid user) user fun _ => cid_and_user_of_attestWrite,
      hsame String (SignedAction.redactWrite cid user) user fun _ => cid_and_user_of_redactWrite]
  redactions := by
    apply redactions_eq_of_redactionBy
    intro user
    rw [hleft.redactions, hright.redactions,
      hsame String (SignedAction.redactWrite cid user) user fun _ => cid_and_user_of_redactWrite]

variable {Node Process : Type} [DecidableEq Node] [DecidableEq Process] {home : Did → Node}
  {floats : Json.Floats} {creation : Creation} {commit : Node → Oid → Except String Unit}
  {world : World Node Process}

/-- Two nodes with the same entries show the same record of an artifact, in whichever orders
they evaluate them, when one registration comes before everything else that names the artifact.
A metadata key reads the same where its trusted writes form a chain. -/
theorem replicas_agree
    (hreachable : Reachable (World.step floats creation commit) (World.StaysHome home) .initial
      world)
    (left right : Node) (hsynced : world.storage left = world.storage right)
    (order other : List ℕ) (horder : Arranges world.past (world.storage left) order)
    (hother : Arranges world.past (world.storage right) other) (release shown : Release)
    (hview : world.view creation (commit left) order = .ok release)
    (hshown : world.view creation (commit right) other = .ok shown) (first : ℕ)
    (hfirst : first ∈ world.storage left) (hregisters : world.Registers cid first)
    (hafter : ∀ id ∈ world.storage left, world.names cid id = true → id ≠ first →
      first ∈ world.past id) :
    ∃ artifact same, release.artifact cid = some artifact ∧ shown.artifact cid = some same ∧
      SameRecord artifact same ∧
      ∀ delegates key, Chain world.past (world.storage left)
          (world.writes (Trust.trustedWrite artifact.author delegates cid key)) →
        (Trust.metadata artifact delegates)[key]? = (Trust.metadata same delegates)[key]? := by
  rw [← hsynced] at hother
  have hordered := World.Ordered.of_reachable hreachable
  obtain ⟨earlier, later, rfl, hearlier⟩ :=
    horder.exists_split hfirst hafter
  obtain ⟨earlier', later', rfl, hearlier'⟩ :=
    hother.exists_split hfirst hafter
  simp only [Bool.not_eq_true] at hearlier hearlier'
  obtain ⟨registration, name, own, hname, hartifact⟩ :=
    World.exists_artifact_of_first creation hregisters
  have hleft := hartifact _ earlier later release hearlier hview
  have hright := hartifact _ earlier' later' shown hearlier' hshown
  refine ⟨_, _, hleft, hright, ?_, fun delegates key hchain => ?_⟩
  · refine sameRecord_of_lastWrite (Artifact.reflects_foldl_register hname _)
      (Artifact.reflects_foldl_register hname _) (Release.wellFormed_replay hview cid _ hleft)
      (Release.wellFormed_replay hshown cid _ hright) fun Value write user hwrite => ?_
    exact World.lastWrite_agrees horder hother hearlier hearlier'
      (fun signed hsigned => (hwrite signed hsigned).1)
      (hordered.chain_writes fun signed hsigned => (hwrite signed hsigned).2) own
  · rw [Artifact.author_foldl_observe, Artifact.author_register] at hchain
    rw [Trust.getElem?_metadata_foldl_register, Trust.getElem?_metadata_foldl_register,
      World.lastWrite_agrees horder hother hearlier hearlier' (fun _ => cid_of_trustedWrite) hchain
        own]

/-- An attestation and a redaction made at the same time, evaluated either way round. -/
theorem replicas_agree_on_concurrent_entries :
    let author : Did := .filled 32 1
    let attester : Did := .filled 32 2
    let cid := blake3HashToCid (.filled 32 7) .blob
    let creation : Creation := ⟨author, .filled 20 5, none, 5⟩
    let opened : World Bool Bool := World.initial.keep true ⟨true, []⟩
    let registered := (opened.sign true ⟨author, [.registerArtifact cid "app"], 6⟩).keep true
      ⟨true, [0]⟩
    let copied := registered.store false (registered.storage false ∪ {0})
    let reopened := copied.keep false ⟨false, [0]⟩
    let attested := (reopened.sign false ⟨attester, [.attest cid], 7⟩).keep false ⟨false, [0, 1]⟩
    let redacted := (attested.sign true ⟨author, [.redact cid "bad"], 7⟩).keep true ⟨true, [0, 2]⟩
    let pulled := redacted.store true (redacted.storage true ∪ {0, 1})
    let synced := pulled.store false (pulled.storage false ∪ {0, 2})
    ∃ release shown artifact same,
      synced.view creation (fun _ => .ok ()) [0, 1, 2] = .ok release ∧
      synced.view creation (fun _ => .ok ()) [0, 2, 1] = .ok shown ∧
      release.artifact cid = some artifact ∧ shown.artifact cid = some same ∧
      SameRecord artifact same := by
  intro author attester cid creation opened registered copied reopened attested redacted pulled
    synced
  let floats : Json.Floats := ⟨fun _ => [], fun _ => none⟩
  let commit : Bool → Oid → Except String Unit := fun _ _ => .ok ()
  let home : Did → Bool := fun did => did = author
  have hopened : Reachable (World.step floats creation commit) (World.StaysHome home) .initial
      opened := Reachable.start.step (.getMut true true ∅ []) _ (by trivial) rfl
  have hregistered := hopened.step (.call true author (.registerArtifact cid "app") 6 [0])
    registered (fun handle hhandle => Option.some.inj hhandle ▸ rfl) rfl
  have hcopied := hregistered.step (.fetch false {0}) copied (by trivial) rfl
  have hreopened := hcopied.step (.getMut false false {0} [0]) reopened (by trivial) rfl
  have hattested := hreopened.step (.call false attester (.attest cid) 7 [0, 1]) attested
    (fun handle hhandle => Option.some.inj hhandle ▸ rfl) rfl
  have hredacted := hattested.step (.call true author (.redact cid "bad") 7 [0, 2]) redacted
    (fun handle hhandle => Option.some.inj hhandle ▸ rfl) rfl
  have hpulled := hredacted.step (.fetch true {0, 1}) pulled (by trivial) rfl
  have hsynced := hpulled.step (.fetch false {0, 2}) synced (by trivial) rfl
  have hregisters : synced.Registers cid 0 :=
    ⟨⟨⟨author, [.registerArtifact cid "app"], 6⟩, ∅⟩, "app", rfl, by simp⟩
  obtain ⟨artifact, same, hartifact, hsame, hrecord, -⟩ :=
    replicas_agree hsynced true false (by decide) [0, 1, 2] [0, 2, 1] (by decide) (by decide) _ _
      rfl rfl 0 (by decide) hregisters (by decide)
  exact ⟨_, _, artifact, same, rfl, rfl, hartifact, hsame, hrecord⟩

end Agreement

end RadicleArtifact.Replicas
