import RadicleArtifact.Node.Import
import RadicleArtifact.Node.Tags

/-!
# The status of the node

The status counts the seeded blobs and adds up their sizes.  The seeded tags are collapsed by
hash: where the raw and the collection identifier of one hash are both seeded, the tag that is
listed last decides which of the two sizes is added.
-/

namespace RadicleArtifact.Node

open RadicleArtifact.Core
open RadicleArtifact.Library

/-- Counters of the endpoint's socket. -/
structure SocketMetrics where
  numConnsOpened : UInt64
  numConnsClosed : UInt64
  numConnsDirect : UInt64
  holepunchAttempts : UInt64
  pathsDirect : UInt64
  pathsRelay : UInt64
  sendIpv4 : UInt64
  sendIpv6 : UInt64
  sendRelay : UInt64
  recvDataIpv4 : UInt64
  recvDataIpv6 : UInt64
  recvDataRelay : UInt64
  recvDataCustom : UInt64
  deriving Inhabited

structure NetReport where
  /-- The relay of each probe and its latency in milliseconds. -/
  relayLatency : List (String × ℕ)
  preferredRelay : Option String
  udpV4 : Bool
  udpV6 : Bool

structure HomeRelayStatus where
  url : String
  isConnected : Bool
  lastError : Option String

structure Endpoint where
  metrics : SocketMetrics
  netReport : Option NetReport
  homeRelayStatus : List HomeRelayStatus
  deriving Inhabited

/-- Where listing the tags fails. -/
inductive ListFault where
  | list (err : String)
  | stream (err : String)

def ListFault.error : ListFault → ShareError
  | .list err => .iroh ("list seeded tags: " ++ err)
  | .stream err => .iroh ("seeded tag stream: " ++ err)

/-- What a status request reads of the node. -/
structure StatusCtx (blake3 : Blake3) where
  blobs : BlobStore blake3
  tags : Tags
  listing : Option ListFault
  endpoint : Endpoint
  endpointId : EndpointId
  startedAtUnix : Int64
  pkarrUrls : List Url

/-- Version of the package. -/
def pkgVersion : String := "0.23.3"

/-- `u64::saturating_sub` -/
def saturatingSub (left right : UInt64) : UInt64 :=
  if right ≤ left then left - right else 0

/-- A chain of `u64::saturating_add`. -/
def saturatingTotal (counters : List UInt64) : UInt64 :=
  .ofNat (counters.foldl (fun total counter => saturatingAdd total counter.toNat) 0)

def SocketMetrics.connections (socket : SocketMetrics) : ConnectionStats where
  active := (saturatingSub socket.numConnsOpened socket.numConnsClosed).toUInt32
  openedTotal := socket.numConnsOpened
  closedTotal := socket.numConnsClosed
  directTotal := socket.numConnsDirect
  holepunchAttempts := socket.holepunchAttempts
  pathsDirect := socket.pathsDirect
  pathsRelayed := socket.pathsRelay

def SocketMetrics.traffic (socket : SocketMetrics) : TrafficStats where
  outBytes := saturatingTotal [socket.sendIpv4, socket.sendIpv6, socket.sendRelay]
  inBytes :=
    saturatingTotal
      [socket.recvDataIpv4, socket.recvDataIpv6, socket.recvDataRelay, socket.recvDataCustom]

/-- Lowest measured latency of each relay. -/
def latencyMs (probes : List (String × ℕ)) : IndexMap String UInt64 :=
  probes.foldl (fun latency probe =>
    let ms := UInt64.ofNat probe.2
    match latency.get? probe.1 with
    | some found => latency.insert probe.1 (min found ms)
    | none => latency.insert probe.1 ms) ∅

def relayStats (endpoint : Endpoint) : RelayStats :=
  let report := endpoint.netReport
  let latency := latencyMs ((report.map NetReport.relayLatency).getD [])
  { relays := endpoint.homeRelayStatus.map fun status =>
      ⟨status.url, status.isConnected, latency.get? status.url, status.lastError⟩
    preferred := report.bind NetReport.preferredRelay
    udpV4 := (report.map NetReport.udpV4).getD false
    udpV6 := (report.map NetReport.udpV6).getD false }

/-- The distinct blobs that are seeded, each with the last identifier listed for it. -/
def distinctSeeded (bytes : CidBytes) (tags : Tags) : IndexMap Hash Cid :=
  .collect ((tags.allSeeded bytes).map fun (_, _, cid, hash) => (hash, cid))

section Build

variable {blake3 : Blake3} (iroh : IrohStore blake3) (bytes : CidBytes)
  (order : HashOrder (Hash × Cid)) (toZ32 : EndpointId → String)

def bytesLogical (blobs : BlobStore blake3) (distinct : IndexMap Hash Cid) : ℕ :=
  (order.iterate distinct.entries).foldl (fun total entry =>
    saturatingAdd total (artifactSizeFor iroh blobs entry.2 entry.1)) 0

def buildStatus (ctx : StatusCtx blake3) : Except ShareError Status :=
  match ctx.listing with
  | some fault => .error fault.error
  | none =>
      let distinct := distinctSeeded bytes ctx.tags
      let relay := relayStats ctx.endpoint
      .ok
        { endpointId := ctx.endpointId
          version := some pkgVersion
          startedAtUnix := ctx.startedAtUnix
          seeded :=
            ⟨.ofNat distinct.entries.length, .ofNat (bytesLogical iroh order ctx.blobs distinct)⟩
          connections := ctx.endpoint.metrics.connections
          traffic := ctx.endpoint.metrics.traffic
          relay := relay
          pkarr := some ⟨"pk:" ++ toZ32 ctx.endpointId, ctx.pkarrUrls⟩
          warnings := ⟨!relay.relays.any RelayHealth.connected⟩ }

end Build

/-! ## Tags that point at their own content -/

/-- Every seeded tag points at the content of the identifier it names. -/
def Tags.Hashed (bytes : CidBytes) (tags : Tags) : Prop :=
  ∀ name value triple, tags[name]? = some value →
    Tags.parseSeededTag bytes name = some triple → hashAndFormat triple.2.2 = .ok value

/-- The same of the set of triples. -/
def Seeded.Hashed (seeded : Seeded) : Prop :=
  ∀ triple value, seeded.get? triple = some value → hashAndFormat triple.2.2 = .ok value

/-- The call tags a triple under the hash of its own identifier, as every request does. -/
def Call.OwnHash : Call → Prop
  | .tagSeeded triple hash => cidToBlake3Hash triple.2.2 = .ok hash
  | .untagSeeded _ | .untagAll _ _ => True

section Hashed

variable {bytes : CidBytes} {tags : Tags} {seeded : Seeded} {cid : Cid} {content : HashAndFormat}

/-- An identifier that has content is made from its hash and a kind. -/
theorem exists_kind_of_hashAndFormat (hcontent : hashAndFormat cid = .ok content) :
    ∃ kind, cid = blake3HashToCid content.hash kind := by
  obtain ⟨hash, hhash, hvalue⟩ := hashAndFormat_eq_ok_iff.mp hcontent
  obtain ⟨rfl, kind, hkind⟩ := kind_of_tagValue hvalue
  exact ⟨kind, reads_iff_eq_blake3HashToCid.mp ⟨hkind, hhash⟩⟩

theorem Seeded.Hashed.call (hhashed : seeded.Hashed) {call : Call} (hown : call.OwnHash) :
    (call.onSet seeded).2.Hashed := by
  intro wanted found hfound
  cases call with
  | tagSeeded triple hash =>
      rw [Call.onSet, Seeded.tag] at hfound
      cases hvalue : tagValue triple.2.2 hash with
      | error err =>
          rw [hvalue] at hfound
          exact hhashed wanted found hfound
      | ok value =>
          rw [hvalue, Except.map, Returned.ofTagged, IndexMap.get?_insert] at hfound
          split at hfound
          · rename_i heq
            rw [heq, ← Option.some.inj hfound]
            exact hashAndFormat_eq_ok_iff.mpr ⟨hash, hown, hvalue⟩
          · exact hhashed wanted found hfound
  | untagSeeded triple =>
      rw [Call.onSet, Seeded.untag, IndexMap.get?_shiftRemove] at hfound
      split at hfound
      · contradiction
      · exact hhashed wanted found hfound
  | untagAll rid cid =>
      rw [Call.onSet, Seeded.untagAll, IndexMap.get?_retain_not] at hfound
      split at hfound
      · contradiction
      · exact hhashed wanted found hfound

theorem Seeded.Hashed.runCalls (hhashed : seeded.Hashed) {calls : List Call}
    (hown : ∀ call ∈ calls, call.OwnHash) : (Node.runCalls Call.onSet seeded calls).2.Hashed := by
  induction calls generalizing seeded with
  | nil => exact hhashed
  | cons call calls ih =>
      obtain ⟨hcall, hcalls⟩ := List.forall_mem_cons.mp hown
      exact ih (hhashed.call hcall) hcalls

/-- A name that parses starts with the version byte. -/
theorem version_of_parseSeededTag {name : List Byte} {triple : Triple}
    (hparse : Tags.parseSeededTag bytes name = some triple) : [Tags.seededTagV1] <+: name := by
  cases name with
  | nil => contradiction
  | cons version rest =>
      by_cases hversion : version = Tags.seededTagV1
      · rw [hversion, List.cons_prefix_cons]
        exact ⟨rfl, List.nil_prefix⟩
      · rw [Tags.parseSeededTag, Tags.stripVersion, if_neg hversion] at hparse
        contradiction

theorem Tags.Hashed.of_refines (hrefines : Refines bytes tags seeded) (hhashed : seeded.Hashed) :
    tags.Hashed bytes := by
  intro name value triple hvalue hparse
  have hname : name ∈ tags := Std.ExtTreeMap.mem_iff_isSome_getElem?.mpr (by simp [hvalue])
  obtain ⟨named, rfl⟩ := hrefines.named name hname (version_of_parseSeededTag hparse)
  rw [Tags.parseSeededTag_name] at hparse
  rw [hrefines.get] at hvalue
  exact hhashed triple value (Option.some.inj hparse ▸ hvalue)

/-- The calls of the node leave tags that point at their own content. -/
theorem Tags.hashed_runCalls {foreign : Tags}
    (hforeign : ∀ name ∈ foreign, ¬ [Tags.seededTagV1] <+: name) {calls : List Call}
    (hown : ∀ call ∈ calls, call.OwnHash) :
    Tags.Hashed bytes (runCalls (Call.onTags bytes) foreign calls).2 := by
  have hempty : Seeded.Hashed ∅ := fun _ _ hvalue => by contradiction
  exact .of_refines ((Refines.of_foreign hforeign).runCalls calls).2 (hempty.runCalls hown)

theorem mem_allSeeded {rid : RepoId} {release : Oid} {hash : Hash} :
    (rid, release, cid, hash) ∈ tags.allSeeded bytes ↔
      ∃ name value, tags[name]? = some value ∧
        Tags.parseSeededTag bytes name = some (rid, release, cid) ∧ value.hash = hash := by
  rw [Tags.allSeeded, List.mem_filterMap]
  constructor
  · rintro ⟨⟨name, value⟩, hinfo, hrow⟩
    obtain ⟨triple, hparse, hrow⟩ := Option.map_eq_some_iff.mp hrow
    obtain ⟨rfl, rfl, rfl, rfl⟩ := hrow
    exact ⟨name, value, BTreeMap.mem_toList.mp (List.mem_of_mem_filter hinfo), hparse, rfl⟩
  · rintro ⟨name, value, hvalue, hparse, rfl⟩
    refine ⟨(name, value), List.mem_filter.mpr ⟨BTreeMap.mem_toList.mpr hvalue, ?_⟩, ?_⟩
    · exact List.isPrefixOf_iff_prefix.mpr (version_of_parseSeededTag hparse)
    · rw [hparse]
      rfl

end Hashed

/-- A store of tags as the node writes them. -/
structure SeededTags (bytes : CidBytes) where
  store : Tags
  hashed : store.Hashed bytes

/-! ## The figures in terms of the hashes -/

/-- The size of what a hash stands for as an artifact of the kind. -/
def sizeAs {blake3 : Blake3} (iroh : IrohStore blake3) (blobs : BlobStore blake3) (hash : Hash)
    (kind : ArtifactKind) : ℕ :=
  artifactSizeFor iroh blobs (blake3HashToCid hash kind) hash

namespace SeededTags

variable {bytes : CidBytes} (tags : SeededTags bytes)

/-- A seeded tag names the identifier. -/
def Names (cid : Cid) : Prop :=
  ∃ rid release hash, (rid, release, cid, hash) ∈ tags.store.allSeeded bytes

/-- The hashes that are seeded. -/
def hashes : Finset Hash :=
  ((tags.store.allSeeded bytes).map fun row => row.2.2.2).toFinset

/-- The kind under which a hash is counted. -/
def countedAs (hash : Hash) : ArtifactKind :=
  match ((distinctSeeded bytes tags.store).get? hash).map artifactKind with
  | some (.ok kind) => kind
  | _ => .blob

variable {tags} {hash : Hash} {cid : Cid}

theorem exists_kind_of_mem {rid : RepoId} {release : Oid}
    (hrow : (rid, release, cid, hash) ∈ tags.store.allSeeded bytes) :
    ∃ kind, cid = blake3HashToCid hash kind := by
  obtain ⟨name, value, hvalue, hparse, rfl⟩ := mem_allSeeded.mp hrow
  exact exists_kind_of_hashAndFormat (tags.hashed name value _ hvalue hparse)

theorem mem_hashes_iff : hash ∈ tags.hashes ↔ ∃ kind, tags.Names (blake3HashToCid hash kind) := by
  rw [hashes, List.mem_toFinset, List.mem_map]
  constructor
  · rintro ⟨⟨rid, release, cid, hash⟩, hrow, rfl⟩
    obtain ⟨kind, rfl⟩ := exists_kind_of_mem hrow
    exact ⟨kind, rid, release, hash, hrow⟩
  · rintro ⟨kind, rid, release, found, hrow⟩
    obtain ⟨kind', heq⟩ := exists_kind_of_mem hrow
    exact ⟨_, hrow, (blake3HashToCid_inj.mp heq).1.symm⟩

theorem keys_distinctSeeded :
    (distinctSeeded bytes tags.store).keys.toFinset = tags.hashes := by
  ext hash
  rw [List.mem_toFinset, distinctSeeded, IndexMap.mem_keys_collect, List.map_map, hashes,
    List.mem_toFinset]
  rfl

/-- A hash is counted once, under an identifier that is seeded. -/
theorem entry_distinctSeeded
    (hentry : (hash, cid) ∈ (distinctSeeded bytes tags.store).entries) :
    cid = blake3HashToCid hash (tags.countedAs hash) ∧ tags.Names cid := by
  obtain ⟨⟨rid, release, cid, hash⟩, hrow, heq⟩ :=
    List.mem_map.mp (IndexMap.mem_of_mem_collect hentry)
  obtain ⟨rfl, rfl⟩ := Prod.mk.inj heq
  obtain ⟨kind, rfl⟩ := exists_kind_of_mem hrow
  have hcounted : tags.countedAs hash = kind := by
    rw [countedAs, IndexMap.get?_eq_some_iff_mem.mpr hentry, Option.map_some,
      artifactKind_blake3HashToCid]
  exact ⟨by rw [hcounted], rid, release, hash, hrow⟩

theorem names_countedAs (hhash : hash ∈ tags.hashes) :
    tags.Names (blake3HashToCid hash (tags.countedAs hash)) := by
  rw [← keys_distinctSeeded, List.mem_toFinset, IndexMap.mem_keys_iff] at hhash
  obtain ⟨cid, hcid⟩ := hhash
  obtain ⟨heq, hnames⟩ := entry_distinctSeeded (IndexMap.get?_eq_some_iff_mem.mp hcid)
  exact heq ▸ hnames

section Figures

variable {blake3 : Blake3} (iroh : IrohStore blake3) (blobs : BlobStore blake3)

variable (tags) in
/-- The sum of the sizes, each hash under the kind it is counted as. -/
def total : ℕ :=
  ∑ hash ∈ tags.hashes, sizeAs iroh blobs hash (tags.countedAs hash)

variable (tags) in
/-- The two figures of the status. -/
def figures : SeededStats where
  count := .ofNat tags.hashes.card
  bytesLogical := .ofNat (min (tags.total iroh blobs) (2 ^ 64 - 1))

theorem length_distinctSeeded :
    (distinctSeeded bytes tags.store).entries.length = tags.hashes.card := by
  have hnodup : (distinctSeeded bytes tags.store).keys.Nodup := IndexMap.nodup_keys _
  rw [← keys_distinctSeeded, List.toFinset_card_of_nodup hnodup, IndexMap.keys, List.length_map]

/-- The order in which the hash map is iterated does not matter. -/
theorem bytesLogical_distinctSeeded (order : HashOrder (Hash × Cid)) :
    bytesLogical iroh order blobs (distinctSeeded bytes tags.store) =
      min (tags.total iroh blobs) (2 ^ 64 - 1) := by
  have hsizes : (distinctSeeded bytes tags.store).entries.map
      (fun entry => artifactSizeFor iroh blobs entry.2 entry.1) =
        (distinctSeeded bytes tags.store).keys.map
          fun hash => sizeAs iroh blobs hash (tags.countedAs hash) := by
    rw [IndexMap.keys, List.map_map]
    apply List.map_congr_left
    intro entry hentry
    rw [(entry_distinctSeeded hentry).1]
    rfl
  have hnodup : (distinctSeeded bytes tags.store).keys.Nodup := IndexMap.nodup_keys _
  have hperm := (order.perm (distinctSeeded bytes tags.store).entries).map
    fun entry => artifactSizeFor iroh blobs entry.2 entry.1
  rw [bytesLogical, foldl_saturatingAdd (fun entry : Hash × Cid =>
      artifactSizeFor iroh blobs entry.2 entry.1) _ (Nat.zero_le _), Nat.zero_add, hperm.sum_eq,
    hsizes, ← List.sum_toFinset _ hnodup, keys_distinctSeeded, total]

end Figures

end SeededTags

/-- A status request over the blobs and the tags may report the figures. -/
def Reports {blake3 : Blake3} (iroh : IrohStore blake3) (bytes : CidBytes)
    (blobs : BlobStore blake3) (tags : Tags) (stats : SeededStats) : Prop :=
  ∃ (order : HashOrder (Hash × Cid)) (toZ32 : EndpointId → String) (ctx : StatusCtx blake3)
    (status : Status), ctx.blobs = blobs ∧ ctx.tags = tags ∧
      buildStatus iroh bytes order toZ32 ctx = .ok status ∧ status.seeded = stats

/-- Every status request that succeeds reports the same figures. -/
theorem reports_iff {blake3 : Blake3} {iroh : IrohStore blake3} {bytes : CidBytes}
    {blobs : BlobStore blake3} {tags : SeededTags bytes} {stats : SeededStats} :
    Reports iroh bytes blobs tags.store stats ↔ stats = tags.figures iroh blobs := by
  constructor
  · rintro ⟨order, toZ32, ctx, status, rfl, htags, hstatus, rfl⟩
    rw [buildStatus] at hstatus
    split at hstatus
    · contradiction
    · rw [← Except.ok.inj hstatus, htags]
      dsimp only
      rw [SeededTags.length_distinctSeeded, SeededTags.bytesLogical_distinctSeeded]
      rfl
  · rintro rfl
    refine ⟨⟨id, fun _ => .refl _⟩, fun _ => "", ⟨blobs, tags.store, none, default,
      .filled 32 0, 0, []⟩, _, rfl, rfl, rfl, ?_⟩
    dsimp only
    rw [SeededTags.length_distinctSeeded, SeededTags.bytesLogical_distinctSeeded]
    rfl

end RadicleArtifact.Node
