import RadicleArtifact.Core.Cid
import RadicleArtifact.Library.Postcard

/-!
# Collections

A collection is a blob that lists hashes: first the hash of a metadata blob with the
names of the files, then the hash of each file.  Its hash names the files and their
bytes, as long as BLAKE3 tells apart the byte strings that go into it.
-/

namespace RadicleArtifact.Core

open RadicleArtifact.Library

/-- The BLAKE3 hash function. -/
abbrev Blake3 := List UInt8 → Hash

def Hash.asBytes (hash : Hash) : List UInt8 :=
  hash.toList.map UInt8.ofFin

theorem Hash.length_asBytes (hash : Hash) : hash.asBytes.length = 32 := by
  rw [Hash.asBytes, List.length_map, hash.length_toList]

theorem Hash.asBytes_injective : Function.Injective Hash.asBytes := by
  intro left right heq
  apply FixedBytes.toList_injective
  have hofFin : Function.Injective UInt8.ofFin := fun _ _ hbyte => congrArg UInt8.toFin hbyte
  exact hofFin.list_map heq

theorem Hash.selfDelimiting_asBytes : Postcard.SelfDelimiting Hash.asBytes := by
  intro left right before after heq
  have hlength : left.asBytes.length = right.asBytes.length := by
    rw [left.length_asBytes, right.length_asBytes]
  obtain ⟨hbytes, hrest⟩ := List.append_inj heq hlength
  exact ⟨Hash.asBytes_injective hbytes, hrest⟩

/-- Header of the collection metadata blob. -/
def collectionHeader : List UInt8 :=
  Utf8.encode "CollectionV0."

/-- The metadata blob, in postcard form. -/
def collectionMeta (names : List String) : List UInt8 :=
  collectionHeader ++ Postcard.seq Postcard.string names

theorem collectionMeta_injective : Function.Injective collectionMeta := by
  intro left right heq
  have hnames := List.append_cancel_left heq
  exact (Postcard.selfDelimiting_seq Postcard.selfDelimiting_string).injective hnames

section Root

variable (blake3 : Blake3)

/-- The root blob of sorted `(name, file_hash)` entries. -/
def collectionRootBlob (entries : List (String × Hash)) : List UInt8 :=
  (blake3 (collectionMeta (entries.map Prod.fst))).asBytes ++
    (entries.map Prod.snd).flatMap Hash.asBytes

theorem length_collectionRootBlob (entries : List (String × Hash)) :
    (collectionRootBlob blake3 entries).length = 32 * (entries.length + 1) := by
  rw [collectionRootBlob, List.length_append, Hash.length_asBytes, List.length_flatMap]
  simp only [Hash.length_asBytes, List.map_const', List.sum_replicate, List.length_map,
    smul_eq_mul]
  ring

/-- The root blob lists the hash of the metadata and the hashes of the files. -/
theorem collectionRootBlob_eq_iff {left right : List (String × Hash)} :
    collectionRootBlob blake3 left = collectionRootBlob blake3 right ↔
      blake3 (collectionMeta (left.map Prod.fst)) = blake3 (collectionMeta (right.map Prod.fst)) ∧
        left.map Prod.snd = right.map Prod.snd := by
  rw [collectionRootBlob, collectionRootBlob]
  constructor
  · intro heq
    obtain ⟨hmeta, hhashes⟩ := Hash.selfDelimiting_asBytes _ _ _ _ heq
    have hlength := congrArg List.length heq
    rw [← collectionRootBlob, ← collectionRootBlob, length_collectionRootBlob,
      length_collectionRootBlob] at hlength
    have hcount : (left.map Prod.snd).length = (right.map Prod.snd).length := by
      rw [List.length_map, List.length_map]
      omega
    have hends : (left.map Prod.snd).flatMap Hash.asBytes ++ [] =
        (right.map Prod.snd).flatMap Hash.asBytes ++ [] := by
      rw [List.append_nil, List.append_nil, hhashes]
    exact ⟨hmeta, (Postcard.flatMap_inj Hash.selfDelimiting_asBytes hcount hends).1⟩
  · rintro ⟨hmeta, hhashes⟩
    rw [hmeta, hhashes]

/-- The content id of the collection with these entries. -/
def collectionCid (entries : List (String × Hash)) : Cid :=
  blake3HashToCid (blake3 (collectionRootBlob blake3 entries)) .collection

/-- The byte strings that BLAKE3 sees on the way to a collection's id. -/
def collectionMessages (entries : List (String × Hash)) : Set (List UInt8) :=
  {collectionMeta (entries.map Prod.fst), collectionRootBlob blake3 entries}

variable {blake3}

theorem entries_eq_of_collectionRootBlob_eq {messages : Set (List UInt8)}
    (hblake3 : Set.InjOn blake3 messages) {left right : List (String × Hash)}
    (hleft : collectionMeta (left.map Prod.fst) ∈ messages)
    (hright : collectionMeta (right.map Prod.fst) ∈ messages)
    (heq : collectionRootBlob blake3 left = collectionRootBlob blake3 right) :
    left = right := by
  obtain ⟨hmeta, hhashes⟩ := (collectionRootBlob_eq_iff blake3).mp heq
  have hnames := collectionMeta_injective (hblake3 hleft hright hmeta)
  rw [← List.zip_unzip left, ← List.zip_unzip right, List.unzip_eq_map, List.unzip_eq_map]
  exact congrArg₂ List.zip hnames hhashes

theorem blake3HashToCid_inj {left right : Hash} {kind kind' : ArtifactKind} :
    blake3HashToCid left kind = blake3HashToCid right kind' ↔ left = right ∧ kind = kind' := by
  constructor
  · intro heq
    have hhash := congrArg cidToBlake3Hash heq
    have hkind := congrArg artifactKind heq
    rw [cidToBlake3Hash_blake3HashToCid, cidToBlake3Hash_blake3HashToCid] at hhash
    rw [artifactKind_blake3HashToCid, artifactKind_blake3HashToCid] at hkind
    exact ⟨Except.ok.inj hhash, Except.ok.inj hkind⟩
  · rintro ⟨rfl, rfl⟩
    rfl

theorem entries_eq_of_collectionCid_eq {messages : Set (List UInt8)}
    (hblake3 : Set.InjOn blake3 messages) {left right : List (String × Hash)}
    (hleft : collectionMessages blake3 left ⊆ messages)
    (hright : collectionMessages blake3 right ⊆ messages)
    (heq : collectionCid blake3 left = collectionCid blake3 right) : left = right := by
  obtain ⟨hroot, -⟩ := blake3HashToCid_inj.mp heq
  have hblob := hblake3 (hleft (by simp [collectionMessages]))
    (hright (by simp [collectionMessages])) hroot
  exact entries_eq_of_collectionRootBlob_eq hblake3 (hleft (by simp [collectionMessages]))
    (hright (by simp [collectionMessages])) hblob

end Root

/-! ## Reading identifiers -/

theorem artifactKind_eq_ok_iff {cid : Cid} {kind : ArtifactKind} :
    artifactKind cid = .ok kind ↔ cid.codec = kind.codec := by
  rw [artifactKind]
  cases kind <;> split_ifs with hraw hseq <;>
    simp_all [ArtifactKind.codec, rawCodec, blake3HashseqCodec]

theorem cidToBlake3Hash_eq_ok_iff {cid : Cid} {hash : Hash} :
    cidToBlake3Hash cid = .ok hash ↔
      cid.hash.code = hashCodeBlake3 ∧ cid.hash.digest = hash.toList := by
  rw [cidToBlake3Hash]
  split_ifs with hcode hlength
  · simp [hcode]
  · rw [not_not] at hcode
    rw [Except.ok.injEq, ← FixedBytes.toList_injective.eq_iff]
    simp [hcode]
  · rw [not_not] at hcode
    refine iff_of_false (by simp) fun hdigest => hlength ?_
    rw [hdigest.2, hash.length_toList]

/-- A kind and a hash are read off exactly the identifiers made from them. -/
theorem reads_iff_eq_blake3HashToCid {cid : Cid} {kind : ArtifactKind} {hash : Hash} :
    (artifactKind cid = .ok kind ∧ cidToBlake3Hash cid = .ok hash) ↔
      cid = blake3HashToCid hash kind := by
  constructor
  · rintro ⟨hkind, hhash⟩
    rw [artifactKind_eq_ok_iff] at hkind
    obtain ⟨hcode, hdigest⟩ := cidToBlake3Hash_eq_ok_iff.mp hhash
    obtain ⟨version, codec, ⟨code, digest, hlength⟩, hv0⟩ := cid
    dsimp only at hkind hcode hdigest
    subst hkind hcode hdigest
    cases version with
    | v1 => rfl
    | v0 =>
        obtain ⟨-, hsha2, -⟩ := hv0 rfl
        exact absurd (show hashCodeBlake3 = 0x12 from hsha2) (by decide)
  · rintro rfl
    exact ⟨artifactKind_blake3HashToCid hash kind, cidToBlake3Hash_blake3HashToCid hash kind⟩

theorem collection_identity_injective (blake3 : Blake3) (left right : List (String × Hash))
    (hblake3 : Set.InjOn blake3
      (collectionMessages blake3 left ∪ collectionMessages blake3 right)) :
    (collectionRootBlob blake3 left = collectionRootBlob blake3 right → left = right) ∧
      (collectionCid blake3 left = collectionCid blake3 right → left = right) ∧
      (∀ hash hash', blake3HashToCid hash .blob ≠ blake3HashToCid hash' .collection) ∧
      ∀ cid kind hash,
        (artifactKind cid = .ok kind ∧ cidToBlake3Hash cid = .ok hash) ↔
          cid = blake3HashToCid hash kind := by
  refine ⟨fun heq => ?_, fun heq => ?_, fun hash hash' heq => ?_, fun cid kind hash => ?_⟩
  · exact entries_eq_of_collectionRootBlob_eq hblake3 (.inl (.inl rfl)) (.inr (.inl rfl)) heq
  · exact entries_eq_of_collectionCid_eq hblake3 Set.subset_union_left Set.subset_union_right heq
  · exact ArtifactKind.noConfusion (blake3HashToCid_inj.mp heq).2
  · exact reads_iff_eq_blake3HashToCid

/-- A stand-in for BLAKE3 on messages that a number below 256 tells apart. -/
def numberHash (number : List UInt8 → ℕ) : Blake3 :=
  fun message => .filled 32 (Fin.ofNat 256 (number message))

def lengthHash : Blake3 :=
  numberHash List.length

/-- The bytes as digits of a number. -/
def rollingSum (message : List UInt8) : ℕ :=
  message.foldl (fun sum byte => (3 * sum + byte.toNat) % 251) 0

def rollingHash : Blake3 :=
  numberHash rollingSum

theorem injOn_numberHash {number : List UInt8 → ℕ} {messages : Set (List UInt8)}
    (hsmall : ∀ message ∈ messages, number message < 256)
    (hnumber : Set.InjOn number messages) : Set.InjOn (numberHash number) messages := by
  intro left hleft right hright heq
  apply hnumber hleft hright
  have hbytes := congrArg FixedBytes.toList heq
  have hbyte : Fin.ofNat 256 (number left) = Fin.ofNat 256 (number right) :=
    (List.replicate_right_inj (by decide)).mp hbytes
  have hval := congrArg Fin.val hbyte
  rwa [Fin.val_ofNat, Fin.val_ofNat, Nat.mod_eq_of_lt (hsmall _ hleft),
    Nat.mod_eq_of_lt (hsmall _ hright)] at hval

/-- A list of messages that the stand-in tells apart. -/
theorem injOn_rollingHash {messages : Set (List UInt8)} (seen : List (List UInt8))
    (sums : List ℕ) (hseen : ∀ message ∈ messages, message ∈ seen)
    (hsums : seen.map rollingSum = sums) (hnodup : sums.Nodup)
    (hsmall : ∀ sum ∈ sums, sum < 256) : Set.InjOn rollingHash messages := by
  subst hsums
  apply injOn_numberHash
  · exact fun message hmessage => hsmall _ (List.mem_map_of_mem (hseen message hmessage))
  · exact fun left hleft right hright heq =>
      List.inj_on_of_nodup_map hnodup (hseen left hleft) (hseen right hright) heq

theorem collectionMeta_pair :
    collectionMeta ["app", "lib"] =
      collectionHeader ++ [2, 3] ++ Utf8.encode "app" ++ [3] ++ Utf8.encode "lib" := by
  rw [collectionMeta, Postcard.seq, List.flatMap_cons, List.flatMap_cons, Postcard.string,
    Postcard.string, Postcard.bytes, Postcard.bytes, Postcard.varint_of_lt (by decide),
    Postcard.varint_of_lt (by decide), Postcard.varint_of_lt (by decide)]
  rfl

theorem rollingSum_collectionRootBlob (entries : List (String × Hash)) {sum : ℕ}
    (hsum : rollingSum (collectionMeta (entries.map Prod.fst)) = sum) :
    rollingSum (collectionRootBlob rollingHash entries) =
      rollingSum (Hash.asBytes (.filled 32 (Fin.ofNat 256 sum)) ++
        (entries.map Prod.snd).flatMap Hash.asBytes) := by
  rw [collectionRootBlob, rollingHash, numberHash, hsum]

/-- Two files that have exchanged their contents. -/
theorem collection_identity_injective_of_pair :
    collectionCid rollingHash [("app", .filled 32 7), ("lib", .filled 32 8)] ≠
      collectionCid rollingHash [("app", .filled 32 8), ("lib", .filled 32 7)] := by
  intro heq
  let entries : List (String × Hash) := [("app", .filled 32 7), ("lib", .filled 32 8)]
  let exchanged : List (String × Hash) := [("app", .filled 32 8), ("lib", .filled 32 7)]
  have hmeta : rollingSum (collectionMeta ["app", "lib"]) = 27 := by
    rw [collectionMeta_pair]
    decide
  have hinj : Set.InjOn rollingHash
      (collectionMessages rollingHash entries ∪ collectionMessages rollingHash exchanged) := by
    apply injOn_rollingHash [collectionMeta ["app", "lib"],
      collectionRootBlob rollingHash entries, collectionRootBlob rollingHash exchanged]
      [27, 52, 168] _ _ (by decide) (by decide)
    · rintro message ((rfl | rfl) | (rfl | rfl)) <;> simp [entries, exchanged]
    · rw [List.map_cons, List.map_cons, List.map_singleton, hmeta,
        rollingSum_collectionRootBlob entries hmeta, rollingSum_collectionRootBlob exchanged hmeta]
      decide +kernel
  have hentries := (collection_identity_injective rollingHash entries exchanged hinj).2.1 heq
  exact absurd hentries (by decide)

end RadicleArtifact.Core
