import RadicleArtifact.Library.Utf8

/-!
# The postcard encoding

Numbers are written in base 128 with the low digits first, strings and sequences behind
their length.  Each encoding says where it ends, so values written one after the other
can be told apart.
-/

namespace RadicleArtifact.Library.Postcard

variable {Value : Type}

/-- What follows an encoded value does not blur where it ends. -/
def SelfDelimiting (encode : Value → List UInt8) : Prop :=
  ∀ left right before after, encode left ++ before = encode right ++ after →
    left = right ∧ before = after

theorem SelfDelimiting.injective {encode : Value → List UInt8}
    (hencode : SelfDelimiting encode) : Function.Injective encode := by
  intro left right heq
  exact (hencode left right [] [] (by rw [heq])).1

/-- `varint(usize)` -/
def varint (value : ℕ) : List UInt8 :=
  if value < 128 then [UInt8.ofNat value]
  else UInt8.ofNat (value % 128 + 128) :: varint (value / 128)

def bytes (contents : List UInt8) : List UInt8 :=
  varint contents.length ++ contents

def string (text : String) : List UInt8 :=
  bytes (Utf8.encode text)

def seq (encode : Value → List UInt8) (items : List Value) : List UInt8 :=
  varint items.length ++ items.flatMap encode

theorem ofNat_inj {left right : ℕ} (hleft : left < 256) (hright : right < 256)
    (heq : UInt8.ofNat left = UInt8.ofNat right) : left = right := by
  have hnat := congrArg UInt8.toNat heq
  rwa [UInt8.toNat_ofNat', UInt8.toNat_ofNat', Nat.mod_eq_of_lt hleft,
    Nat.mod_eq_of_lt hright] at hnat

theorem varint_of_lt {value : ℕ} (hvalue : value < 128) : varint value = [UInt8.ofNat value] := by
  rw [varint, if_pos hvalue]

theorem varint_of_not_lt {value : ℕ} (hvalue : ¬value < 128) :
    varint value = UInt8.ofNat (value % 128 + 128) :: varint (value / 128) := by
  rw [varint, if_neg hvalue]

theorem selfDelimiting_varint : SelfDelimiting varint := by
  intro left
  induction left using Nat.strong_induction_on with
  | _ left ih =>
      intro right before after heq
      by_cases hleft : left < 128 <;> by_cases hright : right < 128
      · rw [varint_of_lt hleft, varint_of_lt hright] at heq
        obtain ⟨hfirst, hrest⟩ := List.cons.inj heq
        exact ⟨ofNat_inj (by omega) (by omega) hfirst, hrest⟩
      · rw [varint_of_lt hleft, varint_of_not_lt hright] at heq
        have hfirst := ofNat_inj (by omega) (by omega) (List.cons.inj heq).1
        omega
      · rw [varint_of_not_lt hleft, varint_of_lt hright] at heq
        have hfirst := ofNat_inj (by omega) (by omega) (List.cons.inj heq).1
        omega
      · rw [varint_of_not_lt hleft, varint_of_not_lt hright] at heq
        obtain ⟨hfirst, hrest⟩ := List.cons.inj heq
        have hdigit := ofNat_inj (by omega) (by omega) hfirst
        obtain ⟨hquotient, hafter⟩ := ih (left / 128) (by omega) _ before after hrest
        exact ⟨by omega, hafter⟩

theorem selfDelimiting_bytes : SelfDelimiting bytes := by
  intro left right before after heq
  rw [bytes, bytes, List.append_assoc, List.append_assoc] at heq
  obtain ⟨hlength, hrest⟩ := selfDelimiting_varint _ _ _ _ heq
  exact List.append_inj hrest hlength

theorem selfDelimiting_string : SelfDelimiting string := by
  intro left right before after heq
  obtain ⟨hbytes, hafter⟩ := selfDelimiting_bytes _ _ _ _ heq
  exact ⟨Utf8.encode_injective hbytes, hafter⟩

theorem flatMap_inj {encode : Value → List UInt8} (hencode : SelfDelimiting encode)
    {left right : List Value} (hlength : left.length = right.length)
    {before after : List UInt8}
    (heq : left.flatMap encode ++ before = right.flatMap encode ++ after) :
    left = right ∧ before = after := by
  induction left generalizing right with
  | nil =>
      obtain rfl : right = [] := List.length_eq_zero_iff.mp hlength.symm
      exact ⟨rfl, heq⟩
  | cons item left ih =>
      cases right with
      | nil => contradiction
      | cons other right =>
          rw [List.flatMap_cons, List.flatMap_cons, List.append_assoc, List.append_assoc] at heq
          obtain ⟨rfl, hrest⟩ := hencode _ _ _ _ heq
          obtain ⟨rfl, hafter⟩ := ih (Nat.succ.inj hlength) hrest
          exact ⟨rfl, hafter⟩

theorem selfDelimiting_seq {encode : Value → List UInt8} (hencode : SelfDelimiting encode) :
    SelfDelimiting (seq encode) := by
  intro left right before after heq
  rw [seq, seq, List.append_assoc, List.append_assoc] at heq
  obtain ⟨hlength, hrest⟩ := selfDelimiting_varint _ _ _ _ heq
  exact flatMap_inj hencode hlength hrest

end RadicleArtifact.Library.Postcard
