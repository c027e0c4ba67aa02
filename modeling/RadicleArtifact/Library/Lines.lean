import RadicleArtifact.Library.Utf8

/-!
# Lines of text

A line is written as the bytes of its characters and a newline, and read up to and
including the first newline.  No other character has the newline's byte in its
encoding, so what is read back is what was written.
-/

namespace RadicleArtifact.Library.Utf8

def newline : UInt8 := 10

/-- `read_until`: the bytes up to and including the first newline, and those after. -/
def takeLine : OsString → Option (OsString × OsString)
  | [] => none
  | byte :: bytes =>
      if byte = newline then some ([byte], bytes)
      else (takeLine bytes).map fun (line, rest) => (byte :: line, rest)

/-- What is left of a line whose reading has begun. -/
theorem takeLine_append {line : OsString} (hline : newline ∉ line) (rest : OsString) :
    takeLine (line ++ newline :: rest) = some (line ++ [newline], rest) := by
  induction line with
  | nil => simp [takeLine]
  | cons byte line ih =>
      obtain ⟨hbyte, hrest⟩ := not_or.mp (mt List.mem_cons.mpr hline)
      rw [List.cons_append, takeLine, if_neg (Ne.symm hbyte), ih hrest]
      rfl

theorem takeLine_eq_none_iff {bytes : OsString} : takeLine bytes = none ↔ newline ∉ bytes := by
  induction bytes with
  | nil => simp [takeLine]
  | cons byte bytes ih =>
      rw [takeLine, List.mem_cons]
      by_cases hbyte : byte = newline
      · simp [hbyte]
      · rw [if_neg hbyte, Option.map_eq_none_iff, ih]
        simp [Ne.symm hbyte]

theorem eq_append_of_takeLine {bytes line rest : OsString}
    (htake : takeLine bytes = some (line, rest)) :
    ∃ body, line = body ++ [newline] ∧ newline ∉ body ∧ bytes = line ++ rest := by
  induction bytes generalizing line with
  | nil => contradiction
  | cons byte bytes ih =>
      rw [takeLine] at htake
      by_cases hbyte : byte = newline
      · rw [if_pos hbyte] at htake
        obtain ⟨rfl, rfl⟩ := Prod.mk.inj (Option.some.inj htake)
        exact ⟨[], by rw [hbyte, List.nil_append], List.not_mem_nil, rfl⟩
      · rw [if_neg hbyte, Option.map_eq_some_iff] at htake
        obtain ⟨⟨later, after⟩, hlater, heq⟩ := htake
        obtain ⟨rfl, rfl⟩ := Prod.mk.inj heq
        obtain ⟨body, rfl, hbody, rfl⟩ := ih hlater
        exact ⟨byte :: body, rfl, by simp [Ne.symm hbyte, hbody], rfl⟩

/-- A line read in parts from the start of a stream is the first line of the stream. -/
theorem line_of_prefix {read buffer line rest body later : OsString} (hread : newline ∉ read)
    (hbody : newline ∉ body) (hinitial : read ++ buffer <+: body ++ newline :: later)
    (htake : takeLine buffer = some (line, rest)) : read ++ line = body ++ [newline] := by
  obtain ⟨front, rfl, hfront, rfl⟩ := eq_append_of_takeLine htake
  obtain ⟨tail, htail⟩ := hinitial
  have hstream : (read ++ front) ++ newline :: (rest ++ tail) = body ++ newline :: later := by
    rw [← htail]
    simp
  have hnone : newline ∉ read ++ front := by
    rw [List.mem_append]
    exact not_or.mpr ⟨hread, hfront⟩
  have hline := takeLine_append hnone (rest ++ tail)
  rw [hstream, takeLine_append hbody later] at hline
  rw [← List.append_assoc, (Prod.mk.inj (Option.some.inj hline)).1]

theorem newline_mem_encodeChars {chars : List Char} :
    newline ∈ encodeChars chars ↔ '\n' ∈ chars := by
  rw [ascii_mem_encodeChars (by decide)]
  constructor
  · rintro ⟨char, hchar, hcode⟩
    have hnewline : char = '\n' := Char.ext (UInt32.toNat_inj.mp hcode)
    exact hnewline ▸ hchar
  · intro hmem
    exact ⟨'\n', hmem, rfl⟩

/-! ## Trimming -/

/-- The characters of Unicode's `White_Space`. -/
def isWhitespace (char : Char) : Bool :=
  let code := char.toNat
  (0x9 ≤ code && code ≤ 0xd) || code == 0x20 || code == 0x85 || code == 0xa0 ||
    code == 0x1680 || (0x2000 ≤ code && code ≤ 0x200a) || code == 0x2028 ||
    code == 0x2029 || code == 0x202f || code == 0x205f || code == 0x3000

/-- `trim_end` -/
def trimEnd (text : List Char) : List Char :=
  text.rdropWhile isWhitespace

theorem trimEnd_newline {text : List Char} {last : Char} (hlast : isWhitespace last = false) :
    trimEnd (text ++ [last] ++ ['\n']) = text ++ [last] := by
  rw [trimEnd, List.rdropWhile_concat_pos _ _ _ (by decide),
    List.rdropWhile_concat_neg _ _ _ (by simp [hlast])]

end RadicleArtifact.Library.Utf8
