import ScriptBundle.Json.Basic
import ScriptBundle.Json.Token
import ScriptBundle.Proofs.Text.Utf8

/-!
# String literals are read back

Each character of a text is written as itself or as an escape.  The reader gathers
pieces for it that stand for its bytes, so a whole literal denotes its text.
-/

namespace ScriptBundle.Json

open Text.Utf8

/-- The pieces stand for the bytes, whatever follows them. -/
def Denotes (units : List Unit16) (bytes : Bytes) : Prop :=
  ∀ done tail, joinUnits done (units ++ tail) = joinUnits (bytes.reverse ++ done) tail

theorem denotes_append {first second : List Unit16} {front back : Bytes}
    (hfirst : Denotes first front) (hsecond : Denotes second back) :
    Denotes (first ++ second) (front ++ back) := by
  intro done tail
  rw [List.append_assoc, hfirst, hsecond, List.reverse_append, List.append_assoc]

theorem denotes_bytes (bytes : Bytes) : Denotes (bytes.map .byte) bytes := by
  intro done tail
  induction bytes generalizing done with
  | nil => rfl
  | cons byte bytes ih =>
      rw [List.map_cons, List.cons_append, joinUnits, ih, List.reverse_cons, List.append_assoc]
      rfl

/-- An escape that is no half of a character stands for the character. -/
theorem denotes_escaped {value : Nat} (hvalue : value < 0xD800) :
    Denotes [.escaped value] (String.utf8EncodeChar (Char.ofNat value)) := by
  have hhigh : isHighHalf value = false := by
    rw [isHighHalf, decide_eq_false_iff_not]
    omega
  have hlow : isLowHalf value = false := by
    rw [isLowHalf, decide_eq_false_iff_not]
    omega
  intro done tail
  rw [List.singleton_append]
  cases tail with
  | nil => simp [joinUnits, hhigh, hlow]
  | cons unit tail =>
      cases unit with
      | byte next => simp [joinUnits, hhigh, hlow]
      | escaped low =>
          rw [joinUnits.eq_def]
          simp [hhigh, hlow]

/-- Reading `bytes` within a literal gathers pieces for `denoted`. -/
def Gathers (bytes denoted : Bytes) : Prop :=
  ∃ units, Denotes units denoted ∧ ∀ gathered done rest,
    tokensFrom (.string gathered) done (bytes ++ rest) =
      tokensFrom (.string (units.reverse ++ gathered)) done rest

theorem gathers_nil : Gathers [] [] :=
  ⟨[], fun _ _ => rfl, fun _ _ _ => rfl⟩

theorem gathers_append {front back first second : Bytes} (hfront : Gathers front first)
    (hback : Gathers back second) : Gathers (front ++ back) (first ++ second) := by
  obtain ⟨frontUnits, hfrontDenotes, hfrontReads⟩ := hfront
  obtain ⟨backUnits, hbackDenotes, hbackReads⟩ := hback
  refine ⟨frontUnits ++ backUnits, denotes_append hfrontDenotes hbackDenotes, ?_⟩
  intro gathered done rest
  rw [List.append_assoc, hfrontReads, hbackReads, List.reverse_append, List.append_assoc]

/-- Bytes that need no escape. -/
theorem gathers_plain (bytes : Bytes)
    (hplain : ∀ byte ∈ bytes, byte ≠ 0x22 ∧ byte ≠ 0x5C ∧ ¬ byte < 0x20) : Gathers bytes bytes := by
  refine ⟨bytes.map .byte, denotes_bytes bytes, ?_⟩
  intro gathered done rest
  induction bytes generalizing gathered with
  | nil => rfl
  | cons byte bytes ih =>
      obtain ⟨hquote, hescape, hcontrol⟩ := hplain byte List.mem_cons_self
      rw [List.cons_append, tokensFrom, takeByte, if_neg hquote, if_neg hescape, if_neg hcontrol,
        List.map_cons, List.reverse_cons, List.append_assoc]
      exact ih (fun other hother => hplain other (List.mem_cons_of_mem _ hother)) _

/-- A one-letter escape. -/
theorem gathers_simple {letter value : UInt8} (hletter : letter ≠ 0x75)
    (hvalue : simpleEscape? letter = some value) : Gathers [0x5C, letter] [value] := by
  refine ⟨[.byte value], denotes_bytes [value], ?_⟩
  intro gathered done rest
  have hopen : takeByte (.string gathered) done 0x5C = some (.escape gathered, done) := rfl
  rw [List.cons_append, tokensFrom, hopen]
  simp only [List.singleton_append, tokensFrom, takeByte, if_neg hletter, hvalue]
  rfl

/-- An escape by four digits, for a control character. -/
theorem gathers_control {value : Nat} (hvalue : value < 32) :
    Gathers (encode ('\\' :: 'u' :: controlDigits value))
      (String.utf8EncodeChar (Char.ofNat value)) := by
  refine ⟨[.escaped value], denotes_escaped (Nat.lt_trans hvalue (by decide)), ?_⟩
  have hdigits : ∀ value < 32,
      let left := UInt8.ofNat (48 + value / 16)
      let right := UInt8.ofNat (if value % 16 < 10 then 48 + value % 16 else 87 + value % 16)
      encode ('\\' :: 'u' :: controlDigits value) = [0x5C, 0x75, 0x30, 0x30, left, right] ∧
        hexDigit? left = some (value / 16) ∧ hexDigit? right = some (value % 16) := by decide
  obtain ⟨hbytes, hleft, hright⟩ := hdigits value hvalue
  intro gathered done rest
  have hzero : hexDigit? 0x30 = some 0 := rfl
  have hopen : takeByte (.string gathered) done 0x5C = some (.escape gathered, done) := rfl
  have hstart : takeByte (.escape gathered) done 0x75 = some (.digits gathered 4 0, done) := rfl
  have hsum : 16 * (value / 16) + value % 16 = value := Nat.div_add_mod value 16
  rw [hbytes]
  simp only [List.cons_append, tokensFrom, hopen, hstart]
  simp only [List.nil_append, takeByte, hzero, hleft, hright, Option.map_some]
  simp [hsum]

theorem gathers_ordinary {char : Char} (hquote : char ≠ '"') (hescape : char ≠ '\\')
    (hcontrol : 32 ≤ char.toNat) : Gathers (encode [char]) (String.utf8EncodeChar char) := by
  rw [encode_cons, encode_nil, List.append_nil]
  apply gathers_plain
  intro byte hbyte
  by_cases hchar : char.toNat < 128
  · rw [utf8EncodeChar_of_lt hchar, List.mem_singleton] at hbyte
    have hback := ofNat_toNat_of_lt hchar
    rw [← hbyte] at hback
    refine ⟨fun heq => hquote ?_, fun heq => hescape ?_, ?_⟩
    · rw [← hback, heq]
      rfl
    · rw [← hback, heq]
      rfl
    · rw [UInt8.lt_iff_toNat_lt, hbyte, UInt8.toNat_ofNat_of_lt' (Nat.lt_trans hchar (by decide))]
      exact Nat.not_lt_of_le hcontrol
  · have hhigh := le_of_mem_utf8EncodeChar (Nat.le_of_not_lt hchar) hbyte
    refine ⟨?_, ?_, ?_⟩
    · rintro rfl
      exact absurd hhigh (by decide)
    · rintro rfl
      exact absurd hhigh (by decide)
    · rw [UInt8.lt_iff_toNat_lt]
      rw [UInt8.le_iff_toNat_le] at hhigh
      exact Nat.not_lt_of_le (Nat.le_trans (by decide) hhigh)

theorem gathers_escape (char : Char) :
    Gathers (encode (escape char)) (String.utf8EncodeChar char) := by
  by_cases hquote : char = '"'
  · subst char
    exact gathers_simple (by decide) rfl
  by_cases hescape : char = '\\'
  · subst char
    exact gathers_simple (by decide) rfl
  by_cases hline : char = '\n'
  · subst char
    exact gathers_simple (by decide) rfl
  by_cases hreturn : char = '\r'
  · subst char
    exact gathers_simple (by decide) rfl
  by_cases htab : char = '\t'
  · subst char
    exact gathers_simple (by decide) rfl
  by_cases hbackspace : char.toNat = 8
  · rw [← Char.ofNat_toNat char, hbackspace]
    exact gathers_simple (by decide) rfl
  by_cases hfeed : char.toNat = 12
  · rw [← Char.ofNat_toNat char, hfeed]
    exact gathers_simple (by decide) rfl
  rw [escape, if_neg hquote, if_neg hescape, if_neg hline, if_neg hreturn, if_neg htab,
    if_neg hbackspace, if_neg hfeed]
  by_cases hcontrol : char.toNat < 32
  · have hgathers := gathers_control hcontrol
    rw [Char.ofNat_toNat] at hgathers
    rw [if_pos hcontrol]
    exact hgathers
  · rw [if_neg hcontrol]
    exact gathers_ordinary hquote hescape (Nat.le_of_not_lt hcontrol)

theorem gathers_text (chars : List Char) :
    Gathers (encode (chars.flatMap escape)) (encode chars) := by
  induction chars with
  | nil => exact gathers_nil
  | cons char chars ih =>
      rw [List.flatMap_cons, encode_append, encode_cons]
      exact gathers_append (gathers_escape char) ih

/-- A literal is read as the text it was written for. -/
theorem tokensFrom_quote (value : String) (done : List Token) (rest : Bytes) :
    tokensFrom .plain done (encode (quote value) ++ rest) =
      tokensFrom .plain (.string (some value) :: done) rest := by
  obtain ⟨units, hdenotes, hreads⟩ := gathers_text value.toList
  have htext : textOf units = some value := by
    have hjoined := hdenotes [] []
    rw [List.append_nil, List.append_nil] at hjoined
    rw [textOf, hjoined, joinUnits, List.reverse_reverse, Option.bind_some, decode?_encode]
  have hopen : takeByte .plain done 0x22 = some (.string [], done) := rfl
  have hquote : String.utf8EncodeChar '"' = [0x22] := rfl
  rw [quote, encode_append, encode_cons, encode_cons, encode_nil, hquote, List.append_nil,
    List.append_assoc, List.append_assoc, List.singleton_append, List.singleton_append,
    tokensFrom, hopen]
  simp only
  rw [hreads, List.append_nil, tokensFrom, takeByte, if_pos rfl, List.reverse_reverse, htext]

end ScriptBundle.Json
