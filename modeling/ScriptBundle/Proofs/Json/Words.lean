import Mathlib.Data.List.TakeWhile
import ScriptBundle.Json.Reader
import ScriptBundle.Proofs.Json.Literals
import ScriptBundle.Proofs.Text.Digits

/-!
# Words are read back

A word ends where a byte comes that cannot be part of it.  The digits of a number
have no zero in front, so the reader takes them for an integer.
-/

namespace ScriptBundle.Json

open Text.Digits Text.Utf8

/-- No word goes on with these bytes. -/
def Delimits (rest : Bytes) : Prop :=
  ∀ byte ∈ rest.head?, isWordByte byte = false

/-- Letters that make a word. -/
structure IsWord (letters : List Char) : Prop where
  nonempty : letters ≠ []
  letters : ∀ char ∈ letters,
    char.toNat < 128 ∧ isWordByte (UInt8.ofNat char.toNat) = true

instance (letters : List Char) : Decidable (IsWord letters) :=
  decidable_of_iff (letters ≠ [] ∧ letters.all (fun char =>
      char.toNat < 128 ∧ isWordByte (UInt8.ofNat char.toNat) = true) = true)
    ⟨fun hword => ⟨hword.1, fun char hchar =>
        of_decide_eq_true (List.all_eq_true.mp hword.2 char hchar)⟩,
      fun hword => ⟨hword.nonempty, List.all_eq_true.mpr fun char hchar =>
        decide_eq_true (hword.letters char hchar)⟩⟩

theorem startToken_of_isWordByte {byte : UInt8} (hbyte : isWordByte byte = true)
    (done : List Token) :
    startToken byte done = some (.word [Char.ofNat byte.toNat], done) := by
  have hblank : isBlank byte = false := by
    rw [isBlank, decide_eq_false_iff_not]
    rintro (rfl | rfl | rfl | rfl) <;> exact absurd hbyte (by decide)
  have hquote : byte ≠ 0x22 := by
    rintro rfl
    exact absurd hbyte (by decide)
  rw [startToken, hblank, if_neg Bool.false_ne_true, if_neg hquote, if_pos hbyte]

theorem tokensFrom_letters {letters : List Char}
    (hletters : ∀ char ∈ letters,
      char.toNat < 128 ∧ isWordByte (UInt8.ofNat char.toNat) = true)
    (gathered : List Char) (done : List Token) (rest : Bytes) :
    tokensFrom (.word gathered) done (encode letters ++ rest) =
      tokensFrom (.word (letters.reverse ++ gathered)) done rest := by
  induction letters generalizing gathered with
  | nil => rfl
  | cons char letters ih =>
      obtain ⟨hchar, hbyte⟩ := hletters char List.mem_cons_self
      rw [encode_cons, utf8EncodeChar_of_lt hchar, List.singleton_append, List.cons_append,
        tokensFrom, takeByte, if_pos hbyte, ofNat_toNat_of_lt hchar, List.reverse_cons,
        List.append_assoc]
      exact ih (fun other hother => hletters other (List.mem_cons_of_mem _ hother)) _

theorem tokensFrom_word {letters : List Char} (hword : IsWord letters) (done : List Token)
    {rest : Bytes} (hrest : Delimits rest) :
    tokensFrom .plain done (encode letters ++ rest) =
      tokensFrom .plain (.word letters :: done) rest := by
  have hend : ∀ gathered, tokensFrom (.word gathered) done rest =
      tokensFrom .plain (.word gathered.reverse :: done) rest := by
    intro gathered
    cases rest with
    | nil => rfl
    | cons byte rest =>
        have hbyte : isWordByte byte = false := hrest byte rfl
        rw [tokensFrom, takeByte, if_neg (by simp [hbyte]), tokensFrom, takeByte]
  obtain ⟨hnonempty, hletters⟩ := hword
  cases letters with
  | nil => exact (hnonempty rfl).elim
  | cons char letters =>
      obtain ⟨hchar, hbyte⟩ := hletters char List.mem_cons_self
      rw [encode_cons, utf8EncodeChar_of_lt hchar, List.singleton_append, List.cons_append,
        tokensFrom, takeByte, startToken_of_isWordByte hbyte, ofNat_toNat_of_lt hchar]
      simp only
      rw [tokensFrom_letters fun other hother => hletters other (List.mem_cons_of_mem _ hother),
        hend, List.reverse_append, List.reverse_reverse]
      rfl

/-! ## Integers -/

theorem isWordByte_of_isDigit {char : Char} (hdigit : char.isDigit = true) :
    char.toNat < 128 ∧ isWordByte (UInt8.ofNat char.toNat) = true := by
  obtain ⟨hlow, hhigh⟩ := Char.isDigit_iff_toNat.mp hdigit
  have hchar : char.toNat < 128 := Nat.lt_of_le_of_lt hhigh (by decide)
  refine ⟨hchar, ?_⟩
  have hbyte : UInt8.ofNat char.toNat < 0x80 := by
    rw [UInt8.lt_iff_toNat_lt, UInt8.toNat_ofNat_of_lt' (Nat.lt_trans hchar (by decide))]
    exact hchar
  simp only [isWordByte, ofNat_toNat_of_lt hchar, Char.isAlphanum, hdigit, Bool.or_true, true_or,
    and_true, decide_eq_true_eq]
  exact hbyte

theorem digitsValue_toDigits (value : Nat) : digitsValue (Nat.toDigits 10 value) = value :=
  foldl_toDigits value

theorem wholePart?_toDigits (value : Nat) :
    wholePart? (Nat.toDigits 10 value) = some (Nat.toDigits 10 value, []) := by
  have htaken : (Nat.toDigits 10 value).takeWhile Char.isDigit = Nat.toDigits 10 value :=
    List.takeWhile_eq_self_iff.mpr fun char hchar => isDigit_of_mem hchar
  have hskipped : skipDigits (Nat.toDigits 10 value) = [] :=
    List.dropWhile_eq_nil_iff.mpr fun char hchar => isDigit_of_mem hchar
  have hstarts : startsWithDigit (Nat.toDigits 10 value) = true := by
    cases hdigits : Nat.toDigits 10 value with
    | nil => exact (Nat.toDigits_ne_nil hdigits).elim
    | cons char chars => exact isDigit_of_mem (hdigits ▸ List.mem_cons_self)
  by_cases hzero : value = 0
  · subst value
    rfl
  · have hhead := toDigits_head_ne_zero (Nat.pos_of_ne_zero hzero)
    rw [wholePart?.eq_2 _ fun rest hrest => hhead rest hrest, if_pos hstarts, htaken, hskipped]

/-- The digits of a number are taken for an integer. -/
theorem unsignedNumber?_toDigits (negative : Bool) (value : Nat)
    (hvalue : negative = true → value ≠ 0) :
    unsignedNumber? negative (Nat.toDigits 10 value) =
      some (.integer (if negative then -value else value)) := by
  have hnot : ¬ (([] : List Char) ≠ [] ∨ negative = true ∧ value = 0) := by
    rintro (hne | ⟨hnegative, hzero⟩)
    · exact hne rfl
    · exact hvalue hnegative hzero
  have hend : (skipFraction []).bind skipExponent = some [] := rfl
  rw [unsignedNumber?, wholePart?_toDigits]
  simp only [hend, digitsValue_toDigits, if_neg hnot]

theorem isWord_toString (value : Int) : IsWord (toString value).toList := by
  cases value with
  | ofNat value =>
      rw [toList_toString_ofNat]
      exact ⟨Nat.toDigits_ne_nil, fun char hchar => isWordByte_of_isDigit (isDigit_of_mem hchar)⟩
  | negSucc value =>
      rw [toList_toString_negSucc]
      refine ⟨List.cons_ne_nil _ _, fun char hchar => ?_⟩
      rcases List.mem_cons.mp hchar with rfl | hdigit
      · decide
      · exact isWordByte_of_isDigit (isDigit_of_mem hdigit)

/-- Digits are none of the three names and have no sign. -/
theorem wordValue?_digits {char : Char} (hdigit : char.isDigit = true) (letters : List Char) :
    wordValue? (char :: letters) = unsignedNumber? false (char :: letters) := by
  have hname : ∀ name : String, name.toList.head?.any Char.isDigit = false →
      char :: letters ≠ name.toList := by
    intro name hname heq
    rw [← heq, List.head?_cons, Option.any_some, hdigit] at hname
    cases hname
  have hsign : char ≠ '-' := by
    rintro rfl
    exact absurd hdigit (by decide)
  rw [wordValue?, if_neg (hname _ (by decide)), if_neg (hname _ (by decide)),
    if_neg (hname _ (by decide))]
  intro digits heq
  exact hsign (List.cons.inj heq).1

/-- An integer is read from what is written for it. -/
theorem wordValue?_toString (value : Int) :
    wordValue? (toString value).toList = some (.integer value) := by
  cases value with
  | ofNat value =>
      have hvalue := unsignedNumber?_toDigits false value nofun
      rw [toList_toString_ofNat]
      cases hdigits : Nat.toDigits 10 value with
      | nil => exact (Nat.toDigits_ne_nil hdigits).elim
      | cons char letters =>
          rw [hdigits] at hvalue
          rw [wordValue?_digits (isDigit_of_mem (hdigits ▸ List.mem_cons_self)), hvalue]
          rfl
  | negSucc value =>
      have hvalue := unsignedNumber?_toDigits true (value + 1) fun _ => Nat.succ_ne_zero value
      rw [toList_toString_negSucc]
      exact hvalue

end ScriptBundle.Json
