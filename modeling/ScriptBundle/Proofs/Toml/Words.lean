import Mathlib.Data.List.TakeWhile
import ScriptBundle.Proofs.Text.Digits
import ScriptBundle.Toml.Document

/-!
# Words are read back

A word ends where a character comes that cannot be part of it.  The digits of a number
have no zero in front and nothing between them, so they are taken for an integer and not
for a time.
-/

namespace ScriptBundle.Toml

open Text.Digits

/-- What can stand behind a value: the end of its line, of the item or of the list. -/
def Ends (rest : List Char) : Prop :=
  ∃ char tail, rest = char :: tail ∧ (char = '\n' ∨ char = ',' ∨ char = ']')

theorem ends_line (tail : List Char) : Ends ('\n' :: tail) :=
  ⟨'\n', tail, rfl, .inl rfl⟩

theorem ends_item (tail : List Char) : Ends (',' :: tail) :=
  ⟨',', tail, rfl, .inr (.inl rfl)⟩

theorem ends_list (tail : List Char) : Ends (']' :: tail) :=
  ⟨']', tail, rfl, .inr (.inr rfl)⟩

/-- What passes a test is split off in front of a character that does not. -/
theorem takeWhile_append_cons {test : Char → Bool} {letters : List Char} {char : Char}
    (hletters : ∀ letter ∈ letters, test letter = true) (hchar : test char = false)
    (rest : List Char) :
    (letters ++ char :: rest).takeWhile test = letters ∧
      (letters ++ char :: rest).dropWhile test = char :: rest := by
  constructor
  · rw [List.takeWhile_append_of_pos hletters, List.takeWhile_cons, hchar,
      if_neg Bool.false_ne_true, List.append_nil]
  · rw [List.dropWhile_append_of_pos hletters, List.dropWhile_cons, hchar,
      if_neg Bool.false_ne_true]

theorem readWord_append {letters rest : List Char}
    (hletters : ∀ char ∈ letters, isWordChar char = true) (hrest : Ends rest) :
    readWord (letters ++ rest) = (wordValue? letters).map fun value => (value, rest) := by
  obtain ⟨char, tail, rfl, hchar⟩ := hrest
  have hends : isWordChar char = false := by
    rcases hchar with rfl | rfl | rfl <;> decide
  have hblank : char ≠ ' ' := by
    rcases hchar with rfl | rfl | rfl <;> decide
  obtain ⟨htaken, hleft⟩ := takeWhile_append_cons hletters hends tail
  rw [readWord, htaken, hleft]
  simp only
  split
  · rename_i heq
    exact absurd (List.cons.inj heq).1 hblank
  · rfl

/-- Characters differ where a test tells them apart. -/
theorem ne_of_test {test : Char → Bool} {char other : Char} (hchar : test char = true)
    (hother : test other = false) : char ≠ other := by
  rintro rfl
  rw [hchar] at hother
  cases hother

/-! ## Integers -/

theorem isWordChar_of_isDigit {char : Char} (hdigit : char.isDigit = true) :
    isWordChar char = true := by
  simp [isWordChar, Char.isAlphanum, hdigit]

theorem isWordChar_of_mem_toString {value : Int} {char : Char}
    (hchar : char ∈ (toString value).toList) : isWordChar char = true := by
  cases value with
  | ofNat value =>
      rw [toList_toString_ofNat] at hchar
      exact isWordChar_of_isDigit (isDigit_of_mem hchar)
  | negSucc value =>
      rw [toList_toString_negSucc] at hchar
      rcases List.mem_cons.mp hchar with rfl | hdigit
      · decide
      · exact isWordChar_of_isDigit (isDigit_of_mem hdigit)

theorem moreDigits_eq {digits : List Char} (hdigits : ∀ char ∈ digits, char.isDigit = true) :
    moreDigits Char.isDigit digits = (digits, []) := by
  induction digits with
  | nil => rfl
  | cons char digits ih =>
      have hchar := hdigits char List.mem_cons_self
      have hunderscore : char ≠ '_' := by
        rintro rfl
        exact absurd hchar (by decide)
      rw [moreDigits.eq_2 _ _ _ fun _ _ heq _ => hunderscore heq, if_pos hchar,
        ih fun other hother => hdigits other (List.mem_cons_of_mem _ hother)]

theorem readDigits_toDigits (value : Nat) :
    readDigits Char.isDigit (Nat.toDigits 10 value) = some (Nat.toDigits 10 value, []) := by
  have hdigits : ∀ char ∈ Nat.toDigits 10 value, char.isDigit = true := fun _ => isDigit_of_mem
  cases hvalue : Nat.toDigits 10 value with
  | nil => exact absurd hvalue Nat.toDigits_ne_nil
  | cons char digits =>
      rw [hvalue] at hdigits
      rw [readDigits, if_pos (hdigits char List.mem_cons_self),
        moreDigits_eq fun other hother => hdigits other (List.mem_cons_of_mem _ hother)]

theorem baseValue_toDigits (value : Nat) : baseValue 10 (Nat.toDigits 10 value) = value := by
  calc baseValue 10 (Nat.toDigits 10 value)
      = (Nat.toDigits 10 value).foldl
          (fun value digit => 10 * value + (digit.toNat - 48)) 0 := by
        apply List.foldl_ext
        intro value digit hdigit
        rw [digitValue, if_pos (isDigit_of_mem hdigit)]
    _ = value := foldl_toDigits value

theorem decimal?_toDigits (negative : Bool) (value : Nat) :
    decimal? negative (Nat.toDigits 10 value) =
      integer? (if negative then -(value : Int) else value) := by
  have hlead : ¬ ((Nat.toDigits 10 value).head? = some '0' ∧
      1 < (Nat.toDigits 10 value).length) := by
    rintro ⟨hhead, hlength⟩
    by_cases hzero : value = 0
    · subst hzero
      exact absurd hlength (by decide)
    · obtain ⟨rest, hrest⟩ := List.head?_eq_some_iff.mp hhead
      exact toDigits_head_ne_zero (Nat.pos_of_ne_zero hzero) rest hrest
  rw [decimal?, readDigits_toDigits]
  simp only [if_neg hlead, if_true, baseValue_toDigits]

/-- Digits in a row are no date and no time of day. -/
theorem isTime_eq_false {word : List Char}
    (hword : ∀ char ∈ word.drop 1, char ≠ '-' ∧ char ≠ ':') : isTime word = false := by
  have hdate : afterDate? word = none := by
    unfold afterDate?
    split
    · exact absurd rfl (hword '-' (by simp)).1
    · rfl
  have htime : afterTime? word = none := by
    unfold afterTime?
    split
    · exact absurd rfl (hword ':' (by simp)).2
    · rfl
  rw [isTime, hdate]
  simp [htime]

/-- A word that is no time, and neither of the two names, is a number. -/
theorem wordValue?_eq_number? {word : List Char} (htrue : ∀ rest, word ≠ 't' :: rest)
    (hfalse : ∀ rest, word ≠ 'f' :: rest) (htime : isTime word = false) :
    wordValue? word = number? word := by
  have htrue' : word ≠ "true".toList := htrue _
  have hfalse' : word ≠ "false".toList := hfalse _
  rw [wordValue?, if_neg htrue', if_neg hfalse', htime, if_neg Bool.false_ne_true]

/-- Letters stand in no number in front of the digits. -/
theorem toDigits_ne {value : Nat} {char : Char} (hletter : char.isDigit = false)
    (rest : List Char) : Nat.toDigits 10 value ≠ char :: rest := by
  intro heq
  have hmem : char ∈ Nat.toDigits 10 value := heq ▸ List.mem_cons_self
  exact ne_of_test (isDigit_of_mem hmem) hletter rfl

theorem number?_toDigits (value : Nat) :
    number? (Nat.toDigits 10 value) = integer? value := by
  have hbased : ∀ letter digits, letter.isDigit = false →
      Nat.toDigits 10 value ≠ '0' :: letter :: digits := by
    intro letter digits hletter heq
    have hmem : letter ∈ Nat.toDigits 10 value := by simp [heq]
    exact ne_of_test (isDigit_of_mem hmem) hletter rfl
  have hsign : readSign (Nat.toDigits 10 value) = (false, Nat.toDigits 10 value) :=
    readSign.eq_3 _ (fun rest => toDigits_ne (by decide) rest)
      (fun rest => toDigits_ne (by decide) rest)
  rw [number?.eq_4 _ (fun digits => hbased 'x' digits (by decide))
    (fun digits => hbased 'o' digits (by decide)) (fun digits => hbased 'b' digits (by decide)),
    hsign]
  simp only
  rw [if_neg (not_or.mpr ⟨toDigits_ne (by decide) _, toDigits_ne (by decide) _⟩),
    decimal?_toDigits]
  rfl

theorem number?_negative (value : Nat) :
    number? ('-' :: Nat.toDigits 10 value) = integer? (-(value : Int)) := by
  rw [number?.eq_4 _ (fun _ heq => absurd (List.cons.inj heq).1 (by decide))
    (fun _ heq => absurd (List.cons.inj heq).1 (by decide))
    (fun _ heq => absurd (List.cons.inj heq).1 (by decide)), readSign]
  simp only
  rw [if_neg (not_or.mpr ⟨toDigits_ne (by decide) _, toDigits_ne (by decide) _⟩),
    decimal?_toDigits]
  rfl

/-- An integer is read from what is written for it. -/
theorem wordValue?_toString {value : Int} (hlow : -9223372036854775808 ≤ value)
    (hhigh : value ≤ 9223372036854775807) :
    wordValue? (toString value).toList = some (.integer value) := by
  have hinteger : integer? value = some (.integer value) := if_pos ⟨hlow, hhigh⟩
  have hplain : ∀ {number : Nat} {char : Char}, char ∈ Nat.toDigits 10 number →
      char ≠ '-' ∧ char ≠ ':' := fun hchar =>
    ⟨ne_of_test (isDigit_of_mem hchar) (by decide),
      ne_of_test (isDigit_of_mem hchar) (by decide)⟩
  cases value with
  | ofNat value =>
      have htime : isTime (Nat.toDigits 10 value) = false :=
        isTime_eq_false fun char hchar => hplain (List.mem_of_mem_drop hchar)
      rw [toList_toString_ofNat, wordValue?_eq_number? (toDigits_ne (by decide))
        (toDigits_ne (by decide)) htime, number?_toDigits]
      exact hinteger
  | negSucc value =>
      have htime : isTime ('-' :: Nat.toDigits 10 (value + 1)) = false :=
        isTime_eq_false fun char hchar => hplain hchar
      have hsign : ∀ letter rest, letter ≠ '-' →
          '-' :: Nat.toDigits 10 (value + 1) ≠ letter :: rest :=
        fun letter rest hletter heq => hletter (List.cons.inj heq).1.symm
      rw [toList_toString_negSucc, wordValue?_eq_number?
        (fun rest => hsign 't' rest (by decide)) (fun rest => hsign 'f' rest (by decide)) htime,
        number?_negative]
      exact hinteger

end ScriptBundle.Toml
