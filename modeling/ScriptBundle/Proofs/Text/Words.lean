import ScriptBundle.Text.Words
import Mathlib.Data.List.Chain
import Mathlib.Data.List.TakeWhile

/-!
# The words of a text are those it is spaced out from

A text is its words with blanks between them, and with any further blanks around them.  There
is one list of words that a text can be seen as in this way, the one that is read from it.  Set
apart by single spaces, the words make the text again if it has no other blanks.
-/

namespace ScriptBundle.Text

/-- A word has a character, and no blank. -/
def IsWord (word : List Char) : Prop :=
  word ≠ [] ∧ ∀ char ∈ word, isBlank char = false

instance (word : List Char) : Decidable (IsWord word) :=
  decidable_of_iff (word ≠ [] ∧ word.all (fun char => !isBlank char) = true) (by simp [IsWord])

/-- The characters are these words, set apart by blanks. -/
inductive Spaced : List (List Char) → List Char → Prop
  | nil : Spaced [] []
  | blank {words : List (List Char)} {char : Char} {chars : List Char}
      (hchar : isBlank char = true) (hspaced : Spaced words chars) : Spaced words (char :: chars)
  | last {word : List Char} (hword : IsWord word) : Spaced [word] word
  | word {words : List (List Char)} {word : List Char} {char : Char} {chars : List Char}
      (hword : IsWord word) (hchar : isBlank char = true) (hspaced : Spaced words chars) :
      Spaced (word :: words) (word ++ char :: chars)

/-- A word that has been begun is continued up to the next blank. -/
theorem wordsFrom_append {word : List Char} (hword : ∀ char ∈ word, isBlank char = false)
    (begun chars : List Char) :
    wordsFrom begun (word ++ chars) = wordsFrom (word.reverse ++ begun) chars := by
  induction word generalizing begun with
  | nil => rfl
  | cons char word ih =>
      have hchar : isBlank char = false := hword char (List.mem_cons_self ..)
      have hrest : ∀ char ∈ word, isBlank char = false := fun char hmem =>
        hword char (List.mem_cons_of_mem _ hmem)
      simp only [List.cons_append, wordsFrom, hchar, Bool.false_eq_true, if_false, ih hrest,
        List.reverse_cons, List.append_assoc, List.nil_append]

theorem Spaced.wordsFrom_eq {words : List (List Char)} {chars : List Char}
    (hspaced : Spaced words chars) : wordsFrom [] chars = words := by
  induction hspaced with
  | nil => rfl
  | blank hchar _ ih => simpa [wordsFrom, hchar] using ih
  | @last word hword =>
      have hread := wordsFrom_append hword.2 [] []
      simpa [wordsFrom, hword.1] using hread
  | @word words word char chars hword hchar _ ih =>
      rw [wordsFrom_append hword.2]
      simp [wordsFrom, hchar, hword.1, ih]

theorem isWord_reverse {begun : List Char} (hne : begun ≠ [])
    (hbegun : ∀ char ∈ begun, isBlank char = false) : IsWord begun.reverse :=
  ⟨by simpa using hne, fun char hmem => hbegun char (List.mem_reverse.mp hmem)⟩

/-- What is read from a word that has been begun and the rest is what they are spaced out from. -/
theorem spaced_wordsFrom (begun chars : List Char)
    (hbegun : ∀ char ∈ begun, isBlank char = false) :
    Spaced (wordsFrom begun chars) (begun.reverse ++ chars) := by
  fun_induction wordsFrom begun chars with
  | case1 => exact .nil
  | case2 begun hne => simpa using Spaced.last (isWord_reverse hne hbegun)
  | case3 char chars hchar ih => exact .blank hchar (ih hbegun)
  | case4 begun char chars hchar hne ih =>
      exact .word (isWord_reverse hne hbegun) hchar (ih fun _ hmem => by cases hmem)
  | case5 begun char chars hchar ih =>
      have hlonger : ∀ char' ∈ char :: begun, isBlank char' = false := by
        simpa using ⟨Bool.eq_false_iff.mpr hchar, hbegun⟩
      simpa using ih hlonger

/-- The words of a text are the only ones that it is spaced out from. -/
theorem words_eq_iff {text : String} {words : List String} :
    Text.words text = words ↔ Spaced (words.map String.toList) text.toList := by
  constructor
  · rintro rfl
    simpa [Text.words, Function.comp_def] using
      spaced_wordsFrom [] text.toList fun _ hmem => by cases hmem
  · intro hspaced
    simp [Text.words, hspaced.wordsFrom_eq, Function.comp_def]

/-- A word and a space in front of a text are another word of it. -/
theorem words_append {word : String} (hword : IsWord word.toList) (text : String) :
    Text.words (word ++ " " ++ text) = word :: Text.words text := by
  rw [words_eq_iff, String.toList_append, String.toList_append, List.append_assoc]
  exact .word hword (by decide) (words_eq_iff.mp rfl)

theorem Spaced.isWord {words : List (List Char)} {chars : List Char}
    (hspaced : Spaced words chars) : ∀ word ∈ words, IsWord word := by
  induction hspaced with
  | nil => exact fun _ hmem => by cases hmem
  | blank _ _ ih => exact ih
  | last hword => exact List.forall_mem_singleton.mpr hword
  | word hword _ _ ih => exact List.forall_mem_cons.mpr ⟨hword, ih⟩

theorem isBlank_of_words_eq_nil {text : String} (hwords : Text.words text = []) :
    ∀ char ∈ text.toList, isBlank char = true := by
  have hspaced : Spaced [] text.toList := words_eq_iff.mp hwords
  generalize text.toList = chars at hspaced
  generalize hnone : ([] : List (List Char)) = words at hspaced
  induction hspaced with
  | nil => exact fun _ hmem => by cases hmem
  | blank hchar _ ih => exact List.forall_mem_cons.mpr ⟨hchar, ih hnone⟩
  | last => cases hnone
  | word => cases hnone

theorem IsWord.dropWhile_append {word : List Char} (hword : IsWord word) (chars : List Char) :
    (word ++ chars).dropWhile isBlank = word ++ chars := by
  obtain ⟨first, rest, rfl⟩ := List.exists_cons_of_ne_nil hword.1
  rw [List.cons_append, List.dropWhile_cons_of_neg]
  exact Bool.eq_false_iff.mp (hword.2 first (List.mem_cons_self ..))

/-- Blanks behind a word are trimmed. -/
theorem trim_append {word text : String} (hword : IsWord word.toList)
    (hwords : Text.words text = []) : trim (word ++ " " ++ text) = word := by
  have hblank : (' ' :: text.toList).reverse.dropWhile isBlank = [] := by
    rw [List.dropWhile_eq_nil_iff]
    intro char hmem
    rcases List.mem_cons.mp (List.mem_reverse.mp hmem) with rfl | hmem
    · decide
    · exact isBlank_of_words_eq_nil hwords char hmem
  have hreversed : IsWord word.toList.reverse := isWord_reverse hword.1 hword.2
  have hback : word.toList.reverse.dropWhile isBlank = word.toList.reverse := by
    simpa using hreversed.dropWhile_append []
  rw [trim, String.toList_append, String.toList_append, List.append_assoc,
    hword.dropWhile_append, List.reverse_append, List.dropWhile_append,
    show " ".toList ++ text.toList = ' ' :: text.toList from rfl, hblank, List.isEmpty_nil,
    if_pos rfl, hback, List.reverse_reverse, String.ofList_toList]

/-! ## Single spaces -/

/-- The only blanks are spaces inside the characters, and no two of them are side by side. -/
structure EvenlySpaced (chars : List Char) : Prop where
  spaces : ∀ char ∈ chars, isBlank char = true → char = ' '
  head : chars.head? ≠ some ' '
  last : chars.getLast? ≠ some ' '
  single : chars.IsChain fun left right => ¬ (left = ' ' ∧ right = ' ')

theorem IsWord.ne_space {word : List Char} (hword : IsWord word) : ∀ char ∈ word, char ≠ ' ' := by
  rintro char hmem rfl
  exact absurd (hword.2 ' ' hmem) (by decide)

theorem IsWord.evenlySpaced {word : List Char} (hword : IsWord word) : EvenlySpaced word where
  spaces char hmem hblank := absurd (hword.2 char hmem) (by simp [hblank])
  head h := hword.ne_space ' ' (List.mem_of_head? h) rfl
  last h := hword.ne_space ' ' (List.mem_of_getLast? h) rfl
  single := List.Pairwise.isChain <| List.pairwise_of_forall_mem_list fun left hleft _ _ h =>
    hword.ne_space left hleft h.1

/-- A word and a space may stand in front of characters that begin with a word. -/
theorem EvenlySpaced.append_iff {word chars : List Char} (hword : IsWord word) :
    EvenlySpaced (word ++ ' ' :: chars) ↔ chars ≠ [] ∧ EvenlySpaced chars := by
  have hlast : word.getLast? ≠ some ' ' := hword.evenlySpaced.last
  constructor
  · intro heven
    obtain ⟨-, hchain, -⟩ := List.isChain_append.mp heven.single
    obtain ⟨hhead, hchain⟩ := List.isChain_cons.mp hchain
    have hne : chars ≠ [] := by
      rintro rfl
      exact heven.last (by simp)
    refine ⟨hne, fun char hmem => heven.spaces char (by simp [hmem]), fun h => ?_, fun h => ?_,
      hchain⟩
    · exact hhead ' ' h ⟨rfl, rfl⟩
    · exact heven.last (by simp [List.getLast?_append, List.getLast?_cons, h])
  · rintro ⟨hne, heven⟩
    refine ⟨fun char hmem hblank => ?_, ?_, ?_, ?_⟩
    · rcases List.mem_append.mp hmem with hmem | hmem
      · exact hword.evenlySpaced.spaces char hmem hblank
      · rcases List.mem_cons.mp hmem with rfl | hmem
        · rfl
        · exact heven.spaces char hmem hblank
    · rw [List.head?_append_of_ne_nil _ hword.1]
      exact hword.evenlySpaced.head
    · rw [List.getLast?_append_of_ne_nil _ (List.cons_ne_nil _ _), List.getLast?_cons]
      cases hend : chars.getLast? with
      | none => exact absurd (List.getLast?_eq_none_iff.mp hend) hne
      | some char => simpa [hend] using heven.last
    · refine List.isChain_append.mpr ⟨hword.evenlySpaced.single, List.isChain_cons.mpr
        ⟨fun char hhead h => heven.head (h.2 ▸ hhead), heven.single⟩, fun left hleft _ _ h => ?_⟩
      exact hlast (h.1 ▸ hleft)

/-- Words with single spaces between them are evenly spaced. -/
theorem evenlySpaced_intercalate {words : List (List Char)}
    (hwords : ∀ word ∈ words, IsWord word) : EvenlySpaced ([' '].intercalate words) := by
  induction words with
  | nil => exact ⟨by simp, by simp, by simp, .nil⟩
  | cons word rest ih =>
      rw [List.forall_mem_cons] at hwords
      cases rest with
      | nil => simpa using hwords.1.evenlySpaced
      | cons second rest =>
          rw [List.intercalate_cons_cons, List.append_assoc, List.singleton_append,
            EvenlySpaced.append_iff hwords.1]
          refine ⟨?_, ih hwords.2⟩
          have hsecond : second ≠ [] := (hwords.2 second (List.mem_cons_self ..)).1
          cases rest <;> simp [hsecond]

/-- Characters that are evenly spaced are their words with single spaces between them. -/
theorem Spaced.intercalate_eq {words : List (List Char)} {chars : List Char}
    (hspaced : Spaced words chars) (heven : EvenlySpaced chars) :
    [' '].intercalate words = chars := by
  induction hspaced with
  | nil => rfl
  | @blank _ char chars hchar _ _ =>
      obtain rfl := heven.spaces char (List.mem_cons_self ..) hchar
      exact absurd rfl heven.head
  | last hword => simp
  | @word words word char chars hword hchar hspaced ih =>
      obtain rfl := heven.spaces char (by simp) hchar
      obtain ⟨hne, hrest⟩ := (EvenlySpaced.append_iff hword).mp heven
      cases words with
      | nil => exact absurd (ih hrest).symm (by simpa using hne)
      | cons second words =>
          rw [List.intercalate_cons_cons, ih hrest, List.append_assoc, List.singleton_append]

/-- The words of a text with single spaces between them are the text just when it is evenly
spaced. -/
theorem intercalate_words_eq_iff {text : String} :
    " ".intercalate (Text.words text) = text ↔ EvenlySpaced text.toList := by
  have hspaced : Spaced ((Text.words text).map String.toList) text.toList := words_eq_iff.mp rfl
  rw [← String.toList_inj, String.toList_intercalate]
  constructor
  · intro hsame
    rw [← hsame]
    exact evenlySpaced_intercalate hspaced.isWord
  · exact hspaced.intercalate_eq

end ScriptBundle.Text
