import ScriptBundle.Proofs.Toml.Quoted
import ScriptBundle.Proofs.Toml.Words
import ScriptBundle.Toml.Printer

/-!
# Values are read back

A value that is written is read up to where it ends.  By its first character it is
quoted, a word or a list; the items of a list are values again, and they nest no deeper
than the reader goes.
-/

namespace ScriptBundle.Toml

open Text.Digits

/-- Values that can be written, with lists that nest at most so deep. -/
def Writable : (depth : Nat) → Value → Prop
  | _, .string _ => True
  | _, .integer value => -9223372036854775808 ≤ value ∧ value ≤ 9223372036854775807
  | _, .boolean _ => True
  | depth + 1, .array items => ∀ item ∈ items, Writable depth item
  | _, _ => False

/-- Only lists nest. -/
theorem writable_zero {depth : Nat} {value : Value} (hvalue : Writable depth value)
    (hscalar : ∀ items, value ≠ .array items) : Writable 0 value := by
  cases depth with
  | zero => exact hvalue
  | succ depth =>
      cases value with
      | array items => exact absurd rfl (hscalar items)
      | string | boolean | integer => exact hvalue
      | float | time | table => exact hvalue.elim

/-! ## Space between values -/

/-- The text starts with none of the characters that are passed over. -/
def Solid (text : List Char) : Prop :=
  ∀ char ∈ text.head?, char ∉ [' ', '\t', '\n', '\r', '#']

theorem solid_cons {char : Char} (hchar : char ∉ [' ', '\t', '\n', '\r', '#'])
    (rest : List Char) : Solid (char :: rest) := by
  intro first hfirst
  obtain rfl := Option.some.inj hfirst
  exact hchar

@[simp]
theorem skipSpace_nil : skipSpace [] = [] := rfl

@[simp]
theorem skipSpace_blank (rest : List Char) : skipSpace (' ' :: rest) = skipSpace rest := rfl

@[simp]
theorem skipSpace_line (rest : List Char) : skipSpace ('\n' :: rest) = skipSpace rest := rfl

theorem skipSpace_of_solid {text : List Char} (hsolid : Solid text) : skipSpace text = text := by
  cases text with
  | nil => rfl
  | cons char rest =>
      have hchar := hsolid char rfl
      simp only [List.mem_cons, List.not_mem_nil, or_false, not_or] at hchar
      obtain ⟨hblank, htab, hline, hreturn, hcomment⟩ := hchar
      have hnone : afterComment? (char :: rest) = none := afterComment?.eq_2 _
        fun _ heq => hcomment (List.cons.inj heq).1
      rw [skipSpace, List.length_cons, skipSpace.go.eq_6 _ _
        (fun _ heq => hblank (List.cons.inj heq).1) (fun _ heq => htab (List.cons.inj heq).1)
        (fun _ heq => hline (List.cons.inj heq).1) (fun _ heq => hreturn (List.cons.inj heq).1),
        hnone]

/-! ## Values that hold no others -/

theorem Ends.unquoted {rest : List Char} (hrest : Ends rest) : Unquoted rest := by
  obtain ⟨char, tail, rfl, hchar⟩ := hrest
  intro after
  constructor
  · intro heq
    obtain rfl := (List.cons.inj heq).1
    exact absurd hchar (by decide)
  · intro heq
    obtain rfl := (List.cons.inj heq).1
    exact absurd hchar (by decide)

theorem exists_quote (text : String) :
    ∃ char rest, quote text = char :: rest ∧ (char = '"' ∨ char = '\'') := by
  unfold quote
  simp only
  repeat' split
  all_goals first
    | exact ⟨'"', _, rfl, .inl rfl⟩
    | exact ⟨'\'', _, rfl, .inr rfl⟩

theorem toList_toString_ne_nil (value : Int) : (toString value).toList ≠ [] := by
  cases value with
  | ofNat value =>
      rw [toList_toString_ofNat]
      exact Nat.toDigits_ne_nil
  | negSucc value =>
      rw [toList_toString_negSucc]
      exact List.cons_ne_nil _ _

/-- What is written for the value starts with a quote or is a word. -/
theorem exists_render {value : Value} (hvalue : Writable 0 value) :
    ∃ char rest, value.render = char :: rest ∧
      (char = '"' ∨ char = '\'' ∨ isWordChar char = true) := by
  cases value with
  | string text =>
      obtain ⟨char, rest, hquote, hchar⟩ := exists_quote text
      exact ⟨char, rest, hquote, or_assoc.mp (.inl hchar)⟩
  | integer value =>
      obtain ⟨char, rest, hword⟩ := List.exists_cons_of_ne_nil (toList_toString_ne_nil value)
      have hmem : char ∈ (toString value).toList := hword ▸ List.mem_cons_self
      exact ⟨char, rest, hword, .inr (.inr (isWordChar_of_mem_toString hmem))⟩
  | boolean value =>
      cases value with
      | true => exact ⟨'t', _, rfl, .inr (.inr (by decide))⟩
      | false => exact ⟨'f', _, rfl, .inr (.inr (by decide))⟩
  | float | time | array | table => exact hvalue.elim

theorem readScalar_quote (text : String) {rest : List Char} (hrest : Ends rest) :
    readScalar (quote text ++ rest) = some (.string text, rest) := by
  have hread := readQuoted_quote text hrest.unquoted
  obtain ⟨char, tail, hquote, hchar⟩ := exists_quote text
  rw [hquote, List.cons_append] at hread ⊢
  rcases hchar with rfl | rfl
  · rw [readScalar, hread]
    rfl
  · rw [readScalar, hread]
    rfl

theorem readScalar_word {letters rest : List Char} {value : Value} (hnonempty : letters ≠ [])
    (hletters : ∀ char ∈ letters, isWordChar char = true)
    (hvalue : wordValue? letters = some value) (hrest : Ends rest) :
    readScalar (letters ++ rest) = some (value, rest) := by
  have hread := readWord_append hletters hrest
  obtain ⟨char, tail, rfl⟩ := List.exists_cons_of_ne_nil hnonempty
  have hchar := hletters char List.mem_cons_self
  rw [List.cons_append, readScalar.eq_3 _
    (fun _ heq => ne_of_test hchar (by decide) (List.cons.inj heq).1)
    (fun _ heq => ne_of_test hchar (by decide) (List.cons.inj heq).1)]
  rw [List.cons_append, hvalue] at hread
  exact hread

theorem readScalar_render {value : Value} (hvalue : Writable 0 value) {rest : List Char}
    (hrest : Ends rest) : readScalar (value.render ++ rest) = some (value, rest) := by
  cases value with
  | string text => exact readScalar_quote text hrest
  | integer value =>
      exact readScalar_word (toList_toString_ne_nil value)
        (fun _ => isWordChar_of_mem_toString) (wordValue?_toString hvalue.1 hvalue.2) hrest
  | boolean value =>
      cases value with
      | true => exact readScalar_word (by decide) (List.all_eq_true.mp rfl) rfl hrest
      | false => exact readScalar_word (by decide) (List.all_eq_true.mp rfl) rfl hrest
  | float | time | array | table => exact hvalue.elim

theorem readValue_scalar {value : Value} (hvalue : Writable 0 value) (depth : Nat)
    {rest : List Char} (hrest : Ends rest) :
    readValue depth (value.render ++ rest) = some (value, rest) := by
  rw [← readScalar_render hvalue hrest]
  cases depth with
  | zero => rfl
  | succ depth =>
      obtain ⟨char, tail, hrender, hchar⟩ := exists_render hvalue
      have hother : char ≠ '[' ∧ char ≠ '\x7b' := by
        rcases hchar with rfl | rfl | hword
        · decide
        · decide
        · exact ⟨ne_of_test hword (by decide), ne_of_test hword (by decide)⟩
      rw [hrender, List.cons_append]
      exact readValue.eq_4 _ _ (fun _ heq => hother.1 (List.cons.inj heq).1)
        (fun _ heq => hother.2 (List.cons.inj heq).1)

/-! ## Lists -/

/-- Nothing is passed over in front of a value, and the value is not the end of a list. -/
theorem head_render {depth : Nat} {value : Value} (hvalue : Writable depth value)
    (rest : List Char) :
    Solid (value.render ++ rest) ∧ ∀ tail, value.render ++ rest ≠ ']' :: tail := by
  have hword : ∀ char, (char = '"' ∨ char = '\'' ∨ isWordChar char = true) →
      char ∉ [' ', '\t', '\n', '\r', '#', ']'] := by
    rintro char (rfl | rfl | hchar) hmem
    · exact absurd hmem (by decide)
    · exact absurd hmem (by decide)
    · have hnone : ∀ other ∈ [' ', '\t', '\n', '\r', '#', ']'], isWordChar other = false := by
        simp [isWordChar]
      exact ne_of_test hchar (hnone char hmem) rfl
  obtain ⟨char, more, hrender, hchar⟩ : ∃ char more, value.render = char :: more ∧
      char ∉ [' ', '\t', '\n', '\r', '#', ']'] := by
    by_cases hscalar : ∀ items, value ≠ .array items
    · obtain ⟨char, more, hrender, hchar⟩ := exists_render (writable_zero hvalue hscalar)
      exact ⟨char, more, hrender, hword char hchar⟩
    · rw [not_forall_not] at hscalar
      obtain ⟨_ | ⟨first, _ | ⟨second, items⟩⟩, rfl⟩ := hscalar
      · exact ⟨'[', _, by rw [Value.render], by decide⟩
      · exact ⟨'[', _, by rw [Value.render]; rfl, by decide⟩
      · exact ⟨'[', _, by rw [Value.render]; rfl, by decide⟩
  rw [hrender, List.cons_append]
  constructor
  · apply solid_cons
    intro hmem
    apply hchar
    exact List.mem_append_left [']'] hmem
  · intro tail heq
    obtain rfl := (List.cons.inj heq).1
    exact absurd hchar (by decide)

/-- The item is read wherever it ends. -/
def Reads (readItem : Reader Value) (item : Value) : Prop :=
  ∀ rest, Ends rest → readItem (item.render ++ rest) = some (item, rest)

section Items

variable {readItem : Reader Value} {depth : Nat} {item : Value} {text start : List Char}

theorem readItems_more (hskip : skipSpace text = start) (hend : ∀ tail, start ≠ ']' :: tail)
    {rest : List Char} (hread : readItem start = some (item, ',' :: rest)) (left : Nat) :
    readItems readItem (left + 1) text =
      (readItems readItem left rest).map fun result => (item :: result.1, result.2) := by
  have hcomma : skipSpace (',' :: rest) = ',' :: rest :=
    skipSpace_of_solid (solid_cons (by decide) rest)
  rw [readItems, hskip]
  split
  · exact absurd rfl (hend _)
  · simp only [hread, Option.bind_eq_bind, Option.bind_some, hcomma]
    cases readItems readItem left rest <;> rfl

theorem readItems_last (hskip : skipSpace text = start) (hend : ∀ tail, start ≠ ']' :: tail)
    {rest : List Char} (hread : readItem start = some (item, ']' :: rest)) (left : Nat) :
    readItems readItem (left + 1) text = some ([item], rest) := by
  have hbracket : skipSpace (']' :: rest) = ']' :: rest :=
    skipSpace_of_solid (solid_cons (by decide) rest)
  rw [readItems, hskip]
  split
  · exact absurd rfl (hend _)
  · simp only [hread, Option.bind_eq_bind, Option.bind_some, hbracket]
    rfl

theorem readItems_lines {items : List Value} (hitems : ∀ item ∈ items, Writable depth item)
    (hreads : ∀ item ∈ items, Reads readItem item) {left : Nat} (hleft : items.length < left)
    (rest : List Char) :
    readItems readItem left ('\n' :: renderLines items ++ ']' :: rest) = some (items, rest) := by
  induction items generalizing left with
  | nil =>
      obtain ⟨more, rfl⟩ := Nat.exists_eq_add_of_lt hleft
      rfl
  | cons item items ih =>
      obtain ⟨more, rfl⟩ := Nat.exists_eq_add_of_lt hleft
      rw [List.forall_mem_cons] at hitems hreads
      obtain ⟨hsolid, hend⟩ := head_render hitems.1
        (',' :: '\n' :: renderLines items ++ ']' :: rest)
      have htext : skipSpace ('\n' :: renderLines (item :: items) ++ ']' :: rest) =
          skipSpace (item.render ++ (',' :: '\n' :: renderLines items ++ ']' :: rest)) := by
        rw [renderLines]
        simp only [List.append_assoc, List.cons_append]
        rfl
      calc readItems readItem ((item :: items).length + more + 1)
            ('\n' :: renderLines (item :: items) ++ ']' :: rest)
          = (readItems readItem (items.length + 1 + more)
              ('\n' :: renderLines items ++ ']' :: rest)).map
                fun result => (item :: result.1, result.2) :=
            readItems_more (htext.trans (skipSpace_of_solid hsolid)) hend
              (hreads.1 _ (ends_item _)) _
        _ = some (item :: items, rest) := by
            rw [ih hitems.2 hreads.2 (by omega)]
            rfl

end Items

theorem length_renderLines (items : List Value) :
    items.length ≤ (renderLines items).length := by
  induction items with
  | nil => exact Nat.le_refl 0
  | cons item items ih =>
      rw [renderLines, List.length_append, List.length_cons]
      simp only [List.length_append, List.length_cons]
      omega

/-- A value is read up to where it ends, by a reader that goes deep enough. -/
theorem readValue_render (depth : Nat) {value : Value} (hvalue : Writable depth value) :
    Reads (readValue depth) value := by
  induction depth generalizing value with
  | zero => exact fun rest hrest => readValue_scalar hvalue 0 hrest
  | succ depth ih =>
      intro rest hrest
      by_cases hscalar : ∀ items, value ≠ .array items
      · exact readValue_scalar (writable_zero hvalue hscalar) (depth + 1) hrest
      · rw [not_forall_not] at hscalar
        obtain ⟨items, rfl⟩ := hscalar
        have hitems : ∀ item ∈ items, Writable depth item := hvalue
        have hreads : ∀ item ∈ items, Reads (readValue depth) item :=
          fun item hitem => ih (hitems item hitem)
        rcases items with _ | ⟨first, _ | ⟨second, items⟩⟩
        · rw [Value.render]
          rfl
        · obtain ⟨hsolid, hend⟩ := head_render (hitems first List.mem_cons_self) (']' :: rest)
          have hread := readItems_last (skipSpace_of_solid hsolid) hend
            (hreads first List.mem_cons_self _ (ends_list rest))
          rw [Value.render, List.append_assoc, List.cons_append, readValue, List.singleton_append,
            hread]
          rfl
        · -- Every item has a line, so the text is longer than the list.
          have hleft : (first :: second :: items).length <
              ('\n' :: renderLines (first :: second :: items) ++ ']' :: rest).length + 1 := by
            have hlines := length_renderLines (first :: second :: items)
            simp only [List.length_append, List.length_cons] at hlines ⊢
            omega
          have hread := readItems_lines hitems hreads hleft rest
          rw [Value.render, List.append_assoc, List.cons_append, readValue, List.singleton_append,
            hread]
          rfl

end ScriptBundle.Toml
