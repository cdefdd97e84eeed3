import ScriptBundle.Toml.Quoted

/-!
# Quoted text is read back

Each quoted form has a reader.  A reader with escapes gets back every text that was
escaped for it, and a reader without them gets back text that needs none.  On several
lines, quotes that stand for themselves may come right before those that end the text,
so a quote is told apart by what follows it.
-/

namespace ScriptBundle.Toml

@[simp]
theorem prepend_some (char : Char) (chars rest : List Char) :
    prepend char (some (chars, rest)) = some (char :: chars, rest) := rfl

theorem ofNat_eq {char : Char} {code : Nat} (hchar : char.toNat = code) :
    char = Char.ofNat code := by
  rw [← hchar, Char.ofNat_toNat]

theorem toNat_lt_of_isControl {char : Char} (hcontrol : isControl char = true ∨ char = '\t') :
    char.toNat < 128 := by
  rcases hcontrol with hcontrol | rfl
  · simp only [isControl, decide_eq_true_eq] at hcontrol
    omega
  · decide

/-! ## Escapes -/

/-- The reader takes an escape for its character and other characters for themselves. -/
structure Unescapes (read : Reader (List Char)) : Prop where
  simple : ∀ {letter char : Char} (tail : List Char), simpleEscape? letter = some char →
    read ('\\' :: letter :: tail) = prepend char (read tail)
  code : ∀ {a b c d char : Char} (tail : List Char), charOfCode? [a, b, c, d] = some char →
    read ('\\' :: 'u' :: a :: b :: c :: d :: tail) = prepend char (read tail)
  plain : ∀ {char : Char} (tail : List Char), char ≠ '"' → char ≠ '\\' →
    isControl char = false → read (char :: tail) = prepend char (read tail)

theorem ne_of_simpleEscape?_eq_some {letter char : Char}
    (hletter : simpleEscape? letter = some char) : letter ≠ 'u' ∧ letter ≠ 'U' := by
  constructor
  · rintro rfl
    cases hletter
  · rintro rfl
    cases hletter

theorem ne_of_isControl_eq_false {char : Char} (hcontrol : isControl char = false) :
    char ≠ '\n' ∧ char ≠ '\r' := by
  constructor
  · rintro rfl
    exact absurd hcontrol (by decide)
  · rintro rfl
    exact absurd hcontrol (by decide)

theorem unescapes_basicBody : Unescapes basicBody where
  simple tail hletter := by
    obtain ⟨hlower, hupper⟩ := ne_of_simpleEscape?_eq_some hletter
    rw [basicBody.eq_5 _ _ (fun _ _ _ _ _ heq _ => hlower heq)
      (fun _ _ _ _ _ _ _ _ _ heq _ => hupper heq), hletter]
  code tail hcode := by
    rw [basicBody.eq_3, hcode]
  plain tail hquote hescape hcontrol := by
    rw [basicBody.eq_6 _ _ hquote (fun _ _ _ _ _ heq _ => hescape heq)
      (fun _ _ _ _ _ _ _ _ _ heq _ => hescape heq) (fun _ _ heq _ => hescape heq)]
    exact if_neg (by simp [hcontrol, hescape])

theorem unescapes_basicLines : Unescapes (basicLines .none) where
  simple tail hletter := by
    obtain ⟨hlower, hupper⟩ := ne_of_simpleEscape?_eq_some hletter
    rw [basicLines.eq_14 .none _ _ (fun _ _ _ _ _ heq _ => hlower heq)
      (fun _ _ _ _ _ _ _ _ _ heq _ => hupper heq) nofun, hletter]
  code tail hcode := by
    rw [basicLines.eq_12 .none _ _ _ _ _ nofun, hcode]
  plain tail hquote hescape hcontrol := by
    obtain ⟨hline, hreturn⟩ := ne_of_isControl_eq_false hcontrol
    rw [basicLines.eq_15 .none _ _ (fun _ heq _ => hquote heq) (fun _ heq _ => hquote heq)
      (fun _ heq _ => hquote heq) (fun _ heq _ => hreturn heq) hline
      (fun _ _ _ _ _ heq _ => hescape heq) (fun _ _ _ _ _ _ _ _ _ heq _ => hescape heq)
      (fun _ _ heq _ => hescape heq) nofun nofun nofun nofun nofun]
    exact if_neg (by simp [hcontrol, hescape])

/-- The code of a character of seven bits, in the digits that are written for it. -/
theorem charOfCode?_digits : ∀ code < 128,
    charOfCode? ['0', '0',
      Char.ofNat (if code / 16 < 10 then 48 + code / 16 else 55 + code / 16),
      Char.ofNat (if code % 16 < 10 then 48 + code % 16 else 55 + code % 16)] =
        some (Char.ofNat code) := by
  decide

namespace Unescapes

variable {read : Reader (List Char)}

theorem control (hread : Unescapes read) {char : Char} (hchar : char.toNat < 128)
    (tail : List Char) : read (escapeControl char ++ tail) = prepend char (read tail) := by
  unfold escapeControl
  simp only
  split
  · rename_i hback
    exact hread.simple tail (ofNat_eq hback ▸ rfl)
  · split
    · rename_i htab
      exact hread.simple tail (htab ▸ rfl)
    · split
      · rename_i hfeed
        exact hread.simple tail (ofNat_eq hfeed ▸ rfl)
      · split
        · rename_i hreturn
          exact hread.simple tail (hreturn ▸ rfl)
        · apply hread.code tail
          rw [charOfCode?_digits _ hchar, Char.ofNat_toNat]

/-- A quote that does not stand for itself is read back. -/
theorem escaped_quote (hread : Unescapes read) {quotes run : Nat} (hrun : quotes ≤ run)
    (chars tail : List Char) :
    read (escaped quotes run ('"' :: chars) ++ tail) =
      prepend '"' (read (escaped quotes 0 chars ++ tail)) := by
  rw [escaped, if_pos rfl, if_neg (Nat.not_lt.mpr hrun)]
  exact hread.simple _ rfl

/-- Any other character is read back, line ends if the reader takes them. -/
theorem escaped_cons (hread : Unescapes read) {char : Char} (hquote : char ≠ '"')
    (hline : char = '\n' → ∀ tail, read ('\n' :: tail) = prepend '\n' (read tail))
    (quotes run : Nat) (chars tail : List Char) :
    read (escaped quotes run (char :: chars) ++ tail) =
      prepend char (read (escaped quotes 0 chars ++ tail)) := by
  rw [escaped, if_neg hquote]
  by_cases hescape : char = '\\'
  · subst hescape
    rw [if_pos rfl]
    exact hread.simple _ rfl
  · rw [if_neg hescape]
    by_cases hend : char = '\n'
    · subst hend
      rw [if_neg (by simp)]
      exact hline rfl _
    · by_cases hcontrol : isControl char = true ∨ char = '\t'
      · rw [if_pos ⟨hend, hcontrol⟩, List.append_assoc]
        exact hread.control (toNat_lt_of_isControl hcontrol) _
      · rw [if_neg fun hboth => hcontrol hboth.2]
        rw [not_or, Bool.not_eq_true] at hcontrol
        exact hread.plain _ hquote hescape hcontrol.1

end Unescapes

theorem exists_escapeControl (char : Char) : ∃ more, escapeControl char = '\\' :: more := by
  unfold escapeControl
  simp only
  repeat' split
  all_goals exact ⟨_, rfl⟩

/-- Only a quote that stands for itself starts escaped text with a quote. -/
theorem escaped_ne_quote {quotes run : Nat} {char : Char} (hchar : char ≠ '"' ∨ quotes ≤ run)
    (chars tail after : List Char) : escaped quotes run (char :: chars) ++ tail ≠ '"' :: after := by
  intro heq
  rw [escaped] at heq
  by_cases hquote : char = '"'
  · have hrun : ¬ run < quotes := Nat.not_lt.mpr (hchar.resolve_left fun hother => hother hquote)
    rw [if_pos hquote, if_neg hrun] at heq
    cases heq
  · rw [if_neg hquote] at heq
    split at heq
    · cases heq
    · split at heq
      · obtain ⟨more, hmore⟩ := exists_escapeControl char
        rw [hmore] at heq
        cases heq
      · exact hquote (List.cons.inj heq).1

/-! ## Text on one line -/

theorem basicBody_escaped {chars : List Char} (hlines : '\n' ∉ chars) (run : Nat)
    (rest : List Char) :
    basicBody (escaped 0 run chars ++ '"' :: rest) = some (chars, rest) := by
  induction chars generalizing run with
  | nil => rfl
  | cons char chars ih =>
      rw [List.mem_cons, not_or] at hlines
      by_cases hquote : char = '"'
      · subst hquote
        rw [unescapes_basicBody.escaped_quote (Nat.zero_le run), ih hlines.2, prepend_some]
      · rw [unescapes_basicBody.escaped_cons hquote fun hline => absurd hline.symm hlines.1,
          ih hlines.2, prepend_some]

theorem literalBody_append {chars : List Char}
    (hplain : ∀ char ∈ chars, char ≠ '\'' ∧ isControl char = false) (rest : List Char) :
    literalBody (chars ++ '\'' :: rest) = some (chars, rest) := by
  induction chars with
  | nil => rfl
  | cons char chars ih =>
      obtain ⟨hquote, hcontrol⟩ := hplain char List.mem_cons_self
      rw [List.cons_append, literalBody.eq_3 _ _ hquote, hcontrol, if_neg Bool.false_ne_true,
        ih fun other hother => hplain other (List.mem_cons_of_mem _ hother), prepend_some]

/-! ## Text on several lines -/

theorem basicLines_quote {text : List Char} (htext : ∀ tail, text ≠ '"' :: '"' :: tail) :
    basicLines .none ('"' :: text) = prepend '"' (basicLines .none text) := by
  rw [basicLines.eq_15 .none _ _ (fun _ _ => htext _) (fun _ _ => htext _) (fun _ _ => htext _)
    (fun _ heq _ => absurd heq (by decide)) (by decide)
    (fun _ _ _ _ _ heq _ => absurd heq (by decide))
    (fun _ _ _ _ _ _ _ _ _ heq _ => absurd heq (by decide))
    (fun _ _ heq _ => absurd heq (by decide)) nofun nofun nofun nofun nofun]
  rfl

/-- Behind a quote, escaped text goes on with two more only where it ends. -/
theorem escaped_ne_quotes {run : Nat} {chars : List Char} (hrun : 1 ≤ run) (hempty : chars ≠ [])
    (hsingle : ¬ (chars = ['"'] ∧ run < 2)) (tail after : List Char) :
    escaped 2 run chars ++ tail ≠ '"' :: '"' :: after := by
  cases chars with
  | nil => exact absurd rfl hempty
  | cons next more =>
      by_cases hnext : next = '"'
      · subst hnext
        by_cases hraw : run < 2
        · cases more with
          | nil => exact absurd ⟨rfl, hraw⟩ hsingle
          | cons second more =>
              rw [escaped, if_pos rfl, if_pos hraw]
              intro heq
              apply escaped_ne_quote (.inr (Nat.succ_le_succ hrun)) more tail after
              exact (List.cons.inj heq).2
        · exact escaped_ne_quote (.inr (Nat.le_of_not_lt hraw)) more tail _
      · exact escaped_ne_quote (.inl hnext) more tail _

theorem basicLines_escaped (run : Nat) (chars : List Char) {rest : List Char}
    (hrest : ∀ tail, rest ≠ '"' :: tail) :
    basicLines .none (escaped 2 run chars ++ '"' :: '"' :: '"' :: rest) = some (chars, rest) := by
  induction chars generalizing run with
  | nil => exact basicLines.eq_9 _ _ (fun _ => hrest _) hrest nofun
  | cons char chars ih =>
      by_cases hquote : char = '"'
      · subst hquote
        by_cases hraw : run < 2
        · rw [escaped, if_pos rfl, if_pos hraw]
          by_cases hempty : chars = []
          · subst hempty
            exact basicLines.eq_8 _ _ hrest nofun
          · by_cases hsingle : chars = ['"'] ∧ run + 1 < 2
            · obtain ⟨rfl, hraw⟩ := hsingle
              rw [escaped, if_pos rfl, if_pos hraw]
              exact basicLines.eq_7 _ _ nofun
            · rw [List.cons_append, basicLines_quote fun tail =>
                escaped_ne_quotes (Nat.le_add_left 1 run) hempty hsingle _ tail, ih, prepend_some]
        · rw [unescapes_basicLines.escaped_quote (Nat.le_of_not_lt hraw), ih, prepend_some]
      · rw [unescapes_basicLines.escaped_cons hquote
          fun _ tail => basicLines.eq_11 .none _ nofun nofun, ih, prepend_some]

theorem literalLines_quote {text : List Char} (htext : ∀ tail, text ≠ '\'' :: '\'' :: tail) :
    literalLines ('\'' :: text) = prepend '\'' (literalLines text) := by
  rw [literalLines.eq_6 _ _ (fun _ _ => htext _) (fun _ _ => htext _) (fun _ _ => htext _)
    (fun _ heq _ => absurd heq (by decide)) (by decide)]
  rfl

theorem literalLines_plain {char : Char} {text : List Char} (hquote : char ≠ '\'')
    (hcontrol : char = '\n' ∨ isControl char = false) :
    literalLines (char :: text) = prepend char (literalLines text) := by
  by_cases hline : char = '\n'
  · subst hline
    rfl
  · have hplain := hcontrol.resolve_left hline
    rw [literalLines.eq_6 _ _ (fun _ heq _ => hquote heq) (fun _ heq _ => hquote heq)
      (fun _ heq _ => hquote heq) (fun _ heq _ => (ne_of_isControl_eq_false hplain).2 heq) hline,
      hplain]
    rfl

theorem hasRun_of_lt {char : Char} {limit run : Nat} (hrun : limit < run) (text : List Char) :
    hasRun char limit run text = true := by
  cases text with
  | nil => exact decide_eq_true hrun
  | cons next text => rw [hasRun, decide_eq_true hrun, Bool.true_or]

/-- Text without more than two quotes in a row is read up to the three that end it. -/
theorem literalLines_append {run : Nat} {chars rest : List Char}
    (hruns : hasRun '\'' 2 run chars = false)
    (hcontrol : ∀ char ∈ chars, char = '\n' ∨ isControl char = false)
    (hrest : ∀ tail, rest ≠ '\'' :: tail) :
    literalLines (chars ++ '\'' :: '\'' :: '\'' :: rest) = some (chars, rest) := by
  induction chars generalizing run with
  | nil => exact literalLines.eq_3 _ (fun _ => hrest _) hrest
  | cons char chars ih =>
      rw [hasRun, Bool.or_eq_false_iff] at hruns
      have hread := ih hruns.2 fun other hother => hcontrol other (List.mem_cons_of_mem _ hother)
      by_cases hquote : char = '\''
      · subst hquote
        rcases chars with _ | ⟨next, chars⟩
        · exact literalLines.eq_2 _ hrest
        · by_cases hsingle : next = '\'' ∧ chars = []
          · obtain ⟨rfl, rfl⟩ := hsingle
            exact literalLines.eq_1 _
          · have htext : ∀ tail, next :: chars ++ '\'' :: '\'' :: '\'' :: rest ≠
                '\'' :: '\'' :: tail := by
              intro tail heq
              cases chars with
              | nil => exact hsingle ⟨(List.cons.inj heq).1, rfl⟩
              | cons third chars =>
                  obtain ⟨rfl, hthird⟩ := List.cons.inj heq
                  obtain rfl := (List.cons.inj hthird).1
                  simp [hasRun, hasRun_of_lt] at hruns
            rw [List.cons_append, literalLines_quote htext, hread, prepend_some]
      · rw [List.cons_append, literalLines_plain hquote (hcontrol char List.mem_cons_self), hread,
          prepend_some]

/-! ## Every form -/

/-- No quote follows. -/
def Unquoted (rest : List Char) : Prop :=
  ∀ tail, rest ≠ '"' :: tail ∧ rest ≠ '\'' :: tail

theorem skipFirstLineEnd_of_head {text : List Char}
    (hhead : ∀ char ∈ text.head?, char ≠ '\n' ∧ char ≠ '\r') : skipFirstLineEnd text = text := by
  have hnone : lineEnd? text = none := by
    unfold lineEnd?
    split
    · exact absurd rfl (hhead _ rfl).1
    · exact absurd rfl (hhead _ rfl).2
    · rfl
  rw [skipFirstLineEnd, hnone, Option.getD_none]

/-- Text on several lines starts on a line of its own, if it has several. -/
theorem skipFirstLineEnd_opening {lines : Bool} {text : List Char}
    (hhead : lines = false → ∀ char ∈ text.head?, char ≠ '\n' ∧ char ≠ '\r') :
    skipFirstLineEnd ((if lines then ['\n'] else []) ++ text) = text := by
  cases lines with
  | true => rfl
  | false => exact skipFirstLineEnd_of_head (hhead rfl)

/-- Escaped text without line ends starts with none, and never with a carriage return. -/
theorem head_escaped {quotes run : Nat} {chars tail : List Char} (hlines : '\n' ∉ chars) :
    ∀ first ∈ (escaped quotes run chars ++ '"' :: tail).head?,
      first ≠ '\n' ∧ first ≠ '\r' := by
  intro first hfirst
  cases chars with
  | nil =>
      obtain rfl := Option.some.inj hfirst
      decide
  | cons char chars =>
      rw [List.mem_cons, not_or] at hlines
      rw [escaped] at hfirst
      split at hfirst
      · split at hfirst <;> obtain rfl := Option.some.inj hfirst <;> decide
      · split at hfirst
        · obtain rfl := Option.some.inj hfirst
          decide
        · split at hfirst
          · obtain ⟨more, hmore⟩ := exists_escapeControl char
            rw [hmore] at hfirst
            obtain rfl := Option.some.inj hfirst
            decide
          · rename_i hplain
            obtain rfl := Option.some.inj hfirst
            refine ⟨Ne.symm hlines.1, ?_⟩
            rintro rfl
            exact hplain (by decide)

/-- The line with escapes. -/
theorem readQuoted_basic {chars rest : List Char} (hlines : '\n' ∉ chars)
    (hrest : Unquoted rest) :
    readQuoted ('"' :: escaped 0 0 chars ++ '"' :: rest) = some (String.ofList chars, rest) := by
  have hquotes : ∀ tail, escaped 0 0 chars ++ '"' :: rest ≠ '"' :: '"' :: tail := by
    intro tail heq
    cases chars with
    | nil => exact (hrest tail).1 (List.cons.inj heq).2
    | cons char chars => exact escaped_ne_quote (.inr (Nat.le_refl 0)) chars _ _ heq
  rw [List.cons_append, readQuoted.eq_3 _ (fun tail heq => hquotes tail (List.cons.inj heq).2)
    (fun _ heq => absurd (List.cons.inj heq).1 (by decide)), readLine, basicBody_escaped hlines]
  rfl

/-- The line without escapes. -/
theorem readQuoted_literal {chars rest : List Char}
    (hplain : ∀ char ∈ chars, char ≠ '\'' ∧ isControl char = false) (hrest : Unquoted rest) :
    readQuoted ('\'' :: chars ++ '\'' :: rest) = some (String.ofList chars, rest) := by
  have hquotes : ∀ tail, chars ++ '\'' :: rest ≠ '\'' :: '\'' :: tail := by
    intro tail heq
    cases chars with
    | nil => exact (hrest tail).2 (List.cons.inj heq).2
    | cons char chars => exact (hplain char List.mem_cons_self).1 (List.cons.inj heq).1
  rw [List.cons_append, readQuoted.eq_3 _
    (fun _ heq => absurd (List.cons.inj heq).1 (by decide))
    (fun tail heq => hquotes tail (List.cons.inj heq).2), readLine, literalBody_append hplain]
  rfl

/-- The lines with escapes. -/
theorem readQuoted_basicLines (chars : List Char) {rest : List Char} (hrest : Unquoted rest) :
    readQuoted ('"' :: '"' :: '"' :: (if chars.contains '\n' then ['\n'] else []) ++
      escaped 2 0 chars ++ '"' :: '"' :: '"' :: rest) = some (String.ofList chars, rest) := by
  have hhead : chars.contains '\n' = false →
      ∀ first ∈ (escaped 2 0 chars ++ '"' :: '"' :: '"' :: rest).head?,
        first ≠ '\n' ∧ first ≠ '\r' :=
    fun hlines => head_escaped (by simpa using hlines)
  rw [List.append_assoc]
  rw [List.cons_append, List.cons_append, List.cons_append, readQuoted.eq_1,
    skipFirstLineEnd_opening hhead, basicLines_escaped 0 chars fun tail => (hrest tail).1]
  rfl

/-- The lines without escapes. -/
theorem readQuoted_literalLines {chars rest : List Char} (hruns : hasRun '\'' 2 0 chars = false)
    (hcontrol : ∀ char ∈ chars, char = '\n' ∨ isControl char = false) (hrest : Unquoted rest) :
    readQuoted ('\'' :: '\'' :: '\'' :: (if chars.contains '\n' then ['\n'] else []) ++
      chars ++ '\'' :: '\'' :: '\'' :: rest) = some (String.ofList chars, rest) := by
  have hhead : chars.contains '\n' = false →
      ∀ first ∈ (chars ++ '\'' :: '\'' :: '\'' :: rest).head?, first ≠ '\n' ∧ first ≠ '\r' := by
    intro hlines first hfirst
    cases chars with
    | nil =>
        obtain rfl := Option.some.inj hfirst
        decide
    | cons char chars =>
        obtain rfl := Option.some.inj hfirst
        have hline : char ≠ '\n' := by
          rintro rfl
          simp at hlines
        exact ne_of_isControl_eq_false
          ((hcontrol char List.mem_cons_self).resolve_left hline)
  rw [List.append_assoc]
  rw [List.cons_append, List.cons_append, List.cons_append, readQuoted.eq_2,
    skipFirstLineEnd_opening hhead, literalLines_append hruns hcontrol fun tail => (hrest tail).2]
  rfl

/-- Whichever form a text takes, it is read back. -/
theorem readQuoted_quote (text : String) {rest : List Char} (hrest : Unquoted rest) :
    readQuoted (quote text ++ rest) = some (text, rest) := by
  obtain ⟨chars, rfl⟩ : ∃ chars, text = String.ofList chars :=
    ⟨text.toList, String.ofList_toList.symm⟩
  have hcontrols : (chars.any fun char => char ≠ '\n' ∧ isControl char) = false →
      ∀ char ∈ chars, char = '\n' ∨ isControl char = false := by
    intro hnone char hchar
    have hother := List.any_eq_false.mp hnone char hchar
    by_cases hline : char = '\n'
    · exact .inl hline
    · exact .inr (by simpa [hline] using hother)
  unfold quote
  simp only [String.toList_ofList]
  split
  · rename_i hfits
    simp only [Bool.and_eq_true, Bool.not_eq_true'] at hfits
    rw [List.append_assoc]
    exact readQuoted_basic (by simpa using hfits.1.1.1) hrest
  · split
    · rename_i hfits
      simp only [Bool.and_eq_true, Bool.not_eq_true'] at hfits
      rw [List.append_assoc]
      refine readQuoted_literal (fun char hchar => ⟨?_, ?_⟩) hrest
      · rintro rfl
        simp [hchar] at hfits
      · refine (hcontrols hfits.1.2 char hchar).resolve_left ?_
        rintro rfl
        simp [hchar] at hfits
    · split
      · rw [List.append_assoc]
        exact readQuoted_basicLines chars hrest
      · split
        · rename_i hfits
          simp only [Bool.and_eq_true, Bool.not_eq_true'] at hfits
          rw [List.append_assoc]
          exact readQuoted_literalLines hfits.2 (hcontrols hfits.1) hrest
        · split
          · rename_i hlines
            have hread := readQuoted_basicLines chars hrest
            rw [if_pos hlines] at hread
            rw [List.append_assoc]
            exact hread
          · rename_i hlines
            rw [List.append_assoc]
            exact readQuoted_basic (by simpa using hlines) hrest

end ScriptBundle.Toml
