import ScriptBundle.Proofs.Json.Words

/-!
# JSON values are read back

A value is written as a list of tokens, which the reader puts together again with
its list of open containers.  Only string literals that denote no text cannot come
back, so they are excluded throughout a value.
-/

namespace ScriptBundle.Json

open Text.Utf8

mutual

/-- All strings in a value are text. -/
def Textual : Json → Prop
  | .string text => text.isSome
  | .array items => TextualItems items
  | .object members => TextualMembers members
  | _ => True

def TextualItems : List Json → Prop
  | [] => True
  | item :: items => Textual item ∧ TextualItems items

def TextualMembers : List (Option String × Json) → Prop
  | [] => True
  | (name, value) :: members => name.isSome ∧ Textual value ∧ TextualMembers members

end

/-- Pieces with commas between them. -/
def commas : List (List Token) → List Token
  | [] => []
  | [piece] => piece
  | piece :: pieces => piece ++ .comma :: commas pieces

mutual

/-- The tokens of a value. -/
def written : Json → List Token
  | .null => [.word "null".toList]
  | .boolean true => [.word "true".toList]
  | .boolean false => [.word "false".toList]
  | .integer value => [.word (toString value).toList]
  | .fraction => [.word "0.0".toList]
  | .string text => [.string (some (text.getD ""))]
  | .array items => .openArray :: commas (writtenItems items) ++ [.closeArray]
  | .object members => .openObject :: commas (writtenMembers members) ++ [.closeObject]

def writtenItems : List Json → List (List Token)
  | [] => []
  | item :: items => written item :: writtenItems items

def writtenMembers : List (Option String × Json) → List (List Token)
  | [] => []
  | (name, value) :: members =>
      (.string (some (name.getD "")) :: .colon :: written value) :: writtenMembers members

end

/-! ## The tokens of what is written -/

/-- Reading `bytes` finds the tokens `found`. -/
def Finds (bytes : Bytes) (found : List Token) : Prop :=
  ∀ done rest, Delimits rest →
    tokensFrom .plain done (bytes ++ rest) = tokensFrom .plain (found.reverse ++ done) rest

theorem finds_word {letters : List Char} (hword : IsWord letters) :
    Finds (encode letters) [.word letters] :=
  fun done _ hrest => tokensFrom_word hword done hrest

theorem finds_quote (text : Option String) :
    Finds (encode (quoteText text)) [.string (some (text.getD ""))] :=
  fun done rest _ => tokensFrom_quote (text.getD "") done rest

/-- A byte that is a token on its own and ends a word. -/
def Separates (char : Char) (token : Token) : Prop :=
  ∃ byte, encode [char] = [byte] ∧ isWordByte byte = false ∧
    ∀ done, takeByte .plain done byte = some (.plain, token :: done)

theorem separates_openArray : Separates '[' .openArray := ⟨0x5B, rfl, rfl, fun _ => rfl⟩

theorem separates_closeArray : Separates ']' .closeArray := ⟨0x5D, rfl, rfl, fun _ => rfl⟩

theorem separates_openObject : Separates '{' .openObject := ⟨0x7B, rfl, rfl, fun _ => rfl⟩

theorem separates_closeObject : Separates '}' .closeObject := ⟨0x7D, rfl, rfl, fun _ => rfl⟩

theorem separates_comma : Separates ',' .comma := ⟨0x2C, rfl, rfl, fun _ => rfl⟩

theorem separates_colon : Separates ':' .colon := ⟨0x3A, rfl, rfl, fun _ => rfl⟩

theorem Separates.delimits {char : Char} {token : Token} (hchar : Separates char token)
    (chars : List Char) (rest : Bytes) : Delimits (encode (char :: chars) ++ rest) := by
  obtain ⟨byte, hbyte, hword, -⟩ := hchar
  rw [← List.singleton_append, encode_append, hbyte]
  intro other hother
  cases hother
  exact hword

theorem Separates.finds_cons {char : Char} {token : Token} (hchar : Separates char token)
    {chars : List Char} {found : List Token} (hfinds : Finds (encode chars) found) :
    Finds (encode (char :: chars)) (token :: found) := by
  obtain ⟨byte, hbyte, -, htake⟩ := hchar
  intro done rest hrest
  rw [← List.singleton_append, encode_append, hbyte, List.singleton_append, List.cons_append,
    tokensFrom, htake]
  simp only
  rw [hfinds _ _ hrest, List.reverse_cons, List.append_assoc]
  rfl

theorem finds_nil : Finds (encode []) [] :=
  fun _ _ _ => rfl

/-- What is written behind a separating byte is found apart. -/
theorem finds_append {chars : List Char} {char : Char} {token : Token} {rest : List Char}
    {found later : List Token} (hchar : Separates char token) (hfinds : Finds (encode chars) found)
    (hlater : Finds (encode (char :: rest)) later) :
    Finds (encode (chars ++ char :: rest)) (found ++ later) := by
  intro done bytes hbytes
  rw [encode_append, List.append_assoc, hfinds _ _ (hchar.delimits rest bytes),
    hlater _ _ hbytes, List.reverse_append, List.append_assoc]

/-- Pieces with commas between them, up to a closing bracket. -/
theorem finds_separated {char : Char} {token : Token} (hchar : Separates char token)
    (pieces : List (List Char × List Token))
    (hpieces : ∀ piece ∈ pieces, Finds (encode piece.1) piece.2) :
    Finds (encode (separated [','] (pieces.map (·.1)) ++ [char]))
      (commas (pieces.map (·.2)) ++ [token]) := by
  have hend : Finds (encode [char]) [token] := hchar.finds_cons finds_nil
  induction pieces with
  | nil => exact hend
  | cons piece pieces ih =>
      have hpiece := hpieces piece List.mem_cons_self
      have hrest := ih fun other hother => hpieces other (List.mem_cons_of_mem _ hother)
      cases pieces with
      | nil => exact finds_append hchar hpiece hend
      | cons next pieces =>
          have hcomma := separates_comma.finds_cons hrest
          have hall := finds_append separates_comma hpiece hcomma
          simp only [List.map_cons, separated, commas, List.append_assoc,
            List.cons_append] at hall ⊢
          exact hall

mutual

theorem finds_compact : ∀ json, Finds (encode (compact json)) (written json)
  | .null => finds_word (by decide)
  | .boolean true => finds_word (by decide)
  | .boolean false => finds_word (by decide)
  | .integer value => finds_word (isWord_toString value)
  | .fraction => finds_word (by decide)
  | .string text => finds_quote text
  | .array items => by
      obtain ⟨pieces, hchars, htokens, hpieces⟩ := finds_compactItems items
      have hall := separates_openArray.finds_cons
        (finds_separated separates_closeArray pieces hpieces)
      rw [hchars, htokens] at hall
      exact hall
  | .object members => by
      obtain ⟨pieces, hchars, htokens, hpieces⟩ := finds_compactMembers members
      have hall := separates_openObject.finds_cons
        (finds_separated separates_closeObject pieces hpieces)
      rw [hchars, htokens] at hall
      exact hall

theorem finds_compactItems : ∀ items, ∃ pieces : List (List Char × List Token),
    pieces.map (·.1) = compactItems items ∧ pieces.map (·.2) = writtenItems items ∧
      ∀ piece ∈ pieces, Finds (encode piece.1) piece.2
  | [] => ⟨[], rfl, rfl, fun _ hpiece => (List.not_mem_nil hpiece).elim⟩
  | item :: items => by
      obtain ⟨pieces, hchars, htokens, hpieces⟩ := finds_compactItems items
      refine ⟨(compact item, written item) :: pieces, ?_, ?_, ?_⟩
      · rw [List.map_cons, hchars, compactItems]
      · rw [List.map_cons, htokens, writtenItems]
      · intro piece hpiece
        rcases List.mem_cons.mp hpiece with rfl | hmem
        · exact finds_compact item
        · exact hpieces piece hmem

theorem finds_compactMembers : ∀ members, ∃ pieces : List (List Char × List Token),
    pieces.map (·.1) = compactMembers members ∧ pieces.map (·.2) = writtenMembers members ∧
      ∀ piece ∈ pieces, Finds (encode piece.1) piece.2
  | [] => ⟨[], rfl, rfl, fun _ hpiece => (List.not_mem_nil hpiece).elim⟩
  | (name, value) :: members => by
      obtain ⟨pieces, hchars, htokens, hpieces⟩ := finds_compactMembers members
      refine ⟨(quoteText name ++ ':' :: compact value,
        .string (some (name.getD "")) :: .colon :: written value) :: pieces, ?_, ?_, ?_⟩
      · rw [List.map_cons, hchars, compactMembers]
      · rw [List.map_cons, htokens, writtenMembers]
      · intro piece hpiece
        rcases List.mem_cons.mp hpiece with rfl | hmem
        · exact finds_append separates_colon (finds_quote name)
            (separates_colon.finds_cons (finds_compact value))
        · exact hpieces piece hmem

end

theorem tokens_compact (json : Json) : tokens (encode (compact json)) = some (written json) := by
  have hfinds := finds_compact json [] [] (fun _ hbyte => by cases hbyte)
  rw [List.append_nil, List.append_nil] at hfinds
  rw [tokens, hfinds, tokensFrom, List.reverse_reverse]

/-! ## The value of the tokens -/

/-- Any value may come next. -/
def Opens (frames : List Frame) (expected : Expected) : Prop :=
  ∀ token, token ≠ .closeArray → takeToken frames expected token = startValue frames token

theorem opens_value (frames : List Frame) : Opens frames .value :=
  fun _ _ => rfl

theorem opens_firstItem (frames : List Frame) : Opens frames .firstItem := by
  intro token htoken
  cases token with
  | closeArray => exact (htoken rfl).elim
  | openArray | openObject | closeObject | comma | colon | string | word => rfl

/-- Reading `found` makes the value. -/
def Makes (found : List Token) (value : Json) : Prop :=
  ∀ frames expected rest, Opens frames expected →
    valueFrom frames expected (found ++ rest) = valueFrom frames (.after value) rest

theorem makes_token {token : Token} {value : Json} (htoken : token ≠ .closeArray)
    (hvalue : ∀ frames, startValue frames token = some (frames, .after value)) :
    Makes [token] value := by
  intro frames expected rest hopens
  rw [List.singleton_append, valueFrom, hopens token htoken, hvalue]

theorem makes_word {letters : List Char} {value : Json} (hvalue : wordValue? letters = some value) :
    Makes [.word letters] value :=
  makes_token nofun fun frames => by rw [startValue, hvalue]; rfl

/-- The items of an array and its closing bracket, behind items that are known. -/
theorem valueFrom_items (pieces : List (List Token × Json))
    (hpieces : ∀ piece ∈ pieces, Makes piece.1 piece.2) (hnonempty : pieces ≠ [])
    (known : List Json) (frames : List Frame) (expected : Expected) (rest : List Token)
    (hopens : Opens (.array known :: frames) expected) :
    valueFrom (.array known :: frames) expected
        (commas (pieces.map (·.1)) ++ .closeArray :: rest) =
      valueFrom frames (.after (.array (known.reverse ++ pieces.map (·.2)))) rest := by
  induction pieces generalizing known expected with
  | nil => exact (hnonempty rfl).elim
  | cons piece pieces ih =>
      have hpiece := hpieces piece List.mem_cons_self
      have hrest := ih fun other hother => hpieces other (List.mem_cons_of_mem _ hother)
      cases pieces with
      | nil =>
          simp only [List.map_cons, List.map_nil, commas]
          rw [hpiece _ _ _ hopens, valueFrom, takeToken]
          simp only [List.reverse_cons]
      | cons next pieces =>
          have hlater := hrest (List.cons_ne_nil _ _) (piece.2 :: known) .value (opens_value _)
          simp only [List.map_cons, commas, List.append_assoc, List.cons_append] at hlater ⊢
          rw [hpiece _ _ _ hopens, valueFrom, takeToken]
          simp only
          rw [hlater, List.reverse_cons, List.append_assoc]
          rfl

/-- A member may come next, behind members that are known. -/
def OpensMember (expected : Expected) (known : List (Option String × Json)) : Prop :=
  ∀ frames name, takeToken frames expected (.string name) = some (frames, .colon known name)

/-- The members of an object and its closing brace, behind members that are known. -/
theorem valueFrom_members (pieces : List (Option String × List Token × Json))
    (hpieces : ∀ piece ∈ pieces, Makes piece.2.1 piece.2.2) (hnonempty : pieces ≠ [])
    (known : List (Option String × Json)) (frames : List Frame) (expected : Expected)
    (rest : List Token) (hopens : OpensMember expected known) :
    valueFrom frames expected
        (commas (pieces.map fun piece => .string piece.1 :: .colon :: piece.2.1) ++
          .closeObject :: rest) =
      valueFrom frames
        (.after (.object (known.reverse ++ pieces.map fun piece => (piece.1, piece.2.2))))
        rest := by
  induction pieces generalizing known expected with
  | nil => exact (hnonempty rfl).elim
  | cons piece pieces ih =>
      have hpiece := hpieces piece List.mem_cons_self
      have hrest := ih fun other hother => hpieces other (List.mem_cons_of_mem _ hother)
      cases pieces with
      | nil =>
          simp only [List.map_cons, List.map_nil, commas, List.cons_append]
          rw [valueFrom, hopens]
          simp only
          rw [valueFrom, takeToken]
          simp only
          rw [hpiece _ _ _ (opens_value _), valueFrom, takeToken]
          simp only [List.reverse_cons]
      | cons next pieces =>
          have hlater := hrest (List.cons_ne_nil _ _) ((piece.1, piece.2.2) :: known)
            (.member ((piece.1, piece.2.2) :: known)) (fun _ _ => rfl)
          simp only [List.map_cons, commas, List.append_assoc, List.cons_append] at hlater ⊢
          rw [valueFrom, hopens]
          simp only
          rw [valueFrom, takeToken]
          simp only
          rw [hpiece _ _ _ (opens_value _), valueFrom, takeToken]
          simp only
          rw [hlater, List.reverse_cons, List.append_assoc]
          rfl

theorem makes_array {pieces : List (List Token × Json)}
    (hpieces : ∀ piece ∈ pieces, Makes piece.1 piece.2) :
    Makes (.openArray :: commas (pieces.map (·.1)) ++ [.closeArray])
      (.array (pieces.map (·.2))) := by
  intro frames expected rest hopens
  rw [List.append_assoc, List.cons_append, valueFrom, hopens .openArray nofun, startValue]
  simp only [List.singleton_append]
  cases pieces with
  | nil => rfl
  | cons piece pieces =>
      exact valueFrom_items _ hpieces (List.cons_ne_nil _ _) [] frames _ rest (opens_firstItem _)

theorem makes_object {pieces : List (Option String × List Token × Json)}
    (hpieces : ∀ piece ∈ pieces, Makes piece.2.1 piece.2.2) :
    Makes (.openObject ::
        commas (pieces.map fun piece => .string piece.1 :: .colon :: piece.2.1) ++ [.closeObject])
      (.object (pieces.map fun piece => (piece.1, piece.2.2))) := by
  intro frames expected rest hopens
  rw [List.append_assoc, List.cons_append, valueFrom, hopens .openObject nofun, startValue]
  simp only [List.singleton_append]
  cases pieces with
  | nil =>
      rw [List.map_nil, List.map_nil, commas, List.nil_append, valueFrom, takeToken]
      rfl
  | cons piece pieces =>
      exact valueFrom_members _ hpieces (List.cons_ne_nil _ _) [] frames _ rest
        (fun _ _ => rfl)

mutual

theorem makes_written : ∀ json, Textual json → Makes (written json) json
  | .null, _ => makes_word rfl
  | .boolean true, _ => makes_word rfl
  | .boolean false, _ => makes_word rfl
  | .integer value, _ => makes_word (wordValue?_toString value)
  | .fraction, _ => makes_word rfl
  | .string text, htext => by
      obtain ⟨text, rfl⟩ := Option.isSome_iff_exists.mp htext
      exact makes_token nofun fun _ => rfl
  | .array items, htextual => by
      obtain ⟨pieces, htokens, hitems, hpieces⟩ := makes_writtenItems items htextual
      have hall := makes_array hpieces
      rw [htokens, hitems] at hall
      exact hall
  | .object members, htextual => by
      obtain ⟨pieces, htokens, hmembers, hpieces⟩ := makes_writtenMembers members htextual
      have hall := makes_object hpieces
      rw [htokens, hmembers] at hall
      exact hall

theorem makes_writtenItems : ∀ items, TextualItems items →
    ∃ pieces : List (List Token × Json), pieces.map (·.1) = writtenItems items ∧
      pieces.map (·.2) = items ∧ ∀ piece ∈ pieces, Makes piece.1 piece.2
  | [], _ => ⟨[], rfl, rfl, fun _ hpiece => (List.not_mem_nil hpiece).elim⟩
  | item :: items, htextual => by
      obtain ⟨pieces, htokens, hitems, hpieces⟩ := makes_writtenItems items htextual.2
      refine ⟨(written item, item) :: pieces, ?_, ?_, ?_⟩
      · rw [List.map_cons, htokens, writtenItems]
      · rw [List.map_cons, hitems]
      · intro piece hpiece
        rcases List.mem_cons.mp hpiece with rfl | hmem
        · exact makes_written item htextual.1
        · exact hpieces piece hmem

theorem makes_writtenMembers : ∀ members, TextualMembers members →
    ∃ pieces : List (Option String × List Token × Json),
      pieces.map (fun piece => .string piece.1 :: .colon :: piece.2.1) = writtenMembers members ∧
        pieces.map (fun piece => (piece.1, piece.2.2)) = members ∧
        ∀ piece ∈ pieces, Makes piece.2.1 piece.2.2
  | [], _ => ⟨[], rfl, rfl, fun _ hpiece => (List.not_mem_nil hpiece).elim⟩
  | (name, value) :: members, htextual => by
      obtain ⟨hname, hvalue, hrest⟩ := htextual
      obtain ⟨name, rfl⟩ := Option.isSome_iff_exists.mp hname
      obtain ⟨pieces, htokens, hmembers, hpieces⟩ := makes_writtenMembers members hrest
      refine ⟨(some name, written value, value) :: pieces, ?_, ?_, ?_⟩
      · rw [List.map_cons, htokens, writtenMembers]
        rfl
      · rw [List.map_cons, hmembers]
      · intro piece hpiece
        rcases List.mem_cons.mp hpiece with rfl | hmem
        · exact makes_written value hvalue
        · exact hpieces piece hmem

end

/-- A value whose strings are text is read from what is written for it. -/
theorem parse?_compact {json : Json} (htextual : Textual json) :
    parse? (encode (compact json)) = some json := by
  have hmakes := makes_written json htextual [] .value [] (opens_value [])
  rw [List.append_nil] at hmakes
  rw [parse?, tokens_compact, Option.bind_some, hmakes, valueFrom]

end ScriptBundle.Json
