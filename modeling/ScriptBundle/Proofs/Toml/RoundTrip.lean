import ScriptBundle.Proofs.Toml.Values

/-!
# Documents are read back

Each line of a document of sections defines one thing, a section or a member of the
section above it.  The names are bare and none is used twice in one place, so every line
adds what it defines behind what is there.
-/

namespace ScriptBundle.Toml

/-- A name that is written without quotes. -/
def IsBareName (name : String) : Prop :=
  name.toList ≠ [] ∧ ∀ char ∈ name.toList, isBare char = true

instance (name : String) : Decidable (IsBareName name) :=
  decidable_of_iff (name.toList ≠ [] ∧ name.toList.all isBare = true)
    (by rw [IsBareName, List.all_eq_true])

/-- Members that can be written below one header. -/
structure WritableMembers (members : List (String × Value)) : Prop where
  distinct : (members.map Prod.fst).Nodup
  bare : ∀ member ∈ members, IsBareName member.1
  values : ∀ member ∈ members, Writable (maxDepth - 1) member.2

/-- Sections that can be written as a document. -/
structure WritableSections (sections : List (String × List (String × Value))) : Prop where
  distinct : (sections.map Prod.fst).Nodup
  bare : ∀ entry ∈ sections, IsBareName entry.1
  members : ∀ entry ∈ sections, WritableMembers entry.2

/-! ## Names -/

theorem IsBareName.exists_cons {name : String} (hname : IsBareName name) :
    ∃ char rest, name.toList = char :: rest ∧ isBare char = true := by
  obtain ⟨char, rest, hchars⟩ := List.exists_cons_of_ne_nil hname.1
  exact ⟨char, rest, hchars, hname.2 char (hchars ▸ List.mem_cons_self)⟩

theorem IsBareName.solid {name : String} (hname : IsBareName name) (rest : List Char) :
    Solid (name.toList ++ rest) ∧ name.toList ++ rest ≠ [] := by
  obtain ⟨char, more, hchars, hchar⟩ := hname.exists_cons
  have hpassed : ∀ other ∈ [' ', '\t', '\n', '\r', '#'], isBare other = false := by simp [isBare]
  rw [hchars]
  exact ⟨solid_cons (fun hmem => ne_of_test hchar (hpassed char hmem) rfl) _,
    List.cons_ne_nil _ _⟩

theorem skipBlanks_cons {char : Char} (hchar : isBlank char = false) (rest : List Char) :
    skipBlanks (char :: rest) = char :: rest := by
  rw [skipBlanks, List.dropWhile_cons, hchar, if_neg Bool.false_ne_true]

theorem readPart_bare {name : String} (hname : IsBareName name) {char : Char}
    (hchar : isBare char = false) (rest : List Char) :
    readPart (name.toList ++ char :: rest) = some (name, char :: rest) := by
  obtain ⟨first, more, hchars, hfirst⟩ := hname.exists_cons
  obtain ⟨htaken, hleft⟩ := takeWhile_append_cons hname.2 hchar rest
  unfold readPart
  split
  · rename_i heq
    rw [hchars] at heq
    exact absurd (List.cons.inj heq).1 (ne_of_test hfirst (by decide))
  · rename_i heq
    rw [hchars] at heq
    exact absurd (List.cons.inj heq).1 (ne_of_test hfirst (by decide))
  · rw [htaken, hleft, if_neg hname.1, String.ofList_toList]

/-- A name ends in front of anything but a dot. -/
theorem readName_bare {name : String} (hname : IsBareName name) (char : Char) (rest : List Char)
    (hchar : isBare char = false) (hdot : ∀ tail, skipBlanks (char :: rest) ≠ '.' :: tail) :
    readName (name.toList ++ char :: rest) = some (([], name), skipBlanks (char :: rest)) := by
  obtain ⟨first, more, hchars, hfirst⟩ := hname.exists_cons
  have hblank : isBlank first = false := by
    rw [isBlank, decide_eq_false_iff_not, not_or]
    exact ⟨ne_of_test hfirst (by decide), ne_of_test hfirst (by decide)⟩
  have hskip : skipBlanks (name.toList ++ char :: rest) = name.toList ++ char :: rest := by
    rw [hchars, List.cons_append, skipBlanks_cons hblank]
  have hparts : readParts (maxDepth - 1) (name.toList ++ char :: rest) =
      some ([name], skipBlanks (char :: rest)) := by
    change readParts (78 + 1) _ = _
    rw [readParts.eq_2, hskip, readPart_bare hname hchar]
    simp only [Option.bind_eq_bind, Option.bind_some]
    rfl
  rw [readName, hparts]
  rfl

/-! ## Lines -/

theorem skipBlanks_of_solid {text : List Char} (hsolid : Solid text) : skipBlanks text = text := by
  cases text with
  | nil => rfl
  | cons char rest =>
      have hchar := hsolid char rfl
      simp only [List.mem_cons, not_or] at hchar
      apply skipBlanks_cons
      simp [isBlank, hchar]

theorem readPair_member {readItem : Reader Value} {depth : Nat} {name : String} {value : Value}
    (hname : IsBareName name) (hvalue : Writable depth value) (hread : Reads readItem value)
    (rest : List Char) :
    readPair readItem (name.toList ++ ' ' :: '=' :: ' ' :: (value.render ++ '\n' :: rest)) =
      some ((([], name), value), '\n' :: rest) := by
  have hskip : skipBlanks (' ' :: (value.render ++ '\n' :: rest)) = value.render ++ '\n' :: rest :=
    skipBlanks_of_solid (head_render hvalue _).1
  have hnamed := readName_bare hname ' ' ('=' :: ' ' :: (value.render ++ '\n' :: rest))
    (by decide) (fun tail heq => by cases heq)
  rw [readPair, hnamed]
  change (readItem (skipBlanks (' ' :: (value.render ++ '\n' :: rest)))).bind _ = _
  rw [hskip, hread _ (ends_line rest)]
  rfl

/-- What one line adds. -/
theorem readDefinition_member {draft : Draft} {name : String} {value : Value}
    (hname : IsBareName name) (hvalue : Writable (maxDepth - 1) value) {members : Members}
    (hadd : draft.members.atHeader (fun inner => inner.addDotted name value []) draft.path =
      some members) (rest : List Char) :
    readDefinition draft (name.toList ++ ' ' :: '=' :: ' ' :: (value.render ++ '\n' :: rest)) =
      some ({ draft with members }, rest) := by
  obtain ⟨first, more, hchars, hfirst⟩ := hname.exists_cons
  have hpair := readPair_member hname hvalue (readValue_render _ hvalue) rest
  have hbracket : ∀ tail, name.toList ++ ' ' :: '=' :: ' ' :: (value.render ++ '\n' :: rest) ≠
      '[' :: tail := by
    intro tail heq
    rw [hchars] at heq
    exact ne_of_test hfirst (by decide) (List.cons.inj heq).1
  rw [readDefinition.eq_3 _ _ (fun _ => hbracket _) hbracket, hpair]
  simp only [Option.bind_eq_bind, Option.bind_some, hadd]
  rfl

theorem readDefinition_header {draft : Draft} {name : String} (hname : IsBareName name)
    {members : Members} (hopen : draft.members.openTable [] name = some members)
    (rest : List Char) :
    readDefinition draft ('[' :: (name.toList ++ ']' :: '\n' :: rest)) =
      some ({ members, path := [name] }, rest) := by
  obtain ⟨first, more, hchars, hfirst⟩ := hname.exists_cons
  have hnamed := readName_bare hname ']' ('\n' :: rest) (by decide) (fun tail heq => by cases heq)
  have hbracket : ∀ tail, name.toList ++ ']' :: '\n' :: rest ≠ '[' :: tail := by
    intro tail heq
    rw [hchars] at heq
    exact ne_of_test hfirst (by decide) (List.cons.inj heq).1
  rw [readDefinition.eq_2 _ _ hbracket, hnamed]
  change (draft.members.openTable [] name).bind _ = _
  rw [hopen]
  rfl

/-! ## Tables under construction -/

namespace Members

variable {name : String} {change : Option Node → Option Node} {node : Node}

/-- A new name goes behind the others. -/
theorem update_of_not_mem {members : Members} (hname : name ∉ members.map Prod.fst)
    (hchange : change none = some node) :
    members.update name change = some (members ++ [(name, node)]) := by
  induction members with
  | nil =>
      rw [update, hchange]
      rfl
  | cons member members ih =>
      rw [List.map_cons, List.mem_cons, not_or] at hname
      rw [update, if_neg (Ne.symm hname.1), ih hname.2]
      rfl

/-- The last member is changed in its place. -/
theorem update_append {members : Members} {old : Node} (hname : name ∉ members.map Prod.fst)
    (hchange : change (some old) = some node) :
    update name change (members ++ [(name, old)]) = some (members ++ [(name, node)]) := by
  induction members with
  | nil =>
      rw [List.nil_append, update, if_pos rfl, hchange]
      rfl
  | cons member members ih =>
      rw [List.map_cons, List.mem_cons, not_or] at hname
      rw [List.cons_append, update, if_neg (Ne.symm hname.1), ih hname.2]
      rfl

end Members

/-- What the lines below a header define. -/
def leaves (members : List (String × Value)) : Members :=
  members.map fun member => (member.1, .leaf member.2)

/-- What a document of sections defines. -/
def tables (sections : List (String × List (String × Value))) : Members :=
  sections.map fun entry => (entry.1, .table .header (leaves entry.2))

theorem map_fst_leaves (members : List (String × Value)) :
    (leaves members).map Prod.fst = members.map Prod.fst := by
  simp [leaves]

theorem map_fst_tables (sections : List (String × List (String × Value))) :
    (tables sections).map Prod.fst = sections.map Prod.fst := by
  simp [tables]

theorem memberValues_leaves (members : List (String × Value)) :
    memberValues (leaves members) = members := by
  induction members with
  | nil => rfl
  | cons member members ih =>
      rw [leaves, List.map_cons, memberValues, Node.value]
      exact congrArg _ ih

theorem memberValues_tables (sections : List (String × List (String × Value))) :
    memberValues (tables sections) = sections.map fun entry => (entry.1, .table entry.2) := by
  induction sections with
  | nil => rfl
  | cons entry sections ih =>
      rw [tables, List.map_cons, memberValues, Node.value, memberValues_leaves]
      exact congrArg _ ih

/-- The headers and the members of a document. -/
def lineCount : List (String × List (String × Value)) → Nat
  | [] => 0
  | entry :: sections => lineCount sections + entry.2.length + 1

/-- The draft in front of the next line of the section `name`. -/
def draftOf (front : Members) (name : String) (done : List (String × Value)) : Draft where
  members := front ++ [(name, .table .header (leaves done))]
  path := [name]

/-! ## Line by line -/

theorem not_mem_of_distinct {α : Type} {done left : List (String × α)} {entry : String × α}
    (hdistinct : ((done ++ entry :: left).map Prod.fst).Nodup) : entry.1 ∉ done.map Prod.fst := by
  rw [List.map_append, List.nodup_append] at hdistinct
  exact fun hdone => hdistinct.2.2 entry.1 hdone entry.1 List.mem_cons_self rfl

section Definitions

variable {draft next : Draft} {text rest : List Char}

theorem readDefinitions_line (left : Nat) (draft : Draft) (text : List Char) :
    readDefinitions left draft ('\n' :: text) = readDefinitions left draft text := by
  cases left with
  | zero => rfl
  | succ left => rfl

theorem readDefinitions_nil (left : Nat) (draft : Draft) :
    readDefinitions left draft [] = some draft.members := by
  cases left with
  | zero => rfl
  | succ left => rfl

theorem readDefinitions_succ (hsolid : Solid text) (hnonempty : text ≠ [])
    (hread : readDefinition draft text = some (next, rest)) (left : Nat) :
    readDefinitions (left + 1) draft text = readDefinitions left next rest := by
  rw [readDefinitions, skipSpace_of_solid hsolid]
  simp only [if_neg hnonempty, hread]

/-- A member that is new in its section is added behind the others. -/
theorem readDefinition_draftOf {front : Members} {name key : String} {value : Value}
    {done : List (String × Value)} (hname : name ∉ front.map Prod.fst)
    (hkey : key ∉ done.map Prod.fst) (hbare : IsBareName key)
    (hvalue : Writable (maxDepth - 1) value) (rest : List Char) :
    readDefinition (draftOf front name done)
        (key.toList ++ ' ' :: '=' :: ' ' :: (value.render ++ '\n' :: rest)) =
      some (draftOf front name (done ++ [(key, value)]), rest) := by
  apply readDefinition_member hbare hvalue
  have hadd : (leaves done).addDotted key value [] = some (leaves (done ++ [(key, value)])) := by
    rw [← map_fst_leaves] at hkey
    rw [Members.addDotted, Members.addValue, Members.update_of_not_mem hkey rfl]
    simp [leaves]
  apply Members.update_append hname
  simp only [Members.atHeader, hadd, Option.map_some]

/-- The members of a section, one line after the other. -/
theorem readDefinitions_members {front : Members} {name : String}
    (hname : name ∉ front.map Prod.fst) {done members : List (String × Value)}
    (hmembers : WritableMembers (done ++ members)) (left : Nat) (rest : List Char) :
    readDefinitions (left + members.length) (draftOf front name done)
        (renderMembers members ++ rest) =
      readDefinitions left (draftOf front name (done ++ members)) rest := by
  induction members generalizing done with
  | nil =>
      rw [List.append_nil]
      rfl
  | cons member members ih =>
      obtain ⟨key, value⟩ := member
      have hmem : (key, value) ∈ done ++ (key, value) :: members :=
        List.mem_append_right done List.mem_cons_self
      have hkey : key ∉ done.map Prod.fst := not_mem_of_distinct hmembers.distinct
      have hbare := hmembers.bare _ hmem
      have htext : renderMembers ((key, value) :: members) ++ rest =
          key.toList ++ ' ' :: '=' :: ' ' :: (value.render ++
            '\n' :: (renderMembers members ++ rest)) := by
        simp [renderMembers]
      have hread := readDefinition_draftOf hname hkey hbare (hmembers.values _ hmem)
        (renderMembers members ++ rest)
      have hsplit : done ++ (key, value) :: members = done ++ [(key, value)] ++ members := by
        simp
      obtain ⟨hsolid, hnonempty⟩ := hbare.solid
        (' ' :: '=' :: ' ' :: (value.render ++ '\n' :: (renderMembers members ++ rest)))
      rw [hsplit] at hmembers ⊢
      rw [htext, List.length_cons, ← Nat.add_assoc, readDefinitions_succ hsolid hnonempty hread,
        ih hmembers]

/-- A new section opens behind the others. -/
theorem readDefinition_section {sections : List (String × List (String × Value))}
    {name : String} (hname : name ∉ sections.map Prod.fst) (hbare : IsBareName name)
    (path : List String) (rest : List Char) :
    readDefinition { members := tables sections, path }
        ('[' :: (name.toList ++ ']' :: '\n' :: rest)) =
      some (draftOf (tables sections) name [], rest) := by
  apply readDefinition_header hbare
  rw [← map_fst_tables] at hname
  exact Members.update_of_not_mem hname rfl

theorem exists_renderSections (name : String) (members : List (String × Value))
    (sections : List (String × List (String × Value))) :
    ∃ rest, renderSections ((name, members) :: sections) =
        '[' :: (name.toList ++ ']' :: '\n' :: (renderMembers members ++ rest)) ∧
      (renderSections sections).length ≤ rest.length ∧
      ∀ left draft, readDefinitions left draft rest =
        readDefinitions left draft (renderSections sections) := by
  cases sections with
  | nil => exact ⟨[], by simp [renderSections], Nat.le_refl 0, fun _ _ => rfl⟩
  | cons entry sections =>
      exact ⟨'\n' :: renderSections (entry :: sections), by simp [renderSections],
        Nat.le_succ _, fun left draft => readDefinitions_line left draft _⟩

/-- The sections of a document, one after the other. -/
theorem readDefinitions_sections {done sections : List (String × List (String × Value))}
    (hsections : WritableSections (done ++ sections)) (path : List String) (left : Nat) :
    readDefinitions (left + lineCount sections) { members := tables done, path }
        (renderSections sections) =
      some (tables (done ++ sections)) := by
  induction sections generalizing done path with
  | nil =>
      rw [List.append_nil]
      exact readDefinitions_nil _ _
  | cons entry sections ih =>
      obtain ⟨name, members⟩ := entry
      have hmem : (name, members) ∈ done ++ (name, members) :: sections :=
        List.mem_append_right done List.mem_cons_self
      have hname : name ∉ done.map Prod.fst := not_mem_of_distinct hsections.distinct
      have hsplit : done ++ (name, members) :: sections =
          done ++ [(name, members)] ++ sections := by
        simp
      obtain ⟨rest, htext, -, hrest⟩ := exists_renderSections name members sections
      have hheader := readDefinition_section hname (hsections.bare _ hmem) path
        (renderMembers members ++ rest)
      have hmembers : WritableMembers ([] ++ members) := hsections.members _ hmem
      have hbelow : name ∉ (tables done).map Prod.fst := by rwa [map_fst_tables]
      have hdraft : draftOf (tables done) name ([] ++ members) =
          { members := tables (done ++ [(name, members)]), path := [name] } := by
        simp [draftOf, tables]
      rw [hsplit] at hsections ⊢
      calc readDefinitions (left + lineCount ((name, members) :: sections))
            { members := tables done, path } (renderSections ((name, members) :: sections))
          = readDefinitions (left + lineCount sections + members.length + 1)
              { members := tables done, path }
              ('[' :: (name.toList ++ ']' :: '\n' :: (renderMembers members ++ rest))) := by
            rw [htext, lineCount, ← Nat.add_assoc, ← Nat.add_assoc]
        _ = readDefinitions (left + lineCount sections + members.length)
              (draftOf (tables done) name []) (renderMembers members ++ rest) :=
            readDefinitions_succ (solid_cons (by decide) _) (List.cons_ne_nil _ _) hheader _
        _ = readDefinitions (left + lineCount sections)
              { members := tables (done ++ [(name, members)]), path := [name] }
              (renderSections sections) := by
            rw [readDefinitions_members hbelow hmembers, hdraft, hrest]
        _ = some (tables (done ++ [(name, members)] ++ sections)) := ih hsections [name]

end Definitions

theorem length_renderMembers (members : List (String × Value)) :
    members.length ≤ (renderMembers members).length := by
  induction members with
  | nil => exact Nat.le_refl 0
  | cons member members ih =>
      have htext : renderMembers (member :: members) =
          member.1.toList ++ " = ".toList ++ member.2.render ++ ['\n'] ++
            renderMembers members := List.flatMap_cons
      rw [htext]
      simp only [List.length_append, List.length_cons]
      omega

/-- Every definition has a line. -/
theorem length_renderSections (sections : List (String × List (String × Value))) :
    lineCount sections ≤ (renderSections sections).length := by
  induction sections with
  | nil => exact Nat.le_refl 0
  | cons entry sections ih =>
      obtain ⟨name, members⟩ := entry
      obtain ⟨rest, htext, hrest, -⟩ := exists_renderSections name members sections
      have hmembers := length_renderMembers members
      rw [htext, lineCount]
      simp only [List.length_append, List.length_cons]
      omega

/-- A document of sections is read back. -/
theorem parse?_renderSections {sections : List (String × List (String × Value))}
    (hsections : WritableSections sections) :
    parse? (String.ofList (renderSections sections)) =
      some (.table (sections.map fun entry => (entry.1, .table entry.2))) := by
  have hmark : skipMark (renderSections sections) = renderSections sections := by
    cases sections with
    | nil => rfl
    | cons entry sections =>
        obtain ⟨rest, htext, -⟩ := exists_renderSections entry.1 entry.2 sections
        rw [htext]
        rfl
  obtain ⟨left, hleft⟩ := Nat.exists_eq_add_of_le' (length_renderSections sections)
  have hread : readDefinitions (renderSections sections).length { members := [], path := [] }
      (renderSections sections) = some (tables sections) := by
    have hall : WritableSections ([] ++ sections) := hsections
    rw [hleft]
    exact readDefinitions_sections hall [] left
  rw [parse?]
  simp only [String.toList_ofList, hmark, hread, Option.map_some, memberValues_tables]

end ScriptBundle.Toml
