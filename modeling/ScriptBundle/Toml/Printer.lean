import ScriptBundle.Toml.Quoted

/-!
# Writing documents

A document is written as sections, each with a header and a line for every
member.  A list of two or more items takes a line for each of them.
-/

namespace ScriptBundle.Toml

mutual

def Value.render : Value → List Char
  | .string text => quote text
  | .integer value => (toString value).toList
  | .boolean true => "true".toList
  | .boolean false => "false".toList
  | .array [] => ['[', ']']
  | .array [item] => '[' :: item.render ++ [']']
  | .array (first :: second :: items) =>
      '[' :: '\n' :: renderLines (first :: second :: items) ++ [']']
  | .float | .time | .table _ => []

/-- A line for each item. -/
def renderLines : List Value → List Char
  | [] => []
  | item :: items => "    ".toList ++ item.render ++ [',', '\n'] ++ renderLines items

end

/-- A line for each member. -/
def renderMembers (members : List (String × Value)) : List Char :=
  members.flatMap fun member => member.1.toList ++ " = ".toList ++ member.2.render ++ ['\n']

/-- Sections with empty lines between them. -/
def renderSections : List (String × List (String × Value)) → List Char
  | [] => []
  | [(name, members)] => '[' :: name.toList ++ [']', '\n'] ++ renderMembers members
  | (name, members) :: sections =>
      '[' :: name.toList ++ [']', '\n'] ++ renderMembers members ++ ['\n'] ++
        renderSections sections

end ScriptBundle.Toml
