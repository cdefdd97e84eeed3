import ScriptBundle.Toml.Value

/-!
# Tables under construction

A document defines its tables piece by piece, by headers and by dotted names.  A
table may be defined once: while it is only implied by the header of a table
inside it, its own header may follow; a table that dotted names define can be
extended by dotted names alone; and a value is never extended.
-/

namespace ScriptBundle.Toml

/-- How a table came to be. -/
inductive Origin where
  | header
  /-- By the header of a table inside it. -/
  | implied
  | dotted
  deriving DecidableEq, Repr

inductive Node where
  | leaf (value : Value)
  | table (origin : Origin) (members : List (String × Node))
  /-- A list of tables, the one under construction first. -/
  | tables (elements : List (List (String × Node)))
  deriving Inhabited

abbrev Members := List (String × Node)

mutual

/-- The value that a node stands for. -/
def Node.value : Node → Value
  | .leaf value => value
  | .table _ members => .table (memberValues members)
  | .tables elements => .array (elementValues elements).reverse

def memberValues : List (String × Node) → List (String × Value)
  | [] => []
  | (name, node) :: members => (name, node.value) :: memberValues members

def elementValues : List (List (String × Node)) → List Value
  | [] => []
  | members :: elements => .table (memberValues members) :: elementValues elements

end

namespace Members

/-- Replaces the node of a name, or adds one.  `change` gets the node that is
there. -/
def update (name : String) (change : Option Node → Option Node) : Members → Option Members
  | [] => (change none).map fun node => [(name, node)]
  | (other, node) :: members =>
      if other = name then (change (some node)).map fun node => (name, node) :: members
      else (update name change members).map ((other, node) :: ·)

/-- Changes the members of the table at a path of headers.  Tables that are
missing are implied; a list of tables leads to its last one. -/
def atHeader (change : Members → Option Members) : (path : List String) → Members → Option Members
  | [], members => change members
  | name :: path, members =>
      members.update name fun
        | none => (atHeader change path []).map (.table .implied)
        | some (.table origin inner) => (atHeader change path inner).map (.table origin)
        | some (.tables (inner :: elements)) =>
            (atHeader change path inner).map fun inner => .tables (inner :: elements)
        | some _ => none

/-- Defines a table by its header. -/
def openTable (path : List String) (name : String) (members : Members) : Option Members :=
  members.atHeader
    (fun inner => inner.update name fun
      | none => some (.table .header [])
      | some (.table .implied inner) => some (.table .header inner)
      | some _ => none)
    path

/-- Adds a table to a list by its header. -/
def addTable (path : List String) (name : String) (members : Members) : Option Members :=
  members.atHeader
    (fun inner => inner.update name fun
      | none => some (.tables [[]])
      | some (.tables elements) => some (.tables ([] :: elements))
      | some _ => none)
    path

/-- Adds a value under a name that is new. -/
def addValue (name : String) (value : Value) (members : Members) : Option Members :=
  members.update name fun
    | none => some (.leaf value)
    | some _ => none

/-- Adds a value under a dotted name.  The last table on the way has to be one
that dotted names define. -/
def addDotted (name : String) (value : Value) : (path : List String) → Members → Option Members
  | [], members => members.addValue name value
  | first :: path, members =>
      members.update first fun
        | none => (addDotted name value path []).map (.table .dotted)
        | some (.table .dotted inner) => (addDotted name value path inner).map (.table .dotted)
        | some (.table .implied inner) =>
            if path = [] then none
            else (addDotted name value path inner).map (.table .implied)
        | some (.tables (inner :: elements)) =>
            if path = [] then none
            else (addDotted name value path inner).map fun inner => .tables (inner :: elements)
        | some _ => none

end Members

end ScriptBundle.Toml
