/-!
# Styled text

Control sequences for terminals around a piece of text.
-/

namespace ScriptBundle.CommandLine.Style

/-- The control sequence of a style code. -/
def sequence (code : Nat) : String :=
  s!"\x1b[{code}m"

/-- Text between the code that starts a style and the one that ends it. -/
def between (start finish : Nat) (text : String) : String :=
  sequence start ++ text ++ sequence finish

def bold (text : String) : String :=
  between 1 0 text

def red (text : String) : String :=
  between 31 39 text

def yellow (text : String) : String :=
  between 33 39 text

def cyan (text : String) : String :=
  between 36 39 text

end ScriptBundle.CommandLine.Style
