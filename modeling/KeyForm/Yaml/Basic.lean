/-! Characters and scalar styles of YAML. -/
namespace KeyForm.Yaml

def isBreak (c : Char) : Bool :=
  c == '\n' || c == '\r' || c == '\x85' || c == '\u2028' || c == '\u2029'

def isBlank (c : Char) : Bool := c == ' ' || c == '\t'

def isBlankOrBreak (c : Char) : Bool := isBlank c || c == '\x00' || isBreak c

def blankAhead : List Char → Bool
  | [] => true
  | c :: _ => isBlankOrBreak c

def isWordChar (c : Char) : Bool := c.isAlphanum || c == '_' || c == '-'

def indicators : List Char :=
  ['#', ',', '[', ']', '\x7b', '\x7d', '&', '*', '!', '|', '>', '\'', '"', '%', '@', '\x60']

inductive Style where
  | plain
  | single
  | double
  | literal
  | folded
  deriving DecidableEq, Repr

end KeyForm.Yaml
