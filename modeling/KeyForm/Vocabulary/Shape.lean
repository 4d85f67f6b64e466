import KeyForm.Text.Basic
import KeyForm.Form.Element
/-! What the value of an option has to look like. -/
namespace KeyForm

inductive ValueShape where
  | targets
  | keyLiteral
  | symbol
  | boolean
  | any
  deriving DecidableEq, Repr

namespace ValueShape

def all : List ValueShape := [.targets, .keyLiteral, .symbol, .boolean, .any]

def name : ValueShape → String
  | .targets => "targets"
  | .keyLiteral => "key-literal"
  | .symbol => "symbol"
  | .boolean => "boolean"
  | .any => "any"

def ofName? (s : String) : Option ValueShape := all.find? (·.name == s)

def parse? (s : String) : Option ValueShape :=
  match folded s with
  | "targets" => some .targets
  | "key-literal" | "key_literal" | "key" => some .keyLiteral
  | "symbol" => some .symbol
  | "boolean" | "bool" => some .boolean
  | "any" => some .any
  | _ => none

def description : ValueShape → String
  | .targets => "an identifier or a non-empty list of identifiers"
  | .keyLiteral => "a string or vector key"
  | .symbol => "an identifier"
  | .boolean => "t or nil"
  | .any => "a value"

def accepts : ValueShape → Element → Bool
  | .targets, e => e.isTarget
  | .keyLiteral, e => e.isKeyLiteral || e.isNil
  | .symbol, e => e.isSymbol
  | .boolean, e => e.isTrue || e.isNil
  | .any, e => !e.isSeparator

def normalize : ValueShape → Element → Element
  | .targets, e => e.toTargets
  | _, e => e

end ValueShape
end KeyForm
