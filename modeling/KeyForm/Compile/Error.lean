import KeyForm.Vocabulary.OptionSpec
/-! Why a form cannot be compiled. Every cause has one wording, and an error names the
element at which it was found. -/
namespace KeyForm

inductive Misfit where
  | unseparated (e : Element)
  | earlyKey (e : Element)
  | noTarget (e : Element)
  | undecided (e : Element)
  | missingValue (name : String)
  | unreachedKeys
  | refusedValue (value : Element) (spec : OptionSpec)
  | earlyMarker (name : String)
  | emptyEntry
  | noEntry (e : Element)
  | looseList (e : Element)
  | noKey (e : Element)
  | keylessDefinition
  | thirdContext (e : Element)
  deriving DecidableEq, Repr

namespace Misfit

def message : Misfit → String
  | .unseparated e => s!"cannot tell whether {e.text} is a context value or a key"
  | .earlyKey e => s!"key {e.text} appears before the first separator"
  | .noTarget e => s!"{e.shapeName} {e.text} cannot be a keymap or state"
  | .undecided e =>
    s!"cannot infer whether {e.shapeName} {e.text} is a context value or a key"
  | .missingValue name => s!"option :{name} is missing its value"
  | .unreachedKeys => "no key section reachable"
  | .refusedValue value spec => s!"invalid value {value.text} for :{spec.name}"
  | .earlyMarker name => s!":{name} in the leading default section"
  | .emptyEntry => "empty extended entry () has no key"
  | .noEntry e => s!"expected an extended entry, found {e.shapeName} {e.text}"
  | .looseList e => s!"list literal {e.text} in key/definition position"
  | .noKey e => s!"expected a key, found {e.shapeName} {e.text}"
  | .keylessDefinition => "definition without a key"
  | .thirdContext e => s!"unexpected third context value {e.text}"

def hint? : Misfit → Option String
  | .unseparated _ | .unreachedKeys =>
    some "heuristic mode disabled; separator required here"
  | .earlyKey _ => some "end the context values with | before the keys"
  | .undecided _ => some "add a | separator after the context values"
  | .refusedValue value spec => some (spec.refusal value)
  | .earlyMarker _ => some "place :ext after the first separator"
  | .noEntry _ => some "this section is in extended-only mode (:ext t)"
  | .looseList _ => some "lists are reserved here; write :ext before an extended entry"
  | .thirdContext _ => some "at most a state and a keymap may precede the keys"
  | .noTarget _ | .missingValue _ | .emptyEntry | .noKey _ | .keylessDefinition => none

end Misfit

inductive CompileError where
  | malformed (index : Nat) (cause : Misfit)
  | unknownOption (index : Nat) (name : String) (suggestion : Option String)
  | unpairedKey (index : Nat) (key : Element)
  deriving DecidableEq, Repr

namespace CompileError

def index : CompileError → Nat
  | .malformed index _ | .unknownOption index _ _ | .unpairedKey index _ => index

def hint? : CompileError → Option String
  | .malformed _ cause => cause.hint?
  | _ => none

def message : CompileError → String
  | .malformed index cause =>
    s!"malformed input at element {index}: {cause.message}" ++
      (cause.hint?.elim "" fun hint => s!" ({hint})")
  | .unknownOption index name suggestion =>
    s!"unknown option :{name} at element {index}" ++
      (suggestion.elim "" fun known => s!"; did you mean :{known}?")
  | .unpairedKey index key => s!"key {key.text} at element {index} has no definition"

end CompileError
end KeyForm
