import KeyForm.Catalog
import KeyForm.Text.Basic
import KeyForm.Text.Distance
import KeyForm.Vocabulary.OptionSpec
/-! The registry of known options. A name is never guessed: a form that uses a name the
registry does not hold is refused, with the nearest known name as a hint. -/
namespace KeyForm

def keymapsName : String := "keymaps"
def statesName : String := "states"

abbrev Registry := Catalog OptionSpec OptionSpec.name

inductive RegistryError where
  | invalidName (name : String)
  | duplicate (name : String)
  deriving DecidableEq, Repr

def RegistryError.message : RegistryError → String
  | .invalidName name => s!"invalid option name {quoted name}"
  | .duplicate name => s!"option :{name} is already registered"

def isOptionName (name : String) : Bool :=
  match name.toList with
  | [] => false
  | c :: _ => c != ':' && !name.toList.any isBlank

namespace Registry

def register (r : Registry) (spec : OptionSpec) : Except RegistryError Registry :=
  if !isOptionName spec.name then .error (.invalidName spec.name)
  else if r.contains spec.name then .error (.duplicate spec.name)
  else .ok (r.insert spec)

def registerAll (r : Registry) (specs : List OptionSpec) : Except RegistryError Registry :=
  specs.foldlM register r

def builtinSpecs : List OptionSpec :=
  [.setting keymapsName .targets "Keymaps the bindings go into",
   .setting statesName .targets "Editing states the bindings apply in",
   .setting "prefix" .keyLiteral "Key prepended to every key",
   .setting "non-normal-prefix" .keyLiteral "Prefix used in insert-like states",
   .setting "global-prefix" .keyLiteral "Prefix used in every state",
   .setting "infix" .keyLiteral "Key inserted after the prefix",
   .setting "prefix-command" .symbol "Command created for the prefix key",
   .setting "prefix-map" .symbol "Keymap created for the prefix key",
   .setting "prefix-name" .any "Menu name of the prefix keymap",
   .setting "predicate" .any "Condition the bindings depend on",
   .setting "major-modes" .targets "Major modes the keymaps belong to",
   .setting "wk-full-keys" .boolean "Whether descriptions match full key sequences",
   ⟨"ext", .any, .extendedMarker,
    "t switches the section to extended entries; a list is one extended entry"⟩]

def builtin : Registry := Catalog.ofList builtinSpecs

def nearest : List (Nat × String) → Option (Nat × String)
  | [] => none
  | a :: rest =>
    match nearest rest with
    | some b => if b.1 < a.1 then some b else some a
    | none => some a

def reach : Nat := 3

def suggest (r : Registry) (name : String) : Option String := do
  let (far, known) ← nearest (r.names.map fun known => (distance name known, known))
  if far ≤ reach then some known else none

end Registry
end KeyForm
