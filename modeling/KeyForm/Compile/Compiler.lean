import KeyForm.Batch.Basic
import KeyForm.Compile.Classifier
/-! From a form to its batches. The tokens are laid one after the other into a batch
under construction; a separator closes it, and one error gives up the whole form. -/
namespace KeyForm

structure CompileOptions where
  heuristic : Bool
  clearPolicy : ClearPolicy
  deriving DecidableEq, Repr, Inhabited

structure Compiler where
  registry : Registry
  options : CompileOptions
  deriving DecidableEq, Repr

structure Assembly where
  live : Settings
  defaults : Option Settings
  positional : List Element
  entries : List Entry
  pendingKey : Option (Nat × Element)
  pendingOption : Option OptionSpec
  batches : List Batch
  deriving DecidableEq, Repr

namespace Assembly

def start : Assembly := ⟨.empty, none, [], [], none, none, []⟩

def checkPaired (a : Assembly) : Except CompileError Unit :=
  match a.pendingKey with
  | some (index, key) => .error (.unpairedKey index key)
  | none => .ok ()

/-- One context value is a keymap; of two the first is a state. -/
def addContext (a : Assembly) (token : Token) : Except CompileError Assembly :=
  let target := token.element.toTargets
  match a.positional with
  | [] =>
    .ok { a with positional := [target], live := a.live.set keymapsName target }
  | [first] =>
    .ok { a with
      positional := [first, target],
      live := (a.live.set statesName first).set keymapsName target }
  | _ => .error (.malformed token.index (.thirdContext token.element))

def setOption (a : Assembly) (token : Token) : Assembly :=
  match a.pendingOption <|> token.option with
  | none => a
  | some spec =>
    let a := { a with pendingOption := none }
    match spec.kind with
    | .setting => { a with live := a.live.set spec.name (spec.normalize token.element) }
    | .extendedMarker => a

def endDefaults (a : Assembly) : Assembly :=
  match a.defaults with
  | some _ => a
  | none => { a with defaults := some a.live, positional := [] }

def flush (a : Assembly) : Assembly :=
  if a.entries.isEmpty then a
  else { a with entries := [], batches := a.batches ++ [⟨a.live, a.entries⟩] }

def clear (policy : ClearPolicy) (a : Assembly) : Assembly :=
  match policy with
  | .preserveDefaults => { a with live := a.defaults.getD .empty }
  | .all => { a with live := .empty }

def apply (policy : ClearPolicy) (a : Assembly) (token : Token) :
    Except CompileError Assembly :=
  match token.kind with
  | .contextValue => a.addContext token
  | .optionName | .extendedMarker => do
    a.checkPaired
    .ok { a with pendingOption := token.option }
  | .optionValue => .ok (a.setOption token)
  | .sectionSeparator => do
    a.checkPaired
    .ok a.endDefaults.flush
  | .clearingSeparator => do
    a.checkPaired
    .ok (a.endDefaults.flush.clear policy)
  | .keyAtom => .ok { a.endDefaults with pendingKey := some (token.index, token.element) }
  | .definitionAtom =>
    match a.pendingKey with
    | none => .error (.malformed token.index .keylessDefinition)
    | some (_, key) =>
      .ok { a with pendingKey := none, entries := a.entries ++ [.plain key token.element] }
  | .extendedEntry => do
    a.checkPaired
    let a := a.endDefaults
    .ok { a with pendingOption := none, entries := a.entries ++ [.extended token.element] }

def finish (a : Assembly) : Except CompileError (List Batch) := do
  a.checkPaired
  .ok a.flush.batches

end Assembly

namespace Compiler

def classify (c : Compiler) (elements : List Element) : TokenStream :=
  .ofForm c.registry (.choose c.options.heuristic elements) elements

def assemble (c : Compiler) (tokens : List Token) : Except CompileError Assembly :=
  tokens.foldlM (Assembly.apply c.options.clearPolicy) .start

def compile (c : Compiler) (elements : List Element) : Except CompileError (List Batch) := do
  let stream := c.classify elements
  let a ← c.assemble (stream.tokens.map Prod.fst)
  match stream.failure with
  | some err => .error err
  | none => a.finish

end Compiler
end KeyForm
