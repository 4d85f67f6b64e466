import KeyForm.Compile.Error
import KeyForm.Vocabulary.Registry
/-! Telling what each element of a form is for. Elements are taken from left to right,
and an element is judged by itself and by a small state; the only choice is how the
leading section, before the keys, is told from the keys. -/
namespace KeyForm

inductive TokenKind where
  | contextValue
  | optionName
  | optionValue
  | sectionSeparator
  | clearingSeparator
  | extendedMarker
  | extendedEntry
  | keyAtom
  | definitionAtom
  deriving DecidableEq, Repr

structure Token where
  kind : TokenKind
  index : Nat
  element : Element
  option : Option OptionSpec
  deriving DecidableEq, Repr

inductive Strategy where
  | explicit (separated : Bool)
  | heuristic
  deriving DecidableEq, Repr

inductive LeadingClass where
  | contextValue
  | keySectionStart
  deriving DecidableEq, Repr

namespace Strategy

def choose (heuristic : Bool) (elements : List Element) : Strategy :=
  let separated := elements.any Element.isSeparator
  if heuristic && !separated then .heuristic else .explicit separated

def classify (s : Strategy) (index : Nat) (e : Element) :
    Except CompileError LeadingClass :=
  match s with
  | .explicit separated =>
    if !separated then .error (.malformed index (.unseparated e))
    else if e.isTarget then .ok .contextValue
    else if e.isKeyLiteral then .error (.malformed index (.earlyKey e))
    else .error (.malformed index (.noTarget e))
  | .heuristic =>
    if e.isKeyLiteral then .ok .keySectionStart
    else if e.isTarget then .ok .contextValue
    else .error (.malformed index (.undecided e))

def allowsOpenEnd : Strategy → Bool
  | .explicit _ => false
  | .heuristic => true

end Strategy

inductive Phase where
  | leading
  | keys
  deriving DecidableEq, Repr

structure Classifier where
  phase : Phase
  awaiting : Option (Nat × OptionSpec)
  extendedOnly : Bool
  runLength : Nat
  deriving DecidableEq, Repr

namespace Classifier

def start : Classifier := ⟨.leading, none, false, 0⟩

abbrev Step := Except CompileError (Token × Classifier)

def misfit (index : Nat) (cause : Misfit) : Step := .error (.malformed index cause)

/-- The value of an option. A list after a marker is an entry, save the empty one, which
is false. -/
def takeValue (c : Classifier) (index : Nat) (e : Element) (named : Nat)
    (spec : OptionSpec) : Step :=
  if e.isSeparator then misfit named (.missingValue spec.name)
  else if !spec.accepts e then misfit index (.refusedValue e spec)
  else match spec.kind with
    | .setting => .ok (⟨.optionValue, index, e, some spec⟩, c)
    | .extendedMarker =>
      if c.phase = .leading then misfit named (.earlyMarker spec.name)
      else if e.isList && !e.isNil then .ok (⟨.extendedEntry, index, e, some spec⟩, c)
      else .ok (⟨.optionValue, index, e, some spec⟩, { c with extendedOnly := e.isTrue })

def takeName (c : Classifier) (registry : Registry) (index : Nat) (e : Element)
    (name : String) : Step :=
  match registry.get? name with
  | none => .error (.unknownOption index name (registry.suggest name))
  | some spec =>
    let kind := match spec.kind with
      | .setting => .optionName
      | .extendedMarker => .extendedMarker
    .ok (⟨kind, index, e, some spec⟩, { c with awaiting := some (index, spec), runLength := 0 })

def takeEntry (c : Classifier) (index : Nat) (e : Element) : Step :=
  if c.extendedOnly then
    if e = .list [] then misfit index .emptyEntry
    else if e.isList then .ok (⟨.extendedEntry, index, e, none⟩, c)
    else misfit index (.noEntry e)
  else if e.isList then misfit index (.looseList e)
  else if c.runLength % 2 = 0 then
    if e.isKeyLiteral then
      .ok (⟨.keyAtom, index, e, none⟩, { c with runLength := c.runLength + 1 })
    else misfit index (.noKey e)
  else .ok (⟨.definitionAtom, index, e, none⟩, { c with runLength := c.runLength + 1 })

def takeSeparator (c : Classifier) (kind : TokenKind) (index : Nat) (e : Element) : Step :=
  .ok (⟨kind, index, e, none⟩, { c with phase := .keys, extendedOnly := false, runLength := 0 })

def step (registry : Registry) (strategy : Strategy) (c : Classifier) (index : Nat)
    (e : Element) : Step :=
  match c.awaiting with
  | some (named, spec) => { c with awaiting := none }.takeValue index e named spec
  | none =>
    match e with
    | .separator => c.takeSeparator .sectionSeparator index e
    | .clearingSeparator => c.takeSeparator .clearingSeparator index e
    | .keyword name => c.takeName registry index e name
    | _ =>
      match c.phase with
      | .keys => c.takeEntry index e
      | .leading =>
        match strategy.classify index e with
        | .error err => .error err
        | .ok .contextValue => .ok (⟨.contextValue, index, e, none⟩, c)
        | .ok .keySectionStart => { c with phase := .keys }.takeEntry index e

def ending (strategy : Strategy) (c : Classifier) (index : Nat) : Option CompileError :=
  match c.awaiting with
  | some (named, spec) => some (.malformed named (.missingValue spec.name))
  | none =>
    if c.phase = .leading && !strategy.allowsOpenEnd then
      some (.malformed index .unreachedKeys)
    else none

end Classifier

structure TokenStream where
  tokens : List (Token × Classifier)
  failure : Option CompileError
  deriving DecidableEq, Repr

namespace TokenStream

def scan (registry : Registry) (strategy : Strategy) (c : Classifier) (index : Nat) :
    List Element → TokenStream
  | [] => ⟨[], c.ending strategy index⟩
  | e :: rest =>
    match c.step registry strategy index e with
    | .error err => ⟨[], some err⟩
    | .ok (token, next) =>
      let stream := scan registry strategy next (index + 1) rest
      ⟨(token, next) :: stream.tokens, stream.failure⟩

def ofForm (registry : Registry) (strategy : Strategy) (elements : List Element) :
    TokenStream :=
  scan registry strategy .start 0 elements

end TokenStream
end KeyForm
