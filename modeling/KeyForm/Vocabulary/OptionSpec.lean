import KeyForm.Vocabulary.Shape
/-! The options that a form may use. -/
namespace KeyForm

inductive OptionKind where
  | setting
  /-- Its value says how the entries after it are written; it is never kept. -/
  | extendedMarker
  deriving DecidableEq, Repr

structure OptionSpec where
  name : String
  shape : ValueShape
  kind : OptionKind
  doc : String
  deriving DecidableEq, Repr

namespace OptionSpec

def setting (name : String) (shape : ValueShape) (doc : String) : OptionSpec :=
  ⟨name, shape, .setting, doc⟩

def accepts (spec : OptionSpec) (value : Element) : Bool :=
  match spec.kind with
  | .setting => spec.shape.accepts value
  | .extendedMarker => value.isTrue || value.isNil || value.isList

def expectation (spec : OptionSpec) : String :=
  match spec.kind with
  | .setting => spec.shape.description
  | .extendedMarker => "t, nil or a list literal"

def refusal (spec : OptionSpec) (value : Element) : String :=
  s!":{spec.name} expects {spec.expectation}, got {value.shapeName}"

def check (spec : OptionSpec) (value : Element) : Except String Unit :=
  if spec.accepts value then .ok () else .error (spec.refusal value)

def normalize (spec : OptionSpec) (value : Element) : Element :=
  spec.shape.normalize value

end OptionSpec
end KeyForm
