import KeyForm.Compile.Compiler
/-! The plain meaning of a form: its sections, the settings at the end of each, and a
batch for every section that has entries. Nothing here says how a form is read, only
what it stands for. -/
namespace KeyForm

structure Section where
  clearing : Bool
  body : List Element
  deriving DecidableEq, Repr

def Section.elements (s : Section) : List Element :=
  (if s.clearing then .clearingSeparator else .separator) :: s.body

structure Outline where
  leading : List Element
  sections : List Section
  deriving DecidableEq, Repr

def Outline.elements (o : Outline) : List Element :=
  o.leading ++ o.sections.flatMap Section.elements

def cut : List Element → Outline
  | [] => ⟨[], []⟩
  | .separator :: rest => ⟨[], ⟨false, (cut rest).leading⟩ :: (cut rest).sections⟩
  | .clearingSeparator :: rest => ⟨[], ⟨true, (cut rest).leading⟩ :: (cut rest).sections⟩
  | e :: rest => ⟨e :: (cut rest).leading, (cut rest).sections⟩

/-- The place of the first string or vector that is no option value; the length if there
is none. -/
def keyStart : List Element → Nat
  | .keyword _ :: _ :: rest => keyStart rest + 2
  | e :: rest => if e.isKeyLiteral then 0 else keyStart rest + 1
  | [] => 0

def outline (heuristic : Bool) (elements : List Element) : Outline :=
  if heuristic && !elements.any Element.isSeparator then
    ⟨elements.take (keyStart elements), [⟨false, elements.drop (keyStart elements)⟩]⟩
  else cut elements

section
variable (registry : Registry)

def marks (name : String) : Bool :=
  (registry.get? name).any fun spec => spec.kind = .extendedMarker

def assigned (live : Settings) (name : String) (value : Element) : Settings :=
  match registry.get? name with
  | some spec => if spec.kind = .setting then live.set name (spec.normalize value) else live
  | none => live

def contextSettings (live : Settings) (seen : List Element) (e : Element) : Settings :=
  match seen with
  | [] => live.set keymapsName e.toTargets
  | first :: _ => (live.set statesName first.toTargets).set keymapsName e.toTargets

/-- The settings at the end of the leading section; `seen` are the context values before. -/
def leadingSettings (seen : List Element) (live : Settings) : List Element → Settings
  | .keyword name :: value :: rest =>
    leadingSettings seen (assigned registry live name value) rest
  | e :: rest => leadingSettings (seen ++ [e]) (contextSettings live seen e) rest
  | [] => live

def sectionSettings (base : Settings) : List Element → Settings
  | .keyword name :: value :: rest => sectionSettings (assigned registry base name value) rest
  | _ :: rest => sectionSettings base rest
  | [] => base

def sectionEntries : List Element → List Entry
  | .keyword name :: value :: rest =>
    if marks registry name && value.isList && !value.isNil then
      .extended value :: sectionEntries rest
    else sectionEntries rest
  | .list items :: rest => .extended (.list items) :: sectionEntries rest
  | key :: definition :: rest => .plain key definition :: sectionEntries rest
  | _ => []

def batchOf (settings : Settings) (entries : List Entry) : List Batch :=
  if entries.isEmpty then [] else [⟨settings, entries⟩]

def ClearPolicy.cleared (policy : ClearPolicy) (defaults : Settings) : Settings :=
  match policy with
  | .preserveDefaults => defaults
  | .all => .empty

def sectionBatches (policy : ClearPolicy) (defaults : Settings) :
    Settings → List Section → List Batch
  | _, [] => []
  | before, s :: rest =>
    let base := if s.clearing then policy.cleared defaults else before
    let final := sectionSettings registry base s.body
    batchOf final (sectionEntries registry s.body) ++
      sectionBatches policy defaults final rest

def Outline.batches (policy : ClearPolicy) (o : Outline) : List Batch :=
  let defaults := leadingSettings registry [] .empty o.leading
  sectionBatches registry policy defaults defaults o.sections

end

-- The functions above take an option together with its value, and so does an induction
-- about any of them.
@[elab_as_elim]
theorem byItems {motive : List Element → Prop} (nil : motive [])
    (option : ∀ name value rest, motive rest → motive (.keyword name :: value :: rest))
    (other : ∀ e rest,
      (∀ name value later, e = .keyword name → rest = value :: later → False) →
      motive rest → motive (e :: rest))
    (es : List Element) : motive es := by
  match es with
  | [] => exact nil
  | [e] => exact other e [] nofun nil
  | e :: value :: rest =>
    by_cases named : ∃ name, e = .keyword name
    · obtain ⟨name, rfl⟩ := named
      exact option name value rest (byItems nil option other rest)
    · exact other e (value :: rest) (fun name _ _ same _ => named ⟨name, same⟩)
        (byItems nil option other (value :: rest))
termination_by es.length

def Compiler.meaning (c : Compiler) (elements : List Element) : List Batch :=
  (outline c.options.heuristic elements).batches c.registry c.options.clearPolicy

end KeyForm
