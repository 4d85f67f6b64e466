import KeyForm.Catalog
import KeyForm.Form.Element
import KeyForm.Vocabulary.Registry
/-! The settings that hold for a batch: one value for each option that was written, in
ascending order of the option names. -/
namespace KeyForm

abbrev Settings := Catalog (String × Element) Prod.fst

namespace Settings

def value? (s : Settings) (name : String) : Option Element :=
  (s.get? name).map Prod.snd

def set (s : Settings) (name : String) (value : Element) : Settings :=
  s.insert (name, value)

def keymaps? (s : Settings) : Option Element := s.value? keymapsName

def states? (s : Settings) : Option Element := s.value? statesName

def pairChars (p : String × Element) : List Char :=
  ':' :: p.1.toList ++ ' ' :: p.2.chars

def chars (s : Settings) : List Char :=
  '{' :: ([' '].intercalate (s.items.map pairChars)) ++ ['}']

def text (s : Settings) : String := String.ofList s.chars

end Settings

inductive ClearPolicy where
  | preserveDefaults
  | all
  deriving DecidableEq, Repr, Inhabited

namespace ClearPolicy

def name : ClearPolicy → String
  | .preserveDefaults => "preserve-defaults"
  | .all => "all"

def ofName? (s : String) : Option ClearPolicy :=
  [ClearPolicy.preserveDefaults, .all].find? (·.name == s)

def parse? (s : String) : Option ClearPolicy :=
  match folded s with
  | "preserve-defaults" | "preserve_defaults" | "defaults" => some .preserveDefaults
  | "all" => some .all
  | _ => none

end ClearPolicy
end KeyForm
