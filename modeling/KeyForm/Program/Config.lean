import KeyForm.Compile.Compiler
import KeyForm.Yaml.Decoder
/-! The configuration of a compiler, and the YAML files that it is kept in. -/
namespace KeyForm

structure CustomOption where
  name : String
  shape : ValueShape
  doc : String
  deriving DecidableEq, Repr

def CustomOption.toSpec (o : CustomOption) : OptionSpec := .setting o.name o.shape o.doc

structure Config where
  heuristic : Bool
  clearPolicy : ClearPolicy
  options : List CustomOption
  deriving DecidableEq, Repr

namespace Config

def default : Config := ⟨false, .preserveDefaults, []⟩

instance : Inhabited Config := ⟨default⟩

def compileOptions (c : Config) : CompileOptions := ⟨c.heuristic, c.clearPolicy⟩

def registry (c : Config) : Except RegistryError Registry :=
  Registry.builtin.registerAll (c.options.map CustomOption.toSpec)

def compiler (c : Config) : Except RegistryError Compiler := do
  .ok ⟨← c.registry, c.compileOptions⟩

end Config

open Yaml (Tree Decoder)

def CustomOption.decoder (t : Tree) : Decoder CustomOption := do
  let fields ← Decoder.fields t
  let name ← Decoder.field fields "name" none fun t => Decoder.ofOption t.text?
  let shape ← Decoder.field fields "shape" (some .any) fun t =>
    Decoder.ofOption (t.choice?.bind ValueShape.ofName?)
  let doc ← Decoder.field fields "doc" (some "") fun t => Decoder.ofOption t.text?
  return ⟨name, shape, doc⟩

namespace Config

def decoder (t : Tree) : Decoder Config := do
  let fields ← Decoder.fields t
  let heuristic ← Decoder.field fields "heuristic" (some false) fun t => Decoder.ofOption t.bool?
  let policy ← Decoder.field fields "clear_policy" (some .preserveDefaults) fun t =>
    Decoder.ofOption (t.choice?.bind ClearPolicy.ofName?)
  let options ← Decoder.field fields "options" (some []) fun t =>
    Decoder.items t CustomOption.decoder
  return ⟨heuristic, policy, options⟩

def ofYaml? (s : String) : Option Config := do
  match ← Tree.ofText? s with
  | none => some default
  | some tree => tree.decode? decoder

end Config
end KeyForm
