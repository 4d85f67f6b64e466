import Std.Data.HashMap
import KeyForm.Yaml.Tree
/-! Values out of a YAML tree. A node may be a reference to another one, and as many
references may be followed as the size of the tree allows: with references inside of what
references stand for, a short text could stand for one that is far too long. -/
namespace KeyForm.Yaml

namespace Tree

def isBlankScalar : Tree → Bool
  | .scalar _ _ .plain text => text.isEmpty
  | _ => false

def items? (t : Tree) : Option (List Tree) :=
  match t with
  | .sequence _ _ items => some items
  | t => if t.isBlankScalar then some [] else none

def pairs? (t : Tree) : Option (List (Tree × Tree)) :=
  match t with
  | .mapping _ _ pairs => some pairs
  | t => if t.isBlankScalar then some [] else none

def text? : Tree → Option String
  | .scalar _ _ _ text => some text
  | _ => none

def bool? : Tree → Option Bool
  | .scalar _ _ .plain text => Yaml.bool? text
  | .scalar _ tag .literal text =>
    if tag = some .bool then Yaml.bool? text else none
  | _ => none

/-- One of some names. It is a scalar, or the local tag of a scalar that stands for
nothing. -/
def choice? : Tree → Option String
  | .scalar _ tag style text =>
    match tag.bind Tag.localName? with
    | some name => if style = .plain && isNull text then some name else none
    | none => some text
  | _ => none

mutual

def nodes : Tree → List Tree
  | .sequence anchor tag items => .sequence anchor tag items :: itemNodes items
  | .mapping anchor tag pairs => .mapping anchor tag pairs :: pairNodes pairs
  | t => [t]

def itemNodes : List Tree → List Tree
  | [] => []
  | t :: rest => nodes t ++ itemNodes rest

def pairNodes : List (Tree × Tree) → List Tree
  | [] => []
  | p :: rest => bothNodes p ++ pairNodes rest

def bothNodes : Tree × Tree → List Tree
  | (key, value) => nodes key ++ nodes value

end

def weight : Tree → Nat
  | .sequence _ _ _ | .mapping _ _ _ => 2
  | _ => 1

def size (t : Tree) : Nat := t.nodes.foldl (fun total node => total + node.weight) 0

def anchored (t : Tree) : Std.HashMap Nat Tree :=
  t.nodes.foldl (fun found node =>
    match node.anchor? with
    | some anchor => found.insert anchor node
    | none => found) ∅

end Tree

/-- The state is the number of references that may still be followed. -/
abbrev Decoder := ReaderT (Std.HashMap Nat Tree) (StateT Nat Option)

namespace Decoder

def ofOption {α : Type} (value : Option α) : Decoder α := fun _ left => value.map (·, left)

def follow : Tree → Decoder Tree
  | .alias anchor => fun anchored left => do
    if left = 0 then none else some (← anchored.get? anchor, left - 1)
  | t => return t

def fields (t : Tree) : Decoder (List (String × Tree)) := do
  (← ofOption t.pairs?).mapM fun p => do return (← ofOption (← follow p.1).text?, p.2)

def field {α : Type} (fields : List (String × Tree)) (name : String) (absent : Option α)
    (read : Tree → Decoder α) : Decoder α :=
  match fields.filter fun f => f.1 == name with
  | [] => ofOption absent
  | [f] => do read (← follow f.2)
  | _ => ofOption none

def items {α : Type} (t : Tree) (read : Tree → Decoder α) : Decoder (List α) := do
  (← ofOption t.items?).mapM fun item => do read (← follow item)

end Decoder

/-- Up to 100 references may be followed for each unit of size. -/
def Tree.decode? {α : Type} (root : Tree) (read : Tree → Decoder α) : Option α :=
  (read root root.anchored).run' (100 * root.size)

end KeyForm.Yaml
