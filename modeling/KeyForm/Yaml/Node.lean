import KeyForm.Yaml.Style
/-! YAML documents in block style: an item of a sequence and a pair of a mapping begin
their own line, and only what is empty is written in brackets. -/
namespace KeyForm.Yaml

inductive Node where
  | scalar (tag : Option String) (text : String)
  | sequence (tag : Option String) (items : List Node)
  | mapping (pairs : List (String × Node))
  deriving Repr, Inhabited

namespace Node

def tagChars : Option String → List Char
  | none => []
  | some tag => ' ' :: '!' :: tag.toList

def isSimpleKey (key : String) : Bool :=
  !isMultiline key.toList && key.utf8ByteSize ≤ 128

def keyChars (indent : Nat) (key : String) : List Char :=
  if isSimpleKey key then scalarChars indent key ++ [':']
  else '?' :: ' ' :: scalarLine (indent + 2) key ++ spaces indent ++ [':']

mutual

def itemChars (indent : Nat) : Node → List Char
  | .scalar tag text => tagChars tag ++ ' ' :: scalarLine (indent + 2) text
  | .sequence tag [] => tagChars tag ++ " []\n".toList
  | .sequence none (n :: rest) =>
    " -".toList ++ itemChars (indent + 2) n ++ laterItems (indent + 2) rest
  | .sequence (some tag) (n :: rest) =>
    tagChars (some tag) ++ '\n' :: laterItems (indent + 2) (n :: rest)
  | .mapping [] => " \x7b\x7d\n".toList
  | .mapping (p :: rest) => ' ' :: pairChars (indent + 2) p ++ laterPairs (indent + 2) rest

/-- What follows the colon of a pair; `indent` is that of the mapping. The items of a
sequence stand right below the key. -/
def valueChars (indent : Nat) : Node → List Char
  | .scalar tag text => tagChars tag ++ ' ' :: scalarLine (indent + 2) text
  | .sequence tag [] => tagChars tag ++ " []\n".toList
  | .sequence tag (n :: rest) => tagChars tag ++ '\n' :: laterItems indent (n :: rest)
  | .mapping [] => " \x7b\x7d\n".toList
  | .mapping (p :: rest) => '\n' :: laterPairs (indent + 2) (p :: rest)

def laterItems (indent : Nat) : List Node → List Char
  | [] => []
  | n :: rest => spaces indent ++ '-' :: itemChars indent n ++ laterItems indent rest

def pairChars (indent : Nat) : String × Node → List Char
  | (key, n) => keyChars indent key ++ valueChars indent n

def laterPairs (indent : Nat) : List (String × Node) → List Char
  | [] => []
  | p :: rest => spaces indent ++ pairChars indent p ++ laterPairs indent rest

end

def document : List Node → String
  | [] => "[]\n"
  | items => String.ofList (laterItems 0 items)

end Node
end KeyForm.Yaml
