import KeyForm.Yaml.Token
/-! The value of a YAML stream as a tree. An anchor is kept as a number, and a reference
to it as the same number. -/
namespace KeyForm.Yaml

inductive Tree where
  | alias (anchor : Nat)
  | scalar (anchor : Option Nat) (tag : Option Tag) (style : Style) (text : String)
  | sequence (anchor : Option Nat) (tag : Option Tag) (items : List Tree)
  | mapping (anchor : Option Nat) (tag : Option Tag) (pairs : List (Tree × Tree))
  deriving Repr, Inhabited

def Tree.blank : Tree := .scalar none none .plain ""

structure TreeSource where
  tokens : List Token
  anchors : List (String × Nat)

abbrev TreeReader := StateT TreeSource Option

namespace TreeReader

def peek : TreeReader (Option Token) := fun s => some (s.tokens.head?, s)

def pass : TreeReader Unit := fun s => some ((), { s with tokens := s.tokens.tail })

def refuse {α : Type} : TreeReader α := fun _ => none

def passIf (t : Token) : TreeReader Bool := do
  if (← peek) = some t then
    pass
    return true
  else return false

def nextIs (ts : List Token) : TreeReader Bool := do
  return (← peek).any ts.contains

/-- The number of a new anchor is the count of the names used before. A name used again
stands for its latest number. -/
def declare (name : Option String) : TreeReader (Option Nat) := fun s =>
  match name with
  | none => some (none, s)
  | some name =>
    let number := s.anchors.length
    let known := s.anchors.any fun a => a.1 == name
    let anchors :=
      if known then s.anchors.map fun a => if a.1 == name then (name, number) else a
      else s.anchors ++ [(name, number)]
    some (some number, { s with anchors := anchors })

def find (name : String) : TreeReader Nat := fun s =>
  (s.anchors.lookup name).map (·, s)

def properties : TreeReader (Option String × Option (String × Tag)) := do
  match ← peek with
  | some (.anchor name) =>
    pass
    match ← peek with
    | some (.tag handle suffix) =>
      pass
      return (some name, some (handle, suffix))
    | _ => return (some name, none)
  | some (.tag handle suffix) =>
    pass
    match ← peek with
    | some (.anchor name) =>
      pass
      return (some name, some (handle, suffix))
    | _ => return (none, some (handle, suffix))
  | _ => return (none, none)

def resolve (handles : List (String × Tag)) : Option (String × Tag) →
    TreeReader (Option Tag)
  | none => return none
  | some ("", tag) => return some tag
  | some (handle, suffix) => do
    match handles.lookup handle with
    | some stem => return some (stem.append suffix)
    | none => refuse

def nodeUnless (ends : List Token) (node : TreeReader Tree) : TreeReader Tree := do
  if ← nextIs ends then return .blank else node

def emptyNode (anchorName : Option String) (tag : Option Tag) : TreeReader Tree := do
  if anchorName.isNone && tag.isNone then refuse
  else return .scalar (← declare anchorName) tag .plain ""

mutual

/-- Reads a node. Blocks may begin where `block` holds, and a sequence that is not
indented where `loose` holds. Each step down or on takes one from the fuel. -/
def node (handles : List (String × Tag)) (block loose : Bool) : Nat → TreeReader Tree
  | 0 => refuse
  | fuel + 1 => do
    if let some (.alias name) ← peek then
      pass
      return .alias (← find name)
    let (anchorName, tagParts) ← properties
    let tag ← resolve handles tagParts
    match ← peek with
    | some .blockEntry =>
      if loose then
        let anchor ← declare anchorName
        return .sequence anchor tag (← looseItems handles fuel)
      else emptyNode anchorName tag
    | some (.scalar style text) =>
      pass
      let anchor ← declare anchorName
      return .scalar anchor tag style text
    | some .flowSequenceStart =>
      pass
      let anchor ← declare anchorName
      return .sequence anchor tag (← flowItems handles true fuel)
    | some .flowMappingStart =>
      pass
      let anchor ← declare anchorName
      return .mapping anchor tag (← flowPairs handles true fuel)
    | some .blockSequenceStart =>
      if block then
        pass
        let anchor ← declare anchorName
        return .sequence anchor tag (← blockItems handles fuel)
      else emptyNode anchorName tag
    | some .blockMappingStart =>
      if block then
        pass
        let anchor ← declare anchorName
        return .mapping anchor tag (← blockPairs handles fuel)
      else emptyNode anchorName tag
    | _ => emptyNode anchorName tag

def blockItems (handles : List (String × Tag)) : Nat → TreeReader (List Tree)
  | 0 => refuse
  | fuel + 1 => do
    if ← passIf .blockEntry then
      let item ← nodeUnless [.blockEntry, .blockEnd] (node handles true false fuel)
      return item :: (← blockItems handles fuel)
    else if ← passIf .blockEnd then return []
    else refuse

def looseItems (handles : List (String × Tag)) : Nat → TreeReader (List Tree)
  | 0 => refuse
  | fuel + 1 => do
    if ← passIf .blockEntry then
      let item ← nodeUnless [.blockEntry, .key, .value, .blockEnd]
        (node handles true false fuel)
      return item :: (← looseItems handles fuel)
    else return []

def blockPairs (handles : List (String × Tag)) : Nat → TreeReader (List (Tree × Tree))
  | 0 => refuse
  | fuel + 1 => do
    if ← passIf .key then
      let ends : List Token := [.key, .value, .blockEnd]
      let key ← nodeUnless ends (node handles true true fuel)
      let value ← if ← passIf .value then nodeUnless ends (node handles true true fuel)
        else pure .blank
      return (key, value) :: (← blockPairs handles fuel)
    else if ← passIf .blockEnd then return []
    else refuse

def flowItems (handles : List (String × Tag)) (first : Bool) :
    Nat → TreeReader (List Tree)
  | 0 => refuse
  | fuel + 1 => do
    if ← passIf .flowSequenceEnd then return []
    if !first then
      if !(← passIf .flowEntry) then refuse
      if ← passIf .flowSequenceEnd then return []
    let item ← if ← passIf .key then singlePair handles fuel else node handles false false fuel
    return item :: (← flowItems handles false fuel)

/-- Reads a pair inside a sequence. A key that is left out takes the token after it away. -/
def singlePair (handles : List (String × Tag)) : Nat → TreeReader Tree
  | 0 => refuse
  | fuel + 1 => do
    let key ← if ← nextIs [.value, .flowEntry, .flowSequenceEnd] then
        pass
        pure .blank
      else node handles false false fuel
    let value ← if ← passIf .value then
        nodeUnless [.flowEntry, .flowSequenceEnd] (node handles false false fuel)
      else pure .blank
    return .mapping none none [(key, value)]

def flowPairs (handles : List (String × Tag)) (first : Bool) :
    Nat → TreeReader (List (Tree × Tree))
  | 0 => refuse
  | fuel + 1 => do
    if ← passIf .flowMappingEnd then return []
    if !first then
      if !(← passIf .flowEntry) then refuse
      if ← passIf .flowMappingEnd then return []
    if ← passIf .key then
      let key ← nodeUnless [.value, .flowEntry, .flowMappingEnd]
        (node handles false false fuel)
      let value ← if ← passIf .value then
          nodeUnless [.flowEntry, .flowMappingEnd] (node handles false false fuel)
        else pure .blank
      return (key, value) :: (← flowPairs handles false fuel)
    else
      let key ← node handles false false fuel
      return (key, .blank) :: (← flowPairs handles false fuel)

end

def directives (handles : List (String × Tag)) (versioned : Bool) :
    Nat → TreeReader (List (String × Tag))
  | 0 => refuse
  | fuel + 1 => do
    match ← peek with
    | some (.versionDirective major minor) =>
      if versioned || major ≠ 1 || (minor ≠ 1 && minor ≠ 2) then refuse
      pass
      directives handles true fuel
    | some (.tagDirective handle stem) =>
      if (handles.lookup handle).isSome then refuse
      pass
      directives (handles ++ [(handle, stem)]) versioned fuel
    | _ => return handles

def defaultHandles : List (String × Tag) :=
  [("!", .ofText "!"), ("!!", .ofText "tag:yaml.org,2002:")]

def stream (fuel : Nat) : TreeReader (Option Tree) := do
  let tree ← match ← peek with
    | none => pure none
    | some (.versionDirective _ _) | some (.tagDirective _ _) | some .documentStart => do
      let handles ← directives [] false fuel
      if !(← passIf .documentStart) then refuse
      match ← peek with
      | none | some .documentStart | some .documentEnd | some (.versionDirective _ _)
      | some (.tagDirective _ _) => pure (some .blank)
      | _ => some <$> node (handles ++ defaultHandles) true false fuel
    | _ => some <$> node defaultHandles true false fuel
  fun s => if s.tokens.all (· == .documentEnd) then some (tree, s) else none

end TreeReader

namespace Tree

/-- Reads a text. The result is nothing if the text is no stream of at most one document,
and the tree is nothing if the stream is empty. -/
def ofText? (s : String) : Option (Option Tree) := do
  let tokens ← Token.ofText? s
  let (tree, _) ← (TreeReader.stream (2 * tokens.length + 4)).run ⟨tokens, []⟩
  some tree

def anchor? : Tree → Option Nat
  | .alias _ => none
  | .scalar anchor _ _ _ | .sequence anchor _ _ | .mapping anchor _ _ => anchor

end Tree
end KeyForm.Yaml
