import KeyForm.Yaml.ScalarText
import KeyForm.Yaml.Tag
/-! The tokens of a YAML stream. Indentation is turned into tokens that open and close
blocks, and a key that stands before its colon is marked once the colon is found. -/
namespace KeyForm.Yaml

inductive Token where
  | versionDirective (major minor : Nat)
  | tagDirective (handle : String) (stem : Tag)
  | documentStart
  | documentEnd
  | blockSequenceStart
  | blockMappingStart
  | blockEnd
  | flowSequenceStart
  | flowSequenceEnd
  | flowMappingStart
  | flowMappingEnd
  | blockEntry
  | flowEntry
  | key
  | value
  | alias (name : String)
  | anchor (name : String)
  | tag (handle : String) (suffix : Tag)
  | scalar (style : Style) (text : String)
  deriving DecidableEq, Repr

structure PossibleKey where
  position : Nat
  index : Nat
  line : Nat
  column : Nat
  required : Bool

structure Scan where
  cursor : Cursor
  tokens : List Token
  indents : List Nat
  /-- The possible key of each open bracket, the innermost first; the last is outside. -/
  keys : List (Option PossibleKey)
  keyAllowed : Bool

namespace Scan

def start (s : String) : Scan := ⟨.ofText s, [], [], [none], true⟩

def inFlow (s : Scan) : Bool := 1 < s.keys.length

def emit (s : Scan) (t : Token) : Scan := { s with tokens := t :: s.tokens }

def insertAt (s : Scan) (position : Nat) (t : Token) : Scan :=
  let later := s.tokens.length - position
  { s with tokens := s.tokens.take later ++ t :: s.tokens.drop later }

def pass (s : Scan) (n : Nat) : Scan := { s with cursor := s.cursor.skip n }

def allowKey (s : Scan) (allowed : Bool) : Scan := { s with keyAllowed := allowed }

/-- Passes blanks, comments and line breaks, and a byte order mark at the start of a line.
A tab is no indent where a key may begin. -/
def skipLayout : Nat → Scan → Scan
  | 0, s => s
  | fuel + 1, s =>
    let c := s.cursor
    let c := if c.column = 0 && c.starts (· == '\ufeff') then c.skip 1 else c
    let c := c.skipWhile fun ch => ch == ' ' || (ch == '\t' && (s.inFlow || !s.keyAllowed))
    let c := if c.starts (· == '#') then c.skipWhile (!isBreak ·) else c
    if c.atBreak then
      skipLayout fuel { s with cursor := c.nextLine, keyAllowed := s.keyAllowed || !s.inFlow }
    else { s with cursor := c }

def dropKey : Option PossibleKey → Option (Option PossibleKey)
  | some k => if k.required then none else some none
  | none => some none

/-- A key stands on one line and has at most 1024 bytes. -/
def isStale (c : Cursor) (k : PossibleKey) : Bool :=
  k.line < c.line || k.index + 1024 < c.index

def dropStaleKeys (s : Scan) : Option Scan := do
  let keys ← s.keys.mapM fun k => if k.any (isStale s.cursor) then dropKey k else some k
  some { s with keys := keys }

def removeKey (s : Scan) : Option Scan :=
  match s.keys with
  | k :: outer => do some { s with keys := (← dropKey k) :: outer }
  | [] => some s

def saveKey (s : Scan) : Option Scan :=
  if s.keyAllowed then do
    let s ← s.removeKey
    let c := s.cursor
    let key : PossibleKey :=
      { position := s.tokens.length, index := c.index, line := c.line, column := c.column,
        required := !s.inFlow && s.indents.head? = some c.column }
    some { s with keys := some key :: s.keys.tail }
  else some s

def openBlock (s : Scan) (column position : Nat) (t : Token) : Scan :=
  if !s.inFlow && s.indents.head?.all (· < column) then
    { s.insertAt position t with indents := column :: s.indents }
  else s

def closeBlocks (s : Scan) (column : Option Nat) : Scan :=
  if s.inFlow then s else
  let deeper (n : Nat) : Bool := column.all (· < n)
  let closed := (s.indents.takeWhile deeper).length
  { s with
    indents := s.indents.drop closed, tokens := List.replicate closed .blockEnd ++ s.tokens }

def takeMarker (s : Scan) (t : Token) : Option Scan := do
  let s ← (s.closeBlocks none).removeKey
  some (((s.allowKey false).pass 3).emit t)

def openFlow (s : Scan) (t : Token) : Option Scan := do
  let s ← s.saveKey
  some ((({ s with keys := none :: s.keys }.allowKey true).pass 1).emit t)

def closeFlow (s : Scan) (t : Token) : Option Scan := do
  let s ← s.removeKey
  let keys := if s.inFlow then s.keys.tail else s.keys
  some ((({ s with keys := keys }.allowKey false).pass 1).emit t)

def takeFlowEntry (s : Scan) : Option Scan := do
  let s ← s.removeKey
  some (((s.allowKey true).pass 1).emit .flowEntry)

def takeBlockEntry (s : Scan) : Option Scan := do
  if !s.inFlow && !s.keyAllowed then none
  else
    let s := s.openBlock s.cursor.column s.tokens.length .blockSequenceStart
    let s ← s.removeKey
    some (((s.allowKey true).pass 1).emit .blockEntry)

def takeKey (s : Scan) : Option Scan := do
  if !s.inFlow && !s.keyAllowed then none
  else
    let s := s.openBlock s.cursor.column s.tokens.length .blockMappingStart
    let s ← s.removeKey
    some (((s.allowKey !s.inFlow).pass 1).emit .key)

def takeValue (s : Scan) : Option Scan :=
  match s.keys with
  | some k :: outer =>
    let s := s.insertAt k.position .key
    let s := s.openBlock k.column k.position .blockMappingStart
    some ((({ s with keys := none :: outer }.allowKey false).pass 1).emit .value)
  | _ =>
    if !s.inFlow && !s.keyAllowed then none
    else
      let s := s.openBlock s.cursor.column s.tokens.length .blockMappingStart
      some (((s.allowKey !s.inFlow).pass 1).emit .value)

def takeName (s : Scan) (token : String → Token) : Option Scan := do
  let s ← s.saveKey
  let c := s.cursor.skip 1
  let name := c.rest.takeWhile isWordChar
  let c := c.skip name.length
  let closed :=
    blankAhead c.rest || c.starts ['?', ':', ',', ']', '\x7d', '%', '@', '\x60'].contains
  if name.isEmpty || !closed then none
  else some (({ s with cursor := c }.allowKey false).emit (token (String.ofList name)))

def readHandle (c : Cursor) : Option (List Char × Cursor) :=
  match c.rest with
  | '!' :: rest =>
    let name := '!' :: rest.takeWhile isWordChar
    let c := c.skip name.length
    if c.starts (· == '!') then some (name ++ ['!'], c.skip 1) else some (name, c)
  | _ => none

def readTag (c : Cursor) : Option (Token × Cursor) := do
  match c.rest with
  | '!' :: '<' :: _ =>
    let (bytes, c) ← tagBytes true (c.skip 2)
    if bytes.isEmpty || !c.starts (· == '>') then none
    else some (.tag "" (.ofBytes bytes), c.skip 1)
  | _ =>
    let (handle, c) ← readHandle c
    let (bytes, c) ← tagBytes false c
    if 1 < handle.length && handle.getLast? = some '!' then
      if bytes.isEmpty then none
      else some (.tag (String.ofList handle) (.ofBytes bytes), c)
    else
      let suffix := Tag.ofBytes ((handle.drop 1).map Char.toUInt8 ++ bytes)
      some (if suffix.isEmpty then .tag "" .nonspecific else .tag "!" suffix, c)

def takeTag (s : Scan) : Option Scan := do
  let s ← s.saveKey
  let (t, c) ← readTag s.cursor
  if blankAhead c.rest || (s.inFlow && c.starts (· == ',')) then
    some (({ s with cursor := c }.allowKey false).emit t)
  else none

def readVersionNumber (c : Cursor) : Option (Nat × Cursor) :=
  let digits := c.rest.takeWhile Char.isDigit
  if digits.isEmpty || 9 < digits.length then none
  else some (digitsValue 10 digits, c.skip digits.length)

def readDirective (c : Cursor) : Option (Token × Cursor) := do
  let name := c.rest.takeWhile isWordChar
  let c := c.skip name.length
  if !blankAhead c.rest then none
  else
    let c := c.skipWhile isBlank
    match String.ofList name with
    | "YAML" =>
      let (major, c) ← readVersionNumber c
      if !c.starts (· == '.') then none
      else
        let (minor, c) ← readVersionNumber (c.skip 1)
        some (.versionDirective major minor, c)
    | "TAG" =>
      let (handle, c) ← readHandle c
      if (1 < handle.length && handle.getLast? ≠ some '!') || !c.atBlank then none
      else
        let (bytes, c) ← tagBytes true (c.skipWhile isBlank)
        if bytes.isEmpty || !blankAhead c.rest then none
        else some (.tagDirective (String.ofList handle) (.ofBytes bytes), c)
    | _ => none

def takeDirective (s : Scan) : Option Scan := do
  let s ← (s.closeBlocks none).removeKey
  let (t, c) ← readDirective (s.cursor.skip 1)
  let c ← c.finishLine
  some (({ s with cursor := c }.allowKey false).emit t)

def takeBlockScalar (s : Scan) (literal : Bool) : Option Scan := do
  let s ← s.removeKey
  let (text, c) ← readBlock literal s.indents.head? (s.cursor.skip 1)
  let style := if literal then .literal else .folded
  some (({ s with cursor := c }.allowKey true).emit (.scalar style (String.ofList text)))

def takeQuoted (s : Scan) (single : Bool) : Option Scan := do
  let s ← s.saveKey
  let c := s.cursor.skip 1
  let (text, c) ← readQuoted single (c.rest.length + 1) c
  let style := if single then .single else .double
  some (({ s with cursor := c }.allowKey false).emit (.scalar style (String.ofList text)))

def takePlain (s : Scan) : Option Scan := do
  let s ← s.saveKey
  let c := s.cursor
  let indent := match s.indents.head? with
    | some n => n + 1
    | none => 0
  let (text, broken, c) ← readPlain s.inFlow indent (c.rest.length + 1) .none c
  some (({ s with cursor := c }.allowKey broken).emit (.scalar .plain (String.ofList text)))

def startsPlain (inFlow : Bool) : List Char → Bool
  | [] => false
  | c :: rest =>
    if c == '-' then !rest.head?.any isBlank
    else if c == '?' || c == ':' then !inFlow && !blankAhead rest
    else !isBlankOrBreak c && !indicators.contains c

def take (s : Scan) : Option Scan :=
  let c := s.cursor
  let indicates (rest : List Char) : Bool := s.inFlow || blankAhead rest
  if c.column = 0 && c.starts (· == '%') then s.takeDirective
  else if c.atMarker ['-', '-', '-'] then s.takeMarker .documentStart
  else if c.atMarker ['.', '.', '.'] then s.takeMarker .documentEnd
  else match c.rest with
    | '[' :: _ => s.openFlow .flowSequenceStart
    | '\x7b' :: _ => s.openFlow .flowMappingStart
    | ']' :: _ => s.closeFlow .flowSequenceEnd
    | '\x7d' :: _ => s.closeFlow .flowMappingEnd
    | ',' :: _ => s.takeFlowEntry
    | '*' :: _ => s.takeName .alias
    | '&' :: _ => s.takeName .anchor
    | '!' :: _ => s.takeTag
    | '\'' :: _ => s.takeQuoted true
    | '"' :: _ => s.takeQuoted false
    | ch :: rest =>
      if ch == '-' && blankAhead rest then s.takeBlockEntry
      else if ch == '?' && indicates rest then s.takeKey
      else if ch == ':' && indicates rest then s.takeValue
      else if ch == '|' && !s.inFlow then s.takeBlockScalar true
      else if ch == '>' && !s.inFlow then s.takeBlockScalar false
      else if startsPlain s.inFlow c.rest then s.takePlain
      else none
    | [] => none

/-- Scans to the end. Every token has at least one character, so the length of the text
bounds the number of rounds. -/
def run : Nat → Scan → Option Scan
  | 0, _ => none
  | fuel + 1, s => do
    let s := s.skipLayout (fuel + 1)
    let s ← s.dropStaleKeys
    let s := s.closeBlocks (some s.cursor.column)
    if s.cursor.isAtEnd then (s.closeBlocks none).removeKey
    else run fuel (← s.take)

end Scan

def isStreamChar (c : Char) : Bool :=
  c == '\t' || c == '\n' || c == '\r' || (0x20 ≤ c.toNat && c.toNat ≤ 0x7e) ||
    c == '\x85' || (0xa0 ≤ c.toNat && c.toNat ≤ 0xfffd) || 0x10000 ≤ c.toNat

def Token.ofText? (s : String) : Option (List Token) := do
  if s.toList.all isStreamChar then
    let scan ← (Scan.start s).run (s.length + 1)
    some scan.tokens.reverse
  else none

end KeyForm.Yaml
