import KeyForm.Yaml.Basic
/-! A place in a YAML text, with the characters that follow it. -/
namespace KeyForm.Yaml

structure Cursor where
  rest : List Char
  /-- The bytes that were passed; a column counts characters. -/
  index : Nat
  line : Nat
  column : Nat
  deriving Repr

def byteLength (cs : List Char) : Nat := cs.foldl (fun bytes c => bytes + c.utf8Size) 0

namespace Cursor

def ofText (s : String) : Cursor := ⟨s.toList, 0, 0, 0⟩

def skip (c : Cursor) (n : Nat) : Cursor :=
  { c with
    rest := c.rest.drop n, index := c.index + byteLength (c.rest.take n), column := c.column + n }

def skipWhile (c : Cursor) (p : Char → Bool) : Cursor :=
  c.skip (c.rest.takeWhile p).length

def nextLine (c : Cursor) : Cursor :=
  match c.rest with
  | '\r' :: '\n' :: rest => ⟨rest, c.index + 2, c.line + 1, 0⟩
  | ch :: rest => ⟨rest, c.index + ch.utf8Size, c.line + 1, 0⟩
  | [] => c

def breakText (c : Cursor) : List Char :=
  match c.rest with
  | [] => []
  | ch :: _ => if ch == '\u2028' || ch == '\u2029' then [ch] else ['\n']

def starts (c : Cursor) (p : Char → Bool) : Bool := c.rest.head?.any p

def atBlank (c : Cursor) : Bool := c.starts isBlank

def atBreak (c : Cursor) : Bool := c.starts isBreak

def isAtEnd (c : Cursor) : Bool := c.rest.isEmpty

def atMarker (c : Cursor) (marker : List Char) : Bool :=
  c.column = 0 && marker.isPrefixOf c.rest && blankAhead (c.rest.drop 3)

def atAnyMarker (c : Cursor) : Bool :=
  c.atMarker ['-', '-', '-'] || c.atMarker ['.', '.', '.']

def finishLine (c : Cursor) : Option Cursor :=
  let c := c.skipWhile isBlank
  let c := if c.starts (· == '#') then c.skipWhile (!isBreak ·) else c
  if c.isAtEnd then some c
  else if c.atBreak then some c.nextLine
  else none

end Cursor
end KeyForm.Yaml
