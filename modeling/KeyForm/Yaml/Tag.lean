import KeyForm.Yaml.Cursor
import KeyForm.Yaml.Resolution
/-! The tags of YAML nodes. A tag is made of bytes, for its escapes can write bytes that are
no text. -/
namespace KeyForm.Yaml

structure Tag where
  bytes : List UInt8
  deriving DecidableEq, Repr

namespace Tag

/-- What follows a NUL does not count. -/
def ofBytes (bytes : List UInt8) : Tag := ⟨bytes.takeWhile (· != 0)⟩

def ofText (s : String) : Tag := ofBytes s.toUTF8.toList

def append (stem suffix : Tag) : Tag := ⟨stem.bytes ++ suffix.bytes⟩

def isEmpty (t : Tag) : Bool := t.bytes.isEmpty

def nonspecific : Tag := ofText "!"

def bool : Tag := ofText "tag:yaml.org,2002:bool"

def localName? (t : Tag) : Option String :=
  match t.bytes with
  | 0x21 :: name => String.fromUTF8? name.toByteArray
  | _ => none

end Tag

def isTagChar (verbatim : Bool) (c : Char) : Bool :=
  isWordChar c || ";/?:@&=+$.!~*'()".toList.contains c ||
    (verbatim && (c == ',' || c == '[' || c == ']'))

def readOctets : Nat → List Char → Option (List UInt8)
  | 0, _ => some []
  | n + 1, '%' :: a :: b :: rest =>
    if isHexDigit a && isHexDigit b then
      (readOctets n rest).map ((digitsValue 16 [a, b]).toUInt8 :: ·)
    else none
  | _ + 1, _ => none

def octetCount? (lead : UInt8) : Option Nat :=
  if lead < 0x80 then some 1
  else if 0xc0 ≤ lead && lead < 0xe0 then some 2
  else if 0xe0 ≤ lead && lead < 0xf0 then some 3
  else if 0xf0 ≤ lead && lead < 0xf8 then some 4
  else none

/-- Reads as many escapes as the first of them asks for. The others have to look like the
rest of a character, but whether there is such a character does not matter. -/
def readEscapes (cs : List Char) : Option (List UInt8) := do
  let lead ← (← readOctets 1 cs).head?
  let octets ← readOctets (← octetCount? lead) cs
  if octets.tail.all fun b => 0x80 ≤ b && b < 0xc0 then some octets else none

def readTagBytes (verbatim : Bool) : Nat → Cursor → Option (List UInt8 × Cursor)
  | 0, _ => none
  | fuel + 1, c =>
    match c.rest with
    | [] => some ([], c)
    | ch :: _ =>
      if ch == '%' then do
        let octets ← readEscapes c.rest
        let (bytes, c) ← readTagBytes verbatim fuel (c.skip (3 * octets.length))
        some (octets ++ bytes, c)
      else if isTagChar verbatim ch then do
        let (bytes, c) ← readTagBytes verbatim fuel (c.skip 1)
        some (ch.toUInt8 :: bytes, c)
      else some ([], c)

def tagBytes (verbatim : Bool) (c : Cursor) : Option (List UInt8 × Cursor) :=
  readTagBytes verbatim (c.rest.length + 1) c

end KeyForm.Yaml
