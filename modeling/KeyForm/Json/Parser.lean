import KeyForm.Json.Value
/-! Reading JSON text in which there are no numbers. Every reader takes the characters and gives
what it read with the characters that follow, or nothing if the text does not begin as it should. -/
namespace KeyForm.Json

def isSpace (c : Char) : Bool := c == ' ' || c == '\t' || c == '\n' || c == '\r'

def skipSpace (cs : List Char) : List Char := cs.dropWhile isSpace

def hexDigit? (c : Char) : Option Nat :=
  if '0' ≤ c ∧ c ≤ '9' then some (c.toNat - '0'.toNat)
  else if 'a' ≤ c ∧ c ≤ 'f' then some (c.toNat - 'a'.toNat + 10)
  else if 'A' ≤ c ∧ c ≤ 'F' then some (c.toNat - 'A'.toNat + 10)
  else none

def hexNumber? (digits : List Char) : Option Nat :=
  digits.foldlM (fun n c => (hexDigit? c).map (16 * n + ·)) 0

def unitChar? (unit : Nat) : Option Char :=
  if h : unit.isValidChar then some (Char.ofNatAux unit h) else none

def pairChar? (high low : Nat) : Option Char :=
  if 0xd800 ≤ high ∧ high < 0xdc00 ∧ 0xdc00 ≤ low ∧ low < 0xe000 then
    unitChar? (0x10000 + (high - 0xd800) * 0x400 + (low - 0xdc00))
  else none

def shortEscape? : Char → Option Char
  | '"' => some '"'
  | '\\' => some '\\'
  | '/' => some '/'
  | 'b' => some '\x08'
  | 'f' => some '\x0c'
  | 'n' => some '\n'
  | 'r' => some '\r'
  | 't' => some '\t'
  | _ => none

def readString : List Char → Option (List Char × List Char)
  | [] => none
  | '"' :: rest => some ([], rest)
  | '\\' :: 'u' :: a :: b :: c :: d :: rest => do
    let unit ← hexNumber? [a, b, c, d]
    match unitChar? unit with
    | some char =>
      let (text, rest) ← readString rest
      some (char :: text, rest)
    | none =>
      match rest with
      | '\\' :: 'u' :: e :: f :: g :: h :: rest =>
        let char ← pairChar? unit (← hexNumber? [e, f, g, h])
        let (text, rest) ← readString rest
        some (char :: text, rest)
      | _ => none
  | '\\' :: c :: rest => do
    let char ← shortEscape? c
    let (text, rest) ← readString rest
    some (char :: text, rest)
  | c :: rest =>
    if c.toNat < 0x20 || c == '\\' then none else do
      let (text, rest) ← readString rest
      some (c :: text, rest)

def readWord (word : String) (value : Json) (cs : List Char) : Option (Json × List Char) :=
  if word.toList.isPrefixOf cs then some (value, cs.drop word.length) else none

mutual

-- Each step down or on takes one from `fuel` and at least one character.
def readValue : Nat → List Char → Option (Json × List Char)
  | 0, _ => none
  | fuel + 1, cs =>
    match skipSpace cs with
    | '"' :: rest => (readString rest).map fun (s, rest) => (.string (String.ofList s), rest)
    | '[' :: rest =>
      match skipSpace rest with
      | ']' :: rest => some (.array [], rest)
      | rest => do
        let (v, rest) ← readValue fuel rest
        let (items, rest) ← readItems fuel rest
        some (.array (v :: items), rest)
    | '\x7b' :: rest =>
      match skipSpace rest with
      | '\x7d' :: rest => some (.object [], rest)
      | rest => do
        let (m, rest) ← readMember fuel rest
        let (members, rest) ← readMembers fuel rest
        some (.object (m :: members), rest)
    | 'n' :: rest => readWord "null" .null ('n' :: rest)
    | 't' :: rest => readWord "true" (.bool true) ('t' :: rest)
    | 'f' :: rest => readWord "false" (.bool false) ('f' :: rest)
    | _ => none

def readItems : Nat → List Char → Option (List Json × List Char)
  | 0, _ => none
  | fuel + 1, cs =>
    match skipSpace cs with
    | ']' :: rest => some ([], rest)
    | ',' :: rest => do
      let (v, rest) ← readValue fuel rest
      let (items, rest) ← readItems fuel rest
      some (v :: items, rest)
    | _ => none

def readMember : Nat → List Char → Option ((String × Json) × List Char)
  | 0, _ => none
  | fuel + 1, cs =>
    match skipSpace cs with
    | '"' :: rest => do
      let (name, rest) ← readString rest
      match skipSpace rest with
      | ':' :: rest =>
        let (v, rest) ← readValue fuel rest
        some ((String.ofList name, v), rest)
      | _ => none
    | _ => none

def readMembers : Nat → List Char → Option (List (String × Json) × List Char)
  | 0, _ => none
  | fuel + 1, cs =>
    match skipSpace cs with
    | '\x7d' :: rest => some ([], rest)
    | ',' :: rest => do
      let (m, rest) ← readMember fuel rest
      let (members, rest) ← readMembers fuel rest
      some (m :: members, rest)
    | _ => none

end

def parse? (source : String) : Option Json := do
  let cs := source.toList
  let (v, rest) ← readValue (2 * cs.length + 1) cs
  if (skipSpace rest).isEmpty then some v else none

end KeyForm.Json
