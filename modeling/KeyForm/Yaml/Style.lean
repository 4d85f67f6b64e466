import KeyForm.Yaml.Basic
import KeyForm.Yaml.Resolution
/-! How a string is written as a YAML scalar. A style is chosen that gives the same
string back: plain if nothing in the string looks like something else, literal for text
of several lines, and quotes for all else. -/
namespace KeyForm.Yaml

def isPrintable (c : Char) : Bool :=
  c == '\n' || (0x20 ≤ c.toNat && c.toNat ≤ 0x7e) ||
    (0xa0 ≤ c.toNat && c.toNat ≤ 0xfffd && c != '\ufeff') || 0x10000 ≤ c.toNat

def opensIndicator : List Char → Bool
  | [] => false
  | c :: rest =>
    indicators.contains c || ((c == '?' || c == ':' || c == '-') && blankAhead rest)

def endsPlain (before : Char) : List Char → Bool
  | [] => false
  | c :: rest =>
    (c == ':' && blankAhead rest) || (c == '#' && isBlankOrBreak before) ||
      endsPlain c rest

def holdsIndicator (cs : List Char) : Bool :=
  "---".toList.isPrefixOf cs || "...".toList.isPrefixOf cs || opensIndicator cs ||
    match cs with
    | [] => false
    | c :: rest => endsPlain c rest

def adjoins (p q : Char → Bool) : List Char → Bool
  | c :: d :: rest => (p c && q d) || adjoins p q (d :: rest)
  | _ => false

def isSpace (c : Char) : Bool := c == ' '

def isMultiline (cs : List Char) : Bool := cs.any isBreak

def needsEscapes (cs : List Char) : Bool :=
  !cs.all isPrintable || adjoins isSpace isBreak cs

def startsWith (p : Char → Bool) (cs : List Char) : Bool := cs.head?.any p

def finishesWith (p : Char → Bool) (cs : List Char) : Bool := cs.getLast?.any p

def allowsPlain (cs : List Char) : Bool :=
  !needsEscapes cs && !isMultiline cs && !holdsIndicator cs &&
    !startsWith isSpace cs && !finishesWith isSpace cs

/-- A line must not begin with a space, for it would be folded into the line before. -/
def allowsSingle (cs : List Char) : Bool :=
  !needsEscapes cs && !adjoins isBreak isSpace cs

def allowsLiteral (cs : List Char) : Bool :=
  !needsEscapes cs && !finishesWith isSpace cs

/-- Text of several lines is literal where it can be; all other text is plain only if a
reader takes it for a string and not for a number with needless zeros. -/
def Style.ofText (s : String) : Style :=
  let cs := s.toList
  if cs.contains '\n' then
    if allowsLiteral cs then .literal else .double
  else if isString s && !isZeroPadded cs && allowsPlain cs then .plain
  else if allowsSingle cs then .single
  else .double

def upperHex (width n : Nat) : List Char :=
  let digits := (Nat.toDigits 16 n).map Char.toUpper
  List.replicate (width - digits.length) '0' ++ digits

def shortEscape? : Char → Option Char
  | '\x00' => some '0'
  | '\x07' => some 'a'
  | '\x08' => some 'b'
  | '\t' => some 't'
  | '\n' => some 'n'
  | '\x0b' => some 'v'
  | '\x0c' => some 'f'
  | '\r' => some 'r'
  | '\x1b' => some 'e'
  | '"' => some '"'
  | '\\' => some '\\'
  | '\x85' => some 'N'
  | '\u2028' => some 'L'
  | '\u2029' => some 'P'
  | _ => none

def doubleChar (c : Char) : List Char :=
  match shortEscape? c with
  | some e => ['\\', e]
  | none =>
    if isPrintable c then [c]
    else if c.toNat ≤ 0xff then '\\' :: 'x' :: upperHex 2 c.toNat
    else if c.toNat ≤ 0xffff then '\\' :: 'u' :: upperHex 4 c.toNat
    else '\\' :: 'U' :: upperHex 8 c.toNat

def doubleQuoted (cs : List Char) : List Char := '"' :: cs.flatMap doubleChar ++ ['"']

def spaces (n : Nat) : List Char := List.replicate n ' '

def singleBody (indent : Nat) (broken : Bool) : List Char → List Char
  | [] => if broken then spaces indent else []
  | c :: rest =>
    if isBreak c then c :: singleBody indent true rest
    else (if broken then spaces indent else []) ++
      (if c = '\'' then ['\'', '\''] else [c]) ++ singleBody indent false rest

def singleQuoted (indent : Nat) (cs : List Char) : List Char :=
  '\'' :: singleBody indent false cs ++ ['\'']

def literalHints (cs : List Char) : List Char :=
  let indent := if startsWith isSpace cs || startsWith isBreak cs then ['2'] else []
  let ending := match cs.reverse with
    | [] => ['-']
    | [c] => if isBreak c then ['+'] else ['-']
    | c :: d :: _ => if !isBreak c then ['-'] else if isBreak d then ['+'] else []
  indent ++ ending

def literalBody (indent : Nat) (broken : Bool) : List Char → List Char
  | [] => []
  | c :: rest =>
    if isBreak c then c :: literalBody indent true rest
    else (if broken then spaces indent else []) ++ c :: literalBody indent false rest

def literalText (indent : Nat) (cs : List Char) : List Char :=
  '|' :: literalHints cs ++ '\n' :: literalBody indent true cs

def scalarChars (indent : Nat) (s : String) : List Char :=
  let cs := s.toList
  match Style.ofText s with
  | .plain => cs
  | .single => singleQuoted indent cs
  | .double => doubleQuoted cs
  | .literal | .folded => literalText indent cs

def scalarLine (indent : Nat) (s : String) : List Char :=
  let cs := scalarChars indent s
  cs ++ if finishesWith isBreak cs then [] else ['\n']

end KeyForm.Yaml
