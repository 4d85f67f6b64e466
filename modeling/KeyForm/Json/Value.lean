/-! JSON values, and their text with one item on a line. -/
namespace KeyForm

inductive Json where
  | null
  | bool (b : Bool)
  /-- The number `mantissa * 10 ^ exponent`. -/
  | number (mantissa exponent : Int)
  | string (s : String)
  | array (items : List Json)
  | object (members : List (String × Json))
  deriving Repr, Inhabited

namespace Json

def hexByte (n : Nat) : List Char := [Nat.digitChar (n / 16), Nat.digitChar (n % 16)]

def escape (c : Char) : List Char :=
  match c with
  | '"' => ['\\', '"']
  | '\\' => ['\\', '\\']
  | '\x08' => ['\\', 'b']
  | '\x0c' => ['\\', 'f']
  | '\n' => ['\\', 'n']
  | '\r' => ['\\', 'r']
  | '\t' => ['\\', 't']
  | c => if c.toNat < 0x20 then ['\\', 'u', '0', '0'] ++ hexByte c.toNat else [c]

def stringChars (s : String) : List Char :=
  '"' :: s.toList.flatMap escape ++ ['"']

def numberChars (mantissa exponent : Int) : List Char :=
  let digits := (toString mantissa).toList
  if exponent = 0 then digits else digits ++ 'e' :: (toString exponent).toList

def newline (depth : Nat) : List Char := '\n' :: List.replicate (2 * depth) ' '

mutual

def chars (depth : Nat) : Json → List Char
  | .null => "null".toList
  | .bool true => "true".toList
  | .bool false => "false".toList
  | .number mantissa exponent => numberChars mantissa exponent
  | .string s => stringChars s
  | .array [] => ['[', ']']
  | .array (v :: rest) =>
    '[' :: newline (depth + 1) ++ chars (depth + 1) v ++ itemChars (depth + 1) rest ++
      newline depth ++ [']']
  | .object [] => ['\x7b', '\x7d']
  | .object (m :: rest) =>
    '\x7b' :: newline (depth + 1) ++ memberChars (depth + 1) m ++
      membersChars (depth + 1) rest ++ newline depth ++ ['\x7d']

def itemChars (depth : Nat) : List Json → List Char
  | [] => []
  | v :: rest => ',' :: newline depth ++ chars depth v ++ itemChars depth rest

def memberChars (depth : Nat) : String × Json → List Char
  | (name, v) => stringChars name ++ ':' :: ' ' :: chars depth v

def membersChars (depth : Nat) : List (String × Json) → List Char
  | [] => []
  | m :: rest => ',' :: newline depth ++ memberChars depth m ++ membersChars depth rest

end

def text (v : Json) : String := String.ofList (v.chars 0)

end Json
end KeyForm
