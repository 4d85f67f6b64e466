/-! What a plain YAML scalar stands for when it has no tag: nothing, a truth value, a
number, or else a string. -/
namespace KeyForm.Yaml

def isNull (s : String) : Bool := ["", "~", "null", "Null", "NULL"].contains s

def bool? (s : String) : Option Bool :=
  if ["true", "True", "TRUE"].contains s then some true
  else if ["false", "False", "FALSE"].contains s then some false
  else none

def dropPlus : List Char → List Char
  | '+' :: rest => rest
  | cs => cs

def dropSign : List Char → List Char
  | '+' :: rest | '-' :: rest => rest
  | cs => cs

def isZeroPadded (cs : List Char) : Bool :=
  match dropSign cs with
  | '0' :: rest => !rest.isEmpty && rest.all Char.isDigit
  | _ => false

def isHexDigit (c : Char) : Bool :=
  c.isDigit || ('a' ≤ c && c ≤ 'f') || ('A' ≤ c && c ≤ 'F')

def digitValue (c : Char) : Nat :=
  if c.isDigit then c.toNat - '0'.toNat
  else if 'a' ≤ c && c ≤ 'f' then c.toNat - 'a'.toNat + 10
  else c.toNat - 'A'.toNat + 10

def digitsValue (base : Nat) (digits : List Char) : Nat :=
  digits.foldl (fun n c => base * n + digitValue c) 0

def basedSize? : List Char → Option Nat
  | '0' :: 'x' :: digits => size 16 isHexDigit digits
  | '0' :: 'o' :: digits => size 8 (fun c => '0' ≤ c && c ≤ '7') digits
  | '0' :: 'b' :: digits => size 2 (fun c => c == '0' || c == '1') digits
  | _ => none
where
  size (base : Nat) (isDigit : Char → Bool) (digits : List Char) : Option Nat :=
    if !digits.isEmpty && digits.all isDigit then some (digitsValue base digits) else none

def isBasedInteger : List Char → Bool
  | '-' :: rest => (basedSize? rest).any (· ≤ Nat.pow 2 127)
  | cs => (basedSize? (dropPlus cs)).any (· < Nat.pow 2 128)

def takeDigits (cs : List Char) : List Char × List Char :=
  (cs.takeWhile Char.isDigit, cs.dropWhile Char.isDigit)

structure Decimal where
  digits : Nat
  exponent : Int
  deriving DecidableEq, Repr

def exponent? : List Char → Option Int
  | [] => some 0
  | c :: rest =>
    if c == 'e' || c == 'E' then
      let digits := dropSign rest
      if digits.isEmpty || !digits.all Char.isDigit then none
      else
        let size : Int := digitsValue 10 digits
        some (if rest.head? = some '-' then -size else size)
    else none

def decimal? (cs : List Char) : Option Decimal := do
  let (whole, rest) := takeDigits cs
  let (fraction, rest) := match rest with
    | '.' :: rest => takeDigits rest
    | rest => ([], rest)
  if whole.isEmpty && fraction.isEmpty then none
  else
    let exponent ← exponent? rest
    some ⟨digitsValue 10 (whole ++ fraction), exponent - fraction.length⟩

/-- The least number that a double does not hold: half a step above the greatest one. -/
def doubleLimit : Nat := Nat.pow 2 1024 - Nat.pow 2 970

/-- Whether the nearest double is finite. A number of more than 400 places before the
point is not, and one of less than 300 is. -/
def Decimal.isFinite (d : Decimal) : Bool :=
  let places : Int := (Nat.toDigits 10 d.digits).length + d.exponent
  if d.digits = 0 || places < 300 then true
  else if 400 < places then false
  else d.digits * Nat.pow 10 d.exponent.toNat < doubleLimit * Nat.pow 10 (-d.exponent).toNat

def isDecimal (cs : List Char) : Bool :=
  !isZeroPadded cs && (decimal? (dropSign cs)).any Decimal.isFinite

def isSpecialFloat (s : String) : Bool :=
  [".inf", ".Inf", ".INF", "+.inf", "+.Inf", "+.INF", "-.inf", "-.Inf", "-.INF",
   ".nan", ".NaN", ".NAN"].contains s

def isNumber (s : String) : Bool :=
  isBasedInteger s.toList || isDecimal s.toList || isSpecialFloat s

def isString (s : String) : Bool :=
  !isNull s && (bool? s).isNone && !isNumber s

end KeyForm.Yaml
