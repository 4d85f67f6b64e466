import KeyForm.Text.Concealed
/-! Characters and texts. Words are separated by the characters with the Unicode property
White_Space. A text is compared with an ASCII word whatever its case. In a message a text is
quoted, and what cannot be seen in print is written as an escape, so that two different names
never look the same. Pieces are joined where each one after the first comes with the separator
before it. -/
namespace KeyForm

def blankRanges : List (Nat × Nat) :=
  [(0x9, 0xd), (0x20, 0x20), (0x85, 0x85), (0xa0, 0xa0), (0x1680, 0x1680),
   (0x2000, 0x200a), (0x2028, 0x2029), (0x202f, 0x202f), (0x205f, 0x205f),
   (0x3000, 0x3000)]

def isBlank (c : Char) : Bool :=
  blankRanges.any fun r => r.1 ≤ c.toNat && c.toNat ≤ r.2

/-- Lower case for every character whose lower case is an ASCII letter by itself: the
capitals A to Z and the Kelvin sign. All other characters stay, for they occur in no
ASCII word in either case. -/
def foldChar (c : Char) : Char :=
  if c = '\u212a' then 'k' else c.toLower

def folded (s : String) : String := String.ofList (s.toList.map foldChar)

def hexDigits (n : Nat) : List Char := Nat.toDigits 16 n

def quotedChar (c : Char) : List Char :=
  match c with
  | '"' => ['\\', '"']
  | '\\' => ['\\', '\\']
  | '\t' => ['\\', 't']
  | '\n' => ['\\', 'n']
  | '\r' => ['\\', 'r']
  | '\x00' => ['\\', '0']
  | c => if isConcealed c then ['\\', 'u', '{'] ++ hexDigits c.toNat ++ ['}'] else [c]

def quoted (s : String) : String :=
  String.ofList ('"' :: s.toList.flatMap quotedChar ++ ['"'])

theorem piecesJoined {α : Type} {sep tail : List Char} {piece : α → List Char}
    {later : List α → List Char} (done : later [] = tail)
    (more : ∀ a rest, later (a :: rest) = sep ++ piece a ++ later rest) (a : α)
    (rest : List α) :
    piece a ++ later rest = sep.intercalate ((a :: rest).map piece) ++ tail := by
  induction rest generalizing a with
  | nil => simp [done]
  | cons b rest ih =>
    rw [more, List.map_cons, List.map_cons, List.intercalate_cons_cons, ← List.map_cons,
      List.append_assoc, List.append_assoc, ← ih b]
    simp

end KeyForm
