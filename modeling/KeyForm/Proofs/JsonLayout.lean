import KeyForm.Json.Value
import KeyForm.Text.Basic
/-! The layout of JSON text, as rules. An empty array or object is a pair of brackets; in any
other one each item stands on a line of its own, two spaces further in. In a string seven
characters have a short escape and the other control characters a number; all else stands for
itself. The text of every value follows these rules. -/
namespace KeyForm.Json

def shortForms : List (Char × Char) :=
  [('"', '"'), ('\\', '\\'), ('\x08', 'b'), ('\x0c', 'f'), ('\n', 'n'), ('\r', 'r'), ('\t', 't')]

def lowerHex : List Char := "0123456789abcdef".toList

inductive Spelled : Char → List Char → Prop where
  | short {c sign} (form : (c, sign) ∈ shortForms) : Spelled c ['\\', sign]
  | unit {c high low} (control : c.toNat < 0x20) (long : c ∉ shortForms.map Prod.fst)
      (first : lowerHex[c.toNat / 16]? = some high)
      (second : lowerHex[c.toNat % 16]? = some low) :
      Spelled c ['\\', 'u', '0', '0', high, low]
  | plain {c} (visible : 0x20 ≤ c.toNat) (quote : c ≠ '"') (back : c ≠ '\\') : Spelled c [c]

def Quoted (s : String) (text : List Char) : Prop :=
  ∃ spelling : Char → List Char, (∀ c ∈ s.toList, Spelled c (spelling c)) ∧
    text = '"' :: s.toList.flatMap spelling ++ ['"']

def lineBreak (depth : Nat) : List Char := '\n' :: (List.replicate depth [' ', ' ']).flatten

def block (depth : Nat) (opening closing : Char) (texts : List (List Char)) : List Char :=
  opening :: lineBreak (depth + 1) ++ (',' :: lineBreak (depth + 1)).intercalate texts ++
    lineBreak depth ++ [closing]

-- A value has one text at a depth, so a function tells the texts of the items.
inductive Written : Nat → Json → List Char → Prop where
  | null {depth} : Written depth .null "null".toList
  | bool {depth b} : Written depth (.bool b) (if b then "true" else "false").toList
  | number {depth mantissa exponent} :
      Written depth (.number mantissa exponent) (numberChars mantissa exponent)
  | string {depth s text} (quoted : Quoted s text) : Written depth (.string s) text
  | noItems {depth} : Written depth (.array []) ['[', ']']
  | items {depth items} {text : Json → List Char} (filled : items ≠ [])
      (each : ∀ v ∈ items, Written (depth + 1) v (text v)) :
      Written depth (.array items) (block depth '[' ']' (items.map text))
  | noMembers {depth} : Written depth (.object []) ['\x7b', '\x7d']
  | members {depth members} {name : String → List Char} {text : Json → List Char}
      (filled : members ≠ []) (names : ∀ m ∈ members, Quoted m.1 (name m.1))
      (each : ∀ m ∈ members, Written (depth + 1) m.2 (text m.2)) :
      Written depth (.object members)
        (block depth '\x7b' '\x7d' (members.map fun m => name m.1 ++ ':' :: ' ' :: text m.2))

theorem escapeSpelled (c : Char) : Spelled c (escape c) := by
  unfold escape
  split
  case h_8 _ quote back bell feed line ret tab =>
    split
    next control =>
      have digits : ∀ n < 0x20, lowerHex[n / 16]? = some (Nat.digitChar (n / 16)) ∧
        lowerHex[n % 16]? = some (Nat.digitChar (n % 16)) := by decide
      obtain ⟨first, second⟩ := digits c.toNat control
      exact .unit control (by simpa [shortForms] using ⟨quote, back, bell, feed, line, ret, tab⟩)
        first second
    next visible => exact .plain (Nat.le_of_not_lt visible) quote back
  all_goals exact .short (by simp [shortForms])

theorem stringQuoted (s : String) : Quoted s (stringChars s) :=
  ⟨escape, fun c _ => escapeSpelled c, rfl⟩

theorem newlineBreak (depth : Nat) : newline depth = lineBreak depth := by
  refine congrArg ('\n' :: ·) ?_
  induction depth with
  | zero => rfl
  | succ depth ih =>
    rw [show 2 * (depth + 1) = 2 * depth + 1 + 1 from rfl, List.replicate_succ,
      List.replicate_succ, ih]
    rfl

theorem arrayBlock (depth : Nat) (v : Json) (rest : List Json) :
    (Json.array (v :: rest)).chars depth =
      block depth '[' ']' ((v :: rest).map (chars (depth + 1))) := by
  have joined := @piecesJoined _ (',' :: newline (depth + 1)) [] (chars (depth + 1))
    (itemChars (depth + 1)) rfl (fun _ _ => by simp [itemChars]) v rest
  rw [block, ← newlineBreak, ← newlineBreak, ← List.append_nil (List.intercalate _ _), ← joined]
  simp [chars]

theorem memberText (depth : Nat) (m : String × Json) :
    memberChars depth m = stringChars m.1 ++ ':' :: ' ' :: m.2.chars depth := by
  rw [memberChars]

theorem objectBlock (depth : Nat) (m : String × Json) (rest : List (String × Json)) :
    (Json.object (m :: rest)).chars depth = block depth '\x7b' '\x7d'
      ((m :: rest).map fun m => stringChars m.1 ++ ':' :: ' ' :: m.2.chars (depth + 1)) := by
  have joined := @piecesJoined _ (',' :: newline (depth + 1)) []
    (fun m => stringChars m.1 ++ ':' :: ' ' :: m.2.chars (depth + 1))
    (membersChars (depth + 1)) rfl (fun _ _ => by simp [membersChars, memberText]) m rest
  rw [block, ← newlineBreak, ← newlineBreak, ← List.append_nil (List.intercalate _ _), ← joined]
  simp [chars, memberText]

mutual

theorem valueWritten (depth : Nat) : (v : Json) → Written depth v (v.chars depth)
  | .null => .null
  | .bool true | .bool false => .bool
  | .number _ _ => .number
  | .string s => .string (stringQuoted s)
  | .array [] => .noItems
  | .object [] => .noMembers
  | .array (v :: rest) => by
    rw [arrayBlock]
    have each := itemsWritten (depth + 1) rest
    exact .items (List.cons_ne_nil v rest)
      (List.forall_mem_cons.mpr ⟨valueWritten (depth + 1) v, each⟩)
  | .object (m :: rest) => by
    rw [objectBlock]
    have each := membersWritten (depth + 1) rest
    exact .members (List.cons_ne_nil m rest) (fun m _ => stringQuoted m.1)
      (List.forall_mem_cons.mpr ⟨memberWritten (depth + 1) m, each⟩)

theorem itemsWritten (depth : Nat) :
    (items : List Json) → ∀ v ∈ items, Written depth v (v.chars depth)
  | [] => nofun
  | v :: rest =>
    List.forall_mem_cons.mpr ⟨valueWritten depth v, itemsWritten depth rest⟩

theorem memberWritten (depth : Nat) :
    (m : String × Json) → Written depth m.2 (m.2.chars depth)
  | (_, v) => valueWritten depth v

theorem membersWritten (depth : Nat) :
    (members : List (String × Json)) → ∀ m ∈ members, Written depth m.2 (m.2.chars depth)
  | [] => nofun
  | m :: rest =>
    List.forall_mem_cons.mpr ⟨memberWritten depth m, membersWritten depth rest⟩

end

theorem textWritten (v : Json) : Written 0 v v.text.toList := by
  rw [text, String.toList_ofList]
  exact valueWritten 0 v

end KeyForm.Json
