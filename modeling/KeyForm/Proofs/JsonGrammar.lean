import KeyForm.Json.Parser
import KeyForm.Proofs.JsonLayout
/-! The grammar of JSON text, and what may be asked of a reader of it. Every judgment says what
comes first in a text and what is left of it after that. Numbers are left out, since readers keep
different things of them. The grammar has no limit on how deep a value is nested, but a reader
may have one: it reads all documents within the limit and none beyond it. -/
namespace KeyForm.Json

inductive Space : List Char → List Char → Prop where
  | none {rest} : Space rest rest
  | more {c cs rest} (blank : isSpace c = true) (tail : Space cs rest) : Space (c :: cs) rest

/-- The characters of a string up to its closing quote, and the text they stand for. A character
outside the basic plane may be written as two units. -/
inductive Inside : List Char → List Char → List Char → Prop where
  | closed {rest} : Inside ('"' :: rest) [] rest
  | plain {c cs text rest} (visible : 0x20 ≤ c.toNat) (quote : c ≠ '"') (back : c ≠ '\\')
      (tail : Inside cs text rest) : Inside (c :: cs) (c :: text) rest
  | short {c sign cs text rest} (form : (c, sign) ∈ ('/', '/') :: shortForms)
      (tail : Inside cs text rest) : Inside ('\\' :: sign :: cs) (c :: text) rest
  | unit {c i j k l cs text rest} (number : hexNumber? [i, j, k, l] = some c.toNat)
      (tail : Inside cs text rest) : Inside ('\\' :: 'u' :: i :: j :: k :: l :: cs) (c :: text) rest
  | pair {c i j k l i' j' k' l' first second cs text rest}
      (high : hexNumber? [i, j, k, l] = some first) (upper : 0xd800 ≤ first ∧ first < 0xdc00)
      (low : hexNumber? [i', j', k', l'] = some second) (lower : 0xdc00 ≤ second ∧ second < 0xe000)
      (number : c.toNat = 0x10000 + (first - 0xd800) * 0x400 + (second - 0xdc00))
      (tail : Inside cs text rest) :
      Inside ('\\' :: 'u' :: i :: j :: k :: l :: '\\' :: 'u' :: i' :: j' :: k' :: l' :: cs)
        (c :: text) rest

mutual

inductive Value : List Char → Json → List Char → Prop where
  | null {rest} : Value ('n' :: 'u' :: 'l' :: 'l' :: rest) .null rest
  | yes {rest} : Value ('t' :: 'r' :: 'u' :: 'e' :: rest) (.bool true) rest
  | no {rest} : Value ('f' :: 'a' :: 'l' :: 's' :: 'e' :: rest) (.bool false) rest
  | string {cs text rest} (inside : Inside cs text rest) :
      Value ('"' :: cs) (.string (String.ofList text)) rest
  | noItems {cs rest} (space : Space cs (']' :: rest)) : Value ('[' :: cs) (.array []) rest
  | items {cs v later vs rest} (first : Item cs v later) (more : Items later vs rest) :
      Value ('[' :: cs) (.array (v :: vs)) rest
  | noMembers {cs rest} (space : Space cs ('\x7d' :: rest)) :
      Value ('\x7b' :: cs) (.object []) rest
  | members {cs m later ms rest} (first : Member cs m later) (more : Members later ms rest) :
      Value ('\x7b' :: cs) (.object (m :: ms)) rest

inductive Item : List Char → Json → List Char → Prop where
  | mk {cs here after v rest} (before : Space cs here) (value : Value here v after)
      (behind : Space after rest) : Item cs v rest

inductive Items : List Char → List Json → List Char → Prop where
  | closed {rest} : Items (']' :: rest) [] rest
  | more {cs v later vs rest} (next : Item cs v later) (more : Items later vs rest) :
      Items (',' :: cs) (v :: vs) rest

inductive Member : List Char → String × Json → List Char → Prop where
  | mk {cs here text after here' v rest} (before : Space cs ('"' :: here))
      (name : Inside here text after) (between : Space after (':' :: here'))
      (value : Item here' v rest) : Member cs (String.ofList text, v) rest

inductive Members : List Char → List (String × Json) → List Char → Prop where
  | closed {rest} : Members ('\x7d' :: rest) [] rest
  | more {cs m later ms rest} (next : Member cs m later) (more : Members later ms rest) :
      Members (',' :: cs) (m :: ms) rest

end

def Document (v : Json) (source : String) : Prop := Item source.toList v []

mutual

def nesting : Json → Nat
  | .array items => itemsNesting items + 1
  | .object members => membersNesting members + 1
  | _ => 0

def itemsNesting : List Json → Nat
  | [] => 0
  | v :: rest => max v.nesting (itemsNesting rest)

def membersNesting : List (String × Json) → Nat
  | [] => 0
  | (_, v) :: rest => max v.nesting (membersNesting rest)

end

/-- A reader without a limit reads values of any nesting. -/
def Within (limit : Option Nat) (v : Json) : Prop := ∀ levels ∈ limit, v.nesting ≤ levels

instance (limit : Option Nat) (v : Json) : Decidable (v.Within limit) :=
  inferInstanceAs (Decidable (∀ levels ∈ limit, v.nesting ≤ levels))

structure Reads (read : String → Option Json) (limit : Option Nat) : Prop where
  within : ∀ {v source}, Document v source → v.Within limit → read source = some v
  beyond : ∀ {v source}, Document v source → ¬ v.Within limit → read source = none

mutual

def numberless : Json → Bool
  | .number _ _ => false
  | .array items => itemsNumberless items
  | .object members => membersNumberless members
  | .null | .bool _ | .string _ => true

def itemsNumberless : List Json → Bool
  | [] => true
  | v :: rest => v.numberless && itemsNumberless rest

def membersNumberless : List (String × Json) → Bool
  | [] => true
  | (_, v) :: rest => v.numberless && membersNumberless rest

end

variable {c : Char} {cs text rest : List Char}

theorem spacesTaken {spaces : List Char} (blank : ∀ c ∈ spaces, isSpace c = true) :
    Space (spaces ++ rest) rest := by
  induction spaces with
  | nil => exact .none
  | cons c spaces ih =>
    rw [List.forall_mem_cons] at blank
    exact .more blank.1 (ih blank.2)

theorem newlineTaken (depth : Nat) : Space (newline depth ++ rest) rest := by
  refine spacesTaken fun c mem => ?_
  rcases List.mem_cons.mp mem with rfl | mem
  · rfl
  · rw [List.eq_of_mem_replicate mem]
    rfl

theorem hexRead : ∀ n < 0x20, hexNumber? ('0' :: '0' :: hexByte n) = some n := by decide

theorem escapeInside {text : List Char} (c : Char) (tail : Inside cs text rest) :
    Inside (escape c ++ cs) (c :: text) rest := by
  unfold escape
  split
  case h_8 _ quote back _ _ _ _ _ =>
    split
    next control => exact .unit (hexRead c.toNat control) tail
    next visible => exact .plain (Nat.le_of_not_lt visible) quote back tail
  all_goals exact .short (by simp [shortForms]) tail

theorem stringInside (s : String) (rest : List Char) :
    Inside (s.toList.flatMap escape ++ '"' :: rest) s.toList rest := by
  induction s.toList with
  | nil => exact .closed
  | cons c cs ih =>
    rw [List.flatMap_cons, List.append_assoc]
    exact escapeInside c ih

-- After its first value the text of an array or an object goes on as the rest of its items
-- does, up to the closing bracket on a line of the depth outside.
mutual

theorem valueDerived (depth : Nat) (rest : List Char) :
    (v : Json) → v.numberless = true → Value (v.chars depth ++ rest) v rest
  | .null, _ => .null
  | .bool true, _ => .yes
  | .bool false, _ => .no
  | .string s, _ => by
    have value := Value.string (stringInside s rest)
    rw [String.ofList_toList] at value
    simpa [chars, stringChars] using value
  | .array [], _ => .noItems .none
  | .object [], _ => .noMembers .none
  | .array (v :: vs), plain => by
    simp only [numberless, itemsNumberless, Bool.and_eq_true] at plain
    obtain ⟨later, space, more⟩ := itemsDerived (depth + 1) depth rest vs plain.2
    have item : Item _ v later :=
      ⟨newlineTaken (depth + 1), valueDerived (depth + 1) _ v plain.1, space⟩
    simpa [chars] using Value.items item more
  | .object (m :: ms), plain => by
    simp only [numberless, membersNumberless, Bool.and_eq_true] at plain
    obtain ⟨later, space, more⟩ := membersDerived (depth + 1) depth rest ms plain.2
    have member := memberDerived (depth + 1) m plain.1 space
    simpa [chars] using Value.members member more

theorem itemsDerived (depth outer : Nat) (rest : List Char) :
    (vs : List Json) → itemsNumberless vs = true →
      ∃ later, Space (itemChars depth vs ++ (newline outer ++ ']' :: rest)) later ∧
        Items later vs rest
  | [], _ => ⟨_, newlineTaken outer, .closed⟩
  | v :: vs, plain => by
    simp only [itemsNumberless, Bool.and_eq_true] at plain
    obtain ⟨later, space, more⟩ := itemsDerived depth outer rest vs plain.2
    have item : Item _ v later := ⟨newlineTaken depth, valueDerived depth _ v plain.1, space⟩
    exact ⟨_, .none, by simpa [itemChars] using Items.more item more⟩

theorem memberDerived (depth : Nat) (m : String × Json) (plain : m.2.numberless = true)
    {after rest : List Char} (space : Space after rest) :
    Member (newline depth ++ (memberChars depth m ++ after)) m rest := by
  match m, plain with
  | (name, v), plain =>
    have value := valueDerived depth after v plain
    have item : Item (' ' :: (v.chars depth ++ after)) v rest := ⟨.more rfl .none, value, space⟩
    have member := Member.mk (newlineTaken depth) (stringInside name _) .none item
    rw [String.ofList_toList] at member
    simpa [memberChars, stringChars] using member

theorem membersDerived (depth outer : Nat) (rest : List Char) :
    (ms : List (String × Json)) → membersNumberless ms = true →
      ∃ later, Space (membersChars depth ms ++ (newline outer ++ '\x7d' :: rest)) later ∧
        Members later ms rest
  | [], _ => ⟨_, newlineTaken outer, .closed⟩
  | m :: ms, plain => by
    simp only [membersNumberless, Bool.and_eq_true] at plain
    obtain ⟨later, space, more⟩ := membersDerived depth outer rest ms plain.2
    have member := memberDerived depth m plain.1 space
    exact ⟨_, .none, by simpa [membersChars] using Members.more member more⟩

end

theorem textDocument {v : Json} (plain : v.numberless = true) {spaces : List Char}
    (blank : ∀ c ∈ spaces, isSpace c = true) :
    Document v (v.text ++ String.ofList spaces) := by
  have value := valueDerived 0 spaces v plain
  have space : Space spaces [] := by simpa using @spacesTaken [] spaces blank
  rw [Document, text, ← String.ofList_append, String.toList_ofList]
  exact ⟨.none, value, space⟩

end KeyForm.Json
