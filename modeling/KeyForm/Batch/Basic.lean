import KeyForm.Batch.Settings
/-! Batches: entries to be bound under the same settings, and their plain listings. -/
namespace KeyForm

inductive Entry where
  | plain (key definition : Element)
  | extended (literal : Element)
  deriving DecidableEq, Repr

namespace Entry

def isExtended : Entry → Bool
  | .plain _ _ => false
  | .extended _ => true

def chars : Entry → List Char
  | .plain key definition => key.chars ++ " -> ".toList ++ definition.chars
  | .extended literal => "ext ".toList ++ literal.chars

def text (e : Entry) : String := String.ofList e.chars

end Entry

structure Batch where
  settings : Settings
  entries : List Entry
  deriving DecidableEq, Repr

def Batch.calls (b : Batch) : List (Settings × Entry) :=
  b.entries.map fun e => (b.settings, e)

def Entry.line (e : Entry) : String := s!"  {e.text}\n"

def Batch.block (number : Nat) (b : Batch) : String :=
  s!"batch {number} {b.settings.text}\n" ++ String.join (b.entries.map Entry.line)

def listing (batches : List Batch) : String :=
  String.join (batches.mapIdx fun i b => b.block (i + 1))

def callLine (call : Settings × Entry) : String :=
  s!"bind {call.1.text} {call.2.text}\n"

def callListing (batches : List Batch) : String :=
  String.join ((batches.flatMap Batch.calls).map callLine)

end KeyForm
