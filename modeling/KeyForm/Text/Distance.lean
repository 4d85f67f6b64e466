/-! The edit distance of two words: the least number of characters to insert, delete or
replace that turns one into the other. The table is filled a row at a time; a row holds
the distances of one ending of the first word to all endings of the second. -/
namespace KeyForm
namespace Distance

def emptyRow (b : List Char) : List Nat :=
  match b with
  | [] => [0]
  | _ :: rest => b.length :: emptyRow rest

/-- The row of `c` followed by a word whose row is given. -/
def nextRow (c : Char) : List Char → List Nat → List Nat
  | [], row => [row.headD 0 + 1]
  | d :: rest, row =>
    let shorter := row.tail
    let next := nextRow c rest shorter
    let here :=
      if c = d then shorter.headD 0
      else min (row.headD 0) (min (next.headD 0) (shorter.headD 0)) + 1
    here :: next

def row (a b : List Char) : List Nat :=
  a.foldr (fun c row => nextRow c b row) (emptyRow b)

end Distance

def distance (a b : String) : Nat := (Distance.row a.toList b.toList).headD 0

end KeyForm
