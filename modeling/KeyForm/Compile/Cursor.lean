import KeyForm.Compile.Classifier
/-! The tokens of a form, one call at a time. A call gives the next token or tells what is
wrong, and once the form has ended, or an element did not fit, a call gives nothing. -/
namespace KeyForm

structure Cursor where
  state : Classifier
  index : Nat
  rest : List Element
  done : Bool
  deriving DecidableEq, Repr

namespace Cursor

abbrev Item := Except CompileError Token

def start (elements : List Element) : Cursor := ⟨.start, 0, elements, false⟩

def next (registry : Registry) (strategy : Strategy) (c : Cursor) : Option Item × Cursor :=
  if c.done then (none, c)
  else
    match c.rest with
    | [] => ((c.state.ending strategy c.index).map .error, { c with done := true })
    | e :: rest =>
      match c.state.step registry strategy c.index e with
      | .error err => (some (.error err), ⟨c.state, c.index + 1, rest, true⟩)
      | .ok (token, state) => (some (.ok token), ⟨state, c.index + 1, rest, false⟩)

def after (registry : Registry) (strategy : Strategy) : Nat → Cursor → Cursor
  | 0, c => c
  | n + 1, c => (c.next registry strategy).2.after registry strategy n

def answer (registry : Registry) (strategy : Strategy) (n : Nat) (c : Cursor) : Option Item :=
  ((c.after registry strategy n).next registry strategy).1

variable {registry : Registry} {strategy : Strategy} {c : Cursor}

theorem answerLater (n : Nat) : c.answer registry strategy (n + 1) =
    (c.next registry strategy).2.answer registry strategy n := rfl

theorem nextDone (done : c.done = true) : c.next registry strategy = (none, c) := by
  simp [next, done]

theorem answerDone (done : c.done = true) (n : Nat) : c.answer registry strategy n = none := by
  induction n with
  | zero => exact congrArg Prod.fst (nextDone done)
  | succ n ih =>
    rw [answerLater, nextDone done]
    exact ih

end Cursor

def TokenStream.items (s : TokenStream) : List Cursor.Item :=
  s.tokens.map (fun p => .ok p.1) ++ s.failure.toList.map .error

end KeyForm
