import KeyForm.Text.Basic
import KeyForm.Form.Element
/-! Reading the text of a binding form. The reader takes one character at a time; what
is open is on a stack, so every text is read in one pass and every error has the place
where it was found or where the thing that it leaves open began. -/
namespace KeyForm

structure Position where
  line : Nat
  column : Nat
  deriving DecidableEq, Repr

namespace Position

def first : Position := ⟨1, 1⟩

def after (p : Position) (c : Char) : Position :=
  if c = '\n' then ⟨p.line + 1, 1⟩ else ⟨p.line, p.column + 1⟩

end Position

inductive Bracket where
  | round
  | square
  deriving DecidableEq, Repr

namespace Bracket

def opener : Bracket → Char
  | .round => '('
  | .square => '['

def closer : Bracket → Char
  | .round => ')'
  | .square => ']'

def wrap : Bracket → List Element → Element
  | .round => .list
  | .square => .vector

end Bracket

inductive ReadFault where
  | endOfInput
  | strayCloser (bracket : Bracket)
  | bareQuote
  | namelessFunction
  | namelessOption
  | openSequence (bracket : Bracket)
  | openString
  deriving DecidableEq, Repr

def ReadFault.message : ReadFault → String
  | .endOfInput => "unexpected end of input"
  | .strayCloser b => s!"unexpected closing delimiter '{b.closer}'"
  | .bareQuote => "quote must be followed by a form"
  | .namelessFunction => "function reference without a name"
  | .namelessOption => "option name without a name"
  | .openSequence b => s!"unterminated sequence, expected '{b.closer}'"
  | .openString => "unterminated string"

structure ReadError where
  place : Position
  fault : ReadFault
  deriving DecidableEq, Repr

def ReadError.message (e : ReadError) : String :=
  s!"{e.place.line}:{e.place.column}: {e.fault.message}"

def isDelimiter (c : Char) : Bool :=
  isBlank c || c == '(' || c == ')' || c == '[' || c == ']' || c == '"' || c == ';'

inductive NameKind where
  | plain
  | option
  | function
  deriving DecidableEq, Repr

def NameKind.element : NameKind → List Char → Except ReadFault Element
  | .plain, ['|'] => .ok .separator
  | .plain, ['|', '|'] => .ok .clearingSeparator
  | .plain, name => .ok (.symbol (String.ofList name))
  | .option, [] => .error .namelessOption
  | .option, name => .ok (.keyword (String.ofList name))
  | .function, [] => .error .namelessFunction
  | .function, name => .ok (.function (String.ofList name))

def unescape : Char → Char
  | 'n' => '\n'
  | 't' => '\t'
  | c => c

/-- What the next character belongs to. Characters read so far are in reverse. -/
inductive Mode where
  | between
  | comment
  | quote
  | sharp
  | name (kind : NameKind) (read : List Char)
  | text (opened : Position) (read : List Char)
  | escape (opened : Position) (read : List Char)
  deriving DecidableEq, Repr

structure Opening where
  bracket : Bracket
  place : Position
  before : List Element
  deriving DecidableEq, Repr

structure Reader where
  place : Position
  mode : Mode
  /-- The innermost bracket comes first. -/
  openings : List Opening
  items : List Element
  quoted : Bool
  deriving DecidableEq, Repr

namespace Reader

def start : Reader := ⟨.first, .between, [], [], false⟩

def fail {α : Type} (r : Reader) (fault : ReadFault) : Except ReadError α :=
  .error ⟨r.place, fault⟩

def add (r : Reader) (e : Element) : Reader :=
  { r with mode := .between, items := e :: r.items, quoted := false }

def openBracket (r : Reader) (b : Bracket) : Reader :=
  { r with
    mode := .between, openings := ⟨b, r.place, r.items⟩ :: r.openings, items := [],
    quoted := false }

def closeBracket (r : Reader) (b : Bracket) : Except ReadError Reader :=
  match r.openings with
  | o :: outer =>
    if r.quoted || o.bracket != b then r.fail (.strayCloser b)
    else .ok (add { r with openings := outer, items := o.before } (b.wrap r.items.reverse))
  | [] => r.fail (.strayCloser b)

def begin (r : Reader) (c : Char) : Except ReadError Reader :=
  if isBlank c then .ok { r with mode := .between } else
  match c with
  | ';' => .ok { r with mode := .comment }
  | '(' => .ok (r.openBracket .round)
  | '[' => .ok (r.openBracket .square)
  | ')' => r.closeBracket .round
  | ']' => r.closeBracket .square
  | '"' => .ok { r with mode := .text r.place [] }
  | '\'' => .ok { r with mode := .quote, quoted := true }
  | '#' => .ok { r with mode := .sharp }
  | ':' => .ok { r with mode := .name .option [] }
  | c => .ok { r with mode := .name .plain [c] }

def finishName (r : Reader) (kind : NameKind) (read : List Char) : Except ReadError Reader :=
  match kind.element read.reverse with
  | .ok e => .ok (r.add e)
  | .error fault => r.fail fault

def takeName (r : Reader) (kind : NameKind) (read : List Char) (c : Char) :
    Except ReadError Reader :=
  if isDelimiter c then do (← r.finishName kind read).begin c
  else .ok { r with mode := .name kind (c :: read) }

def take (r : Reader) (c : Char) : Except ReadError Reader :=
  match r.mode with
  | .between => r.begin c
  | .comment => .ok { r with mode := if c = '\n' then .between else .comment }
  | .quote => if isBlank c then r.fail .bareQuote else r.begin c
  | .sharp =>
    if c = '\'' then .ok { r with mode := .name .function [] } else r.takeName .plain ['#'] c
  | .name kind read => r.takeName kind read c
  | .text opened read =>
    match c with
    | '"' => .ok (r.add (.str (String.ofList read.reverse)))
    | '\\' => .ok { r with mode := .escape opened read }
    | c => .ok { r with mode := .text opened (c :: read) }
  | .escape opened read => .ok { r with mode := .text opened (unescape c :: read) }

def step (r : Reader) (c : Char) : Except ReadError Reader := do
  let r ← r.take c
  .ok { r with place := r.place.after c }

def run (r : Reader) : List Char → Except ReadError Reader
  | [] => .ok r
  | c :: cs => do (← r.step c).run cs

def complete (r : Reader) : Except ReadError (List Element) :=
  if r.quoted then r.fail .endOfInput else
  match r.openings with
  | [] => .ok r.items.reverse
  | o :: _ => .error ⟨o.place, .openSequence o.bracket⟩

def finish (r : Reader) : Except ReadError (List Element) :=
  match r.mode with
  | .between | .comment => r.complete
  | .quote => r.fail .bareQuote
  | .sharp => do (← r.finishName .plain ['#']).complete
  | .name kind read => do (← r.finishName kind read).complete
  | .text opened _ | .escape opened _ => .error ⟨opened, .openString⟩

end Reader

def readForm (source : String) : Except ReadError (List Element) := do
  (← Reader.start.run source.toList).finish

end KeyForm
