import KeyForm.Yaml.Cursor
import KeyForm.Yaml.Resolution
/-! The text of a YAML scalar in each of its styles: escapes are replaced, and lines are
folded where the style asks for it. -/
namespace KeyForm.Yaml

structure Gap where
  blanks : List Char
  first : List Char
  further : List Char
  broken : Bool

namespace Gap

def none : Gap := ⟨[], [], [], false⟩

def text (g : Gap) : List Char :=
  if !g.broken then g.blanks
  else if g.first.head? = some '\n' then
    if g.further.isEmpty then [' '] else g.further
  else g.first ++ g.further

def read (refuse : Gap → Cursor → Bool) : Nat → Gap → Cursor → Option (Gap × Cursor)
  | 0, _, _ => .none
  | fuel + 1, g, c =>
    match c.rest with
    | [] => some (g, c)
    | ch :: _ =>
      if isBlank ch then
        if refuse g c then .none
        else read refuse fuel (if g.broken then g else { g with blanks := g.blanks ++ [ch] })
          (c.skip 1)
      else if isBreak ch then
        let g := if g.broken then { g with further := g.further ++ c.breakText }
          else ⟨[], c.breakText, g.further, true⟩
        read refuse fuel g c.nextLine
      else some (g, c)

end Gap

def escapeWidth? : Char → Option Nat
  | 'x' => some 2
  | 'u' => some 4
  | 'U' => some 8
  | _ => none

def namedEscape? : Char → Option Char
  | '0' => some '\x00'
  | 'a' => some '\x07'
  | 'b' => some '\x08'
  | 't' | '\t' => some '\t'
  | 'n' => some '\n'
  | 'v' => some '\x0b'
  | 'f' => some '\x0c'
  | 'r' => some '\r'
  | 'e' => some '\x1b'
  | ' ' => some ' '
  | '"' => some '"'
  | '/' => some '/'
  | '\\' => some '\\'
  | 'N' => some '\x85'
  | '_' => some '\xa0'
  | 'L' => some '\u2028'
  | 'P' => some '\u2029'
  | _ => none

def codePoint? (n : Nat) : Option Char :=
  if h : n.isValidChar then some (Char.ofNatAux n h) else none

def readEscape (c : Char) (rest : List Char) : Option (Char × Nat) :=
  match escapeWidth? c with
  | some width =>
    let digits := rest.take width
    if digits.length = width && digits.all isHexDigit then
      (codePoint? (digitsValue 16 digits)).map (·, width + 2)
    else none
  | none => (namedEscape? c).map (·, 2)

/-- Reads a word inside quotes. It ends before a blank, a line break, the closing quote or
the end; an escaped line break ends it too, and opens a gap that adds nothing. -/
def readQuotedWord (single : Bool) : Nat → Cursor → Option (List Char × Gap × Cursor)
  | 0, _ => none
  | fuel + 1, c =>
    let next (char : Char) (width : Nat) : Option (List Char × Gap × Cursor) := do
      let (word, gap, c) ← readQuotedWord single fuel (c.skip width)
      some (char :: word, gap, c)
    match c.rest with
    | [] => some ([], .none, c)
    | ch :: rest =>
      if isBlankOrBreak ch then some ([], .none, c)
      else if single then
        if ch ≠ '\'' then next ch 1
        else if rest.head? = some '\'' then next ch 2
        else some ([], .none, c)
      else if ch == '"' then some ([], .none, c)
      else if ch == '\\' then
        match rest with
        | [] => none
        | e :: digits =>
          if isBreak e then some ([], ⟨[], [], [], true⟩, (c.skip 1).nextLine)
          else do
            let (char, width) ← readEscape e digits
            next char width
      else next ch 1

def readQuoted (single : Bool) : Nat → Cursor → Option (List Char × Cursor)
  | 0, _ => none
  | fuel + 1, c =>
    if c.atAnyMarker || c.isAtEnd then none else do
      let (word, gap, c) ← readQuotedWord single (fuel + 1) c
      if c.starts (· == if single then '\'' else '"') then
        some (word, c.skip 1)
      else
        let (gap, c) ← gap.read (fun _ _ => false) (fuel + 1) c
        let (text, c) ← readQuoted single fuel c
        some (word ++ gap.text ++ text, c)

def flowIndicators : List Char := [',', '[', ']', '\x7b', '\x7d']

def readPlainWord (flow : Bool) : List Char → Option (List Char)
  | [] => some []
  | ch :: rest =>
    if isBlankOrBreak ch then some []
    else if flow && ch == ':' && rest.head?.any (fun d => d == '?' || flowIndicators.contains d)
    then none
    else if (ch == ':' && blankAhead rest) || (flow && flowIndicators.contains ch) then some []
    else (readPlainWord flow rest).map (ch :: ·)

/-- Reads a plain scalar after a gap, which belongs to it if a word follows. Its lines are
indented by at least `indent`, unless it stands within brackets. Gives the text, and whether
the scalar was followed by a line break. -/
def readPlain (flow : Bool) (indent : Nat) :
    Nat → Gap → Cursor → Option (List Char × Bool × Cursor)
  | 0, _, _ => none
  | fuel + 1, gap, c =>
    if c.atAnyMarker || c.starts (· == '#') then some ([], gap.broken, c) else do
      let word ← readPlainWord flow c.rest
      if word.isEmpty then some ([], gap.broken, c)
      else
        let text := gap.text ++ word
        let c := c.skip word.length
        if !(c.atBlank || c.atBreak) then some (text, false, c)
        else
          let (gap, c) ← Gap.none.read
            (fun g c => g.broken && c.column < indent && c.starts (· == '\t')) (fuel + 1) c
          if !flow && c.column < indent then some (text, gap.broken, c)
          else
            let (more, broken, c) ← readPlain flow indent fuel gap c
            some (text ++ more, broken, c)

inductive Chomping where
  | strip
  | clip
  | keep
  deriving DecidableEq

def readBlockHeader (c : Cursor) : Option (Chomping × Option Nat × Cursor) :=
  let sign? : Char → Option Chomping
    | '+' => some .keep
    | '-' => some .strip
    | _ => none
  let digit (c : Cursor) : Option (Option Nat × Cursor) :=
    match c.rest with
    | d :: _ =>
      if d == '0' then none
      else if d.isDigit then some (some (digitValue d), c.skip 1)
      else some (none, c)
    | [] => some (none, c)
  match c.rest.head?.bind sign? with
  | some chomping => do
    let (width, c) ← digit (c.skip 1)
    some (chomping, width, c)
  | none => do
    let (width, c) ← digit c
    match width, c.rest.head?.bind sign? with
    | some _, some chomping => some (chomping, width, c.skip 1)
    | _, _ => some (.clip, width, c)

/-- Passes the indent of a line and all empty lines before the next line with text. Gives
the widest indent seen and the text of the line breaks passed. -/
def skipEmptyLines (indent : Option Nat) :
    Nat → Nat → List Char → Cursor → Option (Nat × List Char × Cursor)
  | 0, _, _, _ => none
  | fuel + 1, widest, breaks, c =>
    let blanks := (c.rest.takeWhile (· == ' ')).length
    let c := c.skip (match indent with
      | some n => min blanks (n - c.column)
      | none => blanks)
    let widest := max widest c.column
    if c.starts (· == '\t') && indent.all (c.column < ·) then none
    else if c.atBreak then
      skipEmptyLines indent fuel widest (breaks ++ c.breakText) c.nextLine
    else some (widest, breaks, c)

structure BlockText where
  text : List Char
  ending : List Char
  further : List Char
  indented : Bool

def readBlockLines (literal : Bool) (indent : Nat) :
    Nat → BlockText → Cursor → Option (BlockText × Cursor)
  | 0, _, _ => none
  | fuel + 1, b, c =>
    if c.column ≠ indent || c.isAtEnd then some (b, c) else do
      let blank := c.atBlank
      let joint :=
        if !literal && b.ending.head? = some '\n' && !b.indented && !blank then
          if b.further.isEmpty then [' '] else []
        else b.ending
      let line := c.rest.takeWhile (!isBreak ·)
      let c := c.skip line.length
      let ending := c.breakText
      let (_, further, c) ← skipEmptyLines (some indent) (fuel + 1) 0 [] c.nextLine
      readBlockLines literal indent fuel
        ⟨b.text ++ joint ++ b.further ++ line, ending, further, blank⟩ c

def readBlock (literal : Bool) (outer : Option Nat) (c : Cursor) :
    Option (List Char × Cursor) := do
  let (chomping, width, c) ← readBlockHeader c
  let c ← c.finishLine
  let given := width.map (outer.getD 0 + ·)
  let (widest, further, c) ← skipEmptyLines given (c.rest.length + 1) 0 [] c
  let least := match outer with
    | some n => n + 1
    | none => 1
  let indent := given.getD (max widest least)
  let (b, c) ← readBlockLines literal indent (c.rest.length + 1) ⟨[], [], further, false⟩ c
  let text := match chomping with
    | .strip => b.text
    | .clip => b.text ++ b.ending
    | .keep => b.text ++ b.ending ++ b.further
  some (text, c)

end KeyForm.Yaml
