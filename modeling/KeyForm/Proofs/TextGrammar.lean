import KeyForm.Proofs.ReadBack
/-! The texts that are binding forms, as a grammar over characters. Every judgment says what
comes first in a text and what is left of it after that; a name needs the rest to know where
it ends, and so does a comment. A text that derives is read as it derives. -/
namespace KeyForm

inductive Layout : List Char → List Char → Prop where
  | none {rest} : Layout rest rest
  | blank {c cs rest} (blank : isBlank c = true) (tail : Layout cs rest) :
      Layout (c :: cs) rest
  | comment {line cs rest} (inside : '\n' ∉ line) (tail : Layout cs rest) :
      Layout (';' :: line ++ '\n' :: cs) rest
  | lastComment {line} (inside : '\n' ∉ line) : Layout (';' :: line) []

inductive Spelled : List Char → List Char → List Char → Prop where
  | closed {rest} : Spelled ('"' :: rest) [] rest
  | plain {c cs text rest} (quote : c ≠ '"') (back : c ≠ '\\') (tail : Spelled cs text rest) :
      Spelled (c :: cs) (c :: text) rest
  | newline {cs text rest} (tail : Spelled cs text rest) :
      Spelled ('\\' :: 'n' :: cs) ('\n' :: text) rest
  | tab {cs text rest} (tail : Spelled cs text rest) :
      Spelled ('\\' :: 't' :: cs) ('\t' :: text) rest
  | itself {c cs text rest} (newline : c ≠ 'n') (tab : c ≠ 't') (tail : Spelled cs text rest) :
      Spelled ('\\' :: c :: cs) (c :: text) rest

structure Word (name rest : List Char) : Prop where
  some : name ≠ []
  plain : ∀ c ∈ name, isDelimiter c = false
  stops : Stops rest

mutual

inductive Form : List Char → Element → List Char → Prop where
  | list {cs items rest} (inside : Forms cs items (')' :: rest)) :
      Form ('(' :: cs) (.list items) rest
  | vector {cs items rest} (inside : Forms cs items (']' :: rest)) :
      Form ('[' :: cs) (.vector items) rest
  | text {cs text rest} (inside : Spelled cs text rest) :
      Form ('"' :: cs) (.str (String.ofList text)) rest
  | quoted {c cs later e rest} (near : isBlank c = false) (layout : Layout (c :: cs) later)
      (form : Form later e rest) : Form ('\'' :: c :: cs) e rest
  | function {name rest} (word : Word name rest) :
      Form ('#' :: '\'' :: name ++ rest) (.function (String.ofList name)) rest
  | option {name rest} (word : Word name rest) :
      Form (':' :: name ++ rest) (.keyword (String.ofList name)) rest
  | separator {rest} (word : Word ['|'] rest) : Form ('|' :: rest) .separator rest
  | clearingSeparator {rest} (word : Word ['|', '|'] rest) :
      Form ('|' :: '|' :: rest) .clearingSeparator rest
  | symbol {name rest} (word : Word name rest) (quote : ¬ ['\''] <+: name)
      (colon : ¬ [':'] <+: name) (function : ¬ ['#', '\''] <+: name) (bar : name ≠ ['|'])
      (bars : name ≠ ['|', '|']) : Form (name ++ rest) (.symbol (String.ofList name)) rest

inductive Forms : List Char → List Element → List Char → Prop where
  | none {cs rest} (layout : Layout cs rest) : Forms cs [] rest
  | more {cs here later e es rest} (layout : Layout cs here) (form : Form here e later)
      (tail : Forms later es rest) : Forms cs (e :: es) rest

end

namespace Reader
variable {p : Position} {openings : List Opening} {items : List Element} {quoted : Bool}
variable {c : Char} {cs line name rest text : List Char}

theorem commentBegins :
    result ⟨p, .between, openings, items, quoted⟩ (';' :: cs) =
      result ⟨p.after ';', .comment, openings, items, quoted⟩ cs := rfl

theorem commentRead (inside : '\n' ∉ line) :
    result ⟨p, .comment, openings, items, quoted⟩ (line ++ rest) =
      result ⟨p.past line, .comment, openings, items, quoted⟩ rest := by
  induction line generalizing p with
  | nil => rfl
  | cons c line ih =>
    have here : c ≠ '\n' := by rintro rfl; simp at inside
    have taken : take ⟨p, .comment, openings, items, quoted⟩ c =
        .ok ⟨p, .comment, openings, items, quoted⟩ := by
      simp [take, here]
    rw [List.cons_append, resultTake taken, ih fun mem => inside (by simp [mem])]
    rfl

theorem lineSkipped (inside : '\n' ∉ line) :
    result ⟨p, .comment, openings, items, quoted⟩ (line ++ '\n' :: rest) =
      result ⟨(p.past line).after '\n', .between, openings, items, quoted⟩ rest :=
  commentRead inside

theorem lastLineSkipped (inside : '\n' ∉ line) :
    result ⟨p, .comment, openings, items, quoted⟩ line =
      result ⟨p.past line, .between, openings, items, quoted⟩ [] := by
  rw [← List.append_nil line, commentRead inside, List.append_nil]
  rfl

theorem layoutRead (p : Position) (openings : List Opening) (items : List Element)
    (quoted : Bool) (layout : Layout cs rest) :
    ∃ p', result ⟨p, .between, openings, items, quoted⟩ cs =
      result ⟨p', .between, openings, items, quoted⟩ rest := by
  induction layout generalizing p with
  | none => exact ⟨p, rfl⟩
  | blank blank tail ih =>
    rw [blankSkipped blank]
    exact ih _
  | comment inside tail ih =>
    rw [List.cons_append, commentBegins, lineSkipped inside]
    exact ih _
  | lastComment inside => exact ⟨_, commentBegins.trans (lastLineSkipped inside)⟩

theorem spelledRead (p place : Position) (openings : List Opening) (items : List Element)
    (quoted : Bool) (read : List Char) (spelled : Spelled cs text rest) :
    ∃ p', result ⟨p, .text place read, openings, items, quoted⟩ cs =
      (ready p' openings (.str (String.ofList (read.reverse ++ text)) :: items)).result rest := by
  induction spelled generalizing p read with
  | closed => exact ⟨p.after '"', by rw [List.append_nil]; rfl⟩
  | @plain c _ _ _ quote back tail ih =>
    rw [textGrows quote back]
    obtain ⟨p', done⟩ := ih _ (c :: read)
    exact ⟨p', by simpa using done⟩
  | newline tail ih =>
    rw [textEscape]
    obtain ⟨p', done⟩ := ih _ ('\n' :: read)
    exact ⟨p', by simpa [unescape] using done⟩
  | tab tail ih =>
    rw [textEscape]
    obtain ⟨p', done⟩ := ih _ ('\t' :: read)
    exact ⟨p', by simpa [unescape] using done⟩
  | @itself c _ _ _ newline tab tail ih =>
    have same : unescape c = c := by
      unfold unescape
      split <;> first | rfl | contradiction
    rw [textEscape, same]
    obtain ⟨p', done⟩ := ih _ (c :: read)
    exact ⟨p', by simpa using done⟩

theorem quoteTaken (near : isBlank c = false) :
    result ⟨p, .quote, openings, items, quoted⟩ (c :: cs) =
      result ⟨p, .between, openings, items, quoted⟩ (c :: cs) := by
  have taken : take ⟨p, .quote, openings, items, quoted⟩ c =
      take ⟨p, .between, openings, items, quoted⟩ c := by
    simp only [take, near, begin, openBracket, closeBracket]
    rfl
  simp only [result, run, step, taken]

theorem unmarkedWord : isUnmarked name = true ↔ isName name = true ∧
    ¬ ['\''] <+: name ∧ ¬ [':'] <+: name ∧ ¬ ['#', '\''] <+: name := by
  have first (c : Char) : name.head? = some c ↔ [c] <+: name := by
    cases name <;> simp [eq_comm]
  simp only [isUnmarked, Bool.and_eq_true, bne_iff_ne, ne_eq, first, Bool.not_eq_true',
    ← Bool.not_eq_true (List.isPrefixOf _ _), List.isPrefixOf_iff_prefix, and_assoc]

theorem wordName (word : Word name rest) : isName name = true := by
  simpa [isName] using And.intro word.some word.plain

theorem sequenceRead {es : List Element} (b : Bracket)
    (inside : ∃ p', (ready (p.after b.opener) (⟨b, p, items⟩ :: openings) []).result cs =
      (ready p' (⟨b, p, items⟩ :: openings) (es.reverse ++ [])).result (b.closer :: rest)) :
    ∃ p', result ⟨p, .between, openings, items, quoted⟩ (b.opener :: cs) =
      (ready p' openings (b.wrap es :: items)).result rest := by
  obtain ⟨p', read⟩ := inside
  refine ⟨p'.after b.closer, ?_⟩
  rw [opened, read, closed]
  simp

-- The induction is over derivations: a list and a vector end where their items do, at a
-- closer of their own.
mutual

theorem formRead {cs rest : List Char} {e : Element} (p : Position) (openings : List Opening)
    (items : List Element) (quoted : Bool) : Form cs e rest →
      ∃ p', result ⟨p, .between, openings, items, quoted⟩ cs =
        (ready p' openings (e :: items)).result rest
  | .list inside => sequenceRead .round (formsRead _ _ _ inside)
  | .vector inside => sequenceRead .square (formsRead _ _ _ inside)
  | .text inside => spelledRead (p.after '"') p openings items quoted [] inside
  | .quoted near layout form => by
    obtain ⟨p', skipped⟩ := layoutRead (p.after '\'') openings items true layout
    obtain ⟨last, read⟩ := formRead p' openings items true form
    exact ⟨last, (quoteTaken near).trans (skipped.trans read)⟩
  | .function word =>
    ⟨_, nameRead (p := (p.after '#').after '\'') word.stops word.plain
      (functionNamed word.some)⟩
  | .option word =>
    ⟨_, nameRead (p := p.after ':') word.stops word.plain (keywordNamed word.some)⟩
  | .separator word => ⟨_, (readBars word.stops).1⟩
  | .clearingSeparator word => ⟨_, (readBars word.stops).2⟩
  | .symbol word quote colon function bar bars => by
    have unmarked := unmarkedWord.mpr ⟨wordName word, quote, colon, function⟩
    exact ⟨_, readUnmarked unmarked (symbolNamed bar bars) word.stops⟩

theorem formsRead {cs rest : List Char} {es : List Element} (p : Position)
    (openings : List Opening) (items : List Element) : Forms cs es rest →
      ∃ p', (ready p openings items).result cs =
        (ready p' openings (es.reverse ++ items)).result rest
  | .none layout => layoutRead p openings items false layout
  | .more (e := e) layout form tail => by
    obtain ⟨here, skipped⟩ := layoutRead p openings items false layout
    obtain ⟨after, read⟩ := formRead here openings items false form
    obtain ⟨last, others⟩ := formsRead after openings (e :: items) tail
    exact ⟨last, by simpa using skipped.trans (read.trans others)⟩

end

end Reader
end KeyForm
