import KeyForm.Proofs.Outcome
import KeyForm.Proofs.Reading
import KeyForm.Text.Basic
/-! Writing a form and reading it back. The elements that come back are those that a
reader can give at all: their names have no delimiter in them and cannot be taken for
something else. -/
namespace KeyForm

def isName (cs : List Char) : Bool := !cs.isEmpty && cs.all fun c => !isDelimiter c

def isUnmarked (cs : List Char) : Bool :=
  isName cs && cs.head? != some '\'' && cs.head? != some ':' && !(['#', '\''].isPrefixOf cs)

def isSymbolName (cs : List Char) : Bool :=
  isUnmarked cs && cs != ['|'] && cs != ['|', '|']

namespace Element

mutual

def readable : Element → Bool
  | .symbol name => isSymbolName name.toList
  | .keyword name | .function name => isName name.toList
  | .str _ | .separator | .clearingSeparator => true
  | .vector items | .list items => allReadable items

def allReadable : List Element → Bool
  | [] => true
  | e :: rest => e.readable && allReadable rest

end

theorem allReadableIff (es : List Element) :
    allReadable es = true ↔ ∀ e ∈ es, e.readable = true := by
  induction es with
  | nil => simp [allReadable]
  | cons e rest ih => simp [allReadable, ih]

end Element

namespace Reader
variable {p : Position} {openings : List Opening} {items : List Element} {rest : List Char}
variable {quoted : Bool}

theorem nameDelimits {cs : List Char} (name : isName cs = true) :
    cs ≠ [] ∧ ∀ c ∈ cs, isDelimiter c = false := by
  simpa [isName] using name

theorem unmarkedIff {c : Char} {cs : List Char} :
    isUnmarked (c :: cs) = true ↔
      (∀ d ∈ c :: cs, isDelimiter d = false) ∧ c ≠ '\'' ∧ c ≠ ':' ∧
      (c = '#' → ∀ d ∈ cs.head?, d ≠ '\'') := by
  have function : ['#', '\''].isPrefixOf (c :: cs) = true ↔
      c = '#' ∧ ∃ d ∈ cs.head?, d = '\'' := by
    cases cs with
    | nil => simp [List.isPrefixOf]
    | cons d cs => simp [List.isPrefixOf, eq_comm (a := '#'), eq_comm (a := '\'')]
  have name : isName (c :: cs) = true ↔ ∀ d ∈ c :: cs, isDelimiter d = false := by
    simp [isName]
  simp only [isUnmarked, Bool.and_eq_true, name, List.head?_cons, bne_iff_ne, ne_eq,
    Option.some.injEq, Bool.not_eq_true', ← Bool.not_eq_true (List.isPrefixOf _ _), function,
    not_and, not_exists, and_assoc]

theorem unmarkedStart {c : Char} (plain : isDelimiter c = false) (quote : c ≠ '\'')
    (sharp : c ≠ '#') (colon : c ≠ ':') : isUnmarked [c] = true :=
  unmarkedIff.mpr ⟨by simpa using plain, quote, colon, fun h => absurd h sharp⟩

theorem symbolNamed {cs : List Char} (bar : cs ≠ ['|']) (bars : cs ≠ ['|', '|']) :
    NameKind.element .plain cs = .ok (.symbol (String.ofList cs)) := by
  simp only [NameKind.element]

theorem keywordNamed {cs : List Char} (some : cs ≠ []) :
    NameKind.element .option cs = .ok (.keyword (String.ofList cs)) := by
  cases cs with
  | nil => exact absurd rfl some
  | cons c cs => rfl

theorem functionNamed {cs : List Char} (some : cs ≠ []) :
    NameKind.element .function cs = .ok (.function (String.ofList cs)) := by
  cases cs with
  | nil => exact absurd rfl some
  | cons c cs => rfl

theorem readUnmarked {cs : List Char} {e : Element} (unmarked : isUnmarked cs = true)
    (named : NameKind.element .plain cs = .ok e) (stops : Stops rest) :
    result ⟨p, .between, openings, items, quoted⟩ (cs ++ rest) =
      (ready (p.past cs) openings (e :: items)).result rest := by
  cases cs with
  | nil => cases unmarked
  | cons c cs =>
    obtain ⟨plain, quote, colon, function⟩ := unmarkedIff.mp unmarked
    have later : ∀ d ∈ cs, isDelimiter d = false := fun d mem => plain d (by simp [mem])
    by_cases sharp : c = '#'
    · subst sharp
      have other : ∀ d ∈ (cs ++ rest).head?, d ≠ '\'' := by
        cases cs with
        | nil =>
          rintro _ mem rfl
          exact absurd (stops _ mem) (by decide)
        | cons d _ => exact function rfl
      have begun : result ⟨p, .between, openings, items, quoted⟩ ('#' :: cs ++ rest) =
        result ⟨p.after '#', .sharp, openings, items, quoted⟩ (cs ++ rest) := rfl
      rw [begun, sharpPlain other]
      exact nameRead stops later named
    · have taken : take ⟨p, .between, openings, items, quoted⟩ c =
          .ok ⟨p, .name .plain [c], openings, items, quoted⟩ :=
        plainBegins (plain c (by simp)) quote sharp colon _
      rw [List.cons_append, resultTake taken]
      exact nameRead stops later named

theorem readKeyword {name : String} (valid : isName name.toList = true) (stops : Stops rest) :
    result ⟨p, .between, openings, items, quoted⟩ (':' :: name.toList ++ rest) =
      (ready (p.past (':' :: name.toList)) openings (.keyword name :: items)).result rest := by
  obtain ⟨some, plain⟩ := nameDelimits valid
  have named := keywordNamed some
  rw [String.ofList_toList] at named
  exact nameRead (p := p.after ':') stops plain named

theorem readFunction {name : String} (valid : isName name.toList = true)
    (stops : Stops rest) :
    result ⟨p, .between, openings, items, quoted⟩ ('#' :: '\'' :: name.toList ++ rest) =
      (ready (p.past ('#' :: '\'' :: name.toList)) openings (.function name :: items)).result
        rest := by
  obtain ⟨some, plain⟩ := nameDelimits valid
  have named := functionNamed some
  rw [String.ofList_toList] at named
  exact nameRead (p := (p.after '#').after '\'') stops plain named

theorem readBars (stops : Stops rest) :
    result ⟨p, .between, openings, items, quoted⟩ (['|'] ++ rest) =
      (ready (p.past ['|']) openings (.separator :: items)).result rest ∧
    result ⟨p, .between, openings, items, quoted⟩ (['|', '|'] ++ rest) =
      (ready (p.past ['|', '|']) openings (.clearingSeparator :: items)).result rest := by
  constructor
  · exact nameEnds (p := p.after '|') stops rfl
  · exact nameEnds (p := (p.after '|').after '|') stops rfl

theorem readText (text : String) :
    (ready p openings items).result ((Element.str text).chars ++ rest) =
      (ready (p.past (Element.str text).chars) openings (.str text :: items)).result rest := by
  have begun : (ready p openings items).result ((Element.str text).chars ++ rest) =
      result ⟨p.after '"', .text p [], openings, items, false⟩
        (Element.escaped text.toList ++ '"' :: rest) := by
    simp only [Element.chars, List.cons_append, List.append_assoc]
    rfl
  rw [begun, textRead, List.reverse_nil, List.nil_append, String.ofList_toList]
  rfl

theorem stopsBlank : Stops (' ' :: rest) := by
  rintro c ⟨⟩
  decide

theorem stopsCloser (b : Bracket) : Stops (b.closer :: rest) := by
  rintro c ⟨⟩
  cases b <;> decide

theorem stopsSpaced {es : List Element} (stops : Stops rest) :
    Stops (Element.spacedRest es ++ rest) := by
  cases es with
  | nil => exact stops
  | cons e es => exact stopsBlank

theorem readSequence {es : List Element} (b : Bracket)
    (inside : (ready (p.after b.opener) (⟨b, p, items⟩ :: openings) []).result
        (Element.spaced es ++ b.closer :: rest) =
      (ready ((p.after b.opener).past (Element.spaced es)) (⟨b, p, items⟩ :: openings)
        (es.reverse ++ [])).result (b.closer :: rest)) :
    (ready p openings items).result (b.opener :: Element.spaced es ++ [b.closer] ++ rest) =
      (ready (p.past (b.opener :: Element.spaced es ++ [b.closer])) openings
        (b.wrap es :: items)).result rest := by
  simp only [List.cons_append, List.append_assoc, List.nil_append]
  rw [opened, inside, closed]
  simp [Position.past]

-- The text of an item is followed by a blank or by the closing bracket of its sequence, so
-- a name in it ends where its text ends; the induction carries any such remaining text.
mutual

theorem readElement (p : Position) (openings : List Opening) (items : List Element)
    {rest : List Char} (stops : Stops rest) : (e : Element) → e.readable = true →
      (ready p openings items).result (e.chars ++ rest) =
        (ready (p.past e.chars) openings (e :: items)).result rest
  | .symbol name, readable => by
    simp only [Element.readable, isSymbolName, Bool.and_eq_true, bne_iff_ne] at readable
    obtain ⟨⟨unmarked, bar⟩, bars⟩ := readable
    have named := symbolNamed bar bars
    rw [String.ofList_toList] at named
    exact readUnmarked unmarked named stops
  | .keyword _, readable => readKeyword readable stops
  | .function _, readable => readFunction readable stops
  | .str text, _ => readText text
  | .separator, _ => (readBars stops).1
  | .clearingSeparator, _ => (readBars stops).2
  | .vector es, readable =>
    readSequence .square (readSpaced _ _ _ (stopsCloser .square) es readable)
  | .list es, readable =>
    readSequence .round (readSpaced _ _ _ (stopsCloser .round) es readable)

theorem readSpaced (p : Position) (openings : List Opening) (items : List Element)
    {rest : List Char} (stops : Stops rest) : (es : List Element) →
      Element.allReadable es = true →
      (ready p openings items).result (Element.spaced es ++ rest) =
        (ready (p.past (Element.spaced es)) openings (es.reverse ++ items)).result rest
  | [], _ => rfl
  | e :: es, readable => by
    simp only [Element.allReadable, Bool.and_eq_true] at readable
    rw [Element.spaced, List.append_assoc,
      readElement p openings items (stopsSpaced stops) e readable.1,
      readSpacedRest _ _ _ stops es readable.2, pastAppend]
    simp

theorem readSpacedRest (p : Position) (openings : List Opening) (items : List Element)
    {rest : List Char} (stops : Stops rest) : (es : List Element) →
      Element.allReadable es = true →
      (ready p openings items).result (Element.spacedRest es ++ rest) =
        (ready (p.past (Element.spacedRest es)) openings (es.reverse ++ items)).result rest
  | [], _ => rfl
  | e :: es, readable => by
    simp only [Element.allReadable, Bool.and_eq_true] at readable
    simp only [Element.spacedRest, List.cons_append, List.append_assoc]
    rw [blankSkipped (by decide), readElement _ _ _ (stopsSpaced stops) e readable.1,
      readSpacedRest _ _ _ stops es readable.2]
    simp [Position.past]

end

theorem readFormText {es : List Element} (readable : ∀ e ∈ es, e.readable = true) :
    readForm (formText es) = .ok es := by
  have ends : Stops [] := by rintro c ⟨⟩
  have done := readSpaced .first [] [] ends es ((Element.allReadableIff es).mpr readable)
  rw [List.append_nil] at done
  rw [readFormResult, formText, String.toList_ofList]
  refine done.trans ?_
  rw [completed]
  simp

theorem spacedIntercalated (es : List Element) :
    Element.spaced es = [' '].intercalate (es.map Element.chars) := by
  cases es with
  | nil => rfl
  | cons e es =>
    have joined := @piecesJoined _ [' '] [] Element.chars Element.spacedRest rfl
      (fun _ _ => rfl) e es
    rwa [List.append_nil] at joined

theorem formTextJoined (es : List Element) :
    formText es = " ".intercalate (es.map Element.text) := by
  apply String.toList_injective
  rw [formText, String.toList_ofList, String.toList_intercalate, spacedIntercalated]
  simp [List.map_map, Element.text, Function.comp_def]

inductive Begun (r : Reader) : Char → Reader → Prop where
  | blank {c} (blank : isBlank c = true) : Begun r c { r with mode := .between }
  | comment : Begun r ';' { r with mode := .comment }
  | opener (b : Bracket) : Begun r b.opener (r.openBracket b)
  | closer {b place before outer} (level : r.openings = ⟨b, place, before⟩ :: outer)
      (unquoted : r.quoted = false) :
      Begun r b.closer (ready r.place outer (b.wrap r.items.reverse :: before))
  | text : Begun r '"' { r with mode := .text r.place [] }
  | quote : Begun r '\'' { r with mode := .quote, quoted := true }
  | sharp : Begun r '#' { r with mode := .sharp }
  | option : Begun r ':' { r with mode := .name .option [] }
  | plain {c} (start : isUnmarked [c] = true) (sharp : c ≠ '#') :
      Begun r c { r with mode := .name .plain [c] }

theorem closerBegun {r r' : Reader} {b : Bracket} (closed : r.closeBracket b = .ok r') :
    Begun r b.closer r' := by
  unfold closeBracket at closed
  split at closed
  · next o outer level =>
    split at closed
    · cases closed
    · next fits =>
      simp only [Bool.or_eq_true, bne_iff_ne, not_or, Decidable.not_not,
        Bool.not_eq_true] at fits
      obtain ⟨unquoted, rfl⟩ := fits
      cases closed
      exact .closer level unquoted
  · cases closed

theorem begunOf {r r' : Reader} {c : Char} (begun : r.begin c = .ok r') : Begun r c r' := by
  unfold begin at begun
  split at begun
  · next blank => exact Except.ok.inj begun ▸ .blank blank
  next blank =>
  split at begun
  case h_2 => exact Except.ok.inj begun ▸ .opener .round
  case h_3 => exact Except.ok.inj begun ▸ .opener .square
  case h_4 => exact closerBegun (b := .round) begun
  case h_5 => exact closerBegun (b := .square) begun
  case h_10 comment round square closeRound closeSquare text quote sharp colon =>
    cases begun
    have plain : isDelimiter c = false := by simp_all [isDelimiter]
    exact .plain (unmarkedStart plain quote sharp colon) sharp
  all_goals
    cases begun
    constructor

def NameSound : NameKind → List Char → Prop
  | .plain, cs => isUnmarked cs = true
  | .option, cs | .function, cs => ∀ c ∈ cs, isDelimiter c = false

/-- A lone sharp sign is not yet known to begin a plain name. -/
def ModeSound : Mode → Prop
  | .name kind read => NameSound kind read.reverse ∧ (kind = .plain → read ≠ ['#'])
  | _ => True

structure Sound (r : Reader) : Prop where
  items : ∀ e ∈ r.items, e.readable = true
  outer : ∀ o ∈ r.openings, ∀ e ∈ o.before, e.readable = true
  mode : ModeSound r.mode

variable {r r' : Reader} {c : Char} {cs : List Char}

theorem namedReadable {kind : NameKind} {e : Element} (name : NameSound kind cs)
    (named : kind.element cs = .ok e) : e.readable = true := by
  cases kind with
  | plain =>
    by_cases bar : cs = ['|']
    · subst bar
      cases named
      rfl
    by_cases bars : cs = ['|', '|']
    · subst bars
      cases named
      rfl
    rw [symbolNamed bar bars] at named
    cases named
    have unmarked : isUnmarked cs = true := name
    simp [Element.readable, isSymbolName, unmarked, bar, bars]
  | option | function =>
    cases cs with
    | nil => cases named
    | cons c cs =>
      cases named
      have plain : ∀ d ∈ c :: cs, isDelimiter d = false := name
      simpa [Element.readable, isName] using plain

theorem sharpSound : NameSound .plain ['#'] := rfl

theorem nameSoundGrows {kind : NameKind} (name : NameSound kind cs)
    (plain : isDelimiter c = false) (whole : kind = .plain → cs = ['#'] → c ≠ '\'') :
    NameSound kind (cs ++ [c]) := by
  cases kind with
  | option | function =>
    intro d mem
    rcases List.mem_append.mp mem with mem | mem
    · exact name d mem
    · exact List.mem_singleton.mp mem ▸ plain
  | plain =>
    cases cs with
    | nil => cases name
    | cons d cs =>
      obtain ⟨before, quote, colon, function⟩ := unmarkedIff.mp name
      refine unmarkedIff.mpr ⟨?_, quote, colon, ?_⟩
      · intro x mem
        rcases List.mem_cons.mp mem with rfl | mem
        · exact before _ (by simp)
        rcases List.mem_append.mp mem with mem | mem
        · exact before x (by simp [mem])
        · exact List.mem_singleton.mp mem ▸ plain
      · rintro rfl
        cases cs with
        | nil =>
          rintro x ⟨⟩
          exact whole rfl rfl
        | cons f cs => exact function rfl

theorem Sound.add {e : Element} (sound : r.Sound) (readable : e.readable = true) :
    (r.add e).Sound :=
  ⟨by simpa [Reader.add, readable] using sound.items, sound.outer, trivial⟩

theorem Sound.openBracket (sound : r.Sound) (b : Bracket) : (r.openBracket b).Sound := by
  refine ⟨by simp [Reader.openBracket], ?_, trivial⟩
  intro o mem
  rcases List.mem_cons.mp mem with rfl | mem
  · exact sound.items
  · exact sound.outer o mem

theorem wrapReadable (b : Bracket) {items : List Element}
    (readable : ∀ e ∈ items, e.readable = true) : (b.wrap items).readable = true := by
  have all := (Element.allReadableIff items).mpr readable
  cases b <;> simpa [Bracket.wrap, Element.readable] using all

theorem Sound.begin (sound : r.Sound) (begun : r.begin c = .ok r') : r'.Sound := by
  cases begunOf begun with
  | opener b => exact sound.openBracket b
  | @closer b place before outer level unquoted =>
    have inner : (b.wrap r.items.reverse).readable = true :=
      wrapReadable b (by simpa using sound.items)
    have earlier : ∀ o ∈ ⟨b, place, before⟩ :: outer, ∀ e ∈ o.before, e.readable = true :=
      level ▸ sound.outer
    refine ⟨?_, fun o mem => earlier o (by simp [mem]), trivial⟩
    simpa [inner] using earlier _ (List.mem_cons_self ..)
  | option => exact ⟨sound.items, sound.outer, by simp [ModeSound, NameSound]⟩
  | plain start sharp => exact ⟨sound.items, sound.outer, start, by simpa using sharp⟩
  | blank | comment | text | quote | sharp => exact ⟨sound.items, sound.outer, trivial⟩

theorem Sound.finishName {kind : NameKind} {read : List Char} (sound : r.Sound)
    (name : NameSound kind read.reverse) (finished : r.finishName kind read = .ok r') :
    r'.Sound := by
  unfold Reader.finishName at finished
  split at finished
  · next e named =>
    cases finished
    exact sound.add (namedReadable name named)
  · cases finished

theorem Sound.takeName {kind : NameKind} {read : List Char} (sound : r.Sound)
    (name : NameSound kind read.reverse)
    (whole : kind = .plain → read = ['#'] → c ≠ '\'')
    (taken : r.takeName kind read c = .ok r') : r'.Sound := by
  unfold Reader.takeName at taken
  split at taken
  · obtain ⟨done, finished, begun⟩ := okBind taken
    exact (sound.finishName name finished).begin begun
  · next plain =>
    cases taken
    have grown : NameSound kind (c :: read).reverse := by
      rw [List.reverse_cons]
      refine nameSoundGrows name (by simpa using plain) fun h sharp => whole h ?_
      simpa using congrArg List.reverse sharp
    -- A plain name is never empty, so what is one longer is more than a sharp sign.
    have longer : kind = .plain → c :: read ≠ ['#'] := by
      rintro rfl ⟨⟩
      cases name
    exact ⟨sound.items, sound.outer, grown, longer⟩

theorem Sound.take (sound : r.Sound) (taken : r.take c = .ok r') : r'.Sound := by
  have mode := sound.mode
  unfold Reader.take at taken
  split at taken
  case h_1 => exact sound.begin taken
  case h_2 =>
    cases taken
    refine ⟨sound.items, sound.outer, ?_⟩
    split <;> trivial
  case h_3 =>
    split at taken
    · cases taken
    · exact sound.begin taken
  case h_4 =>
    split at taken
    · cases taken
      exact ⟨sound.items, sound.outer, by simp [NameSound], nofun⟩
    · next other => exact sound.takeName sharpSound (fun _ _ => other) taken
  case h_5 kind read named =>
    rw [named] at mode
    exact sound.takeName mode.1 (fun plain sharp => absurd sharp (mode.2 plain)) taken
  case h_6 =>
    split at taken
    · exact Except.ok.inj taken ▸ sound.add rfl
    all_goals
      cases taken
      exact ⟨sound.items, sound.outer, trivial⟩
  case h_7 =>
    cases taken
    exact ⟨sound.items, sound.outer, trivial⟩

theorem Sound.step (sound : r.Sound) (stepped : r.step c = .ok r') : r'.Sound := by
  obtain ⟨after, taken, moved⟩ := okBind stepped
  cases moved
  have kept := sound.take taken
  exact ⟨kept.items, kept.outer, kept.mode⟩

theorem Sound.run (sound : r.Sound) (ran : r.run cs = .ok r') : r'.Sound := by
  induction cs generalizing r with
  | nil => exact Except.ok.inj ran ▸ sound
  | cons c cs ih =>
    obtain ⟨after, stepped, rest⟩ := okBind ran
    exact ih (sound.step stepped) rest

theorem Sound.complete {es : List Element} (sound : r.Sound) (done : r.complete = .ok es) :
    ∀ e ∈ es, e.readable = true := by
  unfold Reader.complete at done
  split at done
  · cases done
  split at done
  · cases done
    simpa using sound.items
  · cases done

theorem Sound.finish {es : List Element} (sound : r.Sound) (done : r.finish = .ok es) :
    ∀ e ∈ es, e.readable = true := by
  have mode := sound.mode
  unfold Reader.finish at done
  split at done
  case h_1 | h_2 => exact sound.complete done
  case h_4 =>
    obtain ⟨named, finished, complete⟩ := okBind done
    exact (sound.finishName sharpSound finished).complete complete
  case h_5 kind read name =>
    rw [name] at mode
    obtain ⟨named, finished, complete⟩ := okBind done
    exact (sound.finishName mode.1 finished).complete complete
  all_goals cases done

end Reader

theorem readReadable {source : String} {es : List Element} (read : readForm source = .ok es) :
    ∀ e ∈ es, e.readable = true := by
  obtain ⟨r, ran, done⟩ := okBind read
  have start : Reader.Sound .start := ⟨nofun, nofun, trivial⟩
  exact (start.run ran).finish done

theorem readBack (es : List Element) :
    (readForm (" ".intercalate (es.map Element.text)) = .ok es ↔
      ∀ e ∈ es, e.readable = true) ∧
    ((∃ source, readForm source = .ok es) ↔ ∀ e ∈ es, e.readable = true) := by
  have printed (readable : ∀ e ∈ es, e.readable = true) :
      readForm (" ".intercalate (es.map Element.text)) = .ok es :=
    Reader.formTextJoined es ▸ Reader.readFormText readable
  refine ⟨⟨readReadable, printed⟩, ?_, fun readable => ⟨_, printed readable⟩⟩
  rintro ⟨source, read⟩
  exact readReadable read

end KeyForm
