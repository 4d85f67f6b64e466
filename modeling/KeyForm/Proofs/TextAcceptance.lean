import KeyForm.Proofs.TextGrammar
/-! The texts that the reader accepts, against the grammar. What a reader still demands of
the text follows its stack of openings: under a quote sign one more form, then for each
opening the rest of its items and its closer. Every accepted run meets that demand. -/
namespace KeyForm

variable {cs here rest : List Char} {e : Element} {es : List Element}

theorem Layout.trans (first : Layout cs here) (later : Layout here rest) : Layout cs rest := by
  induction first with
  | none => exact later
  | blank blank tail ih => exact .blank blank (ih later)
  | comment inside tail ih => exact .comment inside (ih later)
  | lastComment inside =>
    cases later
    exact .lastComment inside

theorem Forms.skip (layout : Layout cs here) (forms : Forms here es rest) :
    Forms cs es rest := by
  cases forms with
  | none later => exact .none (layout.trans later)
  | more later form tail => exact .more (layout.trans later) form tail

theorem Layout.shorter (layout : Layout cs rest) : rest.length ≤ cs.length := by
  induction layout with
  | none => exact Nat.le_refl _
  | blank blank tail ih => exact Nat.le_succ_of_le ih
  | comment inside tail ih =>
    simp only [List.length_append, List.length_cons]
    omega
  | lastComment inside => exact Nat.zero_le _

theorem Spelled.shorter {text : List Char} (spelled : Spelled cs text rest) :
    rest.length < cs.length := by
  induction spelled with
  | closed => exact Nat.lt_succ_self _
  | plain quote back tail ih => exact Nat.lt_succ_of_lt ih
  | newline tail ih | tab tail ih | itself newline tab tail ih =>
    simp only [List.length_cons]
    omega

theorem Word.shorter {name : List Char} (word : Word name rest) :
    rest.length < (name ++ rest).length := by
  have some := List.length_pos_iff.mpr word.some
  simp only [List.length_append]
  omega

mutual

theorem Form.shorter {cs rest : List Char} {e : Element} :
    Form cs e rest → rest.length < cs.length
  | .list inside | .vector inside => Nat.lt_succ_of_lt inside.shorter
  | .text inside => Nat.lt_succ_of_lt inside.shorter
  | .quoted _ layout form =>
    Nat.lt_succ_of_lt (Nat.lt_of_lt_of_le form.shorter layout.shorter)
  | .function word => Nat.lt_succ_of_lt (Nat.lt_succ_of_lt word.shorter)
  | .option word => Nat.lt_succ_of_lt word.shorter
  | .separator word | .clearingSeparator word | .symbol word .. => word.shorter

theorem Forms.shorter {cs rest : List Char} {es : List Element} :
    Forms cs es rest → rest.length ≤ cs.length
  | .none layout => layout.shorter
  | .more layout form tail =>
    Nat.le_trans tail.shorter (Nat.le_trans (Nat.le_of_lt form.shorter) layout.shorter)

end

/-- The rest of a text that a reader with these openings and items reads as `es`. -/
inductive Completes : Bool → List Opening → List Element → List Char → List Element → Prop where
  | done {items cs more} (forms : Forms cs more []) :
      Completes false [] items cs (items.reverse ++ more)
  | close {o outer items cs more rest es} (forms : Forms cs more (o.bracket.closer :: rest))
      (outside : Completes false outer (o.bracket.wrap (items.reverse ++ more) :: o.before)
        rest es) : Completes false (o :: outer) items cs es
  | quoted {openings items cs here e rest es} (layout : Layout cs here) (form : Form here e rest)
      (after : Completes false openings (e :: items) rest es) :
      Completes true openings items cs es

namespace Completes
variable {quoted : Bool} {openings : List Opening} {items : List Element}

theorem skip (layout : Layout cs here) (completes : Completes quoted openings items here es) :
    Completes quoted openings items cs es := by
  cases completes with
  | done forms => exact .done (forms.skip layout)
  | close forms outside => exact .close (forms.skip layout) outside
  | quoted later form after => exact .quoted (layout.trans later) form after

theorem form (form : Form cs e rest) (after : Completes false openings (e :: items) rest es) :
    Completes quoted openings items cs es := by
  cases quoted with
  | true => exact .quoted .none form after
  | false =>
    cases after with
    | done forms =>
      have whole := forms.more .none form
      simpa using Completes.done whole
    | close forms outside =>
      refine .close (.more .none form forms) ?_
      simpa using outside

theorem opened {b : Bracket} {p : Position}
    (inside : Completes false (⟨b, p, items⟩ :: openings) [] cs es) :
    Completes quoted openings items (b.opener :: cs) es := by
  cases inside with
  | close forms outside =>
    refine .form ?_ outside
    cases b with
    | round => exact .list forms
    | square => exact .vector forms

theorem closed {o : Opening}
    (outside : Completes false openings (o.bracket.wrap items.reverse :: o.before) cs es) :
    Completes false (o :: openings) items (o.bracket.closer :: cs) es := by
  refine .close (.none .none) ?_
  simpa using outside

end Completes

namespace Reader
variable {p place : Position} {openings : List Opening} {items : List Element} {quoted : Bool}
variable {c : Char} {read : List Char} {kind : NameKind}

theorem resultCons {r : Reader} (accepted : r.result (c :: cs) = .ok es) :
    ∃ r', r.take c = .ok r' ∧ { r' with place := r'.place.after c }.result cs = .ok es := by
  obtain ⟨last, ran, done⟩ := okBind accepted
  obtain ⟨next, stepped, later⟩ := okBind ran
  obtain ⟨r', taken, moved⟩ := okBind stepped
  cases moved
  exact ⟨r', taken, by rw [result, later]; exact done⟩

theorem textSpelled (p : Position) (read : List Char) : (cs : List Char) →
    result ⟨p, .text place read, openings, items, quoted⟩ cs = .ok es →
      ∃ text rest, Spelled cs text rest
  | [], accepted => by cases accepted
  | c :: cs, accepted => by
    by_cases quote : c = '"'
    · exact quote ▸ ⟨[], cs, .closed⟩
    by_cases back : c = '\\'
    · subst back
      cases cs with
      | nil => cases accepted
      | cons c cs =>
        rw [textEscape] at accepted
        obtain ⟨text, rest, spelled⟩ := textSpelled _ _ cs accepted
        by_cases newline : c = 'n'
        · exact newline ▸ ⟨_, rest, .newline spelled⟩
        by_cases tab : c = 't'
        · exact tab ▸ ⟨_, rest, .tab spelled⟩
        exact ⟨_, rest, .itself newline tab spelled⟩
    rw [textGrows quote back] at accepted
    obtain ⟨text, rest, spelled⟩ := textSpelled _ _ cs accepted
    exact ⟨c :: text, rest, .plain quote back spelled⟩

theorem nameSplit (cs : List Char) :
    ∃ name rest, cs = name ++ rest ∧ (∀ c ∈ name, isDelimiter c = false) ∧ Stops rest := by
  induction cs with
  | nil => exact ⟨[], [], rfl, nofun, nofun⟩
  | cons c cs ih =>
    cases delimiter : isDelimiter c with
    | true =>
      refine ⟨[], c :: cs, rfl, nofun, ?_⟩
      rintro d ⟨⟩
      exact delimiter
    | false =>
      obtain ⟨name, rest, rfl, plain, stops⟩ := ih
      refine ⟨c :: name, rest, rfl, ?_, stops⟩
      simpa [delimiter] using plain

theorem nameEnded (stops : Stops rest)
    (accepted : result ⟨p, .name kind read, openings, items, quoted⟩ rest = .ok es) :
    ∃ e, kind.element read.reverse = .ok e := by
  cases named : kind.element read.reverse with
  | ok e => exact ⟨e, rfl⟩
  | error fault =>
    have failed : finishName ⟨p, .name kind read, openings, items, quoted⟩ kind read =
        .error ⟨p, fault⟩ := by
      simp [finishName, named, fail]
    cases rest with
    | nil =>
      simp only [resultNil, finish] at accepted
      obtain ⟨_, finished, _⟩ := okBind accepted
      cases failed.symm.trans finished
    | cons c rest =>
      obtain ⟨r', taken, _⟩ := resultCons accepted
      simp only [take, takeName, stops c rfl, if_true] at taken
      obtain ⟨_, finished, _⟩ := okBind taken
      cases failed.symm.trans finished

theorem nameCut (accepted :
    result ⟨p, .name kind read, openings, items, quoted⟩ cs = .ok es) :
    ∃ name rest e, cs = name ++ rest ∧ (∀ c ∈ name, isDelimiter c = false) ∧ Stops rest ∧
      kind.element (read.reverse ++ name) = .ok e := by
  obtain ⟨name, rest, rfl, plain, stops⟩ := nameSplit cs
  rw [nameGrows plain] at accepted
  obtain ⟨e, named⟩ := nameEnded stops accepted
  exact ⟨name, rest, e, rfl, plain, stops, by simpa using named⟩

theorem plainForm {name : List Char} (word : Word name rest) (unmarked : isUnmarked name = true)
    (named : NameKind.element .plain name = .ok e) : Form (name ++ rest) e rest := by
  obtain ⟨_, quote, colon, function⟩ := unmarkedWord.mp unmarked
  by_cases bar : name = ['|']
  · subst bar
    cases named
    exact .separator word
  by_cases bars : name = ['|', '|']
  · subst bars
    cases named
    exact .clearingSeparator word
  rw [symbolNamed bar bars] at named
  cases named
  exact .symbol word quote colon function bar bars

theorem plainCut (start : isUnmarked [c] = true)
    (whole : c = '#' → ∀ d ∈ cs.head?, d ≠ '\'')
    (accepted : result ⟨p, .name .plain [c], openings, items, quoted⟩ cs = .ok es) :
    ∃ e rest, Form (c :: cs) e rest := by
  obtain ⟨name, rest, e, rfl, plain, stops, named⟩ := nameCut accepted
  obtain ⟨here, quote, colon, _⟩ := unmarkedIff.mp start
  have inside : ∀ d ∈ c :: name, isDelimiter d = false := by simpa [here] using plain
  have unmarked : isUnmarked (c :: name) = true := by
    refine unmarkedIff.mpr ⟨inside, quote, colon, fun sharp d first => whole sharp d ?_⟩
    cases name with
    | nil => cases first
    | cons d name => exact first
  have word : Word (c :: name) rest := ⟨List.cons_ne_nil _ _, inside, stops⟩
  exact ⟨e, rest, plainForm word unmarked named⟩

theorem markedCut (kind : NameKind) (marked : kind ≠ .plain)
    (accepted : result ⟨p, .name kind [], openings, items, quoted⟩ cs = .ok es) :
    ∃ name rest, cs = name ++ rest ∧ Word name rest := by
  obtain ⟨name, rest, e, rfl, plain, stops, named⟩ := nameCut accepted
  refine ⟨name, rest, rfl, ?_, plain, stops⟩
  rintro rfl
  cases kind with
  | plain => exact marked rfl
  | option | function => cases named

theorem sharpCut (accepted : result ⟨p, .sharp, openings, items, quoted⟩ cs = .ok es) :
    ∃ e rest, Form ('#' :: cs) e rest := by
  by_cases function : cs.head? = some '\''
  · obtain ⟨cs, rfl⟩ := List.head?_eq_some_iff.mp function
    obtain ⟨name, rest, rfl, word⟩ := markedCut .function nofun (p := p.after '\'') accepted
    exact ⟨_, rest, .function word⟩
  · have other : ∀ d ∈ cs.head?, d ≠ '\'' := by
      rintro d first rfl
      exact function first
    rw [sharpPlain other] at accepted
    exact plainCut rfl (fun _ => other) accepted

theorem quoteNear (accepted : result ⟨p, .quote, openings, items, quoted⟩ cs = .ok es) :
    ∃ c later, cs = c :: later ∧ isBlank c = false := by
  cases cs with
  | nil => cases accepted
  | cons c later =>
    refine ⟨c, later, rfl, ?_⟩
    cases blank : isBlank c with
    | false => rfl
    | true =>
      obtain ⟨r', taken, _⟩ := resultCons accepted
      simp only [take, blank, if_true] at taken
      cases taken

def Meets (es : List Element) (cs : List Char) : Prop :=
  ∀ p openings items quoted, result ⟨p, .between, openings, items, quoted⟩ cs = .ok es →
    Completes quoted openings items cs es

theorem endMet : Meets es [] := by
  intro p openings items quoted accepted
  cases quoted with
  | true => cases accepted
  | false =>
    cases openings with
    | nil =>
      cases accepted
      simpa using Completes.done (.none .none)
    | cons o outer => cases accepted

theorem formMet (found : ∃ e rest, Form cs e rest)
    (shorter : ∀ later, later.length < cs.length → Meets es later)
    (accepted : result ⟨p, .between, openings, items, quoted⟩ cs = .ok es) :
    Completes quoted openings items cs es := by
  obtain ⟨e, rest, form⟩ := found
  obtain ⟨p', read⟩ := formRead p openings items quoted form
  have after : (ready p' openings (e :: items)).result rest = .ok es := read.symm.trans accepted
  exact .form form (shorter rest form.shorter p' openings (e :: items) false after)

-- A form that needs no bracket is passed as a whole; all else that begins here leaves what
-- follows its first character to a run over a shorter text.
theorem characterMet (shorter : ∀ later, later.length < (c :: cs).length → Meets es later) :
    Meets es (c :: cs) := by
  intro p openings items quoted accepted
  have next : Meets es cs := shorter cs (Nat.lt_succ_self _)
  obtain ⟨r', taken, later⟩ := resultCons accepted
  cases begunOf taken with
  | blank blank => exact (next _ _ _ _ later).skip (.blank blank .none)
  | comment =>
    by_cases ends : '\n' ∈ cs
    · obtain ⟨line, rest, rfl, inside⟩ := List.eq_append_cons_of_mem ends
      rw [lineSkipped inside] at later
      have less : rest.length < (';' :: (line ++ '\n' :: rest)).length := by
        simp only [List.length_cons, List.length_append]
        omega
      exact (shorter rest less _ _ _ _ later).skip (.comment inside .none)
    · rw [lastLineSkipped ends] at later
      exact (endMet _ _ _ _ later).skip (.lastComment ends)
  | opener b => exact .opened (next _ _ _ _ later)
  | closer level unquoted =>
    subst level unquoted
    exact .closed (next _ _ _ _ later)
  | text =>
    obtain ⟨text, rest, spelled⟩ := textSpelled _ _ cs later
    exact formMet ⟨_, rest, .text spelled⟩ shorter accepted
  | quote =>
    obtain ⟨d, cs, rfl, near⟩ := quoteNear later
    rw [quoteTaken near] at later
    cases next _ _ _ _ later with
    | quoted layout form after => exact .form (.quoted near layout form) after
  | sharp => exact formMet (sharpCut later) shorter accepted
  | option =>
    obtain ⟨name, rest, rfl, word⟩ := markedCut .option nofun later
    exact formMet ⟨_, rest, .option word⟩ shorter accepted
  | plain start sharp =>
    have cut := plainCut start (fun same => absurd same sharp) later
    exact formMet cut shorter accepted

theorem textMet (cs : List Char) : Meets es cs := by
  induction size : cs.length using Nat.strongRecOn generalizing cs with
  | ind n ih =>
    subst size
    cases cs with
    | nil => exact endMet
    | cons c cs => exact characterMet fun later less => ih _ less later rfl

end Reader

theorem readGrammar (source : String) (es : List Element) :
    readForm source = .ok es ↔ Forms source.toList es [] := by
  rw [Reader.readFormResult]
  constructor
  · intro accepted
    cases Reader.textMet _ _ _ _ _ accepted with
    | done forms => exact forms
  · intro forms
    obtain ⟨p, read⟩ := Reader.formsRead .first [] [] forms
    rw [Reader.start, read, Reader.completed]
    simp

end KeyForm
