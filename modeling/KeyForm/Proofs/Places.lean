import KeyForm.Proofs.Lines
/-! The places of reading errors. An error stands where the reader is, or where the string or
the innermost bracket began that is still open, and what the text has there is what the
message says. -/
namespace KeyForm

/-- How many backslashes the text ends in: an odd number escapes what follows. -/
def trailing (cs : List Char) : Nat := (cs.reverse.takeWhile (· = '\\')).length

def Unclosed (inside : List Char) : Prop :=
  ∀ before after, inside = before ++ '"' :: after → trailing before % 2 = 1

inductive Located : List Char → List Char → String → Prop where
  | openString {before inside} (unclosed : Unclosed inside) :
      Located before ('"' :: inside) "unterminated string"
  | openSequence {before inside es} (b : Bracket)
      (read : readForm (String.ofList inside) = .ok es) :
      Located before (b.opener :: inside) s!"unterminated sequence, expected '{b.closer}'"
  | strayCloser {before after} (b : Bracket) :
      Located before (b.closer :: after) s!"unexpected closing delimiter '{b.closer}'"
  | bareQuote {before after} (bare : ∀ c ∈ after.head?, isBlank c = true) :
      Located (before ++ ['\'']) after "quote must be followed by a form"
  | namelessOption {before after} (stops : Stops after) :
      Located (before ++ [':']) after "option name without a name"
  | namelessFunction {before after} (stops : Stops after) :
      Located (before ++ ['#', '\'']) after "function reference without a name"
  | endOfInput {before} : Located before [] "unexpected end of input"

theorem trailingSnoc (cs : List Char) (c : Char) :
    trailing (cs ++ [c]) = if c = '\\' then trailing cs + 1 else 0 := by
  unfold trailing
  split
  · next back => simp [back]
  · next other => simp [other]

theorem unclosedSnoc {inside : List Char} {c : Char} (unclosed : Unclosed inside)
    (escaped : c = '"' → trailing inside % 2 = 1) : Unclosed (inside ++ [c]) := by
  intro before after whole
  obtain rfl | ⟨middle, last, rfl⟩ := List.eq_nil_or_concat after
  · obtain ⟨rfl, quote⟩ := List.append_inj' whole rfl
    exact escaped (List.singleton_inj.mp quote)
  · rw [List.concat_eq_append, ← List.cons_append, ← List.append_assoc] at whole
    obtain ⟨earlier, -⟩ := List.append_inj' whole rfl
    exact unclosed before middle earlier

namespace Reader
variable {r s : Reader} {c : Char} {cs before after : List Char} {e : ReadError}
variable {kind : NameKind} {read : List Char}

def InText (before : List Char) (opened : Position) (escapes : Nat) : Prop :=
  ∃ head inside, before = head ++ '"' :: inside ∧ opened = Position.first.past head ∧
    Unclosed inside ∧ trailing inside % 2 = escapes

def ModeTraced (before : List Char) : Mode → Prop
  | .quote => ∃ head, before = head ++ ['\'']
  | .sharp => ∃ head, before = head ++ ['#']
  | .name .option [] => ∃ head, before = head ++ [':']
  | .name .function [] => ∃ head, before = head ++ ['#', '\'']
  | .text opened _ => InText before opened 0
  | .escape opened _ => InText before opened 1
  | _ => True

def Unfinished (before : List Char) (o : Opening) (outer : List Opening) (r : Reader) : Prop :=
  ∃ head inside alone, before = head ++ o.bracket.opener :: inside ∧
    o.place = Position.first.past head ∧ start.run inside = .ok alone ∧
    Nested (fun _ _ => True) (o :: outer) [] alone r

structure Traced (before : List Char) (r : Reader) : Prop where
  place : r.place = Position.first.past before
  mode : ModeTraced before r.mode
  openings : ∀ o outer, o :: outer <:+ r.openings → Unfinished before o outer r

inductive Nests (r : Reader) (c : Char) (s : Reader) : Prop where
  | within (levels : s.openings <:+ r.openings)
  | opened (b : Bracket) (items : List Element) (opener : c = b.opener)
      (fresh : s = ready r.place (⟨b, r.place, items⟩ :: r.openings) [])

theorem InText.snoc {opened : Position} {escapes : Nat} (text : InText before opened escapes)
    (escaped : c = '"' → escapes = 1) :
    InText (before ++ [c]) opened (if c = '\\' then (escapes + 1) % 2 else 0) := by
  obtain ⟨head, inside, rfl, place, unclosed, rfl⟩ := text
  refine ⟨head, inside ++ [c], by simp, place, unclosedSnoc unclosed escaped, ?_⟩
  rw [trailingSnoc]
  split
  · omega
  · rfl

theorem nameGrown (kind : NameKind) (c : Char) (read before : List Char) :
    ModeTraced before (.name kind (c :: read)) := by
  cases kind <;> trivial

theorem beginTraced (place : r.place = Position.first.past before) (begun : Begun r c s) :
    ModeTraced (before ++ [c]) s.mode ∧ Nests r c s := by
  have same : r.openings <:+ r.openings := List.suffix_rfl
  cases begun with
  | opener b => exact ⟨trivial, .opened b r.items rfl rfl⟩
  | closer level => exact ⟨trivial, .within (level ▸ List.suffix_cons ..)⟩
  | text => exact ⟨⟨before, [], rfl, place, by simp [Unclosed], rfl⟩, .within same⟩
  | quote | sharp | option => exact ⟨⟨before, rfl⟩, .within same⟩
  | plain => exact ⟨nameGrown .plain _ _ _, .within same⟩
  | blank | comment => exact ⟨trivial, .within same⟩

theorem takeTraced (place : r.place = Position.first.past before)
    (mode : ModeTraced before r.mode) (taken : r.take c = .ok s) :
    ModeTraced (before ++ [c]) s.mode ∧ Nests r c s := by
  have same : r.openings <:+ r.openings := List.suffix_rfl
  cases tookOf taken with
  | begun begun => exact beginTraced place begun
  | ended finished begun =>
    obtain ⟨here, level⟩ := finishNamePlace finished
    obtain ⟨traced, nests⟩ := beginTraced (here.trans place) begun
    refine ⟨traced, ?_⟩
    cases nests with
    | within levels => exact .within (level ▸ levels)
    | opened b items opener fresh => exact .opened b items opener (here ▸ level ▸ fresh)
  | grown kind read => exact ⟨nameGrown .., .within same⟩
  | function sharp quote =>
    rw [sharp] at mode
    obtain ⟨head, rfl⟩ := mode
    exact ⟨⟨head, by simp [quote]⟩, .within same⟩
  | comment outside =>
    refine ⟨?_, .within same⟩
    obtain rfl | rfl := outside
    all_goals trivial
  | closed e => exact ⟨trivial, .within same⟩
  | text inside quote back =>
    rw [inside] at mode
    have grown := InText.snoc mode fun h => absurd h quote
    rw [if_neg back] at grown
    exact ⟨grown, .within same⟩
  | escape inside back =>
    rw [inside] at mode
    subst back
    exact ⟨InText.snoc mode nofun, .within same⟩
  | escaped inside =>
    rw [inside] at mode
    have grown := InText.snoc (c := c) mode fun _ => rfl
    simp only [Nat.reduceAdd, Nat.reduceMod, ite_self] at grown
    exact ⟨grown, .within same⟩

theorem unfinishedStep {o : Opening} {outer : List Opening}
    (unfinished : Unfinished before o outer r) (stepped : r.step c = .ok s)
    (stays : o :: outer <:+ s.openings) : Unfinished (before ++ [c]) o outer s := by
  obtain ⟨head, inside, alone, rfl, place, ran, nested⟩ := unfinished
  have along := stepNested (fun _ _ _ _ => trivial) nested c
  rw [stepped] at along
  cases along with
  | inl alike =>
    obtain ⟨next, own, kept⟩ := alike.toOk
    refine ⟨head, inside ++ [c], next, by simp, place, ?_, kept⟩
    rw [runAppend, ran]
    simp only [bind, Except.bind, run, own]
  | inr left =>
    obtain ⟨_, _, closed, level⟩ := left
    cases closed
    cases level
    exact absurd stays.length_le (Nat.not_succ_le_self _)

theorem tracedStep (traced : Traced before r) (stepped : r.step c = .ok s) :
    Traced (before ++ [c]) s := by
  obtain ⟨taken, took, moved⟩ := okBind stepped
  obtain ⟨mode, nests⟩ := takeTraced traced.place traced.mode took
  have place := takePlace took
  cases moved
  refine ⟨?_, mode, ?_⟩
  · rw [pastAppend, place, traced.place]
    rfl
  intro o outer level
  -- Only the bracket that this character opens has no run of its own yet.
  cases nests with
  | within levels =>
    exact unfinishedStep (traced.openings o outer (level.trans levels)) stepped level
  | opened b items opener fresh =>
    subst fresh
    rcases List.suffix_cons_iff.mp level with new | old
    · cases new
      have alone : start.run [] = .ok start := rfl
      exact ⟨before, [], start, by rw [opener], traced.place, alone, startNested trivial⟩
    · exact unfinishedStep (traced.openings o outer old) stepped level

theorem closeLocated {b : Bracket} (failed : r.closeBracket b = .error e) :
    e.place = r.place ∧ Located before (b.closer :: after) e.fault.message := by
  have stray : e = ⟨r.place, .strayCloser b⟩ := by
    unfold closeBracket at failed
    split at failed
    · split at failed
      · exact (Except.error.inj failed).symm
      · cases failed
    · exact (Except.error.inj failed).symm
  subst stray
  exact ⟨rfl, .strayCloser b⟩

theorem beginLocated (failed : r.begin c = .error e) :
    e.place = r.place ∧ Located before (c :: after) e.fault.message := by
  unfold begin at failed
  split at failed
  · cases failed
  split at failed
  case h_4 => exact closeLocated (b := .round) failed
  case h_5 => exact closeLocated (b := .square) failed
  all_goals cases failed

theorem finishNameLocated (mode : ModeTraced before (.name kind read)) (stops : Stops after)
    (failed : r.finishName kind read = .error e) :
    e.place = r.place ∧ Located before after e.fault.message := by
  unfold finishName at failed
  split at failed
  · cases failed
  next fault named =>
  cases failed
  refine ⟨rfl, ?_⟩
  unfold NameKind.element at named
  split at named
  case h_4 none =>
    cases List.reverse_eq_nil_iff.mp none
    obtain ⟨head, rfl⟩ := mode
    cases named
    exact .namelessOption stops
  case h_6 none =>
    cases List.reverse_eq_nil_iff.mp none
    obtain ⟨head, rfl⟩ := mode
    cases named
    exact .namelessFunction stops
  all_goals cases named

theorem takeNameLocated (mode : ModeTraced before (.name kind read))
    (failed : r.takeName kind read c = .error e) :
    e.place = r.place ∧ Located before (c :: after) e.fault.message := by
  unfold takeName at failed
  split at failed
  · next delimiter =>
    cases finished : r.finishName kind read with
    | error e' =>
      rw [finished] at failed
      cases failed
      refine finishNameLocated mode ?_ finished
      intro d first
      cases first
      exact delimiter
    | ok named =>
      rw [finished] at failed
      rw [← (finishNamePlace finished).1]
      exact beginLocated failed
  · cases failed

theorem takeLocated (mode : ModeTraced before r.mode) (failed : r.take c = .error e) :
    e.place = r.place ∧ Located before (c :: after) e.fault.message := by
  unfold take at failed
  split at failed
  case h_1 => exact beginLocated failed
  case h_3 quote =>
    split at failed
    · next blank =>
      rw [quote] at mode
      obtain ⟨head, rfl⟩ := mode
      cases failed
      exact ⟨rfl, .bareQuote (by simpa using blank)⟩
    · exact beginLocated failed
  case h_4 =>
    split at failed
    · cases failed
    · exact takeNameLocated (nameGrown ..) failed
  case h_5 named =>
    rw [named] at mode
    exact takeNameLocated mode failed
  case h_6 => split at failed <;> cases failed
  case h_2 | h_7 => cases failed

theorem settleLocated (mode : ModeTraced before r.mode)
    (here : r.place = Position.first.past before) (failed : r.settle = .error e) :
    ∃ head after, before = head ++ after ∧ e.place = Position.first.past head ∧
      Located head after e.fault.message := by
  have ends : Stops [] := nofun
  unfold settle at failed
  split at failed
  case h_3 quote =>
    rw [quote] at mode
    obtain ⟨head, rfl⟩ := mode
    cases failed
    exact ⟨_, [], by simp, here, .bareQuote nofun⟩
  case h_4 =>
    obtain ⟨place, located⟩ := finishNameLocated (nameGrown ..) ends failed
    exact ⟨before, [], by simp, place.trans here, located⟩
  case h_5 named =>
    rw [named] at mode
    obtain ⟨place, located⟩ := finishNameLocated mode ends failed
    exact ⟨before, [], by simp, place.trans here, located⟩
  case h_6 text | h_7 text =>
    rw [text] at mode
    obtain ⟨head, inside, whole, place, unclosed, _⟩ := mode
    cases failed
    exact ⟨head, _, whole, place, .openString unclosed⟩
  all_goals cases failed

theorem unfinishedRead {o : Opening} {outer : List Opening}
    (unfinished : Unfinished before o outer r) (settled : r.settle = .ok s)
    (level : s.openings = o :: outer) (unquoted : s.quoted = false) :
    ∃ head inside es, before = head ++ o.bracket.opener :: inside ∧
      o.place = Position.first.past head ∧ readForm (String.ofList inside) = .ok es := by
  obtain ⟨head, inside, alone, whole, place, ran, nested⟩ := unfinished
  have along := settleNested nested
  rw [settled] at along
  obtain ⟨own, done, same⟩ := along.toOk
  have ground : own.openings = [] := by
    have depth := same.levels.outside
    rw [level] at depth
    exact List.length_eq_zero_iff.mp (by omega)
  refine ⟨head, inside, own.items.reverse, whole, place, ?_⟩
  rw [readFormResult, String.toList_ofList, result, ran]
  simp only [bind, Except.bind]
  rw [finishSettled, done]
  simp [bind, Except.bind, complete, ground, same.quoted, unquoted]

theorem finishLocated (traced : Traced before r) (failed : r.finish = .error e) :
    ∃ head after, before = head ++ after ∧ e.place = Position.first.past head ∧
      Located head after e.fault.message := by
  rw [finishSettled] at failed
  cases settled : r.settle with
  | error e' =>
    rw [settled] at failed
    cases failed
    exact settleLocated traced.mode traced.place settled
  | ok s =>
    rw [settled] at failed
    obtain ⟨here, levels⟩ := settlePlace settled
    obtain rfl | ⟨o, outer, level, unquoted, rfl⟩ := completeFails failed
    · exact ⟨before, [], by simp, here.trans traced.place, .endOfInput⟩
    · have within : o :: outer <:+ r.openings :=
        level.symm.trans levels ▸ List.suffix_rfl
      obtain ⟨head, inside, es, whole, place, read⟩ :=
        unfinishedRead (traced.openings o outer within) settled level unquoted
      exact ⟨head, _, whole, place, .openSequence o.bracket read⟩

theorem resultLocated (traced : Traced before r) (failed : r.result cs = .error e) :
    ∃ head after, before ++ cs = head ++ after ∧ e.place = Position.first.past head ∧
      Located head after e.fault.message := by
  -- What has been read moves from `cs` to `before`, so the text is always the same.
  induction cs generalizing before r with
  | nil =>
    rw [List.append_nil]
    exact finishLocated traced failed
  | cons c cs ih =>
    cases taken : r.take c with
    | error e' =>
      simp only [result, run, step, taken] at failed
      cases failed
      obtain ⟨place, located⟩ := takeLocated traced.mode taken
      exact ⟨before, c :: cs, rfl, place.trans traced.place, located⟩
    | ok next =>
      rw [resultTake taken] at failed
      have stepped : r.step c = .ok { next with place := next.place.after c } := by
        rw [step, taken]
        rfl
      have later := ih (tracedStep traced stepped) failed
      rwa [List.append_assoc] at later

theorem startTraced : Traced [] start := by
  refine ⟨rfl, trivial, ?_⟩
  intro o outer level
  cases List.suffix_nil.mp level

end Reader

theorem readErrorsLocated {source : String} {e : ReadError}
    (failed : readForm source = .error e) :
    ∃ before after, source.toList = before ++ after ∧
      e.place = ⟨1 + before.count '\n', 1 + (lastLine before).length⟩ ∧
      Located before after e.fault.message := by
  obtain ⟨before, after, whole, place, located⟩ :=
    Reader.resultLocated Reader.startTraced failed
  exact ⟨before, after, whole, place.trans (firstPast before), located⟩

theorem innermostLocated :
    readForm "(a\n [b" = .error ⟨⟨2, 2⟩, .openSequence .square⟩ ∧
    ∃ before after, "(a\n [b".toList = before ++ after ∧
      (⟨2, 2⟩ : Position) = ⟨1 + before.count '\n', 1 + (lastLine before).length⟩ ∧
      Located before after "unterminated sequence, expected ']'" := by
  have failed : readForm "(a\n [b" = .error ⟨⟨2, 2⟩, .openSequence .square⟩ := rfl
  exact ⟨failed, readErrorsLocated failed⟩

end KeyForm
