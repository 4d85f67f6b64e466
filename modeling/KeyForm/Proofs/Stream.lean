import KeyForm.Compile.Cursor
import KeyForm.Proofs.Coupling
/-! What the tokens of a form can be, one next to the other. A token does not show the state
of the classifier, but the tokens before it tell as much of that state as matters for it;
and taken call by call the tokens come in the same order and end once. -/
namespace KeyForm

def TokenKind.namesOption : TokenKind → Bool
  | .optionName | .extendedMarker => true
  | _ => false

def TokenKind.reachesKeys : TokenKind → Bool
  | .sectionSeparator | .clearingSeparator | .keyAtom => true
  | _ => false

def lastToken (before : List (Token × Classifier)) : Option Token :=
  before.getLast?.map Prod.fst

def lastState (c : Classifier) (tokens : List (Token × Classifier)) : Classifier :=
  (tokens.getLast?.map Prod.snd).getD c

def entriesOnly (before : List (Token × Classifier)) : Bool :=
  (lastState .start before).extendedOnly

-- A separator ends the mode, and the value of a marker says what it is from there on.
def entriesOnlyWith (before : List (Token × Classifier)) (token : Token) : Bool :=
  match token.kind with
  | .sectionSeparator | .clearingSeparator => false
  | .optionValue =>
    if (lastToken before).any (·.kind = .extendedMarker) then token.element.isTrue
    else entriesOnly before
  | _ => entriesOnly before

structure Fits (before : List (Token × Classifier)) (token : Token) (next : Classifier) :
    Prop where
  context : token.kind = .contextValue → ∀ p ∈ before, p.1.kind.reachesKeys = false
  named : ∀ last ∈ lastToken before, last.kind.namesOption = true →
    (∃ spec, last.option = some spec ∧ token.option = some spec) ∧
    (token.kind = .optionValue ∨ last.kind = .extendedMarker ∧ token.kind = .extendedEntry)
  value : token.kind = .optionValue → ∃ last ∈ lastToken before, last.kind.namesOption = true
  key : token.kind = .keyAtom → token.element.isKeyLiteral = true ∧
    ∀ last ∈ lastToken before, last.kind ≠ .keyAtom
  definition : token.kind = .definitionAtom → ∃ last ∈ lastToken before, last.kind = .keyAtom
  marker : ∀ last ∈ lastToken before, last.kind = .extendedMarker →
    ∃ p ∈ before, p.1.kind.reachesKeys = true
  entry : token.kind = .extendedEntry →
    (∃ items, items ≠ [] ∧ token.element = .list items) ∧
    ((∃ last ∈ lastToken before, last.kind = .extendedMarker) ∨
      entriesOnly before = true ∧ next.extendedOnly = true)
  mode : next.extendedOnly = entriesOnlyWith before token
  entries : entriesOnly before = true →
    token.kind ≠ .contextValue ∧ token.kind ≠ .keyAtom ∧ token.kind ≠ .definitionAtom

structure Reached (before : List (Token × Classifier)) (c : Classifier) : Prop where
  phase : c.phase = .keys ↔ ∃ p ∈ before, p.1.kind.reachesKeys = true
  waiting : ∀ named spec, c.awaiting = some (named, spec) → ∃ last ∈ lastToken before,
    last.option = some spec ∧ (last.kind = .optionName ∧ spec.kind = .setting ∨
      last.kind = .extendedMarker ∧ spec.kind = .extendedMarker)
  free : c.awaiting = none → ∀ last ∈ lastToken before, last.kind.namesOption = false
  pace : c.runLength % 2 = 1 ↔ ∃ last ∈ lastToken before, last.kind = .keyAtom
  mode : c.extendedOnly = entriesOnly before
  leading : c.phase = .leading → c.extendedOnly = false
  entries : c.extendedOnly = true → c.runLength % 2 = 0

structure Onward (c : Classifier) (token : Token) (next : Classifier) : Prop where
  phase : next.phase = .keys ↔ c.phase = .keys ∨ token.kind.reachesKeys = true
  waiting : ∀ named spec, next.awaiting = some (named, spec) → token.option = some spec ∧
    (token.kind = .optionName ∧ spec.kind = .setting ∨
      token.kind = .extendedMarker ∧ spec.kind = .extendedMarker)
  free : next.awaiting = none → token.kind.namesOption = false
  pace : next.runLength % 2 = 1 ↔ token.kind = .keyAtom
  leading : next.phase = .leading → next.extendedOnly = false
  entries : next.extendedOnly = true → next.runLength % 2 = 0

section
variable {registry : Registry} {strategy : Strategy} {c next : Classifier} {index : Nat}
variable {e : Element} {token : Token} {before : List (Token × Classifier)}

@[simp] theorem lastTokenSnoc (before : List (Token × Classifier)) (token : Token)
    (next : Classifier) : lastToken (before ++ [(token, next)]) = some token := by
  simp [lastToken]

@[simp] theorem entriesOnlySnoc (before : List (Token × Classifier)) (token : Token)
    (next : Classifier) : entriesOnly (before ++ [(token, next)]) = next.extendedOnly := by
  simp [entriesOnly, lastState]

theorem lastMember {last : Token} (h : last ∈ lastToken before) :
    ∃ state, (last, state) ∈ before := by
  obtain ⟨p, found, rfl⟩ := Option.map_eq_some_iff.mp h
  exact ⟨p.2, List.mem_of_getLast? found⟩

namespace Reached

theorem start : Reached [] .start where
  phase := by simp [Classifier.start]
  waiting := nofun
  free := by simp [lastToken]
  pace := by simp [Classifier.start, lastToken]
  mode := rfl
  leading := fun _ => rfl
  entries := nofun

theorem notYet (reached : Reached before c) (phase : c.phase = .leading) :
    ∀ p ∈ before, p.1.kind.reachesKeys = false := by
  intro p mem
  cases opens : p.1.kind.reachesKeys with
  | false => rfl
  | true =>
    have keys := reached.phase.mpr ⟨p, mem, opens⟩
    simp [phase] at keys

theorem even (reached : Reached before c)
    (h : c.awaiting.isSome = true ∨ c.phase = .leading ∨ c.extendedOnly = true) :
    c.runLength % 2 = 0 := by
  rcases Nat.mod_two_eq_zero_or_one c.runLength with even | odd
  · exact even
  exfalso
  obtain ⟨last, found, key⟩ := reached.pace.mp odd
  rcases h with waits | phase | mode
  · obtain ⟨⟨named, spec⟩, waits⟩ := Option.isSome_iff_exists.mp waits
    obtain ⟨last', found', _, kind⟩ := reached.waiting named spec waits
    cases found.symm.trans found'
    rcases kind with ⟨kind, _⟩ | ⟨kind, _⟩ <;> simp [key] at kind
  · obtain ⟨state, mem⟩ := lastMember found
    have opens := reached.notYet phase _ mem
    simp [key, TokenKind.reachesKeys] at opens
  · have even := reached.entries mode
    omega

-- No element reaches the keys in the middle of an item.
theorem within (reached : Reached before c) (opens : Opens strategy c index e)
    (item : c.runLength % 2 = 1 ∨ c.extendedOnly = true) : c.phase = .keys := by
  rcases opens with phase | ⟨phase, _⟩
  · exact phase
  · have even := reached.even (.inr (.inl phase))
    have pairs := reached.leading phase
    rcases item with odd | mode
    · omega
    · simp [pairs] at mode

theorem add (reached : Reached before c) (onward : Onward c token next) :
    Reached (before ++ [(token, next)]) next where
  phase := by
    rw [onward.phase, reached.phase]
    simp [or_and_right, exists_or]
  waiting := by
    intro named spec waits
    exact ⟨token, by simp, onward.waiting named spec waits⟩
  free := by
    intro free last found
    rw [lastTokenSnoc] at found
    cases found
    exact onward.free free
  pace := by simp [onward.pace]
  mode := by simp
  leading := onward.leading
  entries := onward.entries

theorem onward (reached : Reached before c)
    (taken : Taken registry strategy c index e token next) : Onward c token next := by
  cases taken with
  | value waits =>
    have even := reached.even (.inl (by simp [waits]))
    refine ⟨?_, nofun, ?_, ?_, reached.leading, fun _ => even⟩ <;>
      simp [TokenKind.reachesKeys, TokenKind.namesOption, even]
  | mode waits _ _ _ phase =>
    have even := reached.even (.inl (by simp [waits]))
    refine ⟨?_, nofun, ?_, ?_, ?_, fun _ => even⟩ <;>
      simp [TokenKind.reachesKeys, TokenKind.namesOption, even, phase]
  | literal waits =>
    have even := reached.even (.inl (by simp [waits]))
    refine ⟨?_, nofun, ?_, ?_, reached.leading, fun _ => even⟩ <;>
      simp [TokenKind.reachesKeys, TokenKind.namesOption, even]
  | separator | clearingSeparator =>
    refine ⟨?_, nofun, ?_, ?_, nofun, nofun⟩ <;>
      simp [TokenKind.reachesKeys, TokenKind.namesOption]
  | name free found named =>
    refine ⟨?_, ?_, nofun, ?_, reached.leading, fun _ => rfl⟩
    · rcases named with ⟨rfl, _⟩ | ⟨rfl, _⟩ <;> simp [TokenKind.reachesKeys]
    · rintro _ _ ⟨⟩
      exact ⟨rfl, named⟩
    · rcases named with ⟨rfl, _⟩ | ⟨rfl, _⟩ <;> simp
  | context free phase =>
    have even := reached.even (.inr (.inl phase))
    refine ⟨?_, ?_, ?_, ?_, reached.leading, fun _ => even⟩ <;>
      simp [TokenKind.reachesKeys, TokenKind.namesOption, even, free]
  | key free opens pairs even =>
    refine ⟨?_, ?_, ?_, ?_, nofun, ?_⟩ <;>
      simp [TokenKind.reachesKeys, TokenKind.namesOption, free, pairs]
    omega
  | definition free opens pairs odd =>
    have phase := reached.within opens (.inl odd)
    refine ⟨?_, ?_, ?_, ?_, nofun, ?_⟩ <;>
      simp [TokenKind.reachesKeys, TokenKind.namesOption, free, pairs, phase]
    omega
  | entry free opens mode =>
    have phase := reached.within opens (.inr mode)
    have even := reached.entries mode
    refine ⟨?_, ?_, ?_, ?_, nofun, fun _ => even⟩ <;>
      simp [TokenKind.reachesKeys, TokenKind.namesOption, free, phase, even]

end Reached

namespace Taken

theorem leads (taken : Taken registry strategy c index e token next)
    (kind : token.kind = .contextValue) : c.phase = .leading := by
  cases taken with
  | context _ phase => exact phase
  | name _ _ named => rcases named with ⟨rfl, _⟩ | ⟨rfl, _⟩ <;> cases kind
  | _ => cases kind

theorem answers (taken : Taken registry strategy c index e token next) {named : Nat}
    {spec : OptionSpec} (waits : c.awaiting = some (named, spec)) :
    token.option = some spec ∧ (token.kind = .optionValue ∨
      spec.kind = .extendedMarker ∧ token.kind = .extendedEntry) ∧
    (spec.kind = .extendedMarker → c.phase = .keys) := by
  cases taken with
  | value waits' _ _ kind =>
    cases waits.symm.trans waits'
    exact ⟨rfl, .inl rfl, fun marker => by simp [kind] at marker⟩
  | mode waits' _ _ _ phase =>
    cases waits.symm.trans waits'
    exact ⟨rfl, .inl rfl, fun _ => phase⟩
  | literal waits' kind phase =>
    cases waits.symm.trans waits'
    exact ⟨rfl, .inr ⟨kind, rfl⟩, fun _ => phase⟩
  | separator free | clearingSeparator free | name free | context free | key free
  | definition free | entry free => simp [waits] at free

theorem opensPair (taken : Taken registry strategy c index e token next)
    (kind : token.kind = .keyAtom) :
    token.element.isKeyLiteral = true ∧ c.runLength % 2 = 0 ∧ c.extendedOnly = false := by
  cases taken with
  | key _ _ pairs even literal => exact ⟨literal, even, pairs⟩
  | name _ _ named => rcases named with ⟨rfl, _⟩ | ⟨rfl, _⟩ <;> cases kind
  | _ => cases kind

theorem closesPair (taken : Taken registry strategy c index e token next)
    (kind : token.kind = .definitionAtom) :
    c.runLength % 2 = 1 ∧ c.extendedOnly = false := by
  cases taken with
  | definition _ _ pairs odd => exact ⟨odd, pairs⟩
  | name _ _ named => rcases named with ⟨rfl, _⟩ | ⟨rfl, _⟩ <;> cases kind
  | _ => cases kind

theorem adds (taken : Taken registry strategy c index e token next)
    (kind : token.kind = .extendedEntry) :
    (∃ items, items ≠ [] ∧ token.element = .list items) ∧
    (c.awaiting.isSome = true ∨ c.extendedOnly = true ∧ next.extendedOnly = true) := by
  cases taken with
  | literal waits _ _ entry =>
    refine ⟨?_, .inl (by simp [waits])⟩
    cases e with
    | list items => exact ⟨items, by simpa [Element.isList, Element.isNil] using entry, rfl⟩
    | _ => simp [Element.isList] at entry
  | entry _ _ mode some => exact ⟨⟨_, some, rfl⟩, .inr ⟨mode, mode⟩⟩
  | name _ _ named => rcases named with ⟨rfl, _⟩ | ⟨rfl, _⟩ <;> cases kind
  | _ => cases kind

end Taken

namespace Reached

theorem asked (reached : Reached before c) {last : Token} (found : last ∈ lastToken before)
    (names : last.kind.namesOption = true) : ∃ named spec,
    c.awaiting = some (named, spec) ∧ last.option = some spec ∧
    (last.kind = .extendedMarker ↔ spec.kind = .extendedMarker) := by
  cases waits : c.awaiting with
  | none =>
    have other := reached.free waits last found
    simp [names] at other
  | some waiting =>
    obtain ⟨named, spec⟩ := waiting
    obtain ⟨last', found', option, kinds⟩ := reached.waiting named spec waits
    cases found.symm.trans found'
    refine ⟨named, spec, rfl, option, ?_⟩
    rcases kinds with ⟨name, kind⟩ | ⟨name, kind⟩ <;> simp [name, kind]

theorem asks (reached : Reached before c) (waits : c.awaiting.isSome = true) :
    ∃ last ∈ lastToken before, last.kind.namesOption = true := by
  obtain ⟨⟨named, spec⟩, waits⟩ := Option.isSome_iff_exists.mp waits
  obtain ⟨last, found, _, kinds⟩ := reached.waiting named spec waits
  refine ⟨last, found, ?_⟩
  rcases kinds with ⟨name, _⟩ | ⟨name, _⟩ <;> simp [name, TokenKind.namesOption]

theorem marked (reached : Reached before c) {named : Nat} {spec : OptionSpec}
    (waits : c.awaiting = some (named, spec)) :
    (lastToken before).any (·.kind = .extendedMarker) = decide (spec.kind = .extendedMarker) := by
  obtain ⟨last, found, _, kinds⟩ := reached.waiting named spec waits
  rw [Option.mem_def.mp found]
  rcases kinds with ⟨name, kind⟩ | ⟨name, kind⟩ <;> simp [name, kind]

theorem modeTaken (reached : Reached before c)
    (taken : Taken registry strategy c index e token next) :
    next.extendedOnly = entriesOnlyWith before token := by
  unfold entriesOnlyWith
  rw [← reached.mode]
  cases taken with
  | value waits _ _ kind => simp [reached.marked waits, kind]
  | mode waits _ _ kind => simp [reached.marked waits, kind]
  | name _ _ named => rcases named with ⟨rfl, _⟩ | ⟨rfl, _⟩ <;> rfl
  | literal | separator | clearingSeparator | context | key | definition | entry => rfl

theorem fits (reached : Reached before c)
    (taken : Taken registry strategy c index e token next) : Fits before token next where
  context := by
    intro kind
    exact reached.notYet (taken.leads kind)
  named := by
    intro last found names
    obtain ⟨named, spec, waits, option, marker⟩ := reached.asked found names
    obtain ⟨answered, kinds, _⟩ := taken.answers waits
    refine ⟨⟨spec, option, answered⟩, ?_⟩
    exact kinds.imp id fun ⟨kind, entry⟩ => ⟨marker.mpr kind, entry⟩
  value := by
    intro kind
    exact reached.asks (taken.waited kind)
  key := by
    intro kind
    obtain ⟨literal, even, _⟩ := taken.opensPair kind
    refine ⟨literal, fun last found key => ?_⟩
    have odd := reached.pace.mpr ⟨last, found, key⟩
    omega
  definition := by
    intro kind
    exact reached.pace.mp (taken.closesPair kind).1
  marker := by
    intro last found marker
    obtain ⟨named, spec, waits, _, kind⟩ := reached.asked found (by simp [marker,
      TokenKind.namesOption])
    have phase := (taken.answers waits).2.2 (kind.mp marker)
    exact reached.phase.mp phase
  entry := by
    intro kind
    obtain ⟨list, waits | ⟨mode, kept⟩⟩ := taken.adds kind
    · refine ⟨list, .inl ?_⟩
      obtain ⟨last, found, names⟩ := reached.asks waits
      obtain ⟨_, _, waits, _, marker⟩ := reached.asked found names
      obtain ⟨_, value | ⟨special, _⟩, _⟩ := taken.answers waits
      · simp [kind] at value
      · exact ⟨last, found, marker.mpr special⟩
    · exact ⟨list, .inr ⟨reached.mode ▸ mode, kept⟩⟩
  mode := reached.modeTaken taken
  entries := by
    intro mode
    rw [← reached.mode] at mode
    refine ⟨fun kind => ?_, fun kind => ?_, fun kind => ?_⟩
    · have pairs := reached.leading (taken.leads kind)
      simp [mode] at pairs
    · have pairs := (taken.opensPair kind).2.2
      simp [mode] at pairs
    · have pairs := (taken.closesPair kind).2
      simp [mode] at pairs

end Reached

theorem scannedReached {es : List Element} (reached : Reached before c)
    {first later : List (Token × Classifier)}
    (tokens : (TokenStream.scan registry strategy c before.length es).tokens =
      first ++ (token, next) :: later) :
    Fits (before ++ first) token next ∧ token.index = (before ++ first).length ∧
      es[first.length]? = some token.element := by
  induction first generalizing before c es with
  | nil =>
    obtain ⟨e, rest, rfl, step, _⟩ := scanned tokens
    have taken := Taken.ofStep step
    rw [List.append_nil]
    refine ⟨reached.fits taken, ?_⟩
    cases taken <;> exact ⟨rfl, rfl⟩
  | cons p first ih =>
    obtain ⟨e, rest, rfl, step, others⟩ := scanned tokens
    have onward := reached.add (reached.onward (Taken.ofStep step))
    have later := ih onward (by simpa using others)
    simpa using later

end

@[simp] theorem lastStateCons (c next : Classifier) (token : Token)
    (tokens : List (Token × Classifier)) :
    lastState c ((token, next) :: tokens) = lastState next tokens := by
  cases tokens <;> simp [lastState, List.getLast?_cons]

section
variable (registry : Registry) (strategy : Strategy)

theorem scanEnds (c : Classifier) (index : Nat) (es : List Element) :
    let s := TokenStream.scan registry strategy c index es
    (s.tokens.length = es.length ∧
      s.failure = (lastState c s.tokens).ending strategy (index + es.length)) ∨
    ∃ e err, es[s.tokens.length]? = some e ∧ s.failure = some err ∧
      (lastState c s.tokens).step registry strategy (index + s.tokens.length) e = .error err := by
  induction es generalizing c index with
  | nil => exact .inl ⟨rfl, rfl⟩
  | cons e rest ih =>
    simp only [TokenStream.scan]
    cases taken : c.step registry strategy index e with
    | error err => exact .inr ⟨e, err, rfl, rfl, taken⟩
    | ok p =>
      obtain ⟨token, next⟩ := p
      have later := ih next (index + 1)
      simpa [Nat.add_right_comm, Nat.add_assoc, Nat.add_comm 1] using later

theorem itemsRefused {c : Classifier} {index : Nat} {e : Element} {err : CompileError}
    (refused : c.step registry strategy index e = .error err) (rest : List Element) :
    (TokenStream.scan registry strategy c index (e :: rest)).items = [.error err] := by
  simp [TokenStream.scan, TokenStream.items, refused]

theorem itemsFitted {c next : Classifier} {index : Nat} {e : Element} {token : Token}
    (fitted : c.step registry strategy index e = .ok (token, next)) (rest : List Element) :
    (TokenStream.scan registry strategy c index (e :: rest)).items =
      .ok token :: (TokenStream.scan registry strategy next (index + 1) rest).items := by
  simp [TokenStream.scan, TokenStream.items, fitted]

theorem answersItems (c : Classifier) (index : Nat) (es : List Element) (n : Nat) :
    Cursor.answer registry strategy n ⟨c, index, es, false⟩ =
      (TokenStream.scan registry strategy c index es).items[n]? := by
  -- The call that meets the end, or an element that does not fit, sets `done`.
  induction es generalizing c index n with
  | nil =>
    have last : Cursor.next registry strategy ⟨c, index, [], false⟩ =
        ((c.ending strategy index).map .error, ⟨c, index, [], true⟩) := rfl
    have items : (TokenStream.scan registry strategy c index []).items =
        (c.ending strategy index).toList.map .error := rfl
    rw [items]
    cases n with
    | zero =>
      rw [Cursor.answer, Cursor.after, last]
      cases c.ending strategy index <;> rfl
    | succ n =>
      rw [Cursor.answerLater, last, Cursor.answerDone rfl]
      cases c.ending strategy index <;> rfl
  | cons e rest ih =>
    cases taken : c.step registry strategy index e with
    | error err =>
      have call : Cursor.next registry strategy ⟨c, index, e :: rest, false⟩ =
          (some (.error err), ⟨c, index + 1, rest, true⟩) := by simp [Cursor.next, taken]
      rw [itemsRefused registry strategy taken]
      cases n with
      | zero => rw [Cursor.answer, Cursor.after, call]; rfl
      | succ n => rw [Cursor.answerLater, call, Cursor.answerDone rfl]; rfl
    | ok p =>
      obtain ⟨token, next⟩ := p
      have call : Cursor.next registry strategy ⟨c, index, e :: rest, false⟩ =
          (some (.ok token), ⟨next, index + 1, rest, false⟩) := by simp [Cursor.next, taken]
      rw [itemsFitted registry strategy taken]
      cases n with
      | zero => rw [Cursor.answer, Cursor.after, call]; rfl
      | succ n => rw [Cursor.answerLater, call, ih]; rfl

theorem cursorState {c next : Classifier} {index : Nat} {es : List Element} {token : Token}
    {before later : List (Token × Classifier)}
    (tokens : (TokenStream.scan registry strategy c index es).tokens =
      before ++ (token, next) :: later) :
    (Cursor.after registry strategy (before.length + 1) ⟨c, index, es, false⟩).state = next := by
  induction before generalizing c index es with
  | nil =>
    obtain ⟨e, rest, rfl, taken, _⟩ := scanned tokens
    simp [Cursor.after, Cursor.next, taken]
  | cons p before ih =>
    obtain ⟨e, rest, rfl, taken, others⟩ := scanned tokens
    have further := ih others
    simpa [Cursor.after, Cursor.next, taken] using further

theorem itemBefore (es : List Element) {i : Nat}
    (inside : i < (TokenStream.ofForm registry strategy es).tokens.length) :
    ∃ token, (TokenStream.ofForm registry strategy es).items[i]? = some (.ok token) ∧
      token.index = i := by
  generalize form : TokenStream.ofForm registry strategy es = stream at inside ⊢
  obtain ⟨⟨token, next⟩, found⟩ : ∃ p, stream.tokens[i]? = some p :=
    ⟨_, List.getElem?_eq_getElem inside⟩
  have split : stream.tokens =
      stream.tokens.take i ++ (token, next) :: stream.tokens.drop (i + 1) := by
    rw [List.getElem?_eq_getElem inside] at found
    rw [← Option.some.inj found, List.getElem_cons_drop, List.take_append_drop]
  have begun : Reached [] .start := .start
  subst form
  obtain ⟨_, index, _⟩ := scannedReached begun split
  refine ⟨token, ?_, ?_⟩
  · rw [TokenStream.items, List.getElem?_append_left (by simpa using inside),
      List.getElem?_map, found]
    rfl
  · simpa [Nat.min_eq_left (Nat.le_of_lt inside)] using index

end

theorem streamShape (registry : Registry) (strategy : Strategy) (es : List Element) :
    let stream := TokenStream.ofForm registry strategy es
    (∀ n, (Cursor.start es).answer registry strategy n = stream.items[n]?) ∧
    (stream.tokens.length = es.length ∨
      ∃ e err, es[stream.tokens.length]? = some e ∧ stream.failure = some err ∧
        (lastState .start stream.tokens).step registry strategy stream.tokens.length e =
          .error err) ∧
    ∀ before token next later, stream.tokens = before ++ (token, next) :: later →
      token.index = before.length ∧ es[before.length]? = some token.element ∧
      ((Cursor.start es).after registry strategy (before.length + 1)).state = next ∧
      Fits before token next := by
  intro stream
  refine ⟨answersItems registry strategy .start 0 es, ?_, ?_⟩
  · rcases scanEnds registry strategy .start 0 es with
      ⟨whole, _⟩ | ⟨e, err, found, failure, refused⟩
    · exact .inl whole
    · rw [Nat.zero_add] at refused
      exact .inr ⟨e, err, found, failure, refused⟩
  · intro before token next later tokens
    have begun : Reached [] .start := .start
    obtain ⟨fits, index, element⟩ := scannedReached begun tokens
    exact ⟨index, element, cursorState registry strategy tokens, fits⟩

example : (TokenStream.ofForm .builtin (.explicit true)
    [.symbol "m", .separator, .keyword "prefix", .str "x", .keyword "ext", .list [.str "b"],
      .str "a", .symbol "f", .keyword "ext", .symbol "t", .list [.str "c"]]).tokens.map
      (fun p => (p.1.kind, p.2.extendedOnly)) =
    [(.contextValue, false), (.sectionSeparator, false), (.optionName, false),
      (.optionValue, false), (.extendedMarker, false), (.extendedEntry, false),
      (.keyAtom, false), (.definitionAtom, false), (.extendedMarker, false),
      (.optionValue, true), (.extendedEntry, true)] := rfl

-- An error is given once, and the calls after it give nothing.
example : (List.range 3).map (fun n =>
    (Cursor.start [.separator, .list [], .str "b"]).answer .builtin (.explicit true) n) =
    [some (.ok ⟨.sectionSeparator, 0, .separator, none⟩),
      some (.error (.malformed 1 (.looseList (.list [])))), none] := rfl

end KeyForm
