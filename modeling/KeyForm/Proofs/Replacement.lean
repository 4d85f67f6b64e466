import Mathlib.Data.List.Forall2
import KeyForm.Proofs.Acceptance
import KeyForm.Proofs.Stream
/-! Elements put in place of others. Keys, definitions, extended entries and the values of
settings are never looked into further than to see that they fit, so a form with others that
fit is classified as before, token by token and with the same states in between. -/
namespace KeyForm

def TokenKind.isPayload : TokenKind → Bool
  | .keyAtom | .definitionAtom | .extendedEntry => true
  | _ => false

inductive NewPayload (token : Token) : Element → Prop where
  | key {e} (kind : token.kind = .keyAtom) (literal : e.isKeyLiteral = true) :
      NewPayload token e
  | definition {e} (kind : token.kind = .definitionAtom) (plain : e.isDefinition = true) :
      NewPayload token e
  | entry {items} (kind : token.kind = .extendedEntry) (some : items ≠ []) :
      NewPayload token (.list items)

inductive NewValue (token : Token) : Element → Prop where
  | setting {e spec} (kind : token.kind = .optionValue) (option : token.option = some spec)
      (setting : spec.kind = .setting) (plain : e.isSeparator = false)
      (accepted : spec.shape.accepts e = true) : NewValue token e

inductive Replaces (payloads values : Bool) (token : Token) : Element → Prop where
  | same : Replaces payloads values token token.element
  | payload {e} (free : payloads = true) (new : NewPayload token e) :
      Replaces payloads values token e
  | value {e} (free : values = true) (new : NewValue token e) : Replaces payloads values token e

def Token.with (token : Token) (e : Element) : Token := { token with element := e }

/-! The tokens of a form with new elements in it. -/

section
variable {registry : Registry} {strategy : Strategy} {c next : Classifier} {index : Nat}
variable {e e' : Element} {token : Token} {before : List (Token × Classifier)}
variable {payloads values : Bool}

theorem valueTaking {named : Nat} {spec : OptionSpec} (waits : c.awaiting = some (named, spec))
    (plain : e.isSeparator = false) (kind : spec.kind = .setting)
    (accepted : spec.shape.accepts e = true) :
    c.step registry strategy index e =
      .ok (⟨.optionValue, index, e, some spec⟩, { c with awaiting := none }) := by
  have takes : spec.accepts e = true := by simpa [OptionSpec.accepts, kind] using accepted
  simp [Classifier.step, waits, Classifier.takeValue, plain, takes, kind]

theorem literalTaking {named : Nat} {spec : OptionSpec} {items : List Element}
    (waits : c.awaiting = some (named, spec)) (kind : spec.kind = .extendedMarker)
    (phase : c.phase = .keys) (some : items ≠ []) :
    c.step registry strategy index (.list items) =
      .ok (⟨.extendedEntry, index, .list items, .some spec⟩, { c with awaiting := none }) := by
  have takes : spec.accepts (.list items) = true := by
    simp [OptionSpec.accepts, kind, Element.isList]
  simp [Classifier.step, waits, Classifier.takeValue, Element.isSeparator, takes, kind, phase,
    Element.isList, Element.isNil, some]

theorem keyTaking (free : c.awaiting = none) (opens : Opens strategy c index e)
    (mode : c.extendedOnly = false) (even : c.runLength % 2 = 0)
    (literal : e.isKeyLiteral = true) :
    c.step registry strategy index e = .ok (⟨.keyAtom, index, e, none⟩,
      { c with phase := .keys, runLength := c.runLength + 1 }) := by
  obtain ⟨phase, _, _, n⟩ := c
  obtain rfl : _ = none := free
  obtain rfl : _ = false := mode
  have even : n % 2 = 0 := even
  cases e with
  | str | vector =>
    rcases opens with reached | ⟨leading, judged⟩
    · obtain rfl : phase = .keys := reached
      simp [Classifier.step, Classifier.takeEntry, Element.isList, even, literal]
    · obtain rfl : phase = .leading := leading
      simp [Classifier.step, judged, Classifier.takeEntry, Element.isList, even, literal]
  | _ => cases literal

theorem definitionTaking (free : c.awaiting = none) (phase : c.phase = .keys)
    (mode : c.extendedOnly = false) (odd : c.runLength % 2 = 1)
    (plain : e.isDefinition = true) :
    c.step registry strategy index e = .ok (⟨.definitionAtom, index, e, none⟩,
      { c with phase := .keys, runLength := c.runLength + 1 }) := by
  cases e with
  | symbol | str | vector | function =>
    simp [Classifier.step, free, phase, Classifier.takeEntry, mode, Element.isList, odd]
  | _ => cases plain

theorem entryTaking {items : List Element} (free : c.awaiting = none) (phase : c.phase = .keys)
    (mode : c.extendedOnly = true) (some : items ≠ []) :
    c.step registry strategy index (.list items) =
      .ok (⟨.extendedEntry, index, .list items, none⟩, { c with phase := .keys }) := by
  obtain ⟨_, _, _, _⟩ := c
  obtain rfl : _ = none := free
  obtain rfl : _ = Phase.keys := phase
  obtain rfl : _ = true := mode
  simp [Classifier.step, Classifier.takeEntry, Element.isList, some]

theorem opensAgain (opens : Opens strategy c index e) (literal : e'.isKeyLiteral = true) :
    Opens strategy c index e' := by
  rcases opens with reached | ⟨leading, judged⟩
  · exact .inl reached
  · obtain ⟨rfl, _⟩ := classifiedKey judged
    exact .inr ⟨leading, by simp [Strategy.classify, literal]⟩

theorem payloadTaken (reached : Reached before c)
    (taken : Taken registry strategy c index e token next) (new : NewPayload token e') :
    c.step registry strategy index e' = .ok (token.with e', next) ∧
      e'.isSeparator = false ∧ e.isSeparator = false := by
  cases taken with
  | key free opens mode even literal =>
    cases new with
    | key _ literal' =>
      exact ⟨keyTaking free (opensAgain opens literal') mode even literal',
        literalPlain literal', literalPlain literal⟩
    | definition kind | entry kind => cases kind
  | definition free opens mode odd plain =>
    cases new with
    | definition _ plain' =>
      exact ⟨definitionTaking free (reached.within opens (.inl odd)) mode odd plain',
        definitionPlain plain', definitionPlain plain⟩
    | key kind | entry kind => cases kind
  | entry free opens mode _ =>
    cases new with
    | entry _ some' =>
      exact ⟨entryTaking free (reached.within opens (.inr mode)) mode some', rfl, rfl⟩
    | key kind | definition kind => cases kind
  | literal waits marker phase entry =>
    cases new with
    | entry _ some' =>
      refine ⟨literalTaking waits marker phase some', rfl, ?_⟩
      cases e <;> first | rfl | cases entry
    | key kind | definition kind => cases kind
  | name _ _ named =>
    rcases named with ⟨rfl, _⟩ | ⟨rfl, _⟩ <;> cases new <;> contradiction
  | _ => cases new <;> contradiction

theorem valueReplaced (taken : Taken registry strategy c index e token next)
    (new : NewValue token e') :
    c.step registry strategy index e' = .ok (token.with e', next) ∧
      e'.isSeparator = false ∧ e.isSeparator = false := by
  obtain ⟨kind, option, setting, plain', accepted'⟩ := new
  cases taken with
  | value waits plain =>
    cases option
    exact ⟨valueTaking waits plain' setting accepted', plain', plain⟩
  | mode _ _ _ marker =>
    cases option
    cases setting.symm.trans marker
  | name _ _ named => rcases named with ⟨rfl, _⟩ | ⟨rfl, _⟩ <;> cases kind
  | _ => cases kind

theorem stepReplaced (reached : Reached before c)
    (step : c.step registry strategy index e = .ok (token, next))
    (new : Replaces payloads values token e') :
    c.step registry strategy index e' = .ok (token.with e', next) ∧
      e'.isSeparator = e.isSeparator := by
  have taken := Taken.ofStep step
  cases new with
  | same =>
    obtain rfl : token.element = e := by cases taken <;> rfl
    exact ⟨step, rfl⟩
  | payload _ new =>
    obtain ⟨again, plain', plain⟩ := payloadTaken reached taken new
    exact ⟨again, plain'.trans plain.symm⟩
  | value _ new =>
    obtain ⟨again, plain', plain⟩ := valueReplaced taken new
    exact ⟨again, plain'.trans plain.symm⟩

def replacedTokens (tokens : List (Token × Classifier)) (es : List Element) :
    List (Token × Classifier) :=
  tokens.zipWith (fun p e => (p.1.with e, p.2)) es

-- The states of the classifier are the same in both runs, so what is known of a state by the
-- tokens before it is asked of the first run only.
theorem scanReplaced {es es' : List Element} (reached : Reached before c)
    (whole : (TokenStream.scan registry strategy c index es).failure = none)
    (new : List.Forall₂ (Replaces payloads values)
      ((TokenStream.scan registry strategy c index es).tokens.map Prod.fst) es') :
    TokenStream.scan registry strategy c index es' =
      ⟨replacedTokens (TokenStream.scan registry strategy c index es).tokens es', none⟩ ∧
    es'.any Element.isSeparator = es.any Element.isSeparator := by
  induction es generalizing before c index es' with
  | nil =>
    cases new
    exact ⟨by simpa [TokenStream.scan, replacedTokens] using whole, rfl⟩
  | cons e rest ih =>
    simp only [TokenStream.scan] at whole new ⊢
    cases step : c.step registry strategy index e with
    | error err => simp [step] at whole
    | ok p =>
      obtain ⟨token, next⟩ := p
      simp only [step, List.map_cons] at whole new ⊢
      cases new with
      | cons here others =>
        obtain ⟨again, separator⟩ := stepReplaced reached step here
        have onward := reached.add (reached.onward (Taken.ofStep step))
        obtain ⟨later, separators⟩ := ih onward whole others
        refine ⟨?_, by rw [List.any_cons, List.any_cons, separator, separators]⟩
        simp only [TokenStream.scan, again, later]
        rfl

end

theorem classifyReplaced {c : Compiler} {es es' : List Element} {payloads values : Bool}
    (whole : (c.classify es).failure = none)
    (new : List.Forall₂ (Replaces payloads values)
      ((c.classify es).tokens.map Prod.fst) es') :
    c.classify es' = ⟨replacedTokens (c.classify es).tokens es', none⟩ := by
  obtain ⟨again, separators⟩ := scanReplaced Reached.start whole new
  have chosen : Strategy.choose c.options.heuristic es' = .choose c.options.heuristic es := by
    simp only [Strategy.choose, separators]
  rw [Compiler.classify, chosen]
  exact again

end KeyForm
