import KeyForm.Proofs.Clearing
/-! Forms that end before their keys. Where only a separator ends the leading section, a
walk is still in it at the end exactly if the form has no separator, and without one only
options can have been taken. -/
namespace KeyForm

namespace Walk
variable {rules : Rules} {index : Nat} {es : List Element} {separated : Bool}
variable {live live' : Settings} {positional positional' : List Element}
variable {awaiting awaiting' : Option (Nat × OptionSpec)}

theorem leadingPlain (choice : rules.strategy = .explicit separated)
    (walked : advance rules ⟨live, .leading positional awaiting⟩ index es =
      .ok ⟨live', .leading positional' awaiting'⟩) : ∀ e ∈ es, e.isSeparator = false := by
  induction es generalizing live positional awaiting index with
  | nil => simp
  | cons e rest ih =>
    obtain ⟨next, here, later⟩ := okBind walked
    cases separator : e.isSeparator with
    | true =>
      obtain ⟨_, opened⟩ := separatorFree separator here
      cases advanceOpened opened later
    | false =>
      obtain ⟨_, _, _, rfl⟩ := leadingStays choice separator here
      exact List.forall_mem_cons.mpr ⟨separator, ih later⟩

-- The value stands alone at the front if its name was taken before.
def OptionsLeft (registry : Registry) : Option (Nat × OptionSpec) → List Element → Prop
  | none, es => LeadingForm registry 0 es
  | some (_, spec), es => ∃ value rest, es = value :: rest ∧ spec.kind = .setting ∧
    value.isSeparator = false ∧ spec.shape.accepts value = true ∧ LeadingForm registry 0 rest

theorem optionsLeft (choice : rules.strategy = .explicit false)
    (walked : advance rules ⟨live, .leading positional awaiting⟩ index es =
      .ok ⟨live', .leading positional' none⟩) : OptionsLeft rules.registry awaiting es := by
  induction es generalizing live positional awaiting index with
  | nil =>
    cases walked
    exact .nil
  | cons e rest ih =>
    have plain := leadingPlain choice walked e (by simp)
    obtain ⟨next, here, later⟩ := okBind walked
    cases awaiting with
    | some waiting =>
      obtain ⟨named, spec⟩ := waiting
      obtain ⟨_, accepted, next⟩ := valueTaken here
      cases kind : spec.kind with
      | setting =>
        simp only [kind] at next
        cases next
        have accepts : spec.shape.accepts e = true := by
          simpa [OptionSpec.accepts, kind] using accepted
        exact ⟨e, rest, rfl, kind, plain, accepts, ih later⟩
      | extendedMarker => simp [kind, misfit] at next
    | none =>
      cases e with
      | separator | clearingSeparator => cases plain
      | keyword name =>
        obtain ⟨spec, found, next⟩ := nameTaken here
        cases next
        obtain ⟨value, rest, rfl, kind, plain, accepts, tail⟩ := ih later
        exact .setting ⟨spec, found, kind, plain, accepts⟩ tail
      | symbol | str | vector | list | function =>
        simp [step, leadingStep, takeJudged, choice, Strategy.classify] at here

theorem optionsWalked (form : LeadingForm rules.registry 0 es) (live : Settings)
    (positional : List Element) (index : Nat) : ∃ live',
    advance rules ⟨live, .leading positional none⟩ index es =
      .ok ⟨live', .leading positional none⟩ := by
  generalize full : 0 = room at form
  induction form generalizing live index with
  | nil => exact ⟨live, rfl⟩
  | setting option tail ih =>
    rw [leadingSetting option]
    exact ih _ _ full
  | context => cases full

end Walk

structure Unreached (c : Compiler) (es : List Element) : Prop where
  uninferred : c.options.heuristic = false
  plain : es.any Element.isSeparator = false
  options : LeadingForm c.registry 0 es

theorem unreachedIff (c : Compiler) (es : List Element) :
    (∃ live positional,
      Walk.start.advance (c.rules es) 0 es = .ok ⟨live, .leading positional none⟩ ∧
      (c.rules es).strategy.allowsOpenEnd = false) ↔ Unreached c es := by
  constructor
  · rintro ⟨live, positional, walked, closed⟩
    cases choice : (c.rules es).strategy with
    | heuristic => simp [choice, Strategy.allowsOpenEnd] at closed
    | explicit separated =>
      have unseparated := Walk.leadingPlain choice walked
      have plain : es.any Element.isSeparator = false := by simpa using unseparated
      cases on : c.options.heuristic with
      | true =>
        rw [chosenInferred on plain] at choice
        cases choice
      | false =>
        have uninferred := chosenNone on plain
        exact ⟨on, plain, Walk.optionsLeft uninferred walked⟩
  · rintro ⟨off, plain, form⟩
    have options : LeadingForm (c.rules es).registry 0 es := form
    obtain ⟨live, walked⟩ := Walk.optionsWalked options .empty [] 0
    refine ⟨live, [], walked, ?_⟩
    rw [chosenNone off plain]
    rfl

end KeyForm
