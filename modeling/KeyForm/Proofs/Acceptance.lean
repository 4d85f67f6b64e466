import KeyForm.Proofs.Grammar
/-! A walk that ends well leaves a derivation behind, so exactly the forms of the grammar
compile, and to the batches of their outline. -/
namespace KeyForm

section
variable {rules : Rules} {live : Settings} {y : Yield} {index : Nat} {es : List Element}
variable {batches : List Batch}

theorem valueTaken {named : Nat} {e : Element} {spec : OptionSpec}
    {next : Except CompileError Walk} {w : Walk}
    (taken : Walk.takeValue index e named spec next = .ok w) :
    e.isSeparator = false ∧ spec.accepts e = true ∧ next = .ok w := by
  unfold Walk.takeValue at taken
  split at taken
  · cases taken
  split at taken
  · cases taken
  exact ⟨by simpa using ‹¬ e.isSeparator = true›, by simpa using ‹¬ (!spec.accepts e) = true›,
    taken⟩

theorem nameTaken {registry : Registry} {name : String}
    {next : OptionSpec → Except CompileError Walk} {w : Walk}
    (taken : Walk.takeName registry index name next = .ok w) :
    ∃ spec, registry.get? name = some spec ∧ next spec = .ok w := by
  unfold Walk.takeName at taken
  split at taken
  · cases taken
  · exact ⟨_, ‹_›, taken⟩

theorem valueTurn {named : Nat} {spec : OptionSpec} {x : Bool}
    (ran : Walk.run rules ⟨live, .keys y (.value named spec x)⟩ index es = .ok batches) :
    ∃ value rest, es = value :: rest ∧ value.isSeparator = false ∧
      spec.accepts value = true ∧
      (Walk.valueStep live y spec x value).run rules (index + 1) rest = .ok batches := by
  cases es with
  | nil => cases ran
  | cons value rest =>
    obtain ⟨w, taken, later⟩ := okBind ran
    obtain ⟨plain, accepted, next⟩ := valueTaken taken
    cases next
    exact ⟨value, rest, rfl, plain, accepted, later⟩

theorem definitionTurn {place : Nat} {key : Element}
    (ran : Walk.run rules ⟨live, .keys y (.definition place key)⟩ index es = .ok batches) :
    ∃ definition rest, es = definition :: rest ∧ definition.isDefinition = true ∧
      Walk.run rules ⟨live, .keys (y.add (.plain key definition)) (.next false)⟩ (index + 1)
        rest = .ok batches := by
  cases es with
  | nil => cases ran
  | cons definition rest =>
    obtain ⟨w, taken, later⟩ := okBind ran
    cases definition with
    | separator | clearingSeparator | list => cases taken
    | keyword name =>
      obtain ⟨_, _, taken⟩ := nameTaken taken
      cases taken
    | symbol | str | vector | function =>
      cases taken
      exact ⟨_, rest, rfl, rfl, later⟩

end

def modeAfter (spec : OptionSpec) (value : Element) (x : Bool) : Bool :=
  match spec.kind with
  | .setting => x
  | .extendedMarker => if value.isList && !value.isNil then x else value.isTrue

theorem valueStepMode (live : Settings) (y : Yield) (spec : OptionSpec) (x : Bool)
    (value : Element) :
    ∃ live' y', Walk.valueStep live y spec x value =
      ⟨live', .keys y' (.next (modeAfter spec value x))⟩ := by
  cases kind : spec.kind with
  | setting =>
    simp only [Walk.valueStep, modeAfter, kind]
    exact ⟨_, _, rfl⟩
  | extendedMarker =>
    simp only [Walk.valueStep, modeAfter, kind]
    split <;> exact ⟨_, _, rfl⟩

theorem optionForm {registry : Registry} {x : Bool} {name : String} {spec : OptionSpec}
    {value : Element} {rest : List Element} (found : registry.get? name = some spec)
    (plain : value.isSeparator = false) (accepted : spec.accepts value = true)
    (tail : SectionForm registry (modeAfter spec value x) rest) :
    SectionForm registry x (.keyword name :: value :: rest) := by
  cases kind : spec.kind with
  | setting =>
    simp only [modeAfter, kind] at tail
    refine .setting ⟨spec, found, kind, plain, ?_⟩ tail
    simpa [OptionSpec.accepts, kind] using accepted
  | extendedMarker =>
    have marker : Marks registry name := ⟨spec, found, kind⟩
    simp only [modeAfter, kind] at tail
    simp only [OptionSpec.accepts, kind, Bool.or_eq_true] at accepted
    cases value with
    | symbol s =>
      by_cases on : s = "t"
      · subst on
        exact .on marker tail
      · have off : s = "nil" := by
          simpa [Element.isTrue, Element.isNil, Element.isList, on] using accepted
        subst off
        exact .off marker (.inl rfl) tail
    | list items =>
      by_cases none : items = []
      · subst none
        exact .off marker (.inr rfl) tail
      · simp [Element.isList, Element.isNil, none] at tail
        exact .literal marker none tail
    | _ => simp [Element.isTrue, Element.isNil, Element.isList] at accepted

def Continues (registry : Registry) (x : Bool) (es : List Element) : Prop :=
  ∃ (body : List Element) (sections : List Section),
    es = body ++ sections.flatMap Section.elements ∧ SectionForm registry x body ∧
    ∀ s ∈ sections, SectionForm registry false s.body

theorem Continues.after {registry : Registry} {x x' : Bool} {es : List Element}
    (item : List Element) (h : Continues registry x' es)
    (add : ∀ {body}, SectionForm registry x' body → SectionForm registry x (item ++ body)) :
    Continues registry x (item ++ es) := by
  obtain ⟨body, sections, rfl, form, forms⟩ := h
  exact ⟨item ++ body, sections, by simp, add form, forms⟩

def Sectioned (registry : Registry) (es : List Element) : Prop :=
  ∃ sections : List Section, sections ≠ [] ∧ es = sections.flatMap Section.elements ∧
    ∀ s ∈ sections, SectionForm registry false s.body

theorem Continues.opened {registry : Registry} {es : List Element} (clearing : Bool)
    (h : Continues registry false es) :
    Sectioned registry ((if clearing then .clearingSeparator else .separator) :: es) := by
  obtain ⟨body, sections, rfl, form, forms⟩ := h
  exact ⟨⟨clearing, body⟩ :: sections, by simp, by simp [Section.elements],
    List.forall_mem_cons.mpr ⟨form, forms⟩⟩

theorem Sectioned.continues {registry : Registry} {es : List Element} (x : Bool)
    (h : Sectioned registry es) : Continues registry x es := by
  obtain ⟨sections, _, rfl, forms⟩ := h
  exact ⟨[], sections, rfl, .nil, forms⟩

theorem Continues.unseparated {registry : Registry} {x : Bool} {es : List Element}
    (plain : es.any Element.isSeparator = false) (h : Continues registry x es) :
    SectionForm registry x es := by
  obtain ⟨body, sections, rfl, form, _⟩ := h
  cases sections with
  | nil => simpa using form
  | cons s rest => obtain ⟨_ | _, _⟩ := s <;> simp [Section.elements, Element.isSeparator] at plain

theorem itemTaken {live : Settings} {y : Yield} {x : Bool} {index : Nat}
    {e : Element} {w : Walk} (taken : Walk.takeItem live y x index e = .ok w) :
    (x = true ∧ (∃ items, e = .list items ∧ items ≠ []) ∧
      w = ⟨live, .keys (y.add (.extended e)) (.next true)⟩) ∨
    (x = false ∧ e.isKeyLiteral = true ∧ w = ⟨live, .keys y (.definition index e)⟩) := by
  unfold Walk.takeItem Walk.misfit at taken
  cases x with
  | true =>
    cases e with
    | list items =>
      by_cases none : items = []
      · simp [none] at taken
      · simp [none, Element.isList] at taken
        exact .inl ⟨rfl, ⟨items, rfl, none⟩, taken.symm⟩
    | _ => simp [Element.isList] at taken
  | false =>
    cases e with
    | str | vector =>
      simp [Element.isList, Element.isKeyLiteral] at taken
      exact .inr ⟨rfl, rfl, taken.symm⟩
    | _ => simp [Element.isList, Element.isKeyLiteral] at taken

-- An option and a pair take two elements at once, so the recursion is on the length of the
-- form and not on its elements.
theorem sectionsForm {rules : Rules} {live : Settings} {y : Yield} {x : Bool} {index : Nat}
    {es : List Element} {batches : List Batch}
    (ran : Walk.run rules ⟨live, .keys y (.next x)⟩ index es = .ok batches) :
    Continues rules.registry x es := by
  match es with
  | [] => exact ⟨[], [], rfl, .nil, by simp⟩
  | e :: rest =>
    obtain ⟨w, taken, later⟩ := okBind ran
    rw [stepNext] at taken
    cases e with
    | separator =>
      cases taken
      exact ((sectionsForm (x := false) later).opened false).continues x
    | clearingSeparator =>
      cases taken
      exact ((sectionsForm (x := false) later).opened true).continues x
    | keyword name =>
      obtain ⟨spec, found, next⟩ := nameTaken taken
      cases next
      obtain ⟨value, rest, rfl, plain, accepted, later⟩ := valueTurn later
      obtain ⟨live, y, next⟩ := valueStepMode live y spec x value
      rw [next] at later
      exact (sectionsForm later).after [.keyword name, value] (optionForm found plain accepted)
    | list items =>
      rcases itemTaken taken with ⟨rfl, ⟨_, shape, some⟩, rfl⟩ | ⟨_, literal, _⟩
      · cases shape
        exact (sectionsForm later).after [_] (.entry some)
      · cases literal
    | symbol | function | str | vector =>
      rcases itemTaken taken with ⟨_, ⟨_, shape, _⟩, _⟩ | ⟨rfl, literal, rfl⟩
      · cases shape
      · obtain ⟨definition, rest, rfl, plain, later⟩ := definitionTurn later
        exact (sectionsForm later).after [_, definition] (.pair literal plain)
termination_by es.length

/-! The leading section ends at a separator, at the first key, or with the form. -/

inductive Ends (strategy : Strategy) : List Element → Prop where
  | closed (some : strategy.allowsOpenEnd = true) : Ends strategy []
  | separator {e rest} (h : e.isSeparator = true) : Ends strategy (e :: rest)
  | key {e rest} (inferred : strategy = .heuristic) (literal : e.isKeyLiteral = true) :
      Ends strategy (e :: rest)

theorem contextTaken {live : Settings} {positional : List Element} {index : Nat} {e : Element}
    {w : Walk} (taken : Walk.takeContext live positional index e = .ok w) :
    ∃ live' positional', w = ⟨live', .leading positional' none⟩ ∧
      positional'.length = positional.length + 1 ∧ positional.length < 2 := by
  match positional with
  | [] | [_] => cases taken; exact ⟨_, _, rfl, rfl, by simp⟩
  | _ :: _ :: _ => cases taken

theorem classifiedContext {strategy : Strategy} {index : Nat} {e : Element}
    (h : strategy.classify index e = .ok .contextValue) : e.isTarget = true := by
  cases strategy with
  | explicit separated =>
    cases separated <;> cases target : e.isTarget <;> cases literal : e.isKeyLiteral <;>
      simp_all [Strategy.classify]
  | heuristic =>
    cases target : e.isTarget <;> cases literal : e.isKeyLiteral <;>
      simp_all [Strategy.classify]

theorem classifiedKey {strategy : Strategy} {index : Nat} {e : Element}
    (h : strategy.classify index e = .ok .keySectionStart) :
    strategy = .heuristic ∧ e.isKeyLiteral = true := by
  cases strategy with
  | explicit separated =>
    cases separated <;> cases target : e.isTarget <;> cases literal : e.isKeyLiteral <;>
      simp_all [Strategy.classify]
  | heuristic =>
    cases target : e.isTarget <;> cases literal : e.isKeyLiteral <;>
      simp_all [Strategy.classify]

theorem leadingValueTurn {rules : Rules} {live : Settings} {positional : List Element}
    {index named : Nat} {spec : OptionSpec} {es : List Element} {batches : List Batch}
    (ran : Walk.run rules ⟨live, .leading positional (some (named, spec))⟩ index es =
      .ok batches) :
    ∃ value rest, es = value :: rest ∧ spec.kind = .setting ∧ value.isSeparator = false ∧
      spec.accepts value = true ∧ ∃ live,
        Walk.run rules ⟨live, .leading positional none⟩ (index + 1) rest = .ok batches := by
  cases es with
  | nil => cases ran
  | cons value rest =>
    obtain ⟨w, taken, later⟩ := okBind ran
    obtain ⟨plain, accepted, next⟩ := valueTaken taken
    cases kind : spec.kind with
    | extendedMarker => simp [kind, Walk.misfit] at next
    | setting =>
      simp only [kind] at next
      cases next
      exact ⟨value, rest, rfl, rfl, plain, accepted, _, later⟩

theorem leadingForm (room : Nat) {rules : Rules} {live : Settings} {positional : List Element}
    {index : Nat} {es : List Element} {batches : List Batch}
    (fits : positional.length + room = 2)
    (ran : Walk.run rules ⟨live, .leading positional none⟩ index es = .ok batches) :
    ∃ leading rest, es = leading ++ rest ∧ LeadingForm rules.registry room leading ∧
      Ends rules.strategy rest ∧
      ∃ live positional index,
        Walk.run rules ⟨live, .leading positional none⟩ index rest = .ok batches := by
  match es with
  | [] =>
    cases open' : rules.strategy.allowsOpenEnd with
    | true => exact ⟨[], [], rfl, .nil, .closed open', live, positional, index, ran⟩
    | false => simp [Walk.run, Walk.close, open'] at ran
  | e :: rest =>
    obtain ⟨w, taken, later⟩ := okBind ran
    cases e with
    | separator | clearingSeparator =>
      exact ⟨[], _, rfl, .nil, .separator rfl, live, positional, index, ran⟩
    | keyword name =>
      obtain ⟨spec, found, next⟩ := nameTaken taken
      cases next
      obtain ⟨value, rest, rfl, kind, plain, accepted, live, later⟩ := leadingValueTurn later
      have accepts : spec.shape.accepts value = true := by
        simpa [OptionSpec.accepts, kind] using accepted
      obtain ⟨leading, tail, rfl, form, ending⟩ := leadingForm room fits later
      exact ⟨.keyword name :: value :: leading, tail, rfl,
        .setting ⟨spec, found, kind, plain, accepts⟩ form, ending⟩
    | list | symbol | function | str | vector =>
      simp only [Walk.step, Walk.leadingStep, Walk.takeJudged] at taken
      split at taken
      · cases taken
      · rename_i classified
        obtain ⟨live', positional', rfl, longer, less⟩ := contextTaken taken
        obtain ⟨room, rfl⟩ : ∃ r, room = r + 1 := ⟨room - 1, by omega⟩
        have fits' : positional'.length + room = 2 := by omega
        obtain ⟨leading, tail, rfl, form, ending⟩ := leadingForm room fits' later
        exact ⟨_ :: leading, tail, rfl, .context (classifiedContext classified) form, ending⟩
      · rename_i classified
        obtain ⟨inferred, literal⟩ := classifiedKey classified
        exact ⟨[], _, rfl, .nil, .key inferred literal, live, positional, index, ran⟩
termination_by es.length

theorem openedForm {rules : Rules} {live : Settings} {positional : List Element}
    {index : Nat} {e : Element} {rest : List Element} {batches : List Batch}
    (separator : e.isSeparator = true)
    (ran : Walk.run rules ⟨live, .leading positional none⟩ index (e :: rest) = .ok batches) :
    Sectioned rules.registry (e :: rest) := by
  obtain ⟨w, taken, later⟩ := okBind ran
  cases e with
  | separator => cases taken; exact (sectionsForm (x := false) later).opened false
  | clearingSeparator => cases taken; exact (sectionsForm (x := false) later).opened true
  | _ => cases separator

theorem rulesSeparated (c : Compiler) {es : List Element}
    (separated : es.any Element.isSeparator = true) :
    c.rules es = ⟨c.registry, c.options.clearPolicy, .explicit true⟩ := by
  simp [Compiler.rules, Strategy.choose, separated]

theorem chosenSeparated (c : Compiler) {es : List Element}
    (separated : es.any Element.isSeparator = true) :
    (c.rules es).strategy = .explicit true := by
  rw [rulesSeparated c separated]

theorem chosenInferred {c : Compiler} {es : List Element} (on : c.options.heuristic = true)
    (plain : es.any Element.isSeparator = false) : (c.rules es).strategy = .heuristic := by
  simp [Compiler.rules, Strategy.choose, on, plain]

theorem chosenNone {c : Compiler} {es : List Element} (off : c.options.heuristic = false)
    (plain : es.any Element.isSeparator = false) :
    (c.rules es).strategy = .explicit false := by
  simp [Compiler.rules, Strategy.choose, off, plain]

theorem separatedForm {c : Compiler} {es : List Element} {batches : List Batch}
    (separated : es.any Element.isSeparator = true) (ok : c.compile es = .ok batches) :
    ∃ o : Outline, es = o.elements ∧ SeparatedForm c.registry o := by
  rw [compileWalks] at ok
  obtain ⟨leading, rest, rfl, form, ending, _, _, _, ran⟩ := leadingForm 2 rfl ok
  rw [chosenSeparated c separated] at ending
  cases ending with
  | closed some => cases some
  | key inferred => cases inferred
  | separator h =>
    obtain ⟨sections, some, same, forms⟩ := openedForm h ran
    exact ⟨⟨leading, sections⟩, by rw [same, Outline.elements], form, forms, some⟩

theorem inferredForm {c : Compiler} {es : List Element} {batches : List Batch}
    (plain : es.any Element.isSeparator = false) (ok : c.compile es = .ok batches) :
    c.options.heuristic = true ∧
      ∃ leading body, es = leading ++ body ∧ InferredForm c.registry leading body := by
  rw [compileWalks] at ok
  obtain ⟨leading, rest, rfl, form, ending, _, _, _, ran⟩ := leadingForm 2 rfl ok
  cases mode : c.options.heuristic with
  | false =>
    rw [chosenNone mode plain] at ending
    cases ending with
    | closed some => cases some
    | key inferred => cases inferred
    | separator h => simp [h] at plain
  | true =>
    have inferred := chosenInferred mode plain
    rw [inferred] at ending
    cases ending with
    | closed => exact ⟨rfl, leading, [], rfl, by simp, form, .nil⟩
    | separator h => simp [h] at plain
    | @key e rest _ literal =>
      have begins : ∀ k ∈ (e :: rest).head?, k.isKeyLiteral = true := by simpa using literal
      rw [openingKey inferred _ _ _ begins] at ran
      have later : (e :: rest).any Element.isSeparator = false := by
        rw [List.any_append, Bool.or_eq_false_iff] at plain
        exact plain.2
      exact ⟨rfl, leading, e :: rest, rfl, begins, form, (sectionsForm ran).unseparated later⟩

theorem separatedAny {registry : Registry} {o : Outline} (form : SeparatedForm registry o) :
    o.elements.any Element.isSeparator = true := by
  obtain ⟨leading, sections⟩ := o
  cases sections with
  | nil => exact absurd rfl form.separated
  | cons s rest =>
    obtain ⟨_ | _, _⟩ := s <;> simp [Outline.elements, Section.elements, Element.isSeparator]

theorem separatedCompiles {c : Compiler} {o : Outline} (form : SeparatedForm c.registry o) :
    c.compile o.elements = .ok (o.batches c.registry c.options.clearPolicy) := by
  have chosen := chosenSeparated c (separatedAny form)
  rw [compileWalks]
  exact separatedRun (by simp [chosen]) form

theorem inferredCompiles {c : Compiler} {leading body : List Element}
    (on : c.options.heuristic = true)
    (plain : (leading ++ body).any Element.isSeparator = false)
    (form : InferredForm c.registry leading body) :
    c.compile (leading ++ body) =
      .ok (Outline.batches c.registry c.options.clearPolicy ⟨leading, [⟨false, body⟩]⟩) := by
  rw [compileWalks]
  exact inferredRun (chosenInferred on plain) form

theorem compiledForms (c : Compiler) (es : List Element) :
    (∃ batches, c.compile es = .ok batches) ↔
      if es.any Element.isSeparator then
        ∃ o : Outline, es = o.elements ∧ SeparatedForm c.registry o
      else c.options.heuristic = true ∧
        ∃ leading body, es = leading ++ body ∧ InferredForm c.registry leading body := by
  cases separated : es.any Element.isSeparator with
  | true =>
    constructor
    · rintro ⟨batches, ok⟩
      exact separatedForm separated ok
    · rintro ⟨o, rfl, form⟩
      exact ⟨_, separatedCompiles form⟩
  | false =>
    constructor
    · rintro ⟨batches, ok⟩
      simpa using inferredForm separated ok
    · intro derived
      obtain ⟨on, leading, body, rfl, form⟩ := by simpa using derived
      exact ⟨_, inferredCompiles on separated form⟩

theorem compiledMeaning {c : Compiler} {es : List Element} {batches : List Batch}
    (ok : c.compile es = .ok batches) : batches = c.meaning es := by
  cases separated : es.any Element.isSeparator with
  | true =>
    obtain ⟨o, rfl, form⟩ := separatedForm separated ok
    have compiled := separatedCompiles form
    rw [ok] at compiled
    simp only [Compiler.meaning, outline, separated, cutForm form]
    simpa using compiled
  | false =>
    obtain ⟨on, leading, body, rfl, form⟩ := inferredForm separated ok
    have compiled := inferredCompiles on separated form
    rw [ok] at compiled
    have start := keyStartForm form.leading form.begins
    simp only [Compiler.meaning, outline, on, separated, start]
    simpa using compiled

def prefixedForm : List Element :=
  [.symbol "m", .separator, .str "a", .symbol "f", .keyword "prefix", .str "x",
   .clearingSeparator, .keyword "ext", .list [.str "z"], .str "b", .symbol "g"]

def prefixedBatches : List Batch :=
  let keymaps := Settings.set .empty keymapsName (.list [.symbol "m"])
  [⟨keymaps.set "prefix" (.str "x"), [.plain (.str "a") (.symbol "f")]⟩,
   ⟨keymaps, [.extended (.list [.str "z"]), .plain (.str "b") (.symbol "g")]⟩]

theorem prefixedMeaning :
    Compiler.compile ⟨.builtin, ⟨false, .preserveDefaults⟩⟩ prefixedForm = .ok prefixedBatches ∧
      prefixedBatches = Compiler.meaning ⟨.builtin, ⟨false, .preserveDefaults⟩⟩ prefixedForm :=
  ⟨rfl, compiledMeaning rfl⟩

end KeyForm
