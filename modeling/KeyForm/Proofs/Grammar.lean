import KeyForm.Proofs.OnePass
/-! The forms that compile, as a grammar over elements. A form that derives is walked to
its end, item by item, with the settings and entries that its outline gives; and a walk
that reaches its end leaves a derivation behind. -/
namespace KeyForm

def Sets (registry : Registry) (name : String) (value : Element) : Prop :=
  ∃ spec, registry.get? name = some spec ∧ spec.kind = .setting ∧
    value.isSeparator = false ∧ spec.shape.accepts value = true

def Marks (registry : Registry) (name : String) : Prop :=
  ∃ spec, registry.get? name = some spec ∧ spec.kind = .extendedMarker

def Element.isDefinition : Element → Bool
  | .symbol _ | .str _ | .vector _ | .function _ => true
  | .keyword _ | .list _ | .separator | .clearingSeparator => false

/-- A leading section with room for so many context values. -/
inductive LeadingForm (registry : Registry) : Nat → List Element → Prop where
  | nil {room} : LeadingForm registry room []
  | setting {room name value rest} (option : Sets registry name value)
      (tail : LeadingForm registry room rest) :
      LeadingForm registry room (.keyword name :: value :: rest)
  | context {room e rest} (target : e.isTarget = true)
      (tail : LeadingForm registry room rest) : LeadingForm registry (room + 1) (e :: rest)

/-- A section of keys, begun for extended entries only or for keys and definitions. -/
inductive SectionForm (registry : Registry) : Bool → List Element → Prop where
  | nil {extendedOnly} : SectionForm registry extendedOnly []
  | setting {extendedOnly name value rest} (option : Sets registry name value)
      (tail : SectionForm registry extendedOnly rest) :
      SectionForm registry extendedOnly (.keyword name :: value :: rest)
  | on {extendedOnly name rest} (marker : Marks registry name)
      (tail : SectionForm registry true rest) :
      SectionForm registry extendedOnly (.keyword name :: .symbol "t" :: rest)
  | off {extendedOnly name value rest} (marker : Marks registry name)
      (none : value = .symbol "nil" ∨ value = .list [])
      (tail : SectionForm registry false rest) :
      SectionForm registry extendedOnly (.keyword name :: value :: rest)
  | literal {extendedOnly name items rest} (marker : Marks registry name) (some : items ≠ [])
      (tail : SectionForm registry extendedOnly rest) :
      SectionForm registry extendedOnly (.keyword name :: .list items :: rest)
  | pair {key definition rest} (literal : key.isKeyLiteral = true)
      (plain : definition.isDefinition = true) (tail : SectionForm registry false rest) :
      SectionForm registry false (key :: definition :: rest)
  | entry {items rest} (some : items ≠ []) (tail : SectionForm registry true rest) :
      SectionForm registry true (.list items :: rest)

structure SeparatedForm (registry : Registry) (o : Outline) : Prop where
  leading : LeadingForm registry 2 o.leading
  sections : ∀ s ∈ o.sections, SectionForm registry false s.body
  separated : o.sections ≠ []

structure InferredForm (registry : Registry) (leading body : List Element) : Prop where
  begins : ∀ e ∈ body.head?, e.isKeyLiteral = true
  leading : LeadingForm registry 2 leading
  body : SectionForm registry false body

/-! A derived form has no separators but those between its sections. -/

theorem targetPlain {e : Element} (target : e.isTarget = true) : e.isSeparator = false := by
  cases e <;> first | rfl | cases target

theorem literalPlain {e : Element} (literal : e.isKeyLiteral = true) :
    e.isSeparator = false := by
  cases e <;> first | rfl | cases literal

theorem definitionPlain {e : Element} (plain : e.isDefinition = true) :
    e.isSeparator = false := by
  cases e <;> first | rfl | cases plain

theorem nilPlain {e : Element} (none : e = .symbol "nil" ∨ e = .list []) :
    e.isSeparator = false := by
  rcases none with rfl | rfl <;> rfl

theorem leadingUnseparated {registry : Registry} {room : Nat} {es : List Element}
    (form : LeadingForm registry room es) : ∀ e ∈ es, e.isSeparator = false := by
  induction form with
  | nil => simp
  | setting option tail ih =>
    obtain ⟨_, _, _, plain, _⟩ := option
    exact List.forall_mem_cons.mpr ⟨rfl, List.forall_mem_cons.mpr ⟨plain, ih⟩⟩
  | context target tail ih => exact List.forall_mem_cons.mpr ⟨targetPlain target, ih⟩

theorem sectionUnseparated {registry : Registry} {x : Bool} {es : List Element}
    (form : SectionForm registry x es) : ∀ e ∈ es, e.isSeparator = false := by
  induction form with
  | nil => simp
  | setting option tail ih =>
    obtain ⟨_, _, _, plain, _⟩ := option
    exact List.forall_mem_cons.mpr ⟨rfl, List.forall_mem_cons.mpr ⟨plain, ih⟩⟩
  | on marker tail ih | literal marker some tail ih =>
    exact List.forall_mem_cons.mpr ⟨rfl, List.forall_mem_cons.mpr ⟨rfl, ih⟩⟩
  | off marker none tail ih =>
    exact List.forall_mem_cons.mpr ⟨rfl, List.forall_mem_cons.mpr ⟨nilPlain none, ih⟩⟩
  | pair literal plain tail ih =>
    exact List.forall_mem_cons.mpr ⟨literalPlain literal,
      List.forall_mem_cons.mpr ⟨definitionPlain plain, ih⟩⟩
  | entry some tail ih => exact List.forall_mem_cons.mpr ⟨rfl, ih⟩

theorem cutAppend {first : List Element} (plain : ∀ e ∈ first, e.isSeparator = false)
    (later : List Element) :
    cut (first ++ later) = ⟨first ++ (cut later).leading, (cut later).sections⟩ := by
  induction first with
  | nil => rfl
  | cons e rest ih =>
    have here := plain e (by simp)
    have tail := ih fun e mem => plain e (by simp [mem])
    cases e <;> simp_all [cut, Element.isSeparator]

theorem cutSections {sections : List Section}
    (plain : ∀ s ∈ sections, ∀ e ∈ s.body, e.isSeparator = false) :
    cut (sections.flatMap Section.elements) = ⟨[], sections⟩ := by
  induction sections with
  | nil => rfl
  | cons s rest ih =>
    have tail := ih fun s mem => plain s (by simp [mem])
    have body := cutAppend (plain s (by simp)) (rest.flatMap Section.elements)
    obtain ⟨clearing, body⟩ := s
    cases clearing <;> simp_all [Section.elements, cut]

theorem cutForm {registry : Registry} {o : Outline} (form : SeparatedForm registry o) :
    cut o.elements = o := by
  have sections := cutSections fun s mem => sectionUnseparated (form.sections s mem)
  rw [Outline.elements, cutAppend (leadingUnseparated form.leading), sections]
  simp

theorem keyStartForm {registry : Registry} {leading body : List Element} {room : Nat}
    (form : LeadingForm registry room leading)
    (begins : ∀ e ∈ body.head?, e.isKeyLiteral = true) :
    keyStart (leading ++ body) = leading.length := by
  induction form with
  | nil =>
    cases body with
    | nil => rfl
    | cons e rest =>
      have literal := begins e (by simp)
      cases e <;> simp_all [keyStart, Element.isKeyLiteral]
  | setting option tail ih => simp [keyStart, ih]
  | @context _ e _ target tail ih =>
    cases e <;> simp_all [keyStart, Element.isKeyLiteral, Element.isTarget]

/-! Walking over a derived form. -/

theorem stepNext (rules : Rules) (live : Settings) (y : Yield) (x : Bool) (index : Nat)
    (e : Element) :
    Walk.step rules ⟨live, .keys y (.next x)⟩ index e = Walk.itemStep rules live y x index e := by
  cases x <;> rfl

theorem assignedSetting {registry : Registry} {name : String} {spec : OptionSpec}
    (found : registry.get? name = some spec) (kind : spec.kind = .setting) (live : Settings)
    (value : Element) :
    live.set spec.name (spec.normalize value) = assigned registry live name value := by
  have named : spec.name = name := Catalog.getNamed found
  simp [assigned, found, kind, named]

theorem assignedMarker {registry : Registry} {name : String} (marker : Marks registry name)
    (live : Settings) (value : Element) : assigned registry live name value = live := by
  obtain ⟨spec, found, kind⟩ := marker
  simp [assigned, found, kind]

theorem marksSetting {registry : Registry} {name : String} {value : Element}
    (option : Sets registry name value) : marks registry name = false := by
  obtain ⟨spec, found, kind, _⟩ := option
  simp [marks, found, kind]

theorem marksMarker {registry : Registry} {name : String} (marker : Marks registry name) :
    marks registry name = true := by
  obtain ⟨spec, found, kind⟩ := marker
  simp [marks, found, kind]

theorem setsAccepted {registry : Registry} {name : String} {value : Element}
    (option : Sets registry name value) :
    ∃ spec, registry.get? name = some spec ∧ spec.kind = .setting ∧
      value.isSeparator = false ∧ spec.accepts value = true := by
  obtain ⟨spec, found, kind, plain, accepted⟩ := option
  exact ⟨spec, found, kind, plain, by simp [OptionSpec.accepts, kind, accepted]⟩

section
variable {rules : Rules} {index : Nat} {name : String} {value : Element} {rest : List Element}

theorem leadingSetting (option : Sets rules.registry name value) (live : Settings)
    (positional : List Element) :
    Walk.advance rules ⟨live, .leading positional none⟩ index (.keyword name :: value :: rest) =
      Walk.advance rules ⟨assigned rules.registry live name value, .leading positional none⟩
        (index + 1 + 1) rest := by
  obtain ⟨spec, found, kind, plain, accepted⟩ := setsAccepted option
  have stored := assignedSetting found kind live value
  simp only [Walk.advance, Walk.step, Walk.leadingStep, Walk.takeName, found, Walk.takeValue,
    plain, accepted, kind, stored, bind, Except.bind]
  rfl

theorem optionTaken {spec : OptionSpec} (found : rules.registry.get? name = some spec)
    (plain : value.isSeparator = false) (accepted : spec.accepts value = true)
    (live : Settings) (y : Yield) (x : Bool) :
    Walk.advance rules ⟨live, .keys y (.next x)⟩ index (.keyword name :: value :: rest) =
      Walk.advance rules (Walk.valueStep live y spec x value) (index + 1 + 1) rest := by
  simp only [Walk.advance, stepNext, Walk.itemStep, Walk.takeName, found, bind, Except.bind]
  simp only [Walk.step, Walk.takeValue, plain, accepted]
  rfl

theorem sectionSetting (option : Sets rules.registry name value) (live : Settings)
    (y : Yield) (x : Bool) :
    Walk.advance rules ⟨live, .keys y (.next x)⟩ index (.keyword name :: value :: rest) =
      Walk.advance rules ⟨assigned rules.registry live name value, .keys y (.next x)⟩
        (index + 1 + 1) rest := by
  obtain ⟨spec, found, kind, plain, accepted⟩ := setsAccepted option
  rw [optionTaken found plain accepted]
  simp only [Walk.valueStep, kind, assignedSetting found kind]

theorem sectionMode (marker : Marks rules.registry name)
    (switch : value = .symbol "t" ∨ value = .symbol "nil" ∨ value = .list []) (live : Settings)
    (y : Yield) (x : Bool) :
    Walk.advance rules ⟨live, .keys y (.next x)⟩ index (.keyword name :: value :: rest) =
      Walk.advance rules ⟨live, .keys y (.next value.isTrue)⟩ (index + 1 + 1) rest := by
  obtain ⟨spec, found, kind⟩ := marker
  have plain : value.isSeparator = false := by rcases switch with rfl | rfl | rfl <;> rfl
  have accepted : spec.accepts value = true := by
    rcases switch with rfl | rfl | rfl <;> simp [OptionSpec.accepts, kind, Element.isTrue,
      Element.isNil]
  rw [optionTaken found plain accepted]
  rcases switch with rfl | rfl | rfl <;>
    simp [Walk.valueStep, kind, Element.isList, Element.isNil, Element.isTrue]

theorem sectionLiteral {items : List Element} (marker : Marks rules.registry name)
    (some : items ≠ []) (live : Settings) (y : Yield) (x : Bool) :
    Walk.advance rules ⟨live, .keys y (.next x)⟩ index (.keyword name :: .list items :: rest) =
      Walk.advance rules ⟨live, .keys (y.add (.extended (.list items))) (.next x)⟩
        (index + 1 + 1) rest := by
  obtain ⟨spec, found, kind⟩ := marker
  have accepted : spec.accepts (.list items) = true := by
    simp [OptionSpec.accepts, kind, Element.isList]
  rw [optionTaken found rfl accepted]
  simp [Walk.valueStep, kind, Element.isList, Element.isNil, some]

theorem sectionPair {key definition : Element} (literal : key.isKeyLiteral = true)
    (plain : definition.isDefinition = true) (live : Settings) (y : Yield) :
    Walk.advance rules ⟨live, .keys y (.next false)⟩ index (key :: definition :: rest) =
      Walk.advance rules ⟨live, .keys (y.add (.plain key definition)) (.next false)⟩
        (index + 1 + 1) rest := by
  have taken : Walk.itemStep rules live y false index key =
      .ok ⟨live, .keys y (.definition index key)⟩ := by
    cases key <;> first | rfl | cases literal
  have paired : Walk.definitionStep rules live y index key (index + 1) definition =
      .ok ⟨live, .keys (y.add (.plain key definition)) .key⟩ := by
    cases definition <;> first | rfl | cases plain
  simp only [Walk.advance, stepNext, taken, bind, Except.bind]
  simp only [Walk.step, paired]
  rfl

theorem sectionEntry {items : List Element} (some : items ≠ []) (live : Settings)
    (y : Yield) :
    Walk.advance rules ⟨live, .keys y (.next true)⟩ index (.list items :: rest) =
      Walk.advance rules ⟨live, .keys (y.add (.extended (.list items))) (.next true)⟩
        (index + 1) rest := by
  have taken : Walk.itemStep rules live y true index (.list items) =
      .ok ⟨live, .keys (y.add (.extended (.list items))) .entry⟩ := by
    simp [Walk.itemStep, Walk.takeItem, Element.isList, some]
  simp only [Walk.advance, stepNext, taken, bind, Except.bind]
  rfl

theorem leadingContext {e : Element} (choice : rules.strategy ≠ .explicit false)
    (target : e.isTarget = true) (live : Settings) {seen : List Element}
    (room : seen.length < 2) :
    Walk.advance rules ⟨live, .leading (seen.map Element.toTargets) none⟩ index (e :: rest) =
      Walk.advance rules ⟨contextSettings live seen e,
        .leading ((seen ++ [e]).map Element.toTargets) none⟩ (index + 1) rest := by
  have classified : rules.strategy.classify index e = .ok .contextValue := by
    cases strategy : rules.strategy with
    | explicit separated =>
      cases separated with
      | false => exact absurd strategy choice
      | true => simp [Strategy.classify, target]
    | heuristic =>
      have other : e.isKeyLiteral = false := by cases e <;> first | rfl | cases target
      simp [Strategy.classify, target, other]
  have taken : Walk.leadingStep rules live (seen.map Element.toTargets) index e =
      Walk.takeContext live (seen.map Element.toTargets) index e := by
    cases e with
    | symbol | list => simp only [Walk.leadingStep, classified, Walk.takeJudged]
    | _ => cases target
  simp only [Walk.advance, Walk.step, taken]
  cases seen with
  | nil => rfl
  | cons first seen =>
    cases seen with
    | nil => rfl
    | cons second seen =>
      simp only [List.length_cons] at room
      omega

end

theorem leadingTarget {registry : Registry} {e : Element} (target : e.isTarget = true)
    (seen : List Element) (live : Settings) (rest : List Element) :
    leadingSettings registry seen live (e :: rest) =
      leadingSettings registry (seen ++ [e]) (contextSettings live seen e) rest := by
  cases e with
  | symbol | list => rfl
  | _ => cases target

theorem leadingWalk {rules : Rules} (choice : rules.strategy ≠ .explicit false) {room : Nat}
    {es : List Element} (form : LeadingForm rules.registry room es) (live : Settings)
    (seen : List Element) (fits : seen.length + room ≤ 2) (index : Nat) :
    ∃ positional,
      Walk.advance rules ⟨live, .leading (seen.map Element.toTargets) none⟩ index es =
        .ok ⟨leadingSettings rules.registry seen live es, .leading positional none⟩ := by
  induction form generalizing live seen index with
  | nil => exact ⟨_, rfl⟩
  | setting option tail ih =>
    rw [leadingSetting option]
    exact ih _ seen fits _
  | @context _ e rest target tail ih =>
    rw [leadingContext choice target live (by omega), leadingTarget target]
    exact ih _ (seen ++ [e]) (by simp; omega) (index + 1)

theorem settingEntries {registry : Registry} {name : String} {value : Element}
    (option : Sets registry name value) (rest : List Element) :
    sectionEntries registry (.keyword name :: value :: rest) = sectionEntries registry rest := by
  simp [sectionEntries, marksSetting option]

theorem modeEntries {registry : Registry} {value : Element} {name : String}
    (switch : value = .symbol "t" ∨ value = .symbol "nil" ∨ value = .list [])
    (rest : List Element) :
    sectionEntries registry (.keyword name :: value :: rest) = sectionEntries registry rest := by
  rcases switch with rfl | rfl | rfl <;> simp [sectionEntries, Element.isList, Element.isNil]

theorem literalEntries {registry : Registry} {name : String} {items : List Element}
    (marker : Marks registry name) (some : items ≠ []) (rest : List Element) :
    sectionEntries registry (.keyword name :: .list items :: rest) =
      .extended (.list items) :: sectionEntries registry rest := by
  simp [sectionEntries, marksMarker marker, Element.isList, Element.isNil, some]

theorem markerSettings {registry : Registry} {name : String} (marker : Marks registry name)
    (live : Settings) (value : Element) (rest : List Element) :
    sectionSettings registry live (.keyword name :: value :: rest) =
      sectionSettings registry live rest := by
  simp only [sectionSettings, assignedMarker marker]

theorem pairSettings {registry : Registry} {key definition : Element}
    (literal : key.isKeyLiteral = true) (plain : definition.isDefinition = true)
    (live : Settings) (rest : List Element) :
    sectionSettings registry live (key :: definition :: rest) =
      sectionSettings registry live rest := by
  have skip : ∀ {e : Element} es, (∀ name, e ≠ .keyword name) →
      sectionSettings registry live (e :: es) = sectionSettings registry live es := by
    intro e es other
    cases e <;> first | rfl | exact absurd rfl (other _)
  have first : ∀ name, key ≠ .keyword name := by rintro _ rfl; cases literal
  have second : ∀ name, definition ≠ .keyword name := by rintro _ rfl; cases plain
  rw [skip _ first, skip _ second]

theorem pairEntries {registry : Registry} {key : Element} (literal : key.isKeyLiteral = true)
    (definition : Element) (rest : List Element) :
    sectionEntries registry (key :: definition :: rest) =
      .plain key definition :: sectionEntries registry rest := by
  cases key <;> first | rfl | cases literal

theorem addEntries (y : Yield) (e : Entry) (es : List Entry) :
    (Yield.mk y.defaults (y.entries ++ e :: es) y.batches) =
      { y.add e with entries := (y.add e).entries ++ es } := by
  simp [Yield.add]

theorem sectionWalk {rules : Rules} {x : Bool} {es : List Element}
    (form : SectionForm rules.registry x es) (live : Settings) (y : Yield) (index : Nat) :
    ∃ x', Walk.advance rules ⟨live, .keys y (.next x)⟩ index es =
      .ok ⟨sectionSettings rules.registry live es,
        .keys { y with entries := y.entries ++ sectionEntries rules.registry es } (.next x')⟩ := by
  -- Only the mode of the section is in its derivation; settings and yield vary freely.
  induction form generalizing live y index with
  | @nil x => exact ⟨x, by simp [Walk.advance, sectionSettings, sectionEntries]⟩
  | setting option tail ih =>
    rw [sectionSetting option, settingEntries option]
    exact ih _ y _
  | on marker tail ih =>
    rw [sectionMode marker (.inl rfl), modeEntries (.inl rfl), markerSettings marker]
    exact ih live y _
  | @off _ _ value _ marker none tail ih =>
    have unset : value.isTrue = false := by rcases none with rfl | rfl <;> rfl
    rw [sectionMode marker (.inr none), modeEntries (.inr none), markerSettings marker, unset]
    exact ih live y _
  | literal marker some tail ih =>
    rw [sectionLiteral marker some, literalEntries marker some, markerSettings marker,
      addEntries]
    exact ih live _ _
  | pair literal plain tail ih =>
    rw [sectionPair literal plain, pairEntries literal, pairSettings literal plain, addEntries]
    exact ih live _ _
  | entry some tail ih =>
    rw [sectionEntry some, sectionEntries, addEntries]
    exact ih live _ _

theorem separatorStep (rules : Rules) (live : Settings) (y : Yield) (x : Bool) (index : Nat)
    (s : Section) (rest : List Element) :
    Walk.run rules ⟨live, .keys y (.next x)⟩ index (s.elements ++ rest) =
      Walk.run rules (Walk.takeSeparator rules.policy s.clearing live y) (index + 1)
        (s.body ++ rest) := by
  obtain ⟨clearing, body⟩ := s
  cases clearing <;> cases x <;> rfl

theorem sectionsRun {rules : Rules} {sections : List Section}
    (forms : ∀ s ∈ sections, SectionForm rules.registry false s.body) (live : Settings)
    (y : Yield) (x : Bool) (index : Nat) :
    Walk.run rules ⟨live, .keys y (.next x)⟩ index (sections.flatMap Section.elements) =
      .ok (y.batches ++ batchOf live y.entries ++
        sectionBatches rules.registry rules.policy y.defaults live sections) := by
  induction sections generalizing live y x index with
  | nil => cases x <;> simp [Walk.run, Walk.close, Turn.next, Yield.flush, sectionBatches]
  | cons s rest ih =>
    obtain ⟨x', walked⟩ := sectionWalk (forms s (by simp))
      (if s.clearing then rules.policy.cleared y.defaults else live) (y.flush live) (index + 1)
    have begun : Walk.takeSeparator rules.policy s.clearing live y =
      ⟨if s.clearing then rules.policy.cleared y.defaults else live,
        .keys (y.flush live) (.next false)⟩ := rfl
    rw [List.flatMap_cons, separatorStep, begun, Walk.runAppend, walked]
    change Walk.run rules _ _ _ = _
    rw [ih fun s mem => forms s (by simp [mem])]
    simp [sectionBatches, Yield.flush]

theorem openingSeparator (rules : Rules) (live : Settings) (positional : List Element)
    (index : Nat) {sections : List Section} (some : sections ≠ []) :
    Walk.run rules ⟨live, .leading positional none⟩ index
        (sections.flatMap Section.elements) =
      Walk.run rules ⟨live, .keys (.opened live) (.next false)⟩ index
        (sections.flatMap Section.elements) := by
  cases sections with
  | nil => exact absurd rfl some
  | cons s rest => obtain ⟨_ | _, body⟩ := s <;> rfl

theorem openingKey {rules : Rules} (inferred : rules.strategy = .heuristic) (live : Settings)
    (positional : List Element) (index : Nat) {body : List Element}
    (begins : ∀ e ∈ body.head?, e.isKeyLiteral = true) :
    Walk.run rules ⟨live, .leading positional none⟩ index body =
      Walk.run rules ⟨live, .keys (.opened live) (.next false)⟩ index body := by
  cases body with
  | nil => simp [Walk.run, Walk.close, inferred, Strategy.allowsOpenEnd, Turn.next,
      Yield.flush, Yield.opened, batchOf]
  | cons e rest =>
    have literal := begins e (by simp)
    have same : Walk.leadingStep rules live positional index e =
        Walk.itemStep rules live (.opened live) false index e := by
      cases e with
      | str | vector =>
        simp [Walk.leadingStep, Walk.takeJudged, Walk.itemStep, inferred, Strategy.classify,
          Element.isKeyLiteral]
      | _ => cases literal
    simp only [Walk.run, stepNext]
    simp only [Walk.step, same]

theorem separatedRun {rules : Rules} (choice : rules.strategy ≠ .explicit false) {o : Outline}
    (form : SeparatedForm rules.registry o) :
    Walk.start.run rules 0 o.elements = .ok (o.batches rules.registry rules.policy) := by
  obtain ⟨positional, walked⟩ := leadingWalk choice form.leading .empty [] (by simp) 0
  rw [Outline.elements, Walk.runAppend]
  simp only [List.map_nil] at walked
  rw [Walk.start, walked]
  change Walk.run rules _ _ _ = _
  rw [openingSeparator _ _ _ _ form.separated, sectionsRun form.sections]
  rfl

theorem inferredRun {rules : Rules} (inferred : rules.strategy = .heuristic)
    {leading body : List Element} (form : InferredForm rules.registry leading body) :
    Walk.start.run rules 0 (leading ++ body) =
      .ok (Outline.batches rules.registry rules.policy ⟨leading, [⟨false, body⟩]⟩) := by
  have choice : rules.strategy ≠ .explicit false := by simp [inferred]
  obtain ⟨positional, walked⟩ := leadingWalk choice form.leading .empty [] (by simp) 0
  simp only [List.map_nil] at walked
  rw [Walk.runAppend, Walk.start, walked]
  change Walk.run rules _ _ _ = _
  rw [openingKey inferred _ _ _ form.begins]
  obtain ⟨x, ended⟩ := sectionWalk form.body (leadingSettings rules.registry [] .empty leading)
    (.opened _) (0 + leading.length)
  rw [← List.append_nil body, Walk.runAppend, ended]
  cases x <;> simp [bind, Except.bind, Walk.run, Walk.close, Turn.next, Yield.flush,
    Yield.opened, Outline.batches, sectionBatches]

end KeyForm
