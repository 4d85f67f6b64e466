import KeyForm.Proofs.Acceptance
import KeyForm.Proofs.Overwriting
import KeyForm.Proofs.Registration
/-! What a batch holds. Nothing is in it but what the form says: its entries are made of
elements of the form, and its settings come from context values and from the values of
options that took them. With the built-in options every setting is therefore a value that
its option takes, in the form in which it is kept. -/
namespace KeyForm

inductive Entry.Formed : Entry → Prop where
  | plain {key definition} (literal : key.isKeyLiteral = true)
      (plain : definition.isDefinition = true) : Formed (.plain key definition)
  | extended {items} (some : items ≠ []) : Formed (.extended (.list items))

def Entry.parts : Entry → List Element
  | .plain key definition => [key, definition]
  | .extended literal => [literal]

inductive Origin (registry : Registry) (es : List Element) : String × Element → Prop where
  | context {name e} (place : name = keymapsName ∨ name = statesName) (mem : e ∈ es)
      (target : e.isTarget = true) : Origin registry es (name, e.toTargets)
  | option {name value spec} (named : .keyword name ∈ es) (mem : value ∈ es)
      (found : registry.get? name = some spec) (kind : spec.kind = .setting)
      (accepted : spec.shape.accepts value = true) :
      Origin registry es (name, spec.normalize value)

def Drawn (registry : Registry) (es : List Element) (s : Settings) : Prop :=
  ∀ p ∈ s.items, Origin registry es p

structure Held (registry : Registry) (es : List Element) (b : Batch) : Prop where
  filled : b.entries ≠ []
  entries : ∀ e ∈ b.entries, e.Formed ∧ e.parts ⊆ es
  settings : Drawn registry es b.settings

section
variable {registry : Registry} {es : List Element} {live : Settings}

theorem emptyDrawn : Drawn registry es .empty := nofun

theorem Drawn.set {name : String} {value : Element} (drawn : Drawn registry es live)
    (origin : Origin registry es (name, value)) :
    Drawn registry es (live.set name value) := by
  intro p mem
  rcases Catalog.memPlace mem with rfl | mem
  · exact origin
  · exact drawn p mem

theorem Drawn.assigned {name : String} {value : Element} (drawn : Drawn registry es live)
    (option : Sets registry name value) (named : .keyword name ∈ es) (mem : value ∈ es) :
    Drawn registry es (assigned registry live name value) := by
  obtain ⟨spec, found, kind, _, accepted⟩ := option
  simp only [KeyForm.assigned, found, kind, if_true]
  exact drawn.set (.option named mem found kind accepted)

theorem Drawn.context {seen : List Element} {e : Element} (drawn : Drawn registry es live)
    (earlier : ∀ e ∈ seen, e ∈ es ∧ e.isTarget = true) (mem : e ∈ es)
    (target : e.isTarget = true) : Drawn registry es (contextSettings live seen e) := by
  have keymaps : Origin registry es (keymapsName, e.toTargets) := .context (.inl rfl) mem target
  cases seen with
  | nil => exact drawn.set keymaps
  | cons first seen =>
    obtain ⟨mem, target⟩ := earlier first (by simp)
    exact (drawn.set (.context (.inr rfl) mem target)).set keymaps

theorem leadingDrawn {room : Nat} {body : List Element}
    (form : LeadingForm registry room body) (within : body ⊆ es) (seen : List Element)
    (earlier : ∀ e ∈ seen, e ∈ es ∧ e.isTarget = true) (drawn : Drawn registry es live) :
    Drawn registry es (leadingSettings registry seen live body) := by
  induction form generalizing live seen with
  | nil => exact drawn
  | setting option tail ih =>
    obtain ⟨named, mem, later⟩ := by simpa only [List.cons_subset] using within
    exact ih later seen earlier (drawn.assigned option named mem)
  | context target tail ih =>
    obtain ⟨mem, later⟩ := List.cons_subset.mp within
    rw [leadingTarget target]
    refine ih later _ ?_ (drawn.context earlier mem target)
    exact List.forall_mem_append.mpr ⟨earlier, by simpa using And.intro mem target⟩

theorem sectionDrawn {x : Bool} {body : List Element} (form : SectionForm registry x body)
    (within : body ⊆ es) (drawn : Drawn registry es live) :
    Drawn registry es (sectionSettings registry live body) := by
  induction form generalizing live with
  | nil => exact drawn
  | setting option tail ih =>
    obtain ⟨named, mem, later⟩ := by simpa only [List.cons_subset] using within
    exact ih later (drawn.assigned option named mem)
  | on marker tail ih | off marker _ tail ih | literal marker _ tail ih =>
    obtain ⟨_, _, later⟩ := by simpa only [List.cons_subset] using within
    rw [markerSettings marker]
    exact ih later drawn
  | pair literal plain tail ih =>
    obtain ⟨_, _, later⟩ := by simpa only [List.cons_subset] using within
    rw [pairSettings literal plain]
    exact ih later drawn
  | entry some tail ih => exact ih (List.cons_subset.mp within).2 drawn

theorem sectionFormed {x : Bool} {body : List Element} (form : SectionForm registry x body)
    (within : body ⊆ es) : ∀ e ∈ sectionEntries registry body, e.Formed ∧ e.parts ⊆ es := by
  induction form with
  | nil => nofun
  | setting option tail ih =>
    obtain ⟨_, _, later⟩ := by simpa only [List.cons_subset] using within
    rw [settingEntries option]
    exact ih later
  | on marker tail ih =>
    obtain ⟨_, _, later⟩ := by simpa only [List.cons_subset] using within
    rw [modeEntries (.inl rfl)]
    exact ih later
  | off marker none tail ih =>
    obtain ⟨_, _, later⟩ := by simpa only [List.cons_subset] using within
    rw [modeEntries (.inr none)]
    exact ih later
  | literal marker some tail ih =>
    obtain ⟨_, mem, later⟩ := by simpa only [List.cons_subset] using within
    rw [literalEntries marker some]
    exact List.forall_mem_cons.mpr ⟨⟨.extended some, by simpa [Entry.parts]⟩, ih later⟩
  | pair literal plain tail ih =>
    obtain ⟨key, definition, later⟩ := by simpa only [List.cons_subset] using within
    rw [pairEntries literal]
    exact List.forall_mem_cons.mpr
      ⟨⟨.plain literal plain, by simp [Entry.parts, key, definition]⟩, ih later⟩
  | entry some tail ih =>
    obtain ⟨mem, later⟩ := List.cons_subset.mp within
    exact List.forall_mem_cons.mpr ⟨⟨.extended some, by simpa [Entry.parts]⟩, ih later⟩

theorem sectionsHeld {policy : ClearPolicy} {defaults before : Settings}
    {sections : List Section} (forms : ∀ s ∈ sections, SectionForm registry false s.body)
    (within : ∀ s ∈ sections, s.body ⊆ es) (first : Drawn registry es defaults)
    (drawn : Drawn registry es before) :
    ∀ b ∈ sectionBatches registry policy defaults before sections, Held registry es b := by
  induction sections generalizing before with
  | nil => nofun
  | cons s rest ih =>
    obtain ⟨form, forms⟩ := List.forall_mem_cons.mp forms
    obtain ⟨here, within⟩ := List.forall_mem_cons.mp within
    have base : Drawn registry es
        (if s.clearing then policy.cleared defaults else before) := by
      split
      · cases policy with
        | preserveDefaults => exact first
        | all => exact emptyDrawn
      · exact drawn
    have final := sectionDrawn form here base
    intro b mem
    rcases List.mem_append.mp mem with mem | mem
    · unfold batchOf at mem
      split at mem
      · cases mem
      next some =>
      obtain rfl := List.mem_singleton.mp mem
      exact ⟨by simpa using some, sectionFormed form here, final⟩
    · exact ih forms within final b mem

end

theorem compiledHeld {c : Compiler} {es : List Element} {batches : List Batch}
    (ok : c.compile es = .ok batches) : ∀ b ∈ batches, Held c.registry es b := by
  cases separated : es.any Element.isSeparator with
  | true =>
    obtain ⟨o, rfl, form⟩ := separatedForm separated ok
    obtain rfl := Except.ok.inj (ok.symm.trans (separatedCompiles form))
    have within : ∀ s ∈ o.sections, s.body ⊆ o.elements := fun s mem e inside =>
      List.mem_append_right _ (List.mem_flatMap.mpr ⟨s, mem, List.mem_cons_of_mem _ inside⟩)
    have leading : o.leading ⊆ o.elements := List.subset_append_left _ _
    have defaults := leadingDrawn form.leading leading [] nofun emptyDrawn
    exact sectionsHeld form.sections within defaults defaults
  | false =>
    obtain ⟨on, leading, body, rfl, form⟩ := inferredForm separated ok
    obtain rfl := Except.ok.inj (ok.symm.trans (inferredCompiles on separated form))
    have within : leading ⊆ leading ++ body := List.subset_append_left _ _
    have defaults := leadingDrawn form.leading within [] nofun emptyDrawn
    exact sectionsHeld (by simpa using form.body) (by simp) defaults defaults

/-! What an option keeps of a value is a value that it takes, and is kept as it is. -/

theorem targetKept {e : Element} (target : e.isTarget = true) :
    e.toTargets.isTarget = true ∧ e.toTargets.toTargets = e.toTargets := by
  cases e with
  | symbol | list => exact ⟨target, rfl⟩
  | _ => cases target

theorem shapeKept {shape : ValueShape} {value : Element} (accepted : shape.accepts value = true) :
    shape.accepts (shape.normalize value) = true ∧
      shape.normalize (shape.normalize value) = shape.normalize value := by
  cases shape with
  | targets => exact targetKept accepted
  | keyLiteral | symbol | boolean | any => exact ⟨accepted, rfl⟩

theorem targetList {e : Element} (target : e.isTarget = true) (kept : e.toTargets = e) :
    ∃ items, e = .list items ∧ items ≠ [] ∧ ∀ i ∈ items, i.isSymbol = true := by
  cases e with
  | list items => exact ⟨items, rfl, by simpa [Element.isTarget] using target⟩
  | symbol => cases kept
  | _ => cases target

def Kept (registry : Registry) (p : String × Element) : Prop :=
  ∃ spec, registry.get? p.1 = some spec ∧ spec.kind = .setting ∧ spec.check p.2 = .ok () ∧
    spec.normalize p.2 = p.2

theorem specKept {registry : Registry} {name : String} {spec : OptionSpec} {value : Element}
    (found : registry.get? name = some spec) (kind : spec.kind = .setting)
    (accepted : spec.shape.accepts value = true) :
    Kept registry (name, spec.normalize value) := by
  obtain ⟨takes, same⟩ := shapeKept accepted
  have checked : spec.check (spec.normalize value) = .ok () := by
    simp only [OptionSpec.check, OptionSpec.accepts, kind, OptionSpec.normalize, takes, if_true]
  exact ⟨spec, found, kind, checked, same⟩

theorem keptAccepted {spec : OptionSpec} {value : Element} (kind : spec.kind = .setting)
    (checked : spec.check value = .ok ()) : spec.shape.accepts value = true := by
  unfold OptionSpec.check at checked
  split at checked
  · next accepted => simpa [OptionSpec.accepts, kind] using accepted
  · cases checked

def targetNames : List String := [keymapsName, statesName, "major-modes"]

def TakesTargets (registry : Registry) (name : String) : Prop :=
  ∃ spec, registry.get? name = some spec ∧ spec.kind = .setting ∧ spec.shape = .targets

theorem builtinTargets (specs : List OptionSpec) : ∀ name ∈ targetNames,
    TakesTargets (Registry.builtin.offerAll specs) name := by
  have builtin : ∀ name ∈ targetNames, ∃ spec, Registry.builtin.get? name = some spec ∧
      spec.kind = .setting ∧ spec.shape = .targets := by
    simp only [targetNames, List.forall_mem_cons, List.not_mem_nil, false_imp_iff, forall_true_iff,
      and_true]
    exact ⟨⟨_, rfl, rfl, rfl⟩, ⟨_, rfl, rfl, rfl⟩, ⟨_, rfl, rfl, rfl⟩⟩
  intro name mem
  obtain ⟨spec, found, kind, shape⟩ := builtin name mem
  exact ⟨spec, Registry.offerAllKeeps found specs, kind, shape⟩

theorem originKept {registry : Registry} {es : List Element} {p : String × Element}
    (targets : ∀ name ∈ targetNames, TakesTargets registry name) (origin : Origin registry es p) :
    Kept registry p := by
  cases origin with
  | @context name e place mem target =>
    have builtin : name ∈ targetNames := by rcases place with rfl | rfl <;> simp [targetNames]
    obtain ⟨spec, found, kind, shape⟩ := targets name builtin
    have normal : spec.normalize e = e.toTargets := by
      simp only [OptionSpec.normalize, shape, ValueShape.normalize]
    exact normal ▸ specKept found kind (by simpa [shape, ValueShape.accepts] using target)
  | option _ _ found kind accepted => exact specKept found kind accepted

structure Reliable (registry : Registry) (b : Batch) : Prop where
  filled : b.entries ≠ []
  entries : ∀ e ∈ b.entries, e.Formed
  settings : ∀ p ∈ b.settings.items, Kept registry p
  targets : ∀ name value, name ∈ targetNames ∨ TakesTargets registry name →
    b.settings.value? name = some value →
    ∃ items, value = .list items ∧ items ≠ [] ∧ ∀ i ∈ items, i.isSymbol = true
  markers : ∀ name, Marks registry name → b.settings.value? name = none

theorem batchesReliable {specs : List OptionSpec} {options : CompileOptions}
    {es : List Element} {batches : List Batch}
    (ok : Compiler.compile ⟨Registry.builtin.offerAll specs, options⟩ es = .ok batches) :
    ∀ b ∈ batches, Reliable (Registry.builtin.offerAll specs) b := by
  intro b mem
  have held := compiledHeld ok b mem
  have targets := builtinTargets specs
  have kept : ∀ p ∈ b.settings.items, Kept (Registry.builtin.offerAll specs) p :=
    fun p mem => originKept targets (held.settings p mem)
  refine ⟨held.filled, fun e mem => (held.entries e mem).1, kept, ?_, ?_⟩
  · intro name value named found
    obtain ⟨spec, known, kind, checked, same⟩ := kept _ (valueMember.mp found)
    obtain ⟨spec', known', _, shape⟩ := named.elim (targets name) id
    obtain rfl := Option.some.inj (known.symm.trans known')
    refine targetList ?_ (by simpa [OptionSpec.normalize, shape, ValueShape.normalize] using same)
    simpa [shape, ValueShape.accepts] using keptAccepted kind checked
  · rintro name ⟨spec, known, marker⟩
    cases found : b.settings.value? name with
    | none => rfl
    | some value =>
      obtain ⟨spec', known', kind, _⟩ := kept _ (valueMember.mp found)
      obtain rfl := Option.some.inj (known.symm.trans known')
      cases marker.symm.trans kind

/-- The first is refused: its name is taken. -/
def offeredSpecs : List OptionSpec :=
  [.setting keymapsName .any "", .setting "minor-modes" .targets "",
   ⟨"also", .any, .extendedMarker, ""⟩]

def offeredForm : List Element :=
  [.symbol "normal", .symbol "m", .separator, .keyword "minor-modes", .symbol "x", .str "a",
   .symbol "f", .keyword "also", .list [.str "z"]]

def offeredBatches : List Batch :=
  let context := (Settings.set .empty statesName (.list [.symbol "normal"])).set keymapsName
    (.list [.symbol "m"])
  [⟨context.set "minor-modes" (.list [.symbol "x"]),
    [.plain (.str "a") (.symbol "f"), .extended (.list [.str "z"])]⟩]

theorem offeredReliable :
    Compiler.compile ⟨Registry.builtin.offerAll offeredSpecs, ⟨false, .all⟩⟩ offeredForm =
      .ok offeredBatches ∧
    ∀ b ∈ offeredBatches, Reliable (Registry.builtin.offerAll offeredSpecs) b :=
  ⟨rfl, @batchesReliable offeredSpecs ⟨false, .all⟩ offeredForm offeredBatches rfl⟩

end KeyForm
