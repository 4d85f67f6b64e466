import KeyForm.Program.Config
import KeyForm.Proofs.ByteOrder
import KeyForm.Proofs.Registration
/-! What a registry holds after any calls to add options. The first valid option of a name is
kept, and every other call is refused; so a configuration gives a registry exactly if its names
are valid, distinct and new, and then their order does not matter. -/
namespace KeyForm

namespace Catalog
variable {α : Type} {name : α → String} {c : Catalog α name} {key : String}

theorem sizePlaced {a : α} {items : List α} (fresh : ∀ b ∈ items, name b ≠ name a) :
    (place name a items).length = items.length + 1 := by
  induction items with
  | nil => rfl
  | cons b rest ih =>
    obtain ⟨other, others⟩ := List.forall_mem_cons.mp fresh
    unfold place
    split
    · rfl
    split
    · rw [List.length_cons, ih others, List.length_cons]
    next notBefore notAfter =>
      exact absurd (String.le_antisymm (String.not_lt.1 notBefore) (String.not_lt.1 notAfter)) other

theorem sizeInsert {a : α} (fresh : c.contains (name a) = false) :
    (c.insert a).size = c.size + 1 := by
  refine sizePlaced fun b here same => ?_
  rw [contains, ← same, getMember.mpr here] at fresh
  cases fresh

theorem containsInsert {a : α} :
    (c.insert a).contains key = true ↔ key = name a ∨ c.contains key = true := by
  rw [contains, getInsert]
  by_cases named : name a = key
  · simp [named]
  · simp [contains, named, Ne.symm named]

theorem getAbsent : c.contains key = false ↔ c.get? key = none := by
  simp [contains]

end Catalog

def Unfit (name : String) : Prop :=
  name = "" ∨ name.toList.head? = some ':' ∨ ∃ c ∈ name.toList, isBlank c = true

instance (name : String) : Decidable (Unfit name) :=
  inferInstanceAs (Decidable (_ ∨ _ ∨ _))

theorem fitIff {name : String} : isOptionName name = true ↔ ¬ Unfit name := by
  unfold isOptionName Unfit
  rw [← String.toList_eq_nil_iff]
  split
  next empty => simp [empty]
  next c rest here => simp [here]

namespace Registry

def answers (r : Registry) : List OptionSpec → List (Except RegistryError Registry)
  | [] => []
  | spec :: rest => r.register spec :: (r.offer spec).answers rest

/-- Why an option of this name is refused, after others of these names were added. -/
inductive Refuses (r : Registry) (added : List String) (name : String) : RegistryError → Prop where
  | invalid (unfit : Unfit name) : Refuses r added name (.invalidName name)
  | duplicate (fit : ¬ Unfit name) (taken : r.contains name = true ∨ name ∈ added) :
      Refuses r added name (.duplicate name)

structure Accepts (r : Registry) (added : List String) : Prop where
  fit : ∀ name ∈ added, ¬ Unfit name
  fresh : ∀ name ∈ added, r.contains name = false
  distinct : added.Nodup

structure Filled (start : Registry) (specs : List OptionSpec) (r : Registry) : Prop where
  found : ∀ key, r.get? key =
    (start.get? key).or (specs.find? fun spec => ¬ Unfit spec.name ∧ spec.name = key)
  ascending : r.names.Pairwise fun a b => bytes a < bytes b
  listed : List.Forall₂ (fun key spec => r.get? key = some spec ∧ spec.name = key) r.names r.items
  counted : r.size = start.size + (start.answers specs).countP Except.isOk
  refuses : ∀ spec err, r.register spec = .error err ↔ Refuses r [] spec.name err
  untouched : ∀ spec err, r.register spec = .error err → start.offerAll (specs ++ [spec]) = r

variable {r r' : Registry} {spec : OptionSpec} {specs : List OptionSpec} {err : RegistryError}

theorem registerCases (r : Registry) (spec : OptionSpec) :
    (Unfit spec.name ∧ r.register spec = .error (.invalidName spec.name)) ∨
    (¬ Unfit spec.name ∧ r.contains spec.name = true ∧
      r.register spec = .error (.duplicate spec.name)) ∨
    (¬ Unfit spec.name ∧ r.contains spec.name = false ∧
      r.register spec = .ok (r.insert spec)) := by
  unfold register
  by_cases fit : Unfit spec.name
  · have : isOptionName spec.name = false := by simpa using mt fitIff.mp (not_not_intro fit)
    simp [this, fit]
  · rw [fitIff.mpr fit]
    cases r.contains spec.name <;> simp [fit]

theorem registerRefuses : r.register spec = .error err ↔ Refuses r [] spec.name err := by
  constructor
  · intro refused
    rcases registerCases r spec with ⟨unfit, told⟩ | ⟨fit, taken, told⟩ | ⟨_, _, told⟩
    all_goals
      rw [told] at refused
      cases refused
    · exact .invalid unfit
    · exact .duplicate fit (.inl taken)
  · intro refuses
    rcases registerCases r spec with ⟨unfit, told⟩ | ⟨fit, _, told⟩ | ⟨fit, fresh, _⟩
    · cases refuses with
      | invalid => exact told
      | duplicate fit => exact absurd unfit fit
    · cases refuses with
      | invalid unfit => exact absurd unfit fit
      | duplicate => exact told
    · cases refuses with
      | invalid unfit => exact absurd unfit fit
      | duplicate _ taken => simp [fresh] at taken

theorem getOffered (r : Registry) (spec : OptionSpec) (key : String) :
    (r.offer spec).get? key =
      (r.get? key).or (if ¬ Unfit spec.name ∧ spec.name = key then some spec else none) := by
  rcases registerCases r spec with ⟨unfit, told⟩ | ⟨fit, taken, told⟩ | ⟨fit, fresh, told⟩
  all_goals simp only [offer, told]
  · simp [unfit]
  · by_cases named : spec.name = key
    · subst named
      obtain ⟨known, found⟩ := Option.isSome_iff_exists.mp taken
      simp [found]
    · simp [named]
  · rw [Catalog.getInsert]
    by_cases named : spec.name = key
    · subst named
      simp [fit, Catalog.getAbsent.mp fresh]
    · simp [named]

theorem getOfferedAll (r : Registry) (specs : List OptionSpec) (key : String) :
    (r.offerAll specs).get? key =
      (r.get? key).or (specs.find? fun spec => ¬ Unfit spec.name ∧ spec.name = key) := by
  induction specs generalizing r with
  | nil => simp [offerAll]
  | cons spec rest ih =>
    have := ih (r.offer spec)
    rw [getOffered] at this
    rw [offerAll, List.foldl_cons, ← offerAll, this, Option.or_assoc]
    by_cases here : ¬ Unfit spec.name ∧ spec.name = key
    · rw [if_pos here, List.find?_cons_of_pos (by simpa using here), Option.some_or]
    · rw [if_neg here, List.find?_cons_of_neg (by simpa using here), Option.none_or]

theorem sizeOffered (r : Registry) (spec : OptionSpec) :
    (r.offer spec).size = r.size + if (r.register spec).isOk then 1 else 0 := by
  rcases registerCases r spec with ⟨unfit, told⟩ | ⟨fit, taken, told⟩ | ⟨fit, fresh, told⟩
  all_goals rw [offer, told]
  · rfl
  · rfl
  · exact Catalog.sizeInsert fresh

theorem sizeOfferedAll (r : Registry) (specs : List OptionSpec) :
    (r.offerAll specs).size = r.size + (r.answers specs).countP Except.isOk := by
  induction specs generalizing r with
  | nil => rfl
  | cons spec rest ih =>
    rw [offerAll, List.foldl_cons, ← offerAll, ih, sizeOffered, answers, List.countP_cons]
    omega

theorem acceptsCons {names : List String} :
    Accepts r (spec.name :: names) ↔
      (¬ Unfit spec.name ∧ r.contains spec.name = false) ∧ Accepts (r.insert spec) names := by
  constructor
  · rintro ⟨fit, fresh, distinct⟩
    obtain ⟨apart, distinct⟩ := List.nodup_cons.mp distinct
    refine ⟨⟨fit _ List.mem_cons_self, fresh _ List.mem_cons_self⟩, ?_, ?_, distinct⟩
    · exact fun name here => fit name (List.mem_cons_of_mem _ here)
    · intro name here
      rw [← Bool.not_eq_true, Catalog.containsInsert]
      rintro (rfl | taken)
      · exact apart here
      · simp [fresh name (List.mem_cons_of_mem _ here)] at taken
  · rintro ⟨⟨fit, fresh⟩, fits, freshes, distinct⟩
    have apart (name) (here : name ∈ names) : ¬ (name = spec.name ∨ r.contains name = true) := by
      rw [← Catalog.containsInsert, freshes name here]
      exact Bool.false_ne_true
    refine ⟨List.forall_mem_cons.mpr ⟨fit, fits⟩, List.forall_mem_cons.mpr ⟨fresh, ?_⟩,
      List.nodup_cons.mpr ⟨?_, distinct⟩⟩
    · exact fun name here => by simpa using not_or.mp (apart name here) |>.2
    · exact fun here => apart _ here (.inl rfl)

theorem registerAllAccepts : r.registerAll specs = .ok r' ↔
    Accepts r (specs.map OptionSpec.name) ∧ r' = specs.foldl Catalog.insert r := by
  induction specs generalizing r with
  | nil =>
    have : Accepts r [] := ⟨nofun, nofun, .nil⟩
    simp [registerAll, this, eq_comm, pure, Except.pure]
  | cons spec rest ih =>
    rw [List.map_cons, acceptsCons, List.foldl_cons, and_assoc, ← ih]
    rcases registerCases r spec with ⟨unfit, told⟩ | ⟨fit, taken, told⟩ | ⟨fit, fresh, told⟩
    all_goals simp only [registerAll, List.foldlM_cons, told, bind, Except.bind]
    · simp [unfit]
    · simp [taken]
    · simp [fit, fresh]

theorem registerAllOffered (accepted : r.registerAll specs = .ok r') : r.offerAll specs = r' := by
  induction specs generalizing r with
  | nil =>
    cases accepted
    rfl
  | cons spec rest ih =>
    rw [registerAll, List.foldlM_cons] at accepted
    cases told : r.register spec with
    | error err =>
      rw [told] at accepted
      cases accepted
    | ok next =>
      rw [told] at accepted
      rw [offerAll, List.foldl_cons, offer, told]
      exact ih accepted

theorem firstRefused (refused : r.registerAll specs = .error err) :
    ∃ before spec after r', specs = before ++ spec :: after ∧
      r.registerAll before = .ok r' ∧ r'.register spec = .error err := by
  induction specs generalizing r with
  | nil => cases refused
  | cons spec rest ih =>
    rw [registerAll, List.foldlM_cons] at refused
    cases told : r.register spec with
    | error err' =>
      rw [told] at refused
      cases refused
      exact ⟨[], spec, rest, r, rfl, rfl, told⟩
    | ok next =>
      rw [told] at refused
      obtain ⟨before, other, after, r', rfl, accepted, last⟩ := ih refused
      refine ⟨spec :: before, other, after, r', rfl, ?_, last⟩
      rw [registerAll, List.foldlM_cons, told]
      exact accepted

theorem containsAll (r : Registry) (specs : List OptionSpec) (key : String) :
    Catalog.contains (specs.foldl Catalog.insert r) key = true ↔
      r.contains key = true ∨ key ∈ specs.map OptionSpec.name := by
  induction specs generalizing r with
  | nil => simp
  | cons spec rest ih =>
    rw [List.foldl_cons, ih, Catalog.containsInsert, List.map_cons, List.mem_cons]
    tauto

theorem refusesAfter {name : String} :
    Refuses (specs.foldl Catalog.insert r) [] name err ↔
      Refuses r (specs.map OptionSpec.name) name err := by
  constructor
  · rintro (unfit | ⟨fit, taken | here⟩)
    · exact .invalid unfit
    · exact .duplicate fit ((containsAll r specs name).mp taken)
    · cases here
  · rintro (unfit | ⟨fit, taken⟩)
    · exact .invalid unfit
    · exact .duplicate fit (.inl ((containsAll r specs name).mpr taken))

theorem registerAllRefuses : r.registerAll specs = .error err ↔
    ∃ before spec after, specs = before ++ spec :: after ∧
      Accepts r (before.map OptionSpec.name) ∧
      Refuses r (before.map OptionSpec.name) spec.name err := by
  constructor
  · intro refused
    obtain ⟨before, spec, after, r', rfl, accepted, last⟩ := firstRefused refused
    obtain ⟨accepts, rfl⟩ := registerAllAccepts.mp accepted
    exact ⟨before, spec, after, rfl, accepts, refusesAfter.mp (registerRefuses.mp last)⟩
  · rintro ⟨before, spec, after, rfl, accepts, refuses⟩
    have accepted := registerAllAccepts.mpr ⟨accepts, rfl⟩
    have refused := registerRefuses.mpr (refusesAfter.mpr refuses)
    rw [registerAll] at accepted ⊢
    rw [List.foldlM_append, accepted]
    change List.foldlM register _ (spec :: after) = _
    rw [List.foldlM_cons, refused]
    rfl

theorem Accepts.permuted {names others : List String} (accepts : Accepts r names)
    (same : others.Perm names) : Accepts r others where
  fit name here := accepts.fit name (same.mem_iff.mp here)
  fresh name here := accepts.fresh name (same.mem_iff.mp here)
  distinct := same.nodup_iff.mpr accepts.distinct

theorem registerAllPermuted {others : List OptionSpec} (same : others.Perm specs)
    (accepted : r.registerAll specs = .ok r') : r.registerAll others = .ok r' := by
  obtain ⟨accepts, rfl⟩ := registerAllAccepts.mp accepted
  refine registerAllAccepts.mpr ⟨accepts.permuted (same.map _), ?_⟩
  refine same.symm.foldl_eq' (fun a here b there c => ?_) r
  by_cases one : a = b
  · rw [one]
  · exact Catalog.insertComm (fun named => one
      (List.inj_on_of_nodup_map accepts.distinct here there named)) c

theorem offerRefused (refused : r.register spec = .error err) : r.offer spec = r := by
  rw [offer, refused]

theorem filled (start : Registry) (specs : List OptionSpec) :
    Filled start specs (start.offerAll specs) where
  found := getOfferedAll start specs
  ascending := List.pairwise_map.mpr ((start.offerAll specs).ascending.imp bytesLess)
  listed := List.forall₂_map_left_iff.mpr
    (List.forall₂_same.mpr fun _ here => ⟨Catalog.getMember.mpr here, rfl⟩)
  counted := sizeOfferedAll start specs
  refuses _ _ := registerRefuses
  untouched spec err refused := by
    rw [offerAll, List.foldl_append]
    exact offerRefused refused

end Registry

structure Config.Registers (c : Config) : Prop where
  accepts : (∃ r, c.registry = .ok r) ↔
    Registry.Accepts .builtin (c.options.map CustomOption.name)
  refuses : ∀ err, c.registry = .error err ↔ ∃ before o after,
    c.options = before ++ o :: after ∧
    Registry.Accepts .builtin (before.map CustomOption.name) ∧
    Registry.Refuses .builtin (before.map CustomOption.name) o.name err
  filled : ∀ r, c.registry = .ok r →
    Registry.Filled .builtin (c.options.map CustomOption.toSpec) r
  permuted : ∀ r options, c.registry = .ok r → options.Perm c.options →
    Config.registry { c with options } = .ok r

theorem namesSpecified (options : List CustomOption) :
    (options.map CustomOption.toSpec).map OptionSpec.name = options.map CustomOption.name :=
  List.map_map ..

theorem Config.registers (c : Config) : c.Registers where
  accepts := by
    rw [← namesSpecified]
    exact ⟨fun ⟨r, accepted⟩ => (Registry.registerAllAccepts.mp accepted).1,
      fun accepts => ⟨_, Registry.registerAllAccepts.mpr ⟨accepts, rfl⟩⟩⟩
  refuses err := by
    rw [registry, Registry.registerAllRefuses]
    constructor
    · rintro ⟨_, _, _, whole, accepts, refuses⟩
      obtain ⟨before, rest, parted, rfl, first⟩ := List.map_eq_append_iff.mp whole
      obtain ⟨o, after, rfl, rfl, rfl⟩ := List.map_eq_cons_iff.mp first
      rw [namesSpecified] at accepts refuses
      exact ⟨before, o, after, parted, accepts, refuses⟩
    · rintro ⟨before, o, after, whole, accepts, refuses⟩
      rw [← namesSpecified] at accepts refuses
      exact ⟨_, o.toSpec, after.map CustomOption.toSpec, by simp [whole], accepts, refuses⟩
  filled r accepted := by
    rw [← Registry.registerAllOffered accepted]
    exact Registry.filled .builtin _
  permuted _ _ accepted same := Registry.registerAllPermuted (same.map _) accepted

theorem registryContents :
    (∀ (start : Registry) (specs : List OptionSpec),
      start.Filled specs (start.offerAll specs)) ∧
    ∀ c : Config, c.Registers :=
  ⟨Registry.filled, Config.registers⟩

end KeyForm
