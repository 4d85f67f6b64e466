import KeyForm.Proofs.Grammar
import KeyForm.Proofs.Displacement
/-! The heuristic only supplies a separator. A form without one is compiled as the form
with a separator before its first key, and errors keep their kind and their place. -/
namespace KeyForm

inductive SameFault (place : Nat → Nat) : CompileError → CompileError → Prop where
  | malformed {index index' : Nat} (h : index' = place index) (cause cause' : Misfit) :
      SameFault place (.malformed index cause) (.malformed index' cause')
  | unknownOption {index index' : Nat} (h : index' = place index) (name : String)
      (suggestion : Option String) :
      SameFault place (.unknownOption index name suggestion)
        (.unknownOption index' name suggestion)
  | unpairedKey {index index' : Nat} (h : index' = place index) (key : Element) :
      SameFault place (.unpairedKey index key) (.unpairedKey index' key)

def afterGap (gap index : Nat) : Nat := if index < gap then index else index + 1

theorem stays {gap index : Nat} (before : index < gap) : index = afterGap gap index :=
  (if_pos before).symm

theorem sameMoved {gap : Nat} {e d : CompileError} (h : FaultMoved gap 1 e d) :
    SameFault (afterGap gap) e d := by
  obtain ⟨place, rfl⟩ := h
  have moves : e.index + 1 = afterGap gap e.index := (if_neg (Nat.not_lt.mpr place)).symm
  cases e with
  | malformed _ cause => exact .malformed moves cause cause
  | unknownOption _ name suggestion => exact .unknownOption moves name suggestion
  | unpairedKey _ key => exact .unpairedKey moves key

def separated (es : List Element) : List Element :=
  es.take (keyStart es) ++ .separator :: es.drop (keyStart es)

theorem separatedOption (name : String) (value : Element) (rest : List Element) :
    separated (.keyword name :: value :: rest) = .keyword name :: value :: separated rest := by
  simp [separated, keyStart]

theorem separatedKeys {es : List Element} (begins : ∀ e ∈ es.head?, e.isKeyLiteral = true) :
    keyStart es = 0 ∧ separated es = .separator :: es := by
  have none : LeadingForm .empty 0 [] := .nil
  have start : keyStart es = 0 := keyStartForm none begins
  simp [separated, start]

theorem separatedOther {e : Element} {rest : List Element} (other : ¬ e.isKeyLiteral = true)
    (item : ∀ name value later, e = .keyword name → rest = value :: later → False) :
    keyStart (e :: rest) = keyStart rest + 1 ∧ separated (e :: rest) = e :: separated rest := by
  have start : keyStart (e :: rest) = keyStart rest + 1 := by
    rw [keyStart.eq_2 e rest item, if_neg other]
  simp [separated, start]

section
variable {registry : Registry} {policy : ClearPolicy} {live : Settings}
variable {positional : List Element} {index gap : Nat}

abbrev Rules.inferring (registry : Registry) (policy : ClearPolicy) : Rules :=
  ⟨registry, policy, .heuristic⟩

abbrev Rules.reading (registry : Registry) (policy : ClearPolicy) : Rules :=
  ⟨registry, policy, .explicit true⟩

abbrev Agree (registry : Registry) (policy : ClearPolicy) (gap : Nat) (live : Settings)
    (positional : List Element) (index : Nat) (es es' : List Element) : Prop :=
  Alike (SameFault (afterGap gap)) Eq
    (Walk.run (.inferring registry policy) ⟨live, .leading positional none⟩ index es)
    (Walk.run (.reading registry policy) ⟨live, .leading positional none⟩ index es')

theorem keysAgree {es : List Element} (begins : ∀ e ∈ es.head?, e.isKeyLiteral = true) :
    Agree registry policy index live positional index es (.separator :: es) := by
  have same : Displaced index 1 [] ⟨live, .keys (.opened live) (.next false)⟩
      ⟨live, .keys ((Yield.opened live).after []) (.next false)⟩ := .next live _ false
  have moved := @Displaced.run _ _ _ (.inferring registry policy) index _ _ same
    (.explicit true) (Nat.le_refl index) es
  unfold Agree
  rw [openingKey rfl _ _ _ begins]
  have opened : Walk.run (.reading registry policy) ⟨live, .leading positional none⟩ index
      (.separator :: es) = Walk.run (.reading registry policy)
        ⟨live, .keys ((Yield.opened live).after []) (.next false)⟩ (index + 1) es := rfl
  rw [opened]
  exact moved.imp (fun _ _ h => sameMoved h) (fun _ _ h => h.symm)

theorem leadingOption (rules : Rules) {name : String} {spec : OptionSpec}
    (found : rules.registry.get? name = some spec) (value : Element) (rest : List Element) :
    Walk.run rules ⟨live, .leading positional none⟩ index (.keyword name :: value :: rest) =
      Walk.takeValue (index + 1) value index spec (match spec.kind with
        | .setting =>
          .ok ⟨live.set spec.name (spec.normalize value), .leading positional none⟩
        | .extendedMarker => Walk.misfit index (.earlyMarker spec.name)) >>= fun w =>
      w.run rules (index + 1 + 1) rest := by
  simp only [Walk.run, Walk.step, Walk.leadingStep, Walk.takeName, found]
  rfl

theorem optionAgrees {es es' : List Element} (name : String) {value : Element}
    (plain : value.isSeparator = false) (far : index + 1 < gap)
    (later : ∀ live, Agree registry policy gap live positional (index + 1 + 1) es es') :
    Agree registry policy gap live positional index (.keyword name :: value :: es)
      (.keyword name :: value :: es') := by
  unfold Agree
  cases found : registry.get? name with
  | none =>
    simp only [Walk.run, Walk.step, Walk.leadingStep, Walk.takeName, found]
    exact .error (.unknownOption (stays (by omega)) _ _)
  | some spec =>
    rw [leadingOption _ found, leadingOption _ found]
    simp only [Walk.takeValue, plain, Bool.false_eq_true, if_false]
    cases spec.accepts value with
    | false => exact .error (.malformed (stays far) _ _)
    | true =>
      cases spec.kind with
      | setting => exact later _
      | extendedMarker => exact .error (.malformed (stays (by omega)) _ _)

theorem contextAgrees {es es' : List Element} {e : Element}
    (other : ¬ e.isKeyLiteral = true) (unnamed : ∀ name, e ≠ .keyword name)
    (plain : e.isSeparator = false) (far : index < gap)
    (later : ∀ live positional, Agree registry policy gap live positional (index + 1) es es') :
    Agree registry policy gap live positional index (e :: es) (e :: es') := by
  have judged : ∀ rules : Rules, Walk.leadingStep rules live positional index e =
      Walk.takeJudged (rules.strategy.classify index e) live positional index e := by
    intro rules
    cases e with
    | keyword name => exact absurd rfl (unnamed name)
    | separator | clearingSeparator => cases plain
    | str | vector | symbol | list | function => rfl
  simp only [Agree, Walk.run, Walk.step, judged, Strategy.classify, other]
  cases e.isTarget with
  | false => exact .error (.malformed (stays far) _ _)
  | true =>
    cases positional with
    | nil => exact later _ _
    | cons first more =>
      cases more with
      | nil => exact later _ _
      | cons second more => exact .error (.malformed (stays far) _ _)

theorem loneAgrees (name : String) :
    Agree registry policy (index + 1) live positional index [.keyword name]
      [.keyword name, .separator] := by
  simp only [Agree, Walk.run, Walk.step, Walk.leadingStep, Walk.takeName]
  cases registry.get? name with
  | none => exact .error (.unknownOption (stays (by omega)) _ _)
  | some spec => exact .error (.malformed (stays (by omega)) _ _)

theorem leadingAgrees {es : List Element} (plain : ∀ e ∈ es, e.isSeparator = false)
    (first : gap = index + keyStart es) :
    Agree registry policy gap live positional index es (separated es) := by
  fun_induction keyStart es generalizing live positional index with
  | case1 name value rest ih =>
    rw [separatedOption]
    have tail : ∀ e ∈ rest, e.isSeparator = false := fun e mem => plain e (by simp [mem])
    exact optionAgrees name (plain value (by simp)) (by omega) fun live => ih tail (by omega)
  | case2 e rest _ literal =>
    have begins : ∀ k ∈ (e :: rest).head?, k.isKeyLiteral = true := by simpa using literal
    rw [(separatedKeys begins).2]
    subst first
    exact keysAgree begins
  | case3 e rest item other ih =>
    rw [(separatedOther other item).2]
    have tail : ∀ e ∈ rest, e.isSeparator = false := fun e mem => plain e (by simp [mem])
    by_cases named : ∃ name, e = .keyword name
    · -- the last element of the form, and an option without a value
      obtain ⟨name, rfl⟩ := named
      cases rest with
      | cons value later => exact absurd rfl (item name value later rfl)
      | nil =>
        subst first
        exact loneAgrees name
    · exact contextAgrees other (fun name h => named ⟨name, h⟩) (plain e (by simp)) (by omega)
        fun live positional => ih tail (by omega)
  | case4 =>
    subst first
    exact keysAgree (by simp)

end

theorem separatorInferred (registry : Registry) (policy : ClearPolicy) (heuristic : Bool)
    {es : List Element} (plain : es.any Element.isSeparator = false) :
    Alike (SameFault (afterGap (keyStart es))) Eq
      (Compiler.compile ⟨registry, ⟨true, policy⟩⟩ es)
      (Compiler.compile ⟨registry, ⟨heuristic, policy⟩⟩ (separated es)) := by
  have unseparated : ∀ e ∈ es, e.isSeparator = false := by simpa using plain
  have inferring : Compiler.rules ⟨registry, ⟨true, policy⟩⟩ es = .inferring registry policy := by
    simp [Compiler.rules, Strategy.choose, plain]
  have reading : Compiler.rules ⟨registry, ⟨heuristic, policy⟩⟩ (separated es) =
      .reading registry policy := by
    simp [Compiler.rules, Strategy.choose, separated, Element.isSeparator]
  rw [compileWalks, compileWalks, inferring, reading]
  exact leadingAgrees unseparated (Nat.zero_add _).symm

def unseparatedForm : List Element :=
  [.keyword "prefix", .str "x", .symbol "m", .str "a", .symbol "f"]

def inferredBatches : List Batch :=
  [⟨(Settings.set .empty "prefix" (.str "x")).set keymapsName (.list [.symbol "m"]),
    [.plain (.str "a") (.symbol "f")]⟩]

def unpairedForm : List Element := unseparatedForm ++ [.str "b"]

theorem prefixInferred :
    unseparatedForm.any Element.isSeparator = false ∧
    separated unseparatedForm =
      [.keyword "prefix", .str "x", .symbol "m", .separator, .str "a", .symbol "f"] ∧
    Alike (SameFault (afterGap 3)) Eq
      (Compiler.compile ⟨.builtin, ⟨true, .all⟩⟩ unseparatedForm)
      (Compiler.compile ⟨.builtin, ⟨false, .all⟩⟩ (separated unseparatedForm)) ∧
    Compiler.compile ⟨.builtin, ⟨true, .all⟩⟩ unseparatedForm = .ok inferredBatches ∧
    Compiler.compile ⟨.builtin, ⟨false, .all⟩⟩ (separated unseparatedForm) =
      .ok inferredBatches ∧
    Compiler.compile ⟨.builtin, ⟨true, .all⟩⟩ unpairedForm =
      .error (.unpairedKey 5 (.str "b")) ∧
    Compiler.compile ⟨.builtin, ⟨false, .all⟩⟩ (separated unpairedForm) =
      .error (.unpairedKey 6 (.str "b")) := by
  have alike := @separatorInferred .builtin .all false unseparatedForm rfl
  have inferred : Compiler.compile ⟨.builtin, ⟨true, .all⟩⟩ unseparatedForm =
      .ok inferredBatches := rfl
  have unpaired : Compiler.compile ⟨.builtin, ⟨true, .all⟩⟩ unpairedForm =
      .error (.unpairedKey 5 (.str "b")) := rfl
  have faults := @separatorInferred .builtin .all false unpairedForm rfl
  rw [unpaired] at faults
  obtain ⟨fault, refused, same⟩ := faults.ofError
  obtain ⟨place⟩ | ⟨place⟩ | ⟨place⟩ := same
  rw [place] at refused
  exact ⟨rfl, rfl, alike, inferred, (alike.okIff _).mp inferred, unpaired, refused⟩

end KeyForm
