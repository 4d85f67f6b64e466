import KeyForm.Proofs.Stream
import KeyForm.Proofs.Unreached
/-! Where an error is. What is half done remembers the place at which it began, so every
error names an element of the form, and only a form whose keys are never reached is at
fault past its end. -/
namespace KeyForm

inductive Fault (rules : Rules) : Walk → Nat → Element → CompileError → Prop where
  | here {w index e} (cause : Misfit) : Fault rules w index e (.malformed index cause)
  | default {live positional named spec index e} (cause : Misfit) :
      Fault rules ⟨live, .leading positional (some (named, spec))⟩ index e
        (.malformed named cause)
  | option {live y named spec x index e} (cause : Misfit) :
      Fault rules ⟨live, .keys y (.value named spec x)⟩ index e (.malformed named cause)
  | unknown {w index name} (unknown : rules.registry.get? name = none) :
      Fault rules w index (.keyword name)
        (.unknownOption index name (rules.registry.suggest name))
  | unpaired {live y place key index e}
      (breaks : e.isSeparator = true ∨
        ∃ name, e = .keyword name ∧ rules.registry.contains name = true) :
      Fault rules ⟨live, .keys y (.definition place key)⟩ index e (.unpairedKey place key)

namespace Fault
variable {rules : Rules} {w : Walk} {index : Nat} {e : Element} {err : CompileError}

theorem misfit {cause : Misfit} (failed : Walk.misfit index cause = .error err) :
    Fault rules w index e err := by
  cases failed
  exact .here cause

theorem name {name : String} {next : OptionSpec → Except CompileError Walk}
    (failed : Walk.takeName rules.registry index name next = .error err)
    (later : ∀ spec, rules.registry.get? name = some spec → next spec = .error err →
      Fault rules w index (.keyword name) err) : Fault rules w index (.keyword name) err := by
  unfold Walk.takeName at failed
  split at failed
  · cases failed
    exact .unknown ‹_›
  · exact later _ ‹_› failed

theorem value {named : Nat} {spec : OptionSpec} {next : Except CompileError Walk}
    (failed : Walk.takeValue index e named spec next = .error err)
    (early : ∀ cause, Fault rules w index e (.malformed named cause))
    (later : next = .error err → Fault rules w index e err) : Fault rules w index e err := by
  unfold Walk.takeValue at failed
  split at failed
  · cases failed
    exact early _
  split at failed
  · exact misfit failed
  · exact later failed

theorem item {live : Settings} {y : Yield} {x : Bool}
    (failed : Walk.takeItem live y x index e = .error err) : Fault rules w index e err := by
  unfold Walk.takeItem at failed
  cases x with
  | true =>
    simp only [if_true] at failed
    split at failed
    · exact misfit failed
    split at failed
    · cases failed
    · exact misfit failed
  | false =>
    simp only [Bool.false_eq_true, if_false] at failed
    split at failed
    · exact misfit failed
    split at failed
    · cases failed
    · exact misfit failed

theorem context {live : Settings} {positional : List Element}
    (failed : Walk.takeContext live positional index e = .error err) :
    Fault rules w index e err := by
  unfold Walk.takeContext at failed
  split at failed
  · cases failed
  · cases failed
  · exact misfit failed

theorem unjudged {strategy : Strategy} (refused : strategy.classify index e = .error err) :
    Fault rules w index e err := by
  unfold Strategy.classify at refused
  repeat' split at refused
  all_goals cases refused
  all_goals exact .here _

theorem judged {strategy : Strategy} {live : Settings} {positional : List Element}
    (failed : Walk.takeJudged (strategy.classify index e) live positional index e =
      .error err) : Fault rules w index e err := by
  unfold Walk.takeJudged at failed
  split at failed
  · next refused =>
    cases failed
    exact unjudged refused
  · exact context failed
  · exact item failed

theorem itemStep {live : Settings} {y : Yield} {x : Bool}
    (failed : Walk.itemStep rules live y x index e = .error err) : Fault rules w index e err := by
  cases e with
  | separator | clearingSeparator => cases failed
  | keyword option => exact name failed nofun
  | symbol | str | vector | list | function => exact item failed

theorem ofStep (failed : w.step rules index e = .error err) : Fault rules w index e err := by
  obtain ⟨live, stage⟩ := w
  match stage with
  | .leading positional none =>
    cases e with
    | separator | clearingSeparator => cases failed
    | keyword option => exact name failed nofun
    | symbol | str | vector | list | function => exact judged failed
  | .leading positional (some (named, spec)) =>
    refine value failed .default fun failed => ?_
    cases kind : spec.kind with
    | setting => simp [kind] at failed
    | extendedMarker =>
      simp only [kind] at failed
      cases failed
      exact .default _
  | .keys y .key => exact itemStep (x := false) failed
  | .keys y .entry => exact itemStep (x := true) failed
  | .keys y (.value named spec x) => exact value failed .option nofun
  | .keys y (.definition place key) =>
    cases e with
    | separator | clearingSeparator =>
      cases failed
      exact .unpaired (.inl rfl)
    | keyword option =>
      refine name failed fun spec found failed => ?_
      cases failed
      exact .unpaired (.inr ⟨option, rfl, by simp [Catalog.contains, found]⟩)
    | list => exact misfit failed
    | symbol | str | vector | function => cases failed

end Fault

-- A name or a key that the walk still holds is always the element just before it.
inductive Recalls : List Element → Walk → Prop where
  | leading {before live positional} : Recalls before ⟨live, .leading positional none⟩
  | default {before name live positional spec} :
      Recalls (before ++ [name]) ⟨live, .leading positional (some (before.length, spec))⟩
  | key {before live y} : Recalls before ⟨live, .keys y .key⟩
  | entry {before live y} : Recalls before ⟨live, .keys y .entry⟩
  | option {before name live y spec x} :
      Recalls (before ++ [name]) ⟨live, .keys y (.value before.length spec x)⟩
  | definition {before key live y} (literal : key.isKeyLiteral = true) :
      Recalls (before ++ [key]) ⟨live, .keys y (.definition before.length key)⟩

inductive Blamed (registry : Registry) (es : List Element) : CompileError → Prop where
  | malformed {index} (cause : Misfit) (inside : index < es.length) :
      Blamed registry es (.malformed index cause)
  | unknownOption {index name} (here : es[index]? = some (.keyword name))
      (unknown : registry.get? name = none) :
      Blamed registry es (.unknownOption index name (registry.suggest name))
  | unpairedKey {index key} (here : es[index]? = some key) (literal : key.isKeyLiteral = true)
      (next : ∀ e ∈ es[index + 1]?, e.isSeparator = true ∨
        ∃ name, e = .keyword name ∧ registry.contains name = true) :
      Blamed registry es (.unpairedKey index key)

section
variable {rules : Rules} {w w' : Walk} {e : Element} {before later : List Element}
variable {index : Nat} {es : List Element} {err : CompileError}

theorem Recalls.next (live : Settings) (y : Yield) (x : Bool) :
    Recalls before ⟨live, .keys y (.next x)⟩ := by
  cases x with
  | false => exact .key
  | true => exact .entry

theorem itemRecalls {live : Settings} {y : Yield} {x : Bool}
    (taken : Walk.takeItem live y x before.length e = .ok w') : Recalls (before ++ [e]) w' := by
  rcases itemTaken taken with ⟨_, _, rfl⟩ | ⟨_, literal, rfl⟩
  · exact .next _ _ true
  · exact .definition literal

theorem itemStepRecalls {live : Settings} {y : Yield} {x : Bool}
    (taken : Walk.itemStep rules live y x before.length e = .ok w') :
    Recalls (before ++ [e]) w' := by
  cases e with
  | separator | clearingSeparator =>
    cases taken
    exact .key
  | keyword name =>
    obtain ⟨spec, _, next⟩ := nameTaken taken
    cases next
    exact .option
  | symbol | str | vector | list | function => exact itemRecalls taken

theorem stepRecalls (recalls : Recalls before w)
    (taken : w.step rules before.length e = .ok w') : Recalls (before ++ [e]) w' := by
  cases recalls with
  | leading =>
    cases e with
    | separator | clearingSeparator =>
      cases taken
      exact .key
    | keyword name =>
      obtain ⟨spec, _, next⟩ := nameTaken taken
      cases next
      exact .default
    | symbol | str | vector | list | function =>
      simp only [Walk.step, Walk.leadingStep, Walk.takeJudged] at taken
      split at taken
      · cases taken
      · obtain ⟨_, _, rfl, _⟩ := contextTaken taken
        exact .leading
      · exact itemRecalls taken
  | @default _ _ _ _ spec =>
    obtain ⟨_, _, next⟩ := valueTaken taken
    cases kind : spec.kind with
    | setting =>
      simp only [kind] at next
      cases next
      exact .leading
    | extendedMarker => simp [kind, Walk.misfit] at next
  | key => exact itemStepRecalls (x := false) taken
  | entry => exact itemStepRecalls (x := true) taken
  | @option _ _ live y spec x =>
    obtain ⟨_, _, next⟩ := valueTaken taken
    obtain ⟨live', y', turned⟩ := valueStepMode live y spec x e
    cases next
    rw [turned]
    exact .next live' y' _
  | definition =>
    cases e with
    | separator | clearingSeparator | list => cases taken
    | keyword name =>
      obtain ⟨_, _, next⟩ := nameTaken taken
      cases next
    | symbol | str | vector | function =>
      cases taken
      exact .key

theorem advanceRecalls (recalls : Recalls before w)
    (walked : w.advance rules before.length es = .ok w') : Recalls (before ++ es) w' := by
  induction es generalizing w before with
  | nil =>
    cases walked
    simpa using recalls
  | cons e rest ih =>
    obtain ⟨next, here, later⟩ := okBind walked
    have further := ih (stepRecalls recalls here) (by simpa using later)
    simpa using further

theorem faultBlamed (recalls : Recalls before w) (fault : Fault rules w before.length e err)
    (later : List Element) :
    Blamed rules.registry (before ++ e :: later) err ∧ err.index ≤ before.length := by
  cases fault with
  | here cause => exact ⟨.malformed cause (by simp), Nat.le_refl _⟩
  | default cause | option cause =>
    cases recalls
    exact ⟨.malformed cause (by simp), by simp [CompileError.index]⟩
  | unknown absent => exact ⟨.unknownOption (by simp) absent, Nat.le_refl _⟩
  | unpaired breaks =>
    cases recalls with
    | definition literal =>
      refine ⟨.unpairedKey (by simp) literal ?_, by simp [CompileError.index]⟩
      simpa [Option.mem_def] using breaks

theorem failedRun (w : Walk) (index : Nat) (failed : w.run rules index es = .error err) :
    (∃ before e later w', es = before ++ e :: later ∧ w.advance rules index before = .ok w' ∧
      w'.step rules (index + before.length) e = .error err) ∨
    ∃ w', w.advance rules index es = .ok w' ∧
      w'.close rules (index + es.length) = .error err := by
  induction es generalizing w index with
  | nil => exact .inr ⟨w, rfl, failed⟩
  | cons e rest ih =>
    simp only [Walk.run] at failed
    cases taken : w.step rules index e with
    | error first =>
      rw [taken] at failed
      cases failed
      exact .inl ⟨[], e, rest, w, rfl, rfl, taken⟩
    | ok next =>
      rw [taken] at failed
      rcases ih next (index + 1) failed with ⟨before, e', later, w', rfl, walked, fault⟩ |
        ⟨w', walked, fault⟩
      · refine .inl ⟨e :: before, e', later, w', rfl, ?_, ?_⟩
        · simpa [Walk.advance, taken, bind, Except.bind] using walked
        · rwa [List.length_cons, Nat.add_comm before.length, ← Nat.add_assoc]
      · refine .inr ⟨w', ?_, ?_⟩
        · simpa [Walk.advance, taken, bind, Except.bind] using walked
        · rwa [List.length_cons, Nat.add_comm rest.length, ← Nat.add_assoc]

theorem closeBlamed (recalls : Recalls es w) (failed : w.close rules es.length = .error err) :
    (Blamed rules.registry es err ∧ err.index < es.length) ∨
    (err = .malformed es.length .unreachedKeys ∧ rules.strategy.allowsOpenEnd = false ∧
      ∃ live positional, w = ⟨live, .leading positional none⟩) := by
  cases recalls with
  | leading =>
    simp only [Walk.close] at failed
    split at failed
    · cases failed
    next closed =>
    cases failed
    exact .inr ⟨rfl, by simpa using closed, _, _, rfl⟩
  | default | option =>
    cases failed
    exact .inl ⟨.malformed _ (by simp), by simp [CompileError.index]⟩
  | key | entry => cases failed
  | definition literal =>
    cases failed
    exact .inl ⟨.unpairedKey (by simp) literal (by simp), by simp [CompileError.index]⟩

theorem fitted {c : Classifier} {a : Assembly} (h : LockStep w c a)
    (taken : w.step rules index e = .ok w') : ∃ token next a',
    c.step rules.registry rules.strategy index e = .ok (token, next) ∧ LockStep w' next a' := by
  have follows := stepFollows rules h index e
  rw [taken] at follows
  generalize laid : lay rules.policy a (c.step rules.registry rules.strategy index e) = both
    at follows
  cases follows with
  | @ok _ both locked =>
    obtain ⟨⟨token, next⟩, step, rest⟩ := okBind laid
    obtain ⟨a', _, same⟩ := okBind rest
    cases same
    exact ⟨token, next, a', step, locked⟩

theorem tokensWalked {c : Classifier} {a : Assembly} (h : LockStep w c a)
    (walked : w.advance rules index before = .ok w') (later : List Element) :
    before.length ≤
      (TokenStream.scan rules.registry rules.strategy c index (before ++ later)).tokens.length := by
  induction before generalizing w c a index with
  | nil => exact Nat.zero_le _
  | cons e rest ih =>
    obtain ⟨next, here, walked⟩ := okBind walked
    obtain ⟨token, state, a', step, locked⟩ := fitted h here
    have further := ih locked walked
    simpa [TokenStream.scan, step] using further

end

theorem failedForm (c : Compiler) {es : List Element} {err : CompileError}
    (failed : c.compile es = .error err) :
    (Blamed c.registry es err ∨ err = .malformed es.length .unreachedKeys ∧ Unreached c es) ∧
    err.index ≤ (c.classify es).tokens.length := by
  have begun : LockStep .start .start .start := ⟨⟨0, rfl, rfl⟩, rfl⟩
  have recalls : Recalls [] .start := .leading
  rw [compileWalks] at failed
  rcases failedRun .start 0 failed with ⟨before, e, later, w, rfl, walked, fault⟩ |
    ⟨w, walked, fault⟩
  · rw [Nat.zero_add] at fault
    obtain ⟨blamed, place⟩ :=
      faultBlamed (advanceRecalls recalls walked) (.ofStep fault) later
    have tokens := tokensWalked begun walked (e :: later)
    exact ⟨.inl blamed, Nat.le_trans place tokens⟩
  · rw [Nat.zero_add] at fault
    have tokens := tokensWalked begun walked []
    rw [List.append_nil] at tokens
    rcases closeBlamed (advanceRecalls recalls walked) fault with
      ⟨blamed, place⟩ | ⟨rfl, closed, live, positional, rfl⟩
    · exact ⟨.inl blamed, Nat.le_trans (Nat.le_of_lt place) tokens⟩
    · have unreached := (unreachedIff c es).mp ⟨live, positional, walked, closed⟩
      exact ⟨.inr ⟨rfl, unreached⟩, tokens⟩

theorem faultsPlaced (c : Compiler) (es : List Element) :
    (∀ err, c.compile es = .error err →
      (Blamed c.registry es err ∨ err = .malformed es.length .unreachedKeys) ∧
      ∀ i < err.index, ∃ token, (c.classify es).items[i]? = some (.ok token) ∧
        token.index = i) ∧
    ((∃ cause, c.compile es = .error (.malformed es.length cause)) ↔ Unreached c es) := by
  refine ⟨?_, ?_, ?_⟩
  · intro err failed
    obtain ⟨blamed, place⟩ := failedForm c failed
    refine ⟨blamed.imp id And.left, fun i before => ?_⟩
    exact itemBefore c.registry _ es (Nat.lt_of_lt_of_le before place)
  · rintro ⟨cause, failed⟩
    obtain ⟨blamed | ⟨_, unreached⟩, _⟩ := failedForm c failed
    · cases blamed with
      | malformed _ inside => exact absurd inside (Nat.lt_irrefl _)
    · exact unreached
  · intro unreached
    obtain ⟨live, positional, walked, closed⟩ := (unreachedIff c es).mpr unreached
    refine ⟨.unreachedKeys, ?_⟩
    rw [compileWalks, ← List.append_nil es, Walk.runAppend, List.append_nil, walked]
    simp [bind, Except.bind, Walk.run, Walk.close, closed]

example : Compiler.compile ⟨.builtin, ⟨false, .all⟩⟩ [.keyword "prefix", .str "x"] =
    .error (.malformed 2 .unreachedKeys) := rfl

inductive Keyless : CompileError → Prop where
  | malformed (index : Nat) (cause : Misfit) : Keyless (.malformed index cause)
  | unknownOption (index : Nat) (name : String) (suggestion : Option String) :
      Keyless (.unknownOption index name suggestion)

theorem leadingKeyless {rules : Rules} {separated : Bool}
    (choice : rules.strategy = .explicit separated) {es : List Element}
    (plain : ∀ e ∈ es, e.isSeparator = false) (live : Settings) (positional : List Element)
    (awaiting : Option (Nat × OptionSpec)) (index : Nat) : ∃ err,
    Walk.run rules ⟨live, .leading positional awaiting⟩ index es = .error err ∧ Keyless err := by
  induction es generalizing live positional awaiting index with
  | nil =>
    cases awaiting with
    | some waiting => exact ⟨_, rfl, .malformed _ _⟩
    | none =>
      refine ⟨.malformed index .unreachedKeys, ?_, .malformed _ _⟩
      simp [Walk.run, Walk.close, choice, Strategy.allowsOpenEnd]
  | cons e rest ih =>
    obtain ⟨here, later⟩ := List.forall_mem_cons.mp plain
    simp only [Walk.run]
    cases taken : Walk.step rules ⟨live, .leading positional awaiting⟩ index e with
    | error err =>
      refine ⟨err, rfl, ?_⟩
      cases Fault.ofStep taken with
      | here cause | default cause => exact .malformed _ cause
      | unknown absent => exact .unknownOption _ _ _
    | ok next =>
      obtain ⟨_, _, _, rfl⟩ := Walk.leadingStays choice here taken
      exact ih later _ _ _ (index + 1)

theorem inferenceConservative (registry : Registry) (policy : ClearPolicy)
    (es : List Element) :
    (es.any Element.isSeparator = true →
      Compiler.compile ⟨registry, ⟨true, policy⟩⟩ es =
        Compiler.compile ⟨registry, ⟨false, policy⟩⟩ es) ∧
    (es.any Element.isSeparator = false →
      ∃ err, Compiler.compile ⟨registry, ⟨false, policy⟩⟩ es = .error err ∧ Keyless err) ∧
    ∀ batches, Compiler.compile ⟨registry, ⟨false, policy⟩⟩ es = .ok batches →
      Compiler.compile ⟨registry, ⟨true, policy⟩⟩ es = .ok batches := by
  have same : es.any Element.isSeparator = true →
      Compiler.compile ⟨registry, ⟨true, policy⟩⟩ es =
        Compiler.compile ⟨registry, ⟨false, policy⟩⟩ es := by
    intro separated
    have chosen (heuristic : Bool) : Compiler.rules ⟨registry, ⟨heuristic, policy⟩⟩ es =
        ⟨registry, policy, .explicit true⟩ := by
      simp [Compiler.rules, Strategy.choose, separated]
    rw [compileWalks, compileWalks, chosen, chosen]
  have fails : es.any Element.isSeparator = false →
      ∃ err, Compiler.compile ⟨registry, ⟨false, policy⟩⟩ es = .error err ∧ Keyless err := by
    intro plain
    have choice := chosenNone (c := ⟨registry, ⟨false, policy⟩⟩) rfl plain
    rw [compileWalks]
    exact leadingKeyless choice (by simpa using plain) _ _ _ _
  refine ⟨same, fails, ?_⟩
  intro batches compiled
  cases separated : es.any Element.isSeparator with
  | true => rw [same separated, compiled]
  | false =>
    obtain ⟨err, failed, _⟩ := fails separated
    rw [compiled] at failed
    cases failed

end KeyForm
