import KeyForm.Proofs.Faults
import KeyForm.Proofs.Overlay
/-! Where in its section an option stands. The settings of a section are looked at only when it
ends, so an option may be written before or after the other items of its section, as long as
none of them writes the same name. -/
namespace KeyForm

def optionNames : List Element → List String
  | .keyword name :: _ :: rest => name :: optionNames rest
  | [.keyword name] => [name]
  | _ :: rest => optionNames rest
  | [] => []

theorem namesKeyword (name : String) (rest : List Element) :
    optionNames (.keyword name :: rest) = name :: optionNames rest.tail := by
  cases rest <;> rfl

def stateAfter (registry : Registry) (es : List Element) : Classifier :=
  lastState .start (TokenStream.ofForm registry (.explicit true) es).tokens

/-- Every element of the form is taken, and at its end neither the value of an option nor the
definition of a key is waited for. -/
structure Settled (registry : Registry) (es : List Element) : Prop where
  taken : (TokenStream.ofForm registry (.explicit true) es).tokens.length = es.length
  option : (stateAfter registry es).awaiting = none
  key : (stateAfter registry es).runLength % 2 = 0

def Untouched (name : String) : Turn → List Element → Prop
  | .value _ spec _, es => spec.name ≠ name ∧ name ∉ optionNames es.tail
  | .key, es | .entry, es | .definition _ _, es => name ∉ optionNames es

/-- The second walk has one more setting than the first, and is `n` elements further. -/
inductive Written (name : String) (value : Element) (n : Nat) (later : List Element) :
    Walk → Walk → Prop where
  | keys (live : Settings) (y : Yield) (t : Turn) (untouched : Untouched name t later) :
      Written name value n later ⟨live, .keys y t⟩ ⟨live.set name value, .keys y (t.moved n)⟩

abbrev Fails {ε δ : Type} (_ : ε) (_ : δ) : Prop := True

namespace Written
variable {name : String} {value e : Element} {n index : Nat} {rest : List Element}
variable {rules : Rules} {w w' : Walk}

theorem next (live : Settings) (y : Yield) (x : Bool) (fresh : name ∉ optionNames rest) :
    Written name value n rest ⟨live, .keys y (.next x)⟩
      ⟨live.set name value, .keys y (.next x)⟩ := by
  cases x <;> exact .keys live y _ fresh

theorem takeItem (live : Settings) (y : Yield) (x : Bool) (fresh : name ∉ optionNames rest) :
    Alike Fails (Written name value n rest) (Walk.takeItem live y x index e)
      (Walk.takeItem (live.set name value) y x (index + n) e) := by
  unfold Walk.takeItem
  cases x with
  | true =>
    simp only [if_true]
    split
    · exact .error trivial
    split
    · exact .ok (next live (y.add (.extended e)) true fresh)
    · exact .error trivial
  | false =>
    simp only [Bool.false_eq_true, if_false]
    split
    · exact .error trivial
    split
    · exact .ok (.keys live y (.definition index e) fresh)
    · exact .error trivial

theorem itemStep (plain : e.isSeparator = false) (live : Settings) (y : Yield) (x : Bool)
    (fresh : name ∉ optionNames (e :: rest)) :
    Alike Fails (Written name value n rest) (Walk.itemStep rules live y x index e)
      (Walk.itemStep rules (live.set name value) y x (index + n) e) := by
  cases e with
  | separator | clearingSeparator => cases plain
  | keyword option =>
    simp only [Walk.itemStep, Walk.takeName]
    cases found : rules.registry.get? option with
    | none => exact .error trivial
    | some spec =>
      have named : spec.name = option := Catalog.getNamed found
      rw [namesKeyword, List.mem_cons, not_or] at fresh
      refine .ok (.keys live y (.value index spec x) ⟨?_, fresh.2⟩)
      exact named ▸ Ne.symm fresh.1
  | symbol | str | vector | list | function => exact takeItem live y x fresh

theorem definitionStep (plain : e.isSeparator = false) (live : Settings) (y : Yield)
    (place : Nat) (key : Element) (fresh : name ∉ optionNames (e :: rest)) :
    Alike Fails (Written name value n rest) (Walk.definitionStep rules live y place key index e)
      (Walk.definitionStep rules (live.set name value) y (place + n) key (index + n) e) := by
  cases e with
  | separator | clearingSeparator => cases plain
  | keyword option =>
    simp only [Walk.definitionStep, Walk.takeName]
    cases rules.registry.get? option <;> exact .error trivial
  | list => exact .error trivial
  | symbol | str | vector | function =>
    exact .ok (next live (y.add (.plain key _)) false fresh)

theorem valueStep (live : Settings) (y : Yield) (named : Nat) {spec : OptionSpec} (x : Bool)
    (other : spec.name ≠ name) (fresh : name ∉ optionNames rest) :
    Alike Fails (Written name value n rest)
      (Walk.takeValue index e named spec (.ok (Walk.valueStep live y spec x e)))
      (Walk.takeValue (index + n) e (named + n) spec
        (.ok (Walk.valueStep (live.set name value) y spec x e))) := by
  unfold Walk.takeValue
  split
  · exact .error trivial
  split
  · exact .error trivial
  refine .ok ?_
  cases kind : spec.kind with
  | setting =>
    have swapped : (live.set name value).set spec.name (spec.normalize e) =
        (live.set spec.name (spec.normalize e)).set name value :=
      Catalog.insertComm other.symm live
    simp only [Walk.valueStep, kind, swapped]
    exact next _ y x fresh
  | extendedMarker =>
    simp only [Walk.valueStep, kind]
    split
    · exact next live (y.add (.extended e)) x fresh
    · exact next live y e.isTrue fresh

theorem step (h : Written name value n (e :: rest) w w') (plain : e.isSeparator = false) :
    Alike Fails (Written name value n rest) (w.step rules index e)
      (w'.step rules (index + n) e) := by
  obtain ⟨live, y, t, untouched⟩ := h
  match t with
  | .key => exact itemStep plain live y false untouched
  | .entry => exact itemStep plain live y true untouched
  | .definition place key => exact definitionStep plain live y place key untouched
  | .value named spec x => exact valueStep live y named x untouched.1 untouched.2

theorem advance {es : List Element} (plain : ∀ e ∈ es, e.isSeparator = false)
    (h : Written name value n es w w') :
    Alike Fails (Written name value n []) (w.advance rules index es)
      (w'.advance rules (index + n) es) := by
  induction es generalizing w w' index with
  | nil => exact .ok h
  | cons e rest ih =>
    obtain ⟨here, later⟩ := List.forall_mem_cons.mp plain
    refine (h.step here).bind fun u u' next => ?_
    rw [Nat.add_right_comm]
    exact ih later next

end Written

namespace Walk
variable {rules : Rules} {w w' : Walk} {index : Nat} {es body : List Element}
variable {name : String} {spec : OptionSpec} {live : Settings} {y : Yield} {x : Bool}

def Resting (w : Walk) : Prop := ∃ live y x, w = ⟨live, .keys y (.next x)⟩

theorem advancedLocked {c : Classifier} {a : Assembly} (h : LockStep w c a)
    (walked : w.advance rules index es = .ok w') : ∃ a', LockStep w'
      (lastState c (TokenStream.scan rules.registry rules.strategy c index es).tokens) a' := by
  induction es generalizing w c a index with
  | nil =>
    cases walked
    exact ⟨a, h⟩
  | cons e rest ih =>
    obtain ⟨next, here, later⟩ := okBind walked
    obtain ⟨token, state, a', step, locked⟩ := fitted h here
    simpa only [TokenStream.scan, step, lastStateCons] using ih locked later

theorem settledRests (choice : rules.strategy = .explicit true)
    (separated : es.any Element.isSeparator = true) (settled : Settled rules.registry es)
    (walked : start.advance rules 0 es = .ok w) : w.Resting := by
  have begun : LockStep .start .start .start := ⟨⟨0, rfl, rfl⟩, rfl⟩
  obtain ⟨_, ⟨n, pace, state⟩, _⟩ := advancedLocked begun walked
  obtain ⟨_, option, key⟩ := settled
  rw [stateAfter, TokenStream.ofForm, ← choice, state] at option key
  obtain ⟨live, stage⟩ := w
  match stage with
  | .leading positional awaiting =>
    have plain := leadingPlain choice walked
    obtain ⟨e, mem, separator⟩ := List.any_eq_true.mp separated
    rw [plain e mem] at separator
    cases separator
  | .keys y .key => exact ⟨live, y, false, rfl⟩
  | .keys y .entry => exact ⟨live, y, true, rfl⟩
  | .keys y (.value named spec x) => cases option
  | .keys y (.definition place e) =>
    have odd : n % 2 = 1 := by simpa [odd] using pace
    have even : n % 2 = 0 := key
    omega

theorem settingMet (found : rules.registry.get? name = some spec) (kind : spec.kind = .setting)
    (value : Element) (later : List Element) :
    run rules ⟨live, .keys y (.next x)⟩ index (.keyword name :: value :: later) =
      takeValue (index + 1) value index spec
        (.ok ⟨live.set name (spec.normalize value), .keys y (.next x)⟩) >>= fun w =>
      w.run rules (index + 2) later := by
  have named : spec.name = name := Catalog.getNamed found
  simp only [run, stepNext, itemStep, takeName, found, bind, Except.bind]
  simp only [step, valueStep, kind, named]

theorem valueRefused {e : Element} (refused : ¬ (e.isSeparator = false ∧ spec.accepts e = true))
    (named : Nat) (next : Except CompileError Walk) :
    ∃ err, takeValue index e named spec next = .error err := by
  unfold takeValue
  split
  · exact ⟨_, rfl⟩
  next separator =>
  split
  · exact ⟨_, rfl⟩
  next other =>
  exact absurd ⟨by simpa using separator, by simpa using other⟩ refused

theorem valueAccepted {e : Element} (plain : e.isSeparator = false)
    (accepted : spec.accepts e = true) (named : Nat) (next : Except CompileError Walk) :
    takeValue index e named spec next = next := by
  simp [takeValue, plain, accepted]

theorem runMoved (found : rules.registry.get? name = some spec) (kind : spec.kind = .setting)
    (plain : ∀ e ∈ body, e.isSeparator = false) (fresh : name ∉ optionNames body)
    (settles : ∀ w, advance rules ⟨live, .keys y (.next x)⟩ index body = .ok w → w.Resting)
    (value : Element) (later : List Element) :
    Alike Fails Eq
      (run rules ⟨live, .keys y (.next x)⟩ index (.keyword name :: value :: (body ++ later)))
      (run rules ⟨live, .keys y (.next x)⟩ index (body ++ .keyword name :: value :: later)) := by
  have begun : Written name (spec.normalize value) 2 body _ _ := .next live y x fresh
  have walked : Alike Fails (Written name (spec.normalize value) 2 [])
      (advance rules ⟨live, .keys y (.next x)⟩ index body)
      (advance rules ⟨live.set name (spec.normalize value), .keys y (.next x)⟩ (index + 2) body) :=
    begun.advance plain
  rw [settingMet found kind, runAppend]
  by_cases fits : value.isSeparator = false ∧ spec.accepts value = true
  · rw [valueAccepted fits.1 fits.2]
    simp only [bind, Except.bind]
    rw [runAppend]
    generalize advance rules ⟨live, .keys y (.next x)⟩ index body = first at walked settles ⊢
    generalize advance rules ⟨live.set name _, .keys y (.next x)⟩ (index + 2) body = second
      at walked ⊢
    cases walked with
    | error => exact .error trivial
    | @ok u _ same =>
      obtain ⟨_, _, mode, rest⟩ := settles u rfl
      cases same
      cases rest
      simp only [bind, Except.bind]
      rw [settingMet found kind, valueAccepted fits.1 fits.2, Turn.nextMoved,
        Nat.add_right_comm]
      exact (Alike.refl _).imp (fun _ _ _ => trivial) fun _ _ same => same
  · obtain ⟨err, refused⟩ := valueRefused fits index _
    rw [refused]
    cases reached : advance rules ⟨live, .keys y (.next x)⟩ index body with
    | error => exact .error trivial
    | ok u =>
      obtain ⟨_, _, mode, rfl⟩ := settles u reached
      obtain ⟨err', refused'⟩ := valueRefused fits (index + body.length) _
      simp only [bind, Except.bind]
      rw [settingMet found kind, refused']
      exact .error trivial

theorem optionSettles (other : String) {value : Element}
    (walked : advance rules ⟨live, .keys y (.next x)⟩ index [.keyword other, value] = .ok w) :
    w.Resting := by
  obtain ⟨first, named, walked⟩ := okBind walked
  rw [stepNext] at named
  obtain ⟨spec, _, next⟩ := nameTaken named
  cases next
  obtain ⟨last, taken, done⟩ := okBind walked
  obtain ⟨_, _, next⟩ := valueTaken taken
  cases next
  cases done
  obtain ⟨live', y', turned⟩ := valueStepMode live y spec x value
  exact ⟨live', y', _, turned⟩

end Walk

theorem optionsMove (c : Compiler) {name : String} {spec : OptionSpec}
    (found : c.registry.get? name = some spec) (kind : spec.kind = .setting)
    {before : List Element} (separated : before.any Element.isSeparator = true)
    (settled : Settled c.registry before) (value : Element) (later : List Element)
    (batches : List Batch) :
    (∀ body : List Element, body.any Element.isSeparator = false →
      Settled c.registry (before ++ body) → name ∉ optionNames body →
      (c.compile (before ++ [.keyword name, value] ++ body ++ later) = .ok batches ↔
        c.compile (before ++ body ++ [.keyword name, value] ++ later) = .ok batches)) ∧
    ∀ (other : String) (value' : Element), other ≠ name → value'.isSeparator = false →
      (c.compile (before ++ [.keyword name, value] ++ [.keyword other, value'] ++ later) =
          .ok batches ↔
        c.compile (before ++ [.keyword other, value'] ++ [.keyword name, value] ++ later) =
          .ok batches) := by
  let rules : Rules := ⟨c.registry, c.options.clearPolicy, .explicit true⟩
  have ruled (es) : c.rules (before ++ es) = rules :=
    rulesSeparated c (by rw [List.any_append, separated, Bool.true_or])
  have moves : ∀ body : List Element, (∀ e ∈ body, e.isSeparator = false) →
      name ∉ optionNames body →
      (∀ live y x w, Walk.start.advance rules 0 before = .ok ⟨live, .keys y (.next x)⟩ →
        Walk.advance rules ⟨live, .keys y (.next x)⟩ before.length body = .ok w → w.Resting) →
      (c.compile (before ++ [.keyword name, value] ++ body ++ later) = .ok batches ↔
        c.compile (before ++ body ++ [.keyword name, value] ++ later) = .ok batches) := by
    intro body plain fresh settles
    simp only [List.append_assoc]
    rw [compileWalks, compileWalks, ruled, ruled, Walk.runAppend, Walk.runAppend, Nat.zero_add]
    cases walked : Walk.start.advance rules 0 before with
    | error err => exact Iff.rfl
    | ok w =>
      obtain ⟨live, y, x, rfl⟩ := Walk.settledRests rfl separated settled walked
      have moved : Alike Fails Eq
          (Walk.run rules ⟨live, .keys y (.next x)⟩ before.length
            (.keyword name :: value :: (body ++ later)))
          (Walk.run rules ⟨live, .keys y (.next x)⟩ before.length
            (body ++ .keyword name :: value :: later)) :=
        Walk.runMoved found kind plain fresh (fun w => settles live y x w walked) value later
      exact moved.okIff batches
  refine ⟨fun body plain settled' fresh => ?_, fun other value' different plain => ?_⟩
  · refine moves body (by simpa using plain) fresh fun live y x w walked reached => ?_
    have whole : Walk.start.advance rules 0 (before ++ body) = .ok w := by
      rw [Walk.advanceAppend, walked, Nat.zero_add]
      exact reached
    exact Walk.settledRests rfl (by simp [separated]) settled' whole
  · have fresh : name ∉ optionNames [.keyword other, value'] := by
      simpa [optionNames] using different.symm
    exact moves _ (by simpa [Element.isSeparator] using plain) fresh fun _ _ _ _ _ =>
      Walk.optionSettles other

def entriesOpened : List Element :=
  [.symbol "m", .separator, .keyword "ext", .symbol "t", .list [.str "a", .symbol "f"]]

-- The name of the option that is moved is the value of another one here.
def entriesClosed : List Element :=
  [.keyword "predicate", .keyword "infix", .list [.str "b", .symbol "g"], .keyword "ext",
    .symbol "nil"]

def infixMoved : List Batch :=
  let keymaps := Settings.set .empty keymapsName (.list [.symbol "m"])
  [⟨(keymaps.set "predicate" (.keyword "infix")).set "infix" (.str "x"),
    [.extended (.list [.str "a", .symbol "f"]), .extended (.list [.str "b", .symbol "g"]),
      .plain (.str "c") (.symbol "h")]⟩]

theorem infixMoves :
    (∃ spec, Registry.builtin.get? "infix" = some spec ∧ spec.kind = .setting) ∧
    entriesOpened.any Element.isSeparator = true ∧ Settled .builtin entriesOpened ∧
    entriesClosed.any Element.isSeparator = false ∧
    Settled .builtin (entriesOpened ++ entriesClosed) ∧ "infix" ∉ optionNames entriesClosed ∧
    Compiler.compile ⟨.builtin, ⟨false, .all⟩⟩ (entriesOpened ++ entriesClosed ++
      [.keyword "infix", .str "x"] ++ [.str "c", .symbol "h"]) = .ok infixMoved := by
  have found : Registry.builtin.get? "infix" =
      some (.setting "infix" .keyLiteral "Key inserted after the prefix") := rfl
  have opened : Settled .builtin entriesOpened := ⟨rfl, rfl, rfl⟩
  have closed : Settled .builtin (entriesOpened ++ entriesClosed) := ⟨rfl, rfl, rfl⟩
  have fresh : "infix" ∉ optionNames entriesClosed := by decide
  obtain ⟨moves, _⟩ := optionsMove ⟨.builtin, ⟨false, .all⟩⟩ found rfl rfl opened (.str "x")
    [.str "c", .symbol "h"] infixMoved
  refine ⟨⟨_, found, rfl⟩, rfl, opened, rfl, closed, fresh, ?_⟩
  exact (moves entriesClosed rfl closed fresh).mp rfl

end KeyForm
