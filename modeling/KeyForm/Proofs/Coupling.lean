import KeyForm.Proofs.Grammar
/-! What the classifier and the assembly each keep of an unfinished item. Neither sees the
other's record, and yet after every token the two agree, so that no token ever comes to an
assembly which has no place for it. -/
namespace KeyForm

def Opens (strategy : Strategy) (c : Classifier) (index : Nat) (e : Element) : Prop :=
  c.phase = .keys ∨ c.phase = .leading ∧ strategy.classify index e = .ok .keySectionStart

inductive Taken (registry : Registry) (strategy : Strategy) (c : Classifier) (index : Nat) :
    Element → Token → Classifier → Prop where
  | value {e named spec} (waits : c.awaiting = some (named, spec))
      (plain : e.isSeparator = false) (accepted : spec.accepts e = true)
      (kind : spec.kind = .setting) :
      Taken registry strategy c index e ⟨.optionValue, index, e, some spec⟩
        { c with awaiting := none }
  | mode {e named spec} (waits : c.awaiting = some (named, spec))
      (plain : e.isSeparator = false) (accepted : spec.accepts e = true)
      (kind : spec.kind = .extendedMarker) (phase : c.phase = .keys)
      (other : ¬ (e.isList && !e.isNil) = true) :
      Taken registry strategy c index e ⟨.optionValue, index, e, some spec⟩
        { c with awaiting := none, extendedOnly := e.isTrue }
  | literal {e named spec} (waits : c.awaiting = some (named, spec))
      (kind : spec.kind = .extendedMarker) (phase : c.phase = .keys)
      (entry : (e.isList && !e.isNil) = true) :
      Taken registry strategy c index e ⟨.extendedEntry, index, e, some spec⟩
        { c with awaiting := none }
  | separator (free : c.awaiting = none) :
      Taken registry strategy c index .separator ⟨.sectionSeparator, index, .separator, none⟩
        ⟨.keys, none, false, 0⟩
  | clearingSeparator (free : c.awaiting = none) :
      Taken registry strategy c index .clearingSeparator
        ⟨.clearingSeparator, index, .clearingSeparator, none⟩ ⟨.keys, none, false, 0⟩
  | name {name spec kind} (free : c.awaiting = none)
      (found : registry.get? name = some spec)
      (named : kind = .optionName ∧ spec.kind = .setting ∨
        kind = .extendedMarker ∧ spec.kind = .extendedMarker) :
      Taken registry strategy c index (.keyword name) ⟨kind, index, .keyword name, some spec⟩
        { c with awaiting := some (index, spec), runLength := 0 }
  | context {e} (free : c.awaiting = none) (phase : c.phase = .leading)
      (judged : strategy.classify index e = .ok .contextValue) :
      Taken registry strategy c index e ⟨.contextValue, index, e, none⟩ c
  | key {e} (free : c.awaiting = none) (opens : Opens strategy c index e)
      (mode : c.extendedOnly = false) (even : c.runLength % 2 = 0)
      (literal : e.isKeyLiteral = true) :
      Taken registry strategy c index e ⟨.keyAtom, index, e, none⟩
        { c with phase := .keys, runLength := c.runLength + 1 }
  | definition {e} (free : c.awaiting = none) (opens : Opens strategy c index e)
      (mode : c.extendedOnly = false) (odd : c.runLength % 2 = 1)
      (plain : e.isDefinition = true) :
      Taken registry strategy c index e ⟨.definitionAtom, index, e, none⟩
        { c with phase := .keys, runLength := c.runLength + 1 }
  | entry {items} (free : c.awaiting = none) (opens : Opens strategy c index (.list items))
      (mode : c.extendedOnly = true) (some : items ≠ []) :
      Taken registry strategy c index (.list items)
        ⟨.extendedEntry, index, .list items, none⟩ { c with phase := .keys }

namespace Taken
variable {registry : Registry} {strategy : Strategy} {c : Classifier} {index : Nat}
variable {e : Element} {token : Token} {next : Classifier}

theorem ofValue {named : Nat} {spec : OptionSpec} (waits : c.awaiting = some (named, spec))
    (taken : { c with awaiting := none }.takeValue index e named spec = .ok (token, next)) :
    Taken registry strategy c index e token next := by
  unfold Classifier.takeValue at taken
  split at taken
  · cases taken
  next separator =>
  have plain : e.isSeparator = false := by simpa using separator
  split at taken
  · cases taken
  next refused =>
  have accepted : spec.accepts e = true := by simpa using refused
  cases kind : spec.kind with
  | setting =>
    simp only [kind] at taken
    cases taken
    exact .value waits plain accepted kind
  | extendedMarker =>
    simp only [kind] at taken
    split at taken
    · cases taken
    next late =>
    have phase : c.phase = .keys := by
      cases phase : c.phase with
      | leading => exact absurd phase late
      | keys => rfl
    split at taken
    · cases taken
      exact .literal waits kind phase ‹_›
    · cases taken
      exact .mode waits plain accepted kind phase ‹_›

theorem ofEntry (free : c.awaiting = none) (opens : Opens strategy c index e)
    (unnamed : ∀ name, e ≠ .keyword name) (plain : e.isSeparator = false)
    (taken : { c with phase := .keys }.takeEntry index e = .ok (token, next)) :
    Taken registry strategy c index e token next := by
  unfold Classifier.takeEntry at taken
  split at taken
  · next mode =>
    split at taken
    · cases taken
    next filled =>
    split at taken
    · cases taken
      cases e with
      | list items => exact .entry free opens mode fun h => filled (by rw [h])
      | _ => contradiction
    · cases taken
  next mode =>
  have pairs : c.extendedOnly = false := by simpa using mode
  split at taken
  · cases taken
  next loose =>
  split at taken
  · next even =>
    split at taken
    · cases taken
      exact .key free opens pairs even ‹_›
    · cases taken
  next odd =>
  cases taken
  have definition : e.isDefinition = true := by
    cases e with
    | symbol | str | vector | function => rfl
    | keyword name => exact absurd rfl (unnamed name)
    | list => exact absurd rfl loose
    | separator | clearingSeparator => cases plain
  exact .definition free opens pairs (by simp only at odd; omega) definition

theorem ofStep (taken : c.step registry strategy index e = .ok (token, next)) :
    Taken registry strategy c index e token next := by
  obtain ⟨phase, awaiting, extendedOnly, runLength⟩ := c
  cases awaiting with
  | some waiting => exact ofValue rfl taken
  | none =>
    cases e with
    | separator =>
      cases taken
      exact .separator rfl
    | clearingSeparator =>
      cases taken
      exact .clearingSeparator rfl
    | keyword name =>
      simp only [Classifier.step, Classifier.takeName] at taken
      cases found : registry.get? name with
      | none => simp [found] at taken
      | some spec =>
        simp only [found] at taken
        cases taken
        refine .name rfl found ?_
        cases kind : spec.kind with
        | setting => exact .inl ⟨rfl, rfl⟩
        | extendedMarker => exact .inr ⟨rfl, rfl⟩
    | symbol | str | vector | list | function =>
      cases phase with
      | keys => exact ofEntry rfl (.inl rfl) (by simp) rfl taken
      | leading =>
        simp only [Classifier.step] at taken
        split at taken
        · cases taken
        · cases taken
          exact .context rfl rfl ‹_›
        · exact ofEntry rfl (.inr ⟨rfl, ‹_›⟩) (by simp) rfl taken

theorem waited (taken : Taken registry strategy c index e token next)
    (kind : token.kind = .optionValue) : c.awaiting.isSome = true := by
  cases taken with
  | value waits | mode waits => simp [waits]
  | name _ _ named => rcases named with ⟨rfl, _⟩ | ⟨rfl, _⟩ <;> cases kind
  | _ => cases kind

theorem notPaired (taken : Taken registry strategy c index e token next)
    (kind : token.kind = .contextValue ∨ token.kind = .optionValue ∨
      token.kind = .extendedEntry) :
    ¬ (c.awaiting = none ∧ c.phase = .keys ∧ c.extendedOnly = false) := by
  rintro ⟨free, phase, mode⟩
  cases taken with
  | value waits | mode waits | literal waits => simp [free] at waits
  | name _ _ named => rcases named with ⟨rfl, _⟩ | ⟨rfl, _⟩ <;> simp at kind
  | context _ leading => simp [phase] at leading
  | entry _ _ only => simp [mode] at only
  | _ => simp at kind

end Taken

structure Coupled (c : Classifier) (a : Assembly) : Prop where
  pairing : c.runLength % 2 = 1 ↔ a.pendingKey.isSome = true
  option : c.awaiting.map Prod.snd = a.pendingOption
  phase : c.phase = .keys ↔ a.defaults.isSome = true
  entries : c.phase = .leading → a.entries = []
  positional : a.positional.length ≤ 2

/-- Parts of the assembly that only reading a key or a context value can add to. -/
structure Keeps (a a' : Assembly) : Prop where
  key : a'.pendingKey = a.pendingKey
  positional : a'.positional.length ≤ a.positional.length

theorem Keeps.trans {a b c : Assembly} (first : Keeps a b) (later : Keeps b c) : Keeps a c :=
  ⟨later.key.trans first.key, Nat.le_trans later.positional first.positional⟩

section
variable {rules : Rules} {w : Walk} {c next : Classifier} {a a' : Assembly} {token : Token}
variable {index : Nat} {e : Element} {es : List Element}

theorem lockedCoupled (h : LockStep w c a) (positional : a.positional.length ≤ 2) :
    Coupled c a := by
  obtain ⟨⟨n, pace, rfl⟩, rfl⟩ := h
  obtain ⟨live, stage⟩ := w
  cases stage with
  | leading _ awaiting =>
    have even : ¬ n % 2 = 1 := by simpa [Walk.odd] using pace
    refine ⟨?_, rfl, ?_, fun _ => rfl, positional⟩ <;>
      simp [Walk.classifier, Walk.assembly, even]
  | keys y t =>
    cases t with
    | key | entry | value =>
      have even : ¬ n % 2 = 1 := by simpa [Walk.odd] using pace
      refine ⟨?_, rfl, ?_, ?_, positional⟩ <;> simp [Walk.classifier, Walk.assembly, even]
    | definition =>
      have odd : n % 2 = 1 := by simpa [Walk.odd] using pace
      refine ⟨?_, rfl, ?_, ?_, positional⟩ <;> simp [Walk.classifier, Walk.assembly, odd]

theorem keyAlone (h : LockStep w c a) (waits : a.pendingKey.isSome = true) :
    c.awaiting = none ∧ c.phase = .keys ∧ c.extendedOnly = false := by
  obtain ⟨⟨n, pace, rfl⟩, rfl⟩ := h
  obtain ⟨live, stage⟩ := w
  match stage with
  | .leading _ _ | .keys y .key | .keys y .entry | .keys y (.value _ _ _) => cases waits
  | .keys y (.definition _ _) => exact ⟨rfl, rfl, rfl⟩

theorem stepLocked (h : LockStep w c a)
    (taken : c.step rules.registry rules.strategy index e = .ok (token, next))
    (laid : a.apply rules.policy token = .ok a') : ∃ w', LockStep w' next a' := by
  have follows := stepFollows rules h index e
  simp only [lay, taken, laid, bind, Except.bind] at follows
  generalize w.step rules index e = walked at follows
  cases follows with
  | ok locked => exact ⟨_, locked⟩

theorem checkedFree (checked : a.checkPaired = .ok ()) : a.pendingKey = none := by
  unfold Assembly.checkPaired at checked
  split at checked
  · cases checked
  · assumption

theorem Keeps.freed (kept : Keeps a a') (checked : a.checkPaired = .ok ()) :
    a'.pendingKey = none := kept.key.trans (checkedFree checked)

theorem flushKeeps (a : Assembly) : Keeps a a.flush := by
  unfold Assembly.flush
  split <;> exact ⟨rfl, Nat.le_refl _⟩

theorem endDefaultsKeeps (a : Assembly) : Keeps a a.endDefaults := by
  unfold Assembly.endDefaults
  split
  · exact ⟨rfl, Nat.le_refl _⟩
  · exact ⟨rfl, Nat.zero_le _⟩

theorem setOptionKeeps (a : Assembly) (token : Token) : Keeps a (a.setOption token) := by
  unfold Assembly.setOption
  split
  · exact ⟨rfl, Nat.le_refl _⟩
  · next spec _ => cases spec.kind <;> exact ⟨rfl, Nat.le_refl _⟩

theorem clearKeeps (policy : ClearPolicy) (a : Assembly) : Keeps a (a.clear policy) := by
  cases policy <;> exact ⟨rfl, Nat.le_refl _⟩

theorem contextAdded (added : a.addContext token = .ok a') :
    a'.pendingKey = a.pendingKey ∧ a'.positional.length ≤ 2 := by
  unfold Assembly.addContext at added
  split at added
  · cases added
    exact ⟨rfl, by simp⟩
  · cases added
    exact ⟨rfl, by simp⟩
  · cases added

inductive KeyAfter (a : Assembly) (token : Token) : Option (Nat × Element) → Prop where
  | free : KeyAfter a token none
  | opened (kind : token.kind = .keyAtom) : KeyAfter a token (some (token.index, token.element))
  | kept (kind : token.kind = .contextValue ∨ token.kind = .optionValue) :
      KeyAfter a token a.pendingKey

theorem appliedKey {policy : ClearPolicy} (laid : a.apply policy token = .ok a')
    (bound : a.positional.length ≤ 2) :
    KeyAfter a token a'.pendingKey ∧ a'.positional.length ≤ 2 := by
  have ended := endDefaultsKeeps a
  unfold Assembly.apply at laid
  split at laid
  case h_1 kind =>
    obtain ⟨key, positional⟩ := contextAdded laid
    exact ⟨key ▸ .kept (.inl kind), positional⟩
  case h_2 | h_3 =>
    obtain ⟨_, checked, done⟩ := okBind laid
    cases done
    exact ⟨checkedFree checked ▸ .free, bound⟩
  case h_4 kind =>
    cases laid
    have kept := setOptionKeeps a token
    exact ⟨kept.key ▸ .kept (.inr kind), Nat.le_trans kept.positional bound⟩
  case h_5 =>
    obtain ⟨_, checked, done⟩ := okBind laid
    cases done
    have kept := ended.trans (flushKeeps _)
    exact ⟨kept.freed checked ▸ .free, Nat.le_trans kept.positional bound⟩
  case h_6 =>
    obtain ⟨_, checked, done⟩ := okBind laid
    cases done
    have kept := (ended.trans (flushKeeps _)).trans (clearKeeps policy _)
    exact ⟨kept.freed checked ▸ .free, Nat.le_trans kept.positional bound⟩
  case h_7 kind =>
    cases laid
    exact ⟨.opened kind, Nat.le_trans ended.positional bound⟩
  case h_8 =>
    split at laid
    · cases laid
    · cases laid
      exact ⟨.free, bound⟩
  case h_9 =>
    obtain ⟨_, checked, done⟩ := okBind laid
    cases done
    exact ⟨ended.freed checked ▸ .free, Nat.le_trans ended.positional bound⟩

theorem unpairedToken (h : LockStep w c a)
    (taken : c.step rules.registry rules.strategy index e = .ok (token, next))
    (kind : token.kind = .contextValue ∨ token.kind = .optionValue ∨
      token.kind = .extendedEntry) : a.pendingKey = none := by
  cases key : a.pendingKey with
  | none => rfl
  | some p =>
    have alone := keyAlone h (by simp [key])
    exact absurd alone ((Taken.ofStep taken).notPaired kind)

theorem waitingKey (h : LockStep w c a) (bound : a.positional.length ≤ 2)
    (taken : c.step rules.registry rules.strategy index e = .ok (token, next))
    (laid : a.apply rules.policy token = .ok a') {p : Nat × Element}
    (waits : a'.pendingKey = some p) :
    token.kind = .keyAtom ∧ p = (token.index, token.element) := by
  obtain ⟨after, _⟩ := appliedKey laid bound
  rw [waits] at after
  generalize last : some p = key at after
  cases after with
  | free => cases last
  | opened kind => exact ⟨kind, Option.some.inj last⟩
  | kept kind =>
    have free := unpairedToken h taken (kind.elim .inl fun value => .inr (.inl value))
    rw [free] at last
    cases last

theorem scanned {registry : Registry} {strategy : Strategy} {later : List (Token × Classifier)}
    (first : (TokenStream.scan registry strategy c index es).tokens = (token, next) :: later) :
    ∃ e rest, es = e :: rest ∧ c.step registry strategy index e = .ok (token, next) ∧
      (TokenStream.scan registry strategy next (index + 1) rest).tokens = later := by
  cases es with
  | nil => cases first
  | cons e rest =>
    simp only [TokenStream.scan] at first
    split at first
    · cases first
    next taken =>
    obtain ⟨same, others⟩ := List.cons.inj first
    cases same
    exact ⟨e, rest, rfl, taken, others⟩

-- The tokens laid so far are any first part of those that the form has, so the induction is
-- on them and not on the form.
theorem laidLocked (rules : Rules) {before later : List (Token × Classifier)}
    (h : LockStep w c a) (bound : a.positional.length ≤ 2)
    (tokens : (TokenStream.scan rules.registry rules.strategy c index es).tokens =
      before ++ later)
    (laid : (before.map Prod.fst).foldlM (Assembly.apply rules.policy) a = .ok a') :
    ∃ w' c' index' rest, LockStep w' c' a' ∧ a'.positional.length ≤ 2 ∧
      (TokenStream.scan rules.registry rules.strategy c' index' rest).tokens = later := by
  induction before generalizing w c a index es with
  | nil =>
    cases laid
    exact ⟨w, c, index, es, h, bound, tokens⟩
  | cons first before ih =>
    obtain ⟨token, next⟩ := first
    obtain ⟨e, rest, rfl, taken, others⟩ := scanned tokens
    simp only [List.map_cons, List.foldlM_cons] at laid
    obtain ⟨a₁, here, laid⟩ := okBind laid
    obtain ⟨w₁, locked⟩ := stepLocked h taken here
    exact ih locked (appliedKey here bound).2 others laid

end

/-! A definition without a key is the one fault that only a token out of place could
have. In step with each other the two have no state for it. -/

def Keyed {α : Type} (x : Except CompileError α) : Prop :=
  ∀ index, x ≠ .error (.malformed index .keylessDefinition)

section
variable {rules : Rules} {index : Nat} {e : Element}

theorem okKeyed {α : Type} (a : α) : Keyed (.ok a) := nofun

theorem misfitKeyed {cause : Misfit} (other : cause ≠ .keylessDefinition) :
    Keyed (Walk.misfit index cause) := by
  rintro i same
  cases same
  exact other rfl

theorem nameKeyed {registry : Registry} {name : String}
    {next : OptionSpec → Except CompileError Walk} (found : ∀ spec, Keyed (next spec)) :
    Keyed (Walk.takeName registry index name next) := by
  unfold Walk.takeName
  split
  · nofun
  · exact found _

theorem valueKeyed {named : Nat} {spec : OptionSpec} {next : Except CompileError Walk}
    (accepted : Keyed next) : Keyed (Walk.takeValue index e named spec next) := by
  unfold Walk.takeValue
  split
  · exact misfitKeyed nofun
  split
  · exact misfitKeyed nofun
  · exact accepted

theorem itemKeyed (live : Settings) (y : Yield) (extendedOnly : Bool) :
    Keyed (Walk.takeItem live y extendedOnly index e) := by
  unfold Walk.takeItem
  repeat' split
  all_goals first | exact okKeyed _ | exact misfitKeyed nofun

theorem contextKeyed (live : Settings) (positional : List Element) :
    Keyed (Walk.takeContext live positional index e) := by
  unfold Walk.takeContext
  split
  · exact okKeyed _
  · exact okKeyed _
  · exact misfitKeyed nofun

theorem judgedKeyed (strategy : Strategy) (live : Settings) (positional : List Element) :
    Keyed (Walk.takeJudged (strategy.classify index e) live positional index e) := by
  unfold Walk.takeJudged
  split
  · next err judged =>
    rintro i same
    cases same
    unfold Strategy.classify at judged
    repeat' split at judged
    all_goals cases judged
  · exact contextKeyed live positional
  · exact itemKeyed live _ false

theorem itemStepKeyed (live : Settings) (y : Yield) (extendedOnly : Bool) :
    Keyed (Walk.itemStep rules live y extendedOnly index e) := by
  cases e with
  | separator | clearingSeparator => exact okKeyed _
  | keyword name => exact nameKeyed fun _ => okKeyed _
  | symbol | str | vector | list | function => exact itemKeyed live y extendedOnly

theorem stepKeyed (w : Walk) : Keyed (w.step rules index e) := by
  obtain ⟨live, stage⟩ := w
  match stage with
  | .leading positional none =>
    cases e with
    | separator | clearingSeparator => exact okKeyed _
    | keyword name => exact nameKeyed fun _ => okKeyed _
    | symbol | str | vector | list | function => exact judgedKeyed _ live positional
  | .leading positional (some (named, spec)) =>
    refine valueKeyed ?_
    cases spec.kind with
    | setting => exact okKeyed _
    | extendedMarker => exact misfitKeyed nofun
  | .keys y .key => exact itemStepKeyed live y false
  | .keys y .entry => exact itemStepKeyed live y true
  | .keys y (.definition place key) =>
    cases e with
    | separator | clearingSeparator => nofun
    | keyword name => exact nameKeyed fun _ => nofun
    | list => exact misfitKeyed nofun
    | symbol | str | vector | function => exact okKeyed _
  | .keys y (.value named spec extendedOnly) => exact valueKeyed (okKeyed _)

theorem closeKeyed (w : Walk) : Keyed (w.close rules index) := by
  unfold Walk.close
  repeat' split
  all_goals nofun

theorem runKeyed (w : Walk) (es : List Element) : Keyed (w.run rules index es) := by
  induction es generalizing w index with
  | nil => exact closeKeyed w
  | cons e rest ih =>
    rintro i same
    simp only [Walk.run] at same
    cases taken : w.step rules index e with
    | error err =>
      rw [taken] at same
      cases same
      exact stepKeyed w i taken
    | ok next =>
      rw [taken] at same
      exact ih next i same

end

/-- The tokens `before` were classified and laid, `later` were not yet, and `a` is where
they have come to. -/
structure Compiler.Laid (c : Compiler) (es : List Element)
    (before later : List (Token × Classifier)) (a : Assembly) : Prop where
  tokens : (c.classify es).tokens = before ++ later
  assembled : c.assemble (before.map Prod.fst) = .ok a

structure Placed (token : Token) (a : Assembly) : Prop where
  option : token.kind = .optionValue → (a.pendingOption <|> token.option).isSome = true
  entry : token.kind = .extendedEntry → a.checkPaired = .ok ()

theorem lockStep (c : Compiler) (es : List Element) :
    (∀ before token state later a, c.Laid es (before ++ [(token, state)]) later a →
      Coupled state a ∧ ∀ p, a.pendingKey = some p →
        token.kind = .keyAtom ∧ p = (token.index, token.element)) ∧
    (∀ before token state later a, c.Laid es before ((token, state) :: later) a →
      Placed token a) ∧
    Keyed (c.compile es) := by
  have begun : LockStep .start .start .start := ⟨⟨0, rfl, rfl⟩, rfl⟩
  have empty : Assembly.start.positional.length ≤ 2 := Nat.zero_le 2
  refine ⟨?_, ?_, ?_⟩
  · rintro before token state later a ⟨tokens, assembled⟩
    rw [List.append_assoc] at tokens
    simp only [Compiler.assemble, List.map_append, List.foldlM_append] at assembled
    obtain ⟨a₁, earlier, last⟩ := okBind assembled
    obtain ⟨w, c₁, index, rest, locked, bound, here⟩ :=
      laidLocked (c.rules es) begun empty tokens earlier
    obtain ⟨e, _, rfl, taken, _⟩ := scanned here
    obtain ⟨_, laid, done⟩ := okBind last
    cases done
    obtain ⟨_, next⟩ := stepLocked locked taken laid
    exact ⟨lockedCoupled next (appliedKey laid bound).2,
      fun p waits => waitingKey locked bound taken laid waits⟩
  · rintro before token state later a ⟨tokens, assembled⟩
    obtain ⟨w, c₁, index, rest, locked, bound, here⟩ :=
      laidLocked (c.rules es) begun empty tokens assembled
    obtain ⟨e, _, rfl, taken, _⟩ := scanned here
    refine ⟨fun kind => ?_, fun kind => ?_⟩
    · obtain ⟨waiting, waits⟩ := Option.isSome_iff_exists.mp ((Taken.ofStep taken).waited kind)
      have pending := (lockedCoupled locked bound).option
      rw [waits] at pending
      rw [← pending]
      rfl
    · have free := unpairedToken locked taken (.inr (.inr kind))
      simp [Assembly.checkPaired, free]
  · rw [compileWalks]
    exact runKeyed _ es

end KeyForm
