import KeyForm.Proofs.Acceptance
import KeyForm.Proofs.Displacement
/-! A clearing separator forgets the sections before it. Of all that stands between the
leading section and the separator only the finished batches are left, so what follows is
compiled as if it came straight after the leading section. -/
namespace KeyForm

inductive Opened (defaults : Settings) : Walk → Prop where
  | keys {live : Settings} {y : Yield} {t : Turn} (same : y.defaults = defaults) :
      Opened defaults ⟨live, .keys y t⟩

namespace Walk
variable {rules : Rules} {w w' : Walk} {index : Nat} {e : Element} {es : List Element}
variable {live defaults : Settings} {positional : List Element}
variable {awaiting : Option (Nat × OptionSpec)} {separated : Bool}

theorem advanceAppend (rules : Rules) (w : Walk) (index : Nat) (first later : List Element) :
    w.advance rules index (first ++ later) =
      w.advance rules index first >>= fun w =>
        w.advance rules (index + first.length) later := by
  induction first generalizing w index with
  | nil => rfl
  | cons e rest ih =>
    simp only [List.cons_append, advance, List.length_cons, bind_assoc, ih]
    simp only [Nat.add_comm, Nat.add_left_comm]

def cleared (policy : ClearPolicy) (defaults : Settings) (batches : List Batch) : Walk :=
  ⟨policy.cleared defaults, .keys ⟨defaults, [], batches⟩ .key⟩

theorem itemOpened {y : Yield} {x : Bool}
    (taken : itemStep rules live y x index e = .ok w') : Opened y.defaults w' := by
  cases e with
  | separator | clearingSeparator =>
    cases taken
    exact .keys rfl
  | keyword name =>
    obtain ⟨spec, _, next⟩ := nameTaken taken
    cases next
    exact .keys rfl
  | symbol | str | vector | list | function =>
    rcases itemTaken taken with ⟨_, _, rfl⟩ | ⟨_, _, rfl⟩ <;> exact .keys rfl

theorem valueOpened (live : Settings) (y : Yield) (spec : OptionSpec) (x : Bool)
    (e : Element) : Opened y.defaults (valueStep live y spec x e) := by
  unfold valueStep
  split
  · exact .keys rfl
  · split <;> exact .keys rfl

theorem stepOpened (h : Opened defaults w) (taken : w.step rules index e = .ok w') :
    Opened defaults w' := by
  obtain ⟨rfl⟩ := h
  next live y t =>
  match t with
  | .key => exact itemOpened (x := false) taken
  | .entry => exact itemOpened (x := true) taken
  | .definition place key =>
    cases e with
    | separator | clearingSeparator | list => cases taken
    | keyword name =>
      obtain ⟨_, _, next⟩ := nameTaken taken
      cases next
    | symbol | str | vector | function =>
      cases taken
      exact .keys rfl
  | .value named spec x =>
    obtain ⟨_, _, next⟩ := valueTaken taken
    exact Except.ok.inj next ▸ valueOpened live y spec x e

theorem advanceOpened (h : Opened defaults w) (taken : w.advance rules index es = .ok w') :
    Opened defaults w' := by
  induction es generalizing w index with
  | nil => exact Except.ok.inj taken ▸ h
  | cons e rest ih =>
    obtain ⟨next, here, later⟩ := okBind taken
    exact ih (stepOpened h here) later

theorem separatorFree (separator : e.isSeparator = true)
    (taken : step rules ⟨live, .leading positional awaiting⟩ index e = .ok w') :
    awaiting = none ∧ Opened live w' := by
  cases awaiting with
  | some waiting =>
    obtain ⟨plain, _⟩ := valueTaken taken
    rw [separator] at plain
    cases plain
  | none =>
    refine ⟨rfl, ?_⟩
    cases e with
    | separator | clearingSeparator =>
      cases taken
      exact .keys rfl
    | _ => cases separator

theorem openedCleared (h : Opened defaults w)
    (taken : w.step rules index .clearingSeparator = .ok w') :
    ∃ batches, w' = cleared rules.policy defaults batches := by
  obtain ⟨rfl⟩ := h
  next live y t =>
  match t with
  | .key | .entry =>
    cases taken
    exact ⟨_, rfl⟩
  | .definition place key => cases taken
  | .value named spec x =>
    obtain ⟨plain, _⟩ := valueTaken taken
    cases plain

theorem sectionsCleared {sections : List Element}
    (begins : ∀ e ∈ sections.head?, e.isSeparator = true)
    (taken : advance rules ⟨live, .leading positional awaiting⟩ index
      (sections ++ [.clearingSeparator]) = .ok w') :
    awaiting = none ∧ ∃ batches, w' = cleared rules.policy live batches := by
  cases sections with
  | nil =>
    obtain ⟨next, here, done⟩ := okBind taken
    obtain ⟨rfl, _⟩ := separatorFree (e := .clearingSeparator) rfl here
    cases here
    cases done
    exact ⟨rfl, [], rfl⟩
  | cons e rest =>
    rw [List.cons_append] at taken
    obtain ⟨first, here, taken⟩ := okBind taken
    obtain ⟨free, opened⟩ := separatorFree (begins e (by simp)) here
    rw [advanceAppend] at taken
    obtain ⟨last, walked, taken⟩ := okBind taken
    obtain ⟨next, clearing, done⟩ := okBind taken
    cases done
    exact ⟨free, openedCleared (advanceOpened opened walked) clearing⟩

theorem leadingStays (choice : rules.strategy = .explicit separated) (plain : e.isSeparator = false)
    (taken : step rules ⟨live, .leading positional awaiting⟩ index e = .ok w') :
    ∃ live positional awaiting, w' = ⟨live, .leading positional awaiting⟩ := by
  cases awaiting with
  | some waiting =>
    obtain ⟨named, spec⟩ := waiting
    obtain ⟨_, _, next⟩ := valueTaken taken
    cases kind : spec.kind with
    | setting =>
      simp only [kind] at next
      cases next
      exact ⟨_, _, _, rfl⟩
    | extendedMarker => simp [kind, misfit] at next
  | none =>
    cases e with
    | separator | clearingSeparator => cases plain
    | keyword name =>
      obtain ⟨_, _, next⟩ := nameTaken taken
      cases next
      exact ⟨_, _, _, rfl⟩
    | symbol | str | vector | list | function =>
      simp only [step, leadingStep, takeJudged] at taken
      split at taken
      · cases taken
      · obtain ⟨_, _, rfl, _⟩ := contextTaken taken
        exact ⟨_, _, _, rfl⟩
      · next key =>
        obtain ⟨inferred, _⟩ := classifiedKey key
        rw [choice] at inferred
        cases inferred

theorem leadingAdvance (choice : rules.strategy = .explicit separated)
    (plain : ∀ e ∈ es, e.isSeparator = false)
    (taken : advance rules ⟨live, .leading positional awaiting⟩ index es = .ok w') :
    ∃ live positional awaiting, w' = ⟨live, .leading positional awaiting⟩ := by
  induction es generalizing live positional awaiting index with
  | nil => exact ⟨_, _, _, (Except.ok.inj taken).symm⟩
  | cons e rest ih =>
    obtain ⟨next, here, later⟩ := okBind taken
    obtain ⟨_, _, _, rfl⟩ := leadingStays choice (plain e (by simp)) here
    exact ih (fun e mem => plain e (by simp [mem])) later

theorem freshMoved (live : Settings) (since n : Nat) (defaults : Settings)
    (batches : List Batch) :
    Displaced since n batches ⟨live, .keys ⟨defaults, [], []⟩ .key⟩
      ⟨live, .keys ⟨defaults, [], batches⟩ .key⟩ := by
  have same : (Yield.mk defaults [] []).after batches = ⟨defaults, [], batches⟩ := by
    simp [Yield.after]
  have moved : Displaced since n batches ⟨live, .keys ⟨defaults, [], []⟩ (.next false)⟩
      ⟨live, .keys ((Yield.mk defaults [] []).after batches) (.next false)⟩ :=
    .next _ _ _
  rwa [same] at moved

theorem freshClose (live defaults : Settings) (batches : List Batch) :
    close rules ⟨live, .keys ⟨defaults, [], batches⟩ .key⟩ index = .ok batches := by
  simp [close, Yield.flush, batchOf]

theorem clearedRun (rules : Rules) (n index : Nat) (batches : List Batch)
    (later : List Element) :
    (cleared rules.policy defaults batches).run rules (index + n) later = (do
      let second ← ((cleared rules.policy defaults []).run rules index later).mapError
        (CompileError.moved n)
      .ok (batches ++ second)) := by
  have moved : Alike (FaultMoved index n) (fun later all => all = batches ++ later)
      ((cleared rules.policy defaults []).run rules index later)
      ((cleared rules.policy defaults batches).run rules (index + n) later) :=
    (freshMoved _ index n defaults batches).run rules.strategy (Nat.le_refl _) later
  generalize (cleared rules.policy defaults []).run rules index later = alone at moved ⊢
  generalize (cleared rules.policy defaults batches).run rules _ later = all at moved ⊢
  cases moved with
  | error fault => exact congrArg Except.error fault.same
  | ok joined => exact congrArg Except.ok joined

theorem clearedClose (policy : ClearPolicy) (batches : List Batch) :
    (cleared policy defaults batches).close rules index = .ok batches :=
  freshClose _ defaults batches

end Walk

theorem clearingCuts (c : Compiler) {leading sections : List Element}
    (plain : leading.any Element.isSeparator = false)
    (begins : ∀ e ∈ sections.head?, e.isSeparator = true) (later : List Element) :
    c.compile (leading ++ sections ++ .clearingSeparator :: later) = (do
      let first ← c.compile (leading ++ sections ++ [.clearingSeparator])
      let second ← (c.compile (leading ++ .clearingSeparator :: later)).mapError
        (CompileError.moved sections.length)
      .ok (first ++ second)) := by
  have unseparated : ∀ e ∈ leading, e.isSeparator = false := by simpa using plain
  let rules : Rules := ⟨c.registry, c.options.clearPolicy, .explicit true⟩
  have ruled : ∀ first last : List Element,
      c.rules (first ++ .clearingSeparator :: last) = rules := by
    intro first last
    simp [Compiler.rules, Strategy.choose, Element.isSeparator, rules]
  rw [compileWalks, compileWalks, compileWalks, ruled, ruled, ruled]
  have whole : leading ++ sections ++ .clearingSeparator :: later =
      leading ++ ((sections ++ [.clearingSeparator]) ++ later) := by simp
  have part : leading ++ sections ++ [.clearingSeparator] =
      leading ++ ((sections ++ [.clearingSeparator]) ++ []) := by simp
  have straight : leading ++ .clearingSeparator :: later =
      leading ++ ([.clearingSeparator] ++ later) := rfl
  rw [whole, part, straight]
  simp only [Walk.runAppend rules _ _ leading]
  cases led : Walk.start.advance rules 0 leading with
  | error e => rfl
  | ok w =>
    obtain ⟨live, positional, awaiting, rfl⟩ := Walk.leadingAdvance rfl unseparated led
    simp only [bind, Except.bind]
    simp only [Walk.runAppend rules _ _ (sections ++ [.clearingSeparator])]
    cases reached : Walk.advance rules ⟨live, .leading positional awaiting⟩ (0 + leading.length)
        (sections ++ [.clearingSeparator]) with
    | error e => rfl
    | ok w =>
      obtain ⟨rfl, batches, rfl⟩ := Walk.sectionsCleared begins reached
      have ended : Walk.run rules (Walk.cleared rules.policy live batches)
          (0 + leading.length + (sections ++ [Element.clearingSeparator]).length) [] =
        .ok batches := Walk.clearedClose _ batches
      have opening : Walk.run rules ⟨live, .leading positional none⟩ (0 + leading.length)
          ([.clearingSeparator] ++ later) =
        Walk.run rules (Walk.cleared rules.policy live []) (0 + leading.length + 1) later := rfl
      have place : 0 + leading.length + (sections ++ [Element.clearingSeparator]).length =
        0 + leading.length + 1 + sections.length := by simp; omega
      simp only [bind, Except.bind, ended, opening]
      rw [place]
      exact Walk.clearedRun rules _ _ batches later

def prefixedContext : List Element := [.keyword "prefix", .str "x", .symbol "m"]

def overridingSection : List Element :=
  [.separator, .str "a", .symbol "f", .keyword "prefix", .str "y", .keyword "ext", .symbol "t"]

def restoredBatches : List Batch :=
  let keymaps := Settings.set .empty keymapsName (.list [.symbol "m"])
  [⟨keymaps.set "prefix" (.str "y"), [.plain (.str "a") (.symbol "f")]⟩,
   ⟨keymaps.set "prefix" (.str "x"), [.plain (.str "b") (.symbol "g")]⟩]

theorem prefixRestored :
    prefixedContext.any Element.isSeparator = false ∧
    (∀ e ∈ overridingSection.head?, e.isSeparator = true) ∧
    Compiler.compile ⟨.builtin, ⟨false, .preserveDefaults⟩⟩
        (prefixedContext ++ overridingSection ++
          .clearingSeparator :: [.str "b", .symbol "g"]) = .ok restoredBatches := by
  have begins : ∀ e ∈ overridingSection.head?, e.isSeparator = true := by
    rintro e ⟨⟩
    rfl
  refine ⟨rfl, begins, ?_⟩
  exact (clearingCuts _ rfl begins _).trans rfl

end KeyForm
