import KeyForm.Proofs.Clearing
import KeyForm.Proofs.Stream
/-! What later elements cannot change. A token depends on the elements up to its own, once
it is known whether the form has a separator; and what a separator closes stays as it is,
whatever follows. -/
namespace KeyForm

theorem itemsKept (registry : Registry) (strategy : Strategy) (c : Classifier) (index : Nat)
    (first later other : List Element) :
    (TokenStream.scan registry strategy c index (first ++ later)).items.take first.length =
      (TokenStream.scan registry strategy c index (first ++ other)).items.take first.length := by
  induction first generalizing c index with
  | nil => rfl
  | cons e rest ih =>
    simp only [List.cons_append]
    cases taken : c.step registry strategy index e with
    | error err => rw [itemsRefused _ _ taken, itemsRefused _ _ taken]
    | ok p =>
      obtain ⟨token, next⟩ := p
      rw [itemsFitted _ _ taken, itemsFitted _ _ taken, List.length_cons, List.take_succ_cons,
        List.take_succ_cons, ih]

theorem movedIndex (n : Nat) (e : CompileError) : (e.moved n).index = e.index + n := by
  cases e <;> rfl

namespace Walk
variable {rules : Rules} {w w' : Walk} {index : Nat} {e : Element}

theorem separatorFresh (separator : e.isSeparator = true)
    (taken : w.step rules index e = .ok w') :
    ∃ live defaults batches, w' = ⟨live, .keys ⟨defaults, [], batches⟩ .key⟩ := by
  have noValue : ∀ {named spec next}, takeValue index e named spec next ≠ .ok w' := by
    intro named spec next taken
    obtain ⟨plain, _⟩ := valueTaken taken
    simp [separator] at plain
  obtain ⟨live, stage⟩ := w
  match stage with
  | .leading _ (some _) | .keys _ (.value _ _ _) => exact absurd taken noValue
  | .leading _ none | .keys _ .key | .keys _ .entry =>
    cases e with
    | separator | clearingSeparator =>
      cases taken
      exact ⟨_, _, _, rfl⟩
    | _ => cases separator
  | .keys _ (.definition _ _) =>
    cases e with
    | separator | clearingSeparator => cases taken
    | _ => cases separator

-- The batches that are closed are only ever put in front of those to come.
theorem freshRun (live defaults : Settings) (batches : List Batch) (later : List Element) :
    (∃ more, run rules ⟨live, .keys ⟨defaults, [], batches⟩ .key⟩ index later =
      .ok (batches ++ more)) ∨
    ∃ e, run rules ⟨live, .keys ⟨defaults, [], batches⟩ .key⟩ index later = .error e ∧
      index ≤ e.index := by
  have alike : Alike (FaultMoved index 0) (fun later all => all = batches ++ later)
      (run rules ⟨live, .keys ⟨defaults, [], []⟩ .key⟩ index later)
      (run rules ⟨live, .keys ⟨defaults, [], batches⟩ .key⟩ index later) :=
    (freshMoved live index 0 defaults batches).run rules.strategy (Nat.le_refl index) later
  generalize run rules ⟨live, .keys ⟨defaults, [], []⟩ .key⟩ index later = alone at alike
  generalize run rules ⟨live, .keys ⟨defaults, [], batches⟩ .key⟩ index later = all at alike ⊢
  cases alike with
  | @error e d fault =>
    obtain ⟨place, rfl⟩ := fault
    exact .inr ⟨_, rfl, by rw [movedIndex]; omega⟩
  | ok joined => exact .inl ⟨_, congrArg Except.ok joined⟩

theorem closedRun (rules : Rules) (w : Walk) (index : Nat) (first : List Element)
    (separator : e.isSeparator = true) (later : List Element) :
    (∃ err, w.run rules index (first ++ [e]) = .error err ∧
      w.run rules index (first ++ e :: later) = .error err) ∨
    ∃ batches, w.run rules index (first ++ [e]) = .ok batches ∧
      ((∃ more, w.run rules index (first ++ e :: later) = .ok (batches ++ more)) ∨
        ∃ err, w.run rules index (first ++ e :: later) = .error err ∧
          index + first.length < err.index) := by
  induction first generalizing w index with
  | nil =>
    simp only [List.nil_append, run]
    cases taken : w.step rules index e with
    | error err => exact .inl ⟨err, rfl, rfl⟩
    | ok w' =>
      obtain ⟨live, defaults, batches, rfl⟩ := separatorFresh separator taken
      have ended : close rules ⟨live, .keys ⟨defaults, [], batches⟩ .key⟩ (index + 1) =
          .ok batches := freshClose live defaults batches
      exact .inr ⟨batches, ended, freshRun live defaults batches later⟩
  | cons first rest ih =>
    simp only [List.cons_append, run]
    cases taken : w.step rules index first with
    | error err => exact .inl ⟨err, rfl, rfl⟩
    | ok w' =>
      have later := ih w' (index + 1)
      rwa [Nat.add_right_comm index 1] at later

end Walk

theorem extensionKept (c : Compiler) :
    (∀ first later other : List Element,
      (first ++ later).any Element.isSeparator = (first ++ other).any Element.isSeparator →
      (c.classify (first ++ later)).items.take first.length =
        (c.classify (first ++ other)).items.take first.length) ∧
    ∀ (first : List Element) (e : Element) (later : List Element), e.isSeparator = true →
      (∀ err, c.compile (first ++ [e]) = .error err →
        c.compile (first ++ e :: later) = .error err) ∧
      ∀ batches, c.compile (first ++ [e]) = .ok batches →
        (∃ more, c.compile (first ++ e :: later) = .ok (batches ++ more)) ∨
        ∃ err, c.compile (first ++ e :: later) = .error err ∧ first.length < err.index := by
  refine ⟨?_, ?_⟩
  · intro first later other agree
    have chosen : Strategy.choose c.options.heuristic (first ++ later) =
        .choose c.options.heuristic (first ++ other) := by
      simp only [Strategy.choose, agree]
    rw [Compiler.classify, Compiler.classify, chosen]
    exact itemsKept _ _ _ _ first later other
  · intro first e later separator
    have ruled : c.rules (first ++ e :: later) = c.rules (first ++ [e]) := by
      simp [Compiler.rules, Strategy.choose, separator]
    rw [compileWalks, compileWalks, ruled]
    rcases Walk.closedRun (c.rules (first ++ [e])) .start 0 first separator later with
      ⟨err, short, long⟩ | ⟨batches, short, long⟩
    · rw [short, long]
      refine ⟨fun _ same => same, ?_⟩
      intro batches same
      cases same
    · rw [short]
      refine ⟨?_, ?_⟩
      · intro err same
        cases same
      · intro _ same
        cases same
        simpa using long

end KeyForm
