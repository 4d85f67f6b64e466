import KeyForm.Proofs.Extension
import KeyForm.Proofs.Faults
/-! Sections without elements. Between two separators side by side nothing is written and
nothing is entered, so the two do what one does: it clears if either of them clears. -/
namespace KeyForm

def divider (clearing : Bool) : Element := if clearing then .clearingSeparator else .separator

def Element.collapsed (x y : Element) : Element :=
  divider (x = .clearingSeparator || y = .clearingSeparator)

theorem separatorDivides {e : Element} (separator : e.isSeparator = true) :
    ∃ clearing, e = divider clearing := by
  cases e with
  | separator => exact ⟨false, rfl⟩
  | clearingSeparator => exact ⟨true, rfl⟩
  | _ => cases separator

theorem dividerSeparates (clearing : Bool) : (divider clearing).isSeparator = true := by
  cases clearing <;> rfl

theorem dividerCollapsed (a b : Bool) :
    (divider a).collapsed (divider b) = divider (a || b) := by
  cases a <;> cases b <;> rfl

/-- The error of a form at the place it has where one more element stands at `gap`; the
element itself is never at fault. -/
def Widened (gap : Nat) (e d : CompileError) : Prop :=
  e.index < gap ∧ d = e ∨ FaultMoved (gap + 1) 1 e d

namespace Walk
variable {rules : Rules} {w w' : Walk} {index : Nat} {es before : List Element}
variable {err : CompileError} {batches : List Batch}

theorem flushTwice (y : Yield) (live live' : Settings) :
    (y.flush live).flush live' = y.flush live := by
  simp [Yield.flush, batchOf]

theorem separatorTwice (policy : ClearPolicy) (a b : Bool) (live : Settings) (y : Yield) :
    takeSeparator policy b (takeSeparator policy a live y).live (y.flush live) =
      takeSeparator policy (a || b) live y := by
  cases a <;> cases b <;> simp [takeSeparator, flushTwice] <;> rfl

theorem dividerTaken (clearing : Bool) (live : Settings) (y : Yield) (x : Bool) :
    step rules ⟨live, .keys y (.next x)⟩ index (divider clearing) =
      .ok (takeSeparator rules.policy clearing live y) := by
  cases x <;> cases clearing <;> rfl

theorem pairCollapses (rules : Rules) (w : Walk) (index : Nat) (a b : Bool) :
    w.advance rules index [divider a, divider b] = w.step rules index (divider (a || b)) := by
  obtain ⟨live, stage⟩ := w
  have twice : ∀ (y : Yield), advance rules (takeSeparator rules.policy a live y) (index + 1)
      [divider b] = .ok (takeSeparator rules.policy (a || b) live y) := by
    intro y
    have taken : step rules (takeSeparator rules.policy a live y) (index + 1) (divider b) =
        .ok (takeSeparator rules.policy b (takeSeparator rules.policy a live y).live
          (y.flush live)) := dividerTaken b _ _ false
    simp only [advance, taken, separatorTwice]
    rfl
  cases stage with
  | leading positional awaiting =>
    cases awaiting with
    | none => cases a <;> cases b <;> exact twice (.opened live)
    | some => cases a <;> cases b <;> rfl
  | keys y turn =>
    cases turn with
    | key | entry => cases a <;> cases b <;> exact twice y
    | value | definition => cases a <;> cases b <;> rfl

theorem dividerRefused {clearing : Bool} (recalls : Recalls before w)
    (failed : w.step rules index (divider clearing) = .error err) :
    err.index < before.length := by
  cases recalls with
  | leading | key | entry => cases clearing <;> cases failed
  | default | option | definition =>
    cases clearing <;> cases failed <;> simp [CompileError.index]

theorem advanceRefused (recalls : Recalls before w)
    (failed : w.advance rules before.length es = .error err) :
    err.index < before.length + es.length := by
  induction es generalizing w before with
  | nil => cases failed
  | cons e rest ih =>
    simp only [advance] at failed
    cases taken : w.step rules before.length e with
    | error first =>
      rw [taken] at failed
      cases failed
      have place := (faultBlamed recalls (.ofStep taken) rest).2
      simp only [List.length_cons]
      omega
    | ok next =>
      rw [taken] at failed
      have later := ih (stepRecalls recalls taken) (by simpa [bind, Except.bind] using failed)
      simp only [List.length_append, List.length_cons, List.length_nil] at later ⊢
      omega

theorem keysWidened (rules : Rules) (gap : Nat) (live : Settings) (y : Yield)
    (later : List Element) :
    Alike (Widened gap) Eq (run rules ⟨live, .keys y .key⟩ (gap + 1) later)
      (run rules ⟨live, .keys y .key⟩ (gap + 1 + 1) later) := by
  have same : Displaced (gap + 1) 1 [] ⟨live, .keys y (.next false)⟩
      ⟨live, .keys (y.after []) (.next false)⟩ := .next live y false
  have moved : Alike (FaultMoved (gap + 1) 1) (fun later all => all = [] ++ later)
      (run rules ⟨live, .keys y (.next false)⟩ (gap + 1) later)
      (run rules ⟨live, .keys (y.after []) (.next false)⟩ (gap + 1 + 1) later) :=
    same.run rules.strategy (Nat.le_refl _) later
  exact moved.imp (fun _ _ h => .inr h) (fun _ _ h => h.symm)

theorem closedSeparated (choice : rules.strategy = .explicit true) (clearing : Bool)
    (closed : w.close rules index = .ok batches) :
    w.run rules index [divider clearing] = .ok batches := by
  obtain ⟨live, stage⟩ := w
  match stage with
  | .leading positional none => simp [close, choice, Strategy.allowsOpenEnd] at closed
  | .keys y .key | .keys y .entry =>
    cases closed
    cases clearing <;> simp [run, step, itemStep, divider, takeSeparator, bind, Except.bind,
      close, flushTwice]
  | .leading _ (some _) | .keys y (.value _ _ _) | .keys y (.definition _ _) => cases closed

theorem runCollapses {rules : Rules} (before later : List Element) (a b : Bool) :
    Alike (Widened before.length) Eq
      (start.run rules 0 (before ++ divider (a || b) :: later))
      (start.run rules 0 (before ++ divider a :: divider b :: later)) := by
  have begun : Recalls [] start := .leading
  have pair : divider a :: divider b :: later = [divider a, divider b] ++ later := rfl
  rw [runAppend, runAppend, Nat.zero_add]
  cases walked : start.advance rules 0 before with
  | error err =>
    have place := advanceRefused begun walked
    exact .error (.inl ⟨by simpa using place, rfl⟩)
  | ok w =>
    simp only [bind, Except.bind]
    rw [pair, runAppend, pairCollapses]
    simp only [run]
    cases taken : w.step rules before.length (divider (a || b)) with
    | error err =>
      exact .error (.inl ⟨dividerRefused (advanceRecalls begun walked) taken, rfl⟩)
    | ok next =>
      obtain ⟨live, _, _, rfl⟩ := separatorFresh (dividerSeparates _) taken
      exact keysWidened rules before.length live _ later

theorem runSeparated {rules : Rules} (choice : rules.strategy = .explicit true) {es : List Element}
    (clearing : Bool) (ran : start.run rules 0 es = .ok batches) :
    start.run rules 0 (es ++ [divider clearing]) = .ok batches := by
  rw [← List.append_nil es, runAppend] at ran
  obtain ⟨w, walked, closed⟩ := okBind ran
  rw [runAppend, walked]
  exact closedSeparated choice clearing closed

end Walk

theorem separatorsCollapse (c : Compiler) {x y : Element} (first : x.isSeparator = true)
    (second : y.isSeparator = true) (before later : List Element) :
    Alike (Widened before.length) Eq (c.compile (before ++ x.collapsed y :: later))
      (c.compile (before ++ x :: y :: later)) ∧
    ∀ es batches, es.any Element.isSeparator = true → c.compile es = .ok batches →
      c.compile (es ++ [x]) = .ok batches := by
  obtain ⟨a, rfl⟩ := separatorDivides first
  obtain ⟨b, rfl⟩ := separatorDivides second
  refine ⟨?_, fun es batches separated compiled => ?_⟩
  · have divided (clearing : Bool) (rest : List Element) :
        (before ++ divider clearing :: rest).any Element.isSeparator = true := by
      simp [dividerSeparates]
    rw [compileWalks, compileWalks, dividerCollapsed, rulesSeparated c (divided _ _),
      rulesSeparated c (divided _ _)]
    exact Walk.runCollapses before later a b
  · rw [compileWalks, rulesSeparated c separated] at compiled
    rw [compileWalks, rulesSeparated c (by rw [List.any_append, separated, Bool.true_or])]
    exact Walk.runSeparated rfl a compiled

def infixSection : List Element :=
  [.symbol "m", .separator, .keyword "infix", .str "x", .str "a", .symbol "f"]

def infixBatches : List Batch :=
  [⟨(Settings.set .empty keymapsName (.list [.symbol "m"])).set "infix" (.str "x"),
    [.plain (.str "a") (.symbol "f")]⟩]

/-- A key without its definition is past the pair, and so its place is moved. -/
theorem clearingCollapses :
    Element.isSeparator .separator = true ∧ Element.isSeparator .clearingSeparator = true ∧
    Compiler.compile ⟨.builtin, ⟨false, .all⟩⟩
        (infixSection ++ [.clearingSeparator, .str "b"]) = .error (.unpairedKey 7 (.str "b")) ∧
    Alike (Widened 6) Eq
      (Compiler.compile ⟨.builtin, ⟨false, .all⟩⟩
        (infixSection ++ [.clearingSeparator, .str "b"]))
      (Compiler.compile ⟨.builtin, ⟨false, .all⟩⟩
        (infixSection ++ [.separator, .clearingSeparator, .str "b"])) ∧
    Compiler.compile ⟨.builtin, ⟨false, .all⟩⟩ (infixSection ++ [.separator]) =
      .ok infixBatches := by
  obtain ⟨pair, trailing⟩ := separatorsCollapse ⟨.builtin, ⟨false, .all⟩⟩
    (x := .separator) (y := .clearingSeparator) rfl rfl infixSection [.str "b"]
  exact ⟨rfl, rfl, rfl, pair, trailing infixSection infixBatches rfl rfl⟩

end KeyForm
