import KeyForm.Proofs.OnePass
/-! A key section does not ask where in the form it stands, which batches came before it
or how the leading section was told from it. Moved to another place it gives the same
batches after the earlier ones, or the same error at the moved place. -/
namespace KeyForm

namespace CompileError

def moved (n : Nat) : CompileError → CompileError
  | .malformed index cause => .malformed (index + n) cause
  | .unknownOption index name suggestion => .unknownOption (index + n) name suggestion
  | .unpairedKey index key => .unpairedKey (index + n) key

end CompileError

structure FaultMoved (since n : Nat) (e d : CompileError) : Prop where
  place : since ≤ e.index
  same : d = e.moved n

namespace Turn

def moved (n : Nat) : Turn → Turn
  | .definition index e => .definition (index + n) e
  | .value named spec extendedOnly => .value (named + n) spec extendedOnly
  | .key => .key
  | .entry => .entry

def Since (since : Nat) : Turn → Prop
  | .definition index _ | .value index _ _ => since ≤ index
  | .key | .entry => True

theorem nextMoved (n : Nat) (x : Bool) : (Turn.next x).moved n = .next x := by
  cases x <;> rfl

theorem nextSince (since : Nat) (x : Bool) : (Turn.next x).Since since := by
  cases x <;> trivial

end Turn

def Yield.after (earlier : List Batch) (y : Yield) : Yield :=
  { y with batches := earlier ++ y.batches }

theorem flushAfter (earlier : List Batch) (y : Yield) (live : Settings) :
    (y.after earlier).flush live = (y.flush live).after earlier := by
  simp [Yield.after, Yield.flush]

inductive Displaced (since n : Nat) (earlier : List Batch) : Walk → Walk → Prop where
  | keys (live : Settings) (y : Yield) (t : Turn) (place : t.Since since) :
      Displaced since n earlier ⟨live, .keys y t⟩ ⟨live, .keys (y.after earlier) (t.moved n)⟩

namespace Displaced
variable {since n : Nat} {earlier : List Batch} {rules : Rules} {index : Nat} {e : Element}

theorem next (live : Settings) (y : Yield) (x : Bool) :
    Displaced since n earlier ⟨live, .keys y (.next x)⟩
      ⟨live, .keys (y.after earlier) (.next x)⟩ := by
  have moved : Displaced since n earlier ⟨live, .keys y (.next x)⟩
      ⟨live, .keys (y.after earlier) ((Turn.next x).moved n)⟩ :=
    .keys live y (.next x) (Turn.nextSince since x)
  rwa [Turn.nextMoved] at moved

theorem separator (policy : ClearPolicy) (clearing : Bool) (live : Settings) (y : Yield) :
    Displaced since n earlier (Walk.takeSeparator policy clearing live y)
      (Walk.takeSeparator policy clearing live (y.after earlier)) := by
  simp only [Walk.takeSeparator, flushAfter]
  exact next _ _ false

theorem value (live : Settings) (y : Yield) (spec : OptionSpec) (x : Bool) (e : Element) :
    Displaced since n earlier (Walk.valueStep live y spec x e)
      (Walk.valueStep live (y.after earlier) spec x e) := by
  cases kind : spec.kind with
  | setting => simp only [Walk.valueStep, kind]; exact next _ _ x
  | extendedMarker =>
    simp only [Walk.valueStep, kind]
    split
    · exact next live (y.add (.extended e)) x
    · exact next live y e.isTrue

theorem misfit (cause : Misfit) (place : since ≤ index) :
    Alike (FaultMoved since n) (Displaced since n earlier) (Walk.misfit index cause)
      (Walk.misfit (index + n) cause) :=
  .error ⟨place, rfl⟩

theorem takeName {registry : Registry} {name : String}
    {f g : OptionSpec → Except CompileError Walk} (place : since ≤ index)
    (found : ∀ spec, Alike (FaultMoved since n) (Displaced since n earlier) (f spec) (g spec)) :
    Alike (FaultMoved since n) (Displaced since n earlier)
      (Walk.takeName registry index name f) (Walk.takeName registry (index + n) name g) := by
  unfold Walk.takeName
  cases registry.get? name with
  | none => exact .error ⟨place, rfl⟩
  | some spec => exact found spec

theorem takeItem (live : Settings) (y : Yield) (x : Bool) (place : since ≤ index) :
    Alike (FaultMoved since n) (Displaced since n earlier)
      (Walk.takeItem live y x index e)
      (Walk.takeItem live (y.after earlier) x (index + n) e) := by
  unfold Walk.takeItem
  cases x with
  | true =>
    simp only [if_true]
    split
    · exact misfit _ place
    split
    · exact .ok (next live (y.add (.extended e)) true)
    · exact misfit _ place
  | false =>
    simp only [Bool.false_eq_true, if_false]
    split
    · exact misfit _ place
    split
    · exact .ok (.keys live y (.definition index e) place)
    · exact misfit _ place

theorem itemStep (strategy : Strategy) (live : Settings) (y : Yield) (x : Bool)
    (place : since ≤ index) :
    Alike (FaultMoved since n) (Displaced since n earlier)
      (Walk.itemStep rules live y x index e)
      (Walk.itemStep { rules with strategy } live (y.after earlier) x (index + n) e) := by
  cases e with
  | separator => exact .ok (separator rules.policy false live y)
  | clearingSeparator => exact .ok (separator rules.policy true live y)
  | keyword name =>
    exact takeName place fun spec => .ok (.keys live y (.value index spec x) place)
  | symbol | str | vector | list | function => exact takeItem live y x place

theorem definitionStep (strategy : Strategy) (live : Settings) (y : Yield) {place : Nat}
    (key : Element) (waits : since ≤ place) (later : since ≤ index) :
    Alike (FaultMoved since n) (Displaced since n earlier)
      (Walk.definitionStep rules live y place key index e)
      (Walk.definitionStep { rules with strategy } live (y.after earlier) (place + n) key
        (index + n) e) := by
  cases e with
  | separator | clearingSeparator => exact .error ⟨waits, rfl⟩
  | keyword name => exact takeName later fun _ => .error ⟨waits, rfl⟩
  | list => exact misfit _ later
  | symbol | str | vector | function => exact .ok (next live (y.add (.plain key _)) false)

theorem valueStep (live : Settings) (y : Yield) {named : Nat} (spec : OptionSpec) (x : Bool)
    (waits : since ≤ named) (place : since ≤ index) :
    Alike (FaultMoved since n) (Displaced since n earlier)
      (Walk.takeValue index e named spec (.ok (Walk.valueStep live y spec x e)))
      (Walk.takeValue (index + n) e (named + n) spec
        (.ok (Walk.valueStep live (y.after earlier) spec x e))) := by
  unfold Walk.takeValue
  split
  · exact misfit _ waits
  split
  · exact misfit _ place
  · exact .ok (value live y spec x e)

theorem step {w w' : Walk} (h : Displaced since n earlier w w') (strategy : Strategy)
    (place : since ≤ index) :
    Alike (FaultMoved since n) (Displaced since n earlier) (w.step rules index e)
      (w'.step { rules with strategy } (index + n) e) := by
  obtain ⟨live, y, t, waits⟩ := h
  match t with
  | .key => exact itemStep strategy live y false place
  | .entry => exact itemStep strategy live y true place
  | .definition _ key => exact definitionStep strategy live y key waits place
  | .value _ spec x => exact valueStep live y spec x waits place

theorem close {w w' : Walk} (h : Displaced since n earlier w w') (strategy : Strategy)
    (index' : Nat) :
    Alike (FaultMoved since n) (fun later all => all = earlier ++ later)
      (w.close rules index) (w'.close { rules with strategy } index') := by
  obtain ⟨live, y, t, waits⟩ := h
  match t with
  | .key | .entry =>
    refine .ok ?_
    rw [flushAfter]
    rfl
  | .definition _ key => exact .error ⟨waits, rfl⟩
  | .value _ spec x => exact .error ⟨waits, rfl⟩

theorem run {w w' : Walk} (h : Displaced since n earlier w w') (strategy : Strategy)
    (place : since ≤ index) (es : List Element) :
    Alike (FaultMoved since n) (fun later all => all = earlier ++ later)
      (w.run rules index es) (w'.run { rules with strategy } (index + n) es) := by
  induction es generalizing w w' index with
  | nil => exact h.close strategy _
  | cons e rest ih =>
    refine (h.step strategy place).bind fun u u' h => ?_
    rw [Nat.add_right_comm]
    exact ih h (Nat.le_succ_of_le place)

end Displaced
end KeyForm
