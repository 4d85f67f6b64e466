/-! Values and errors of a computation that can fail, taken apart and compared with those
of another one. -/
namespace KeyForm

theorem okBind {ε α β : Type} {x : Except ε α} {f : α → Except ε β} {b : β}
    (h : x >>= f = .ok b) : ∃ a, x = .ok a ∧ f a = .ok b := by
  cases x with
  | error _ => cases h
  | ok a => exact ⟨a, rfl, h⟩

/-- Two results of one kind: both errors or both values, each as the relation asks. -/
inductive Alike {ε δ α β : Type} (faults : ε → δ → Prop) (values : α → β → Prop) :
    Except ε α → Except δ β → Prop where
  | error {e d} (h : faults e d) : Alike faults values (.error e) (.error d)
  | ok {a b} (h : values a b) : Alike faults values (.ok a) (.ok b)

namespace Alike
variable {ε δ α β α' β' : Type} {faults : ε → δ → Prop} {values : α → β → Prop}
variable {later : α' → β' → Prop}

theorem bind {x : Except ε α} {y : Except δ β} {f : α → Except ε α'} {g : β → Except δ β'}
    (first : Alike faults values x y)
    (next : ∀ a b, values a b → Alike faults later (f a) (g b)) :
    Alike faults later (x >>= f) (y >>= g) := by
  cases first with
  | error h => exact .error h
  | ok h => exact next _ _ h

theorem ofOk {a : α} {y : Except δ β} (h : Alike faults values (.ok a) y) :
    ∃ b, y = .ok b ∧ values a b := by
  cases h with
  | ok h => exact ⟨_, rfl, h⟩

theorem ofError {e : ε} {y : Except δ β} (h : Alike faults values (.error e) y) :
    ∃ d, y = .error d ∧ faults e d := by
  cases h with
  | error h => exact ⟨_, rfl, h⟩

theorem toOk {b : β} {x : Except ε α} (h : Alike faults values x (.ok b)) :
    ∃ a, x = .ok a ∧ values a b := by
  cases h with
  | ok h => exact ⟨_, rfl, h⟩

theorem eq {ε α : Type} {x y : Except ε α} (h : Alike Eq Eq x y) : x = y := by
  cases h with
  | error h | ok h => rw [h]

theorem okIff {ε δ α : Type} {faults : ε → δ → Prop} {x : Except ε α} {y : Except δ α}
    (h : Alike faults Eq x y) (a : α) : x = .ok a ↔ y = .ok a := by
  cases h with
  | error _ => exact ⟨nofun, nofun⟩
  | ok same => simp [same]

theorem imp {faults' : ε → δ → Prop} {values' : α → β → Prop} {x : Except ε α}
    {y : Except δ β} (h : Alike faults values x y) (errors : ∀ e d, faults e d → faults' e d)
    (oks : ∀ a b, values a b → values' a b) : Alike faults' values' x y := by
  cases h with
  | error h => exact .error (errors _ _ h)
  | ok h => exact .ok (oks _ _ h)

theorem refl {ε α : Type} (x : Except ε α) : Alike Eq Eq x x := by
  cases x with
  | error _ => exact .error rfl
  | ok _ => exact .ok rfl

end Alike

end KeyForm
