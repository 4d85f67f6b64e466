import KeyForm.Proofs.ByteOrder
import KeyForm.Proofs.EditScripts
import KeyForm.Vocabulary.Registry
/-! The hint for an unknown name. It is the known name that takes the fewest edits, of several
the one whose bytes come first, and there is none if even that name takes too many. -/
namespace KeyForm.Registry
variable {r : Registry} {name known : String}

theorem containsName : r.contains known = true ↔ known ∈ r.names := by
  simp [Catalog.contains, Catalog.get?, Catalog.names]

-- A later name is taken only if it is strictly nearer: hence the order of the names.
theorem nearestFirst {l : List (Nat × String)} (present : l ≠ [])
    (ascending : l.Pairwise fun a b => a.2 < b.2) : ∃ b, nearest l = some b ∧ b ∈ l ∧
      ∀ x ∈ l, b.1 ≤ x.1 ∧ (x.1 = b.1 → ¬ x.2 < b.2) := by
  induction l with
  | nil => exact absurd rfl present
  | cons a rest ih =>
    obtain ⟨before, later⟩ := List.pairwise_cons.mp ascending
    by_cases last : rest = []
    · subst last
      refine ⟨a, rfl, List.mem_cons_self, fun x here => ?_⟩
      obtain rfl := List.mem_singleton.mp here
      exact ⟨Nat.le_refl _, fun _ => String.lt_irrefl _⟩
    obtain ⟨b, found, member, first⟩ := ih last later
    rw [nearest, found]
    by_cases nearer : b.1 < a.1
    · refine ⟨b, if_pos nearer, List.mem_cons_of_mem _ member,
        List.forall_mem_cons.mpr ⟨⟨Nat.le_of_lt nearer, fun same => ?_⟩, first⟩⟩
      exact absurd nearer (same ▸ Nat.lt_irrefl _)
    · refine ⟨a, if_neg nearer, List.mem_cons_self, List.forall_mem_cons.mpr
        ⟨⟨Nat.le_refl _, fun _ => String.lt_irrefl _⟩, fun x here => ⟨?_, fun _ => ?_⟩⟩⟩
      · exact (Nat.le_of_not_lt nearer).trans (first x here).1
      · exact String.lt_asymm (before x here)

structure Closest (r : Registry) (name known : String) : Prop where
  registered : r.contains known = true
  least : ∀ other, r.contains other = true → distance name known ≤ distance name other
  first : ∀ other, r.contains other = true → distance name other = distance name known →
    bytes known ≤ bytes other

theorem Closest.unique {known' : String} (one : Closest r name known)
    (other : Closest r name known') : known = known' := by
  have near := Nat.le_antisymm (one.least _ other.registered) (other.least _ one.registered)
  refine String.le_antisymm (String.not_lt.1 fun less => ?_) (String.not_lt.1 fun less => ?_)
  · exact one.first _ other.registered near.symm (byteOrder.mpr less)
  · exact other.first _ one.registered near (byteOrder.mpr less)

theorem closestFound (present : r.names ≠ []) (name : String) : ∃ known, Closest r name known ∧
    nearest (r.names.map fun known => (distance name known, known)) =
      some (distance name known, known) := by
  have ascending : (r.names.map fun known => (distance name known, known)).Pairwise
      fun a b => a.2 < b.2 :=
    List.pairwise_map.mpr (List.pairwise_map.mpr r.ascending)
  obtain ⟨b, found, member, first⟩ := nearestFirst (by simpa using present) ascending
  obtain ⟨known, here, rfl⟩ := List.mem_map.mp member
  refine ⟨known, ⟨containsName.mpr here, fun other there => ?_, fun other there => ?_⟩, found⟩
  · exact (first _ (List.mem_map_of_mem (containsName.mp there))).1
  · intro near
    exact mt byteOrder.mp ((first _ (List.mem_map_of_mem (containsName.mp there))).2 near)

theorem suggestClosest (closest : Closest r name known) :
    r.suggest name = if distance name known ≤ 3 then some known else none := by
  obtain ⟨known', closest', found⟩ :=
    closestFound (List.ne_nil_of_mem (containsName.mp closest.registered)) name
  obtain rfl := closest.unique closest'
  rw [suggest, found]
  rfl

theorem suggests : r.suggest name = some known ↔
    Closest r name known ∧ distance name known ≤ 3 := by
  constructor
  · intro hint
    have present : r.names ≠ [] := by
      intro empty
      rw [suggest, empty] at hint
      cases hint
    obtain ⟨closest, isClosest, _⟩ := closestFound present name
    rw [suggestClosest isClosest] at hint
    split at hint
    next near =>
      cases hint
      exact ⟨isClosest, near⟩
    next => cases hint
  · rintro ⟨isClosest, near⟩
    rw [suggestClosest isClosest, if_pos near]

theorem silent : r.suggest name = none ↔
    ∀ known, r.contains known = true → 3 < distance name known := by
  constructor
  · intro noHint known here
    obtain ⟨closest, isClosest, _⟩ := closestFound (List.ne_nil_of_mem (containsName.mp here)) name
    rw [suggestClosest isClosest] at noHint
    split at noHint
    next => cases noHint
    next notNear => exact (Nat.lt_of_not_le notNear).trans_le (isClosest.least known here)
  · intro far
    cases hint : r.suggest name with
    | none => rfl
    | some known =>
      obtain ⟨isClosest, near⟩ := suggests.mp hint
      exact absurd near (Nat.not_le_of_lt (far known isClosest.registered))

end KeyForm.Registry

namespace KeyForm

theorem suggestsNearest (r : Registry) (name : String) :
    (∀ known : String, IsLeast {n | Edits n name.toList known.toList} (distance name known)) ∧
    (∀ known, r.suggest name = some known ↔
      r.Closest name known ∧ distance name known ≤ 3) ∧
    (r.suggest name = none ↔ ∀ known, r.contains known = true → 3 < distance name known) :=
  ⟨distanceLeast name, fun _ => Registry.suggests, Registry.silent⟩

end KeyForm
