import KeyForm.Batch.Json
import KeyForm.Proofs.ByteOrder
import KeyForm.Proofs.Overlay
/-! Settings as what was written last. Whatever writes, removals and overlays made some settings,
a name has the value that was written last and not removed since. Settings in which all names
have the same values are the same, so nothing else of the way in which they were made can be
seen in a batch or in its text. Laying settings over others is a band: it is associative, each
settings laid over themselves change nothing, and the order matters only for names that both
have with different values. -/
namespace KeyForm

section
variable {s t : Settings} {name : String} {value : Element}

theorem valueMember : s.value? name = some value ↔ (name, value) ∈ s.items := by
  rw [← Catalog.getMember, Settings.value?, Option.map_eq_some_iff]
  constructor
  · rintro ⟨⟨name', value'⟩, found, rfl⟩
    obtain rfl : name' = name := Catalog.getNamed found
    exact found
  · exact fun found => ⟨_, found, rfl⟩

theorem valueListed : (s.value? name).isSome = true ↔ name ∈ s.names := by
  simp [Option.isSome_iff_exists, valueMember, Catalog.names]

theorem sameValues (same : ∀ name, s.value? name = t.value? name) : s = t := by
  refine Catalog.extGet fun key => Option.ext fun p => ?_
  have named (u : Settings) : u.get? key = some p ↔ p.1 = key ∧ u.value? key = some p.2 := by
    constructor
    · intro found
      exact ⟨Catalog.getNamed found, by rw [Settings.value?, found, Option.map_some]⟩
    · rintro ⟨rfl, here⟩
      exact Catalog.getMember.mpr (valueMember.mp here)
  rw [named, named, same]

theorem valueSet (s : Settings) (written : String) (value : Element) (name : String) :
    (s.set written value).value? name = if written = name then some value else s.value? name := by
  rw [Settings.value?, Settings.set, Catalog.getInsert]
  split <;> rfl

theorem valueErase (s : Settings) (gone name : String) :
    Settings.value? (s.erase gone) name = if gone = name then none else s.value? name := by
  rw [Settings.value?, Catalog.getErase]
  split <;> rfl

theorem valueMerge (s t : Settings) (name : String) :
    Settings.value? (s.merge t) name = (t.value? name).or (s.value? name) := by
  rw [Settings.value?, Catalog.getMerge, Option.map_or, Settings.value?, Settings.value?]

theorem mergeComm : s.merge t = t.merge s ↔
    ∀ name v w, s.value? name = some v → t.value? name = some w → v = w := by
  constructor
  · intro commutes name v w left right
    have both := congrArg (fun u => Settings.value? u name) commutes
    simpa [valueMerge, left, right, eq_comm] using both
  · intro agree
    refine sameValues fun name => ?_
    rw [valueMerge, valueMerge]
    cases left : s.value? name with
    | none => simp
    | some v =>
      cases right : t.value? name with
      | none => simp
      | some w => rw [agree name v w left right]

theorem namesCounted {names : List String} (distinct : names.Nodup)
    (all : ∀ name, name ∈ names ↔ (s.value? name).isSome = true) : s.size = names.length := by
  have once : s.names.Nodup := by
    refine List.pairwise_map.mpr (s.ascending.imp fun {a b} before same => ?_)
    exact String.lt_irrefl b.1 (same ▸ before)
  have same : s.names.Perm names := (List.perm_ext_iff_of_nodup once distinct).mpr fun name => by
    rw [all, valueListed]
  rw [← same.length_eq, Catalog.names, List.length_map, Catalog.size]

end

/-- The way in which settings came about. Settings that are written on a copy have the same
history as those that are written in place. -/
inductive History where
  | empty
  | set (before : History) (name : String) (value : Element)
  | remove (before : History) (name : String)
  | merged (lower upper : History)
  deriving Repr

namespace History

def settings : History → Settings
  | empty => .empty
  | set before name value => before.settings.set name value
  | remove before name => before.settings.erase name
  | merged lower upper => lower.settings.merge upper.settings

/-- The value that was written last and not removed since. What lies over other settings counts
as later than they do, but what was removed from it is not removed from them. -/
def last? : History → String → Option Element
  | empty, _ => none
  | set before written value, name =>
    if written = name then some value else before.last? name
  | remove before removed, name => if removed = name then none else before.last? name
  | merged lower upper, name => (upper.last? name).or (lower.last? name)

theorem settingsLast (h : History) (name : String) : h.settings.value? name = h.last? name := by
  induction h with
  | empty => rfl
  | set before written value ih => rw [settings, valueSet, ih, last?]
  | remove before removed ih => rw [settings, valueErase, ih, last?]
  | merged lower upper lower_ih upper_ih => rw [settings, valueMerge, lower_ih, upper_ih, last?]

structure Recorded (h : History) (s : Settings) : Prop where
  value : ∀ name, s.value? name = h.last? name
  listed : ∀ name value, (name, value) ∈ s.items ↔ h.last? name = some value
  ascending : s.names.Pairwise fun a b => bytes a < bytes b
  counted : ∀ names : List String, names.Nodup →
    (∀ name, name ∈ names ↔ (h.last? name).isSome = true) → s.size = names.length

theorem recorded (h : History) : h.Recorded h.settings where
  value := h.settingsLast
  listed name value := by rw [← valueMember, settingsLast]
  ascending := List.pairwise_map.mpr (h.settings.ascending.imp bytesLess)
  counted names distinct all := namesCounted distinct fun name => by rw [all, settingsLast]

end History

namespace Settings

structure Same (s t : Settings) : Prop where
  equal : s = t
  items : s.items = t.items
  text : s.text = t.text
  json : s.toJson.text = t.toJson.text

theorem Same.refl (s : Settings) : s.Same s := ⟨rfl, rfl, rfl, rfl⟩

structure OverlayLaws (a b c : Settings) : Prop where
  associative : (a.merge b).merge c = a.merge (b.merge c)
  emptyUnder : Catalog.empty.merge a = a
  emptyOver : a.merge Catalog.empty = a
  self : a.merge a = a
  again : (a.merge b).merge b = a.merge b
  commutes : a.merge b = b.merge a ↔
    ∀ name v w, a.value? name = some v → b.value? name = some w → v = w

theorem overlayLaws (a b c : Settings) : a.OverlayLaws b c where
  associative := Catalog.mergeAssoc a b c
  emptyUnder := Catalog.emptyMerge a
  emptyOver := Catalog.mergeEmpty a
  self := Catalog.mergeSelf a
  again := by rw [Catalog.mergeAssoc, Catalog.mergeSelf]
  commutes := mergeComm

end Settings

theorem settingsCanonical :
    (∀ h : History, h.Recorded h.settings) ∧
    (∀ s t : Settings, s.Same t ↔ ∀ name, s.value? name = t.value? name) ∧
    (∀ h k : History, h.settings.Same k.settings ↔ ∀ name, h.last? name = k.last? name) ∧
    ∀ a b c : Settings, a.OverlayLaws b c := by
  have alike (s t : Settings) : s.Same t ↔ ∀ name, s.value? name = t.value? name := by
    constructor
    · rintro ⟨rfl, -⟩ name
      rfl
    · intro same
      exact sameValues same ▸ .refl s
  refine ⟨History.recorded, alike, fun h k => ?_, Settings.overlayLaws⟩
  simp only [alike, History.settingsLast]

-- What is removed from the upper settings is found in the lower ones again.
example (v w : Element) : History.last?
    (.merged (.set .empty "infix" v) (.remove (.set .empty "infix" w) "infix")) "infix" = some v :=
  rfl

end KeyForm
