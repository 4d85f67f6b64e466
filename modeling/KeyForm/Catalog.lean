/-! Finite collections in which every item is found by its own name. The items are
kept in strictly ascending order of their names, so a collection has one
representation, whatever the order in which it was filled. -/
namespace KeyForm

structure Catalog (α : Type) (name : α → String) where
  items : List α
  ascending : items.Pairwise fun a b => name a < name b
  deriving DecidableEq, Repr

namespace Catalog
variable {α : Type} {name : α → String}

def place (name : α → String) (a : α) : List α → List α
  | [] => [a]
  | b :: rest =>
    if name a < name b then a :: b :: rest
    else if name b < name a then b :: place name a rest
    else a :: rest

theorem memPlace {a x : α} {items : List α} (h : x ∈ place name a items) :
    x = a ∨ x ∈ items := by
  induction items with
  | nil => simpa [place] using h
  | cons b rest ih =>
    unfold place at h
    split at h
    · simpa using h
    · split at h
      · rcases List.mem_cons.mp h with rfl | h
        · simp
        · rcases ih h with rfl | h <;> simp [*]
      · rcases List.mem_cons.mp h with rfl | h <;> simp [*]

theorem placeAscending {a : α} {items : List α}
    (h : items.Pairwise fun a b => name a < name b) :
    (place name a items).Pairwise fun a b => name a < name b := by
  induction items with
  | nil => simp [place]
  | cons b rest ih =>
    obtain ⟨first, later⟩ := List.pairwise_cons.mp h
    unfold place
    split
    · rename_i before
      refine List.pairwise_cons.mpr ⟨fun x hx => ?_, h⟩
      rcases List.mem_cons.mp hx with rfl | hx
      · exact before
      · exact String.lt_trans before (first x hx)
    · split
      · rename_i after
        refine List.pairwise_cons.mpr ⟨fun x hx => ?_, ih later⟩
        rcases memPlace hx with rfl | hx
        · exact after
        · exact first x hx
      · rename_i notBefore notAfter
        have same : name a = name b :=
          String.le_antisymm (String.not_lt.1 notAfter) (String.not_lt.1 notBefore)
        exact List.pairwise_cons.mpr ⟨fun x hx => same ▸ first x hx, later⟩

def empty : Catalog α name := ⟨[], .nil⟩

instance : EmptyCollection (Catalog α name) := ⟨empty⟩
instance : Inhabited (Catalog α name) := ⟨empty⟩

def get? (c : Catalog α name) (key : String) : Option α :=
  c.items.find? fun a => name a == key

theorem getNamed {c : Catalog α name} {key : String} {a : α} (found : c.get? key = some a) :
    name a = key := by
  simpa using List.find?_some found

def contains (c : Catalog α name) (key : String) : Bool :=
  (c.get? key).isSome

def insert (c : Catalog α name) (a : α) : Catalog α name :=
  ⟨place name a c.items, placeAscending c.ascending⟩

def erase (c : Catalog α name) (key : String) : Catalog α name :=
  ⟨c.items.filter fun a => name a != key, c.ascending.filter _⟩

def merge (c d : Catalog α name) : Catalog α name :=
  d.items.foldl insert c

def ofList (items : List α) : Catalog α name :=
  items.foldl insert empty

def names (c : Catalog α name) : List String := c.items.map name

def size (c : Catalog α name) : Nat := c.items.length

def isEmpty (c : Catalog α name) : Bool := c.items.isEmpty

theorem ext {c d : Catalog α name} (h : c.items = d.items) : c = d := by
  cases c; cases d; cases h; rfl

end Catalog
end KeyForm
