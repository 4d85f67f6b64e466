import Mathlib.Data.List.Sort
import KeyForm.Catalog
/-! Collections seen through their lookup. Two collections in which every name finds the
same item are equal, so a law about filling and laying over is a law about what one name
finds. -/
namespace KeyForm.Catalog
variable {α : Type} {name : α → String}

theorem foundPlaced (a : α) (items : List α) (key : String) :
    (place name a items).find? (fun b => name b == key) =
      if name a = key then some a else items.find? fun b => name b == key := by
  induction items with
  | nil =>
    by_cases named : name a = key <;> simp [place, named]
  | cons b rest ih =>
    unfold place
    split
    · by_cases named : name a = key <;> simp [List.find?_cons, named]
    next notBefore =>
    split
    · next after =>
      by_cases here : name b = key
      · have other : name a ≠ key := by
          rintro rfl
          exact String.lt_irrefl _ (here ▸ after)
        simp [here, other]
      · rw [List.find?_cons_of_neg (by simpa using here), ih,
          List.find?_cons_of_neg (by simpa using here)]
    · next notAfter =>
      have same : name a = name b :=
        String.le_antisymm (String.not_lt.1 notAfter) (String.not_lt.1 notBefore)
      by_cases here : name a = key
      · simp [here]
      · simp [here, same ▸ here]

theorem getInsert (c : Catalog α name) (a : α) (key : String) :
    (c.insert a).get? key = if name a = key then some a else c.get? key :=
  foundPlaced a c.items key

theorem foundMember {items : List α} (ascending : items.Pairwise fun a b => name a < name b)
    {a : α} : items.find? (fun b => name b == name a) = some a ↔ a ∈ items := by
  constructor
  · exact List.mem_of_find?_eq_some
  · intro mem
    induction items with
    | nil => cases mem
    | cons b rest ih =>
      obtain ⟨first, later⟩ := List.pairwise_cons.mp ascending
      rcases List.mem_cons.mp mem with rfl | mem
      · simp
      · have other : name b ≠ name a := by
          intro same
          exact String.lt_irrefl _ (same ▸ first a mem)
        rw [List.find?_cons_of_neg (by simpa using other)]
        exact ih later mem

theorem getMember {c : Catalog α name} {a : α} : c.get? (name a) = some a ↔ a ∈ c.items :=
  foundMember c.ascending

theorem extGet {c d : Catalog α name} (same : ∀ key, c.get? key = d.get? key) : c = d := by
  have irreflexive : Std.Irrefl fun a b : α => name a < name b := ⟨fun _ => String.lt_irrefl _⟩
  have antisymmetric : Std.Antisymm fun a b : α => name a < name b :=
    ⟨fun _ _ before after => absurd after (String.lt_asymm before)⟩
  refine ext (c.ascending.eq_of_mem_iff d.ascending fun a => ?_)
  rw [← getMember, same, getMember]

theorem insertComm {a b : α} (other : name a ≠ name b) (c : Catalog α name) :
    (c.insert a).insert b = (c.insert b).insert a := by
  refine extGet fun key => ?_
  simp only [getInsert]
  by_cases first : name a = key
  · have second : name b ≠ key := fun h => other (first.trans h.symm)
    rw [if_neg second, if_pos first, if_pos first]
  · rw [if_neg first, if_neg first]

theorem foundInserted {items : List α}
    (ascending : items.Pairwise fun a b => name a < name b) (c : Catalog α name)
    (key : String) :
    (items.foldl insert c).get? key =
      (items.find? fun a => name a == key).or (c.get? key) := by
  induction items generalizing c with
  | nil => rfl
  | cons a rest ih =>
    obtain ⟨first, later⟩ := List.pairwise_cons.mp ascending
    rw [List.foldl_cons, ih later, getInsert]
    by_cases here : name a = key
    · have gone : rest.find? (fun b => name b == key) = none := by
        rw [List.find?_eq_none]
        intro b mem same
        have equal : name b = key := by simpa using same
        exact String.lt_irrefl _ (equal ▸ here ▸ first b mem)
      simp [here, gone]
    · rw [if_neg here, List.find?_cons_of_neg (by simpa using here)]

theorem getMerge (c d : Catalog α name) (key : String) :
    (c.merge d).get? key = (d.get? key).or (c.get? key) :=
  foundInserted d.ascending c key

theorem foundErased (items : List α) (gone key : String) :
    (items.filter fun a => name a != gone).find? (fun a => name a == key) =
      if gone = key then none else items.find? fun a => name a == key := by
  rw [List.find?_filter]
  split
  · next same =>
    subst same
    rw [List.find?_eq_none]
    simp
  · next other =>
    congr 1
    funext a
    by_cases here : name a = key
    · simp [here, Ne.symm other]
    · simp [here]

theorem getErase (c : Catalog α name) (gone key : String) :
    (c.erase gone).get? key = if gone = key then none else c.get? key :=
  foundErased c.items gone key

theorem mergeEmpty (c : Catalog α name) : c.merge empty = c := rfl

theorem emptyMerge (c : Catalog α name) : (empty : Catalog α name).merge c = c := by
  refine extGet fun key => ?_
  rw [getMerge]
  cases c.get? key <;> rfl

theorem mergeSelf (c : Catalog α name) : c.merge c = c := by
  refine extGet fun key => ?_
  rw [getMerge]
  cases c.get? key <;> rfl

theorem mergeAssoc (c d e : Catalog α name) : (c.merge d).merge e = c.merge (d.merge e) := by
  refine extGet fun key => ?_
  simp only [getMerge, Option.or_assoc]

theorem mergeInsert (c d : Catalog α name) (a : α) :
    c.merge (d.insert a) = (c.merge d).insert a := by
  refine extGet fun key => ?_
  rw [getMerge, getInsert, getInsert, getMerge]
  split <;> rfl

theorem namesPlaced {a b : α} (named : name a = name b) {items others : List α}
    (same : items.map name = others.map name) :
    (place name a items).map name = (place name b others).map name := by
  induction items generalizing others with
  | nil =>
    obtain rfl := List.map_eq_nil_iff.mp same.symm
    simpa [place] using named
  | cons c rest ih =>
    obtain ⟨d, later, rfl, here, tail⟩ := List.map_eq_cons_iff.mp same.symm
    simp only [place, ← named, here]
    split
    · simp [named, here, tail]
    split
    · simp [here, ih tail.symm]
    · simp [named, tail]

theorem namesInsert {c d : Catalog α name} {a b : α} (named : name a = name b)
    (same : c.names = d.names) : (c.insert a).names = (d.insert b).names :=
  namesPlaced named same

end KeyForm.Catalog
