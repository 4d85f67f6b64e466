import KeyForm.Proofs.TextAcceptance
/-! Where the text of an element ends. A string, a vector and a list have a closing sign of
their own; a name ends at the first delimiter after it. So a text that begins with a
readable element, and goes on with nothing that would make a name of it longer, begins with
no other one. -/
namespace KeyForm

def Element.isNamed : Element → Bool
  | .symbol _ | .keyword _ | .function _ | .separator | .clearingSeparator => true
  | .str _ | .vector _ | .list _ => false

variable {v w : Element} {a b r s : List Char}

theorem namedPlain (readable : v.readable = true) (named : v.isNamed = true) :
    v.chars ≠ [] ∧ ∀ c ∈ v.chars, isDelimiter c = false := by
  cases v with
  | symbol name =>
    simp only [Element.readable, isSymbolName, isUnmarked, Bool.and_eq_true] at readable
    exact Reader.nameDelimits readable.1.1.1.1.1
  | keyword name =>
    have plain := (Reader.nameDelimits readable).2
    refine ⟨List.cons_ne_nil _ _, List.forall_mem_cons.mpr ⟨by decide, plain⟩⟩
  | function name =>
    have plain := (Reader.nameDelimits readable).2
    refine ⟨List.cons_ne_nil _ _, List.forall_mem_cons.mpr ⟨by decide, ?_⟩⟩
    exact List.forall_mem_cons.mpr ⟨by decide, plain⟩
  | separator | clearingSeparator =>
    refine ⟨List.cons_ne_nil _ _, fun c mem => ?_⟩
    have bar : c = '|' := by simpa [Element.chars] using mem
    rw [bar]
    rfl
  | str | vector | list => cases named

theorem enclosedBegins (enclosed : v.isNamed = false) :
    ∃ c cs, v.chars = c :: cs ∧ isDelimiter c = true := by
  cases v with
  | str | vector | list => exact ⟨_, _, rfl, by decide⟩
  | _ => cases enclosed

theorem plainApart (left : ∀ c ∈ a, isDelimiter c = false)
    (right : ∀ c ∈ b, isDelimiter c = false) (stops : Stops r) (stops' : Stops s)
    (same : a ++ r = b ++ s) : a = b ∧ r = s := by
  rcases List.append_eq_append_iff.mp same with ⟨more, rfl, rfl⟩ | ⟨more, rfl, rfl⟩
  all_goals cases more with
    | nil => simp
    | cons c more => ?_
  · cases (stops c rfl).symm.trans (right c (by simp))
  · cases (stops' c rfl).symm.trans (left c (by simp))

theorem enclosedRead {p : Position} {openings : List Opening} {items : List Element}
    (readable : v.readable = true) (enclosed : v.isNamed = false) :
    (Reader.ready p openings items).result (v.chars ++ r) =
      (Reader.ready (p.past v.chars) openings (v :: items)).result r := by
  cases v with
  | str text => exact Reader.readText text
  | vector es =>
    exact Reader.readSequence .square
      (Reader.readSpaced _ _ _ (Reader.stopsCloser .square) es readable)
  | list es =>
    exact Reader.readSequence .round
      (Reader.readSpaced _ _ _ (Reader.stopsCloser .round) es readable)
  | _ => cases enclosed

theorem wholeText (readable : v.readable = true) : Reader.start.result v.chars = .ok [v] := by
  have ends : Stops [] := nofun
  have read := Reader.readElement .first [] [] ends v readable
  rw [List.append_nil] at read
  exact read.trans Reader.completed

theorem textSame (left : v.readable = true) (right : w.readable = true)
    (same : v.chars = w.chars) : v = w := by
  have read := wholeText left
  rw [same, wholeText right] at read
  cases read
  rfl

-- What is read first stays first, so an element whose text begins with another's closed
-- text is that element.
theorem enclosedWhole (left : v.readable = true) (enclosed : v.isNamed = false)
    (right : w.readable = true) (same : w.chars = v.chars ++ r) : v = w ∧ r = [] := by
  have whole := wholeText right
  rw [same, Reader.start, enclosedRead left enclosed] at whole
  obtain rfl : v = w := by
    generalize found : [w] = es at whole
    cases Reader.textMet _ _ _ _ _ whole with
    | done forms => exact (List.cons.inj found).1.symm
  exact ⟨rfl, by simpa using same⟩

theorem enclosedApart (left : v.readable = true) (right : w.readable = true)
    (enclosed : v.isNamed = false) (enclosed' : w.isNamed = false)
    (same : v.chars ++ r = w.chars ++ s) : v = w ∧ r = s := by
  rcases List.append_eq_append_iff.mp same with ⟨more, longer, rfl⟩ | ⟨more, longer, rfl⟩
  · obtain ⟨rfl, rfl⟩ := enclosedWhole left enclosed right longer
    exact ⟨rfl, rfl⟩
  · obtain ⟨rfl, rfl⟩ := enclosedWhole right enclosed' left longer
    exact ⟨rfl, rfl⟩

theorem namedApart (left : v.readable = true) (right : w.readable = true)
    (same : v.chars ++ r = w.chars ++ s) : v.isNamed = w.isNamed := by
  have differ {v w : Element} {r s : List Char} (readable : v.readable = true)
      (named : v.isNamed = true) (enclosed : w.isNamed = false) :
      v.chars ++ r ≠ w.chars ++ s := by
    intro same
    obtain ⟨some, plain⟩ := namedPlain readable named
    obtain ⟨c, cs, begins, delimiter⟩ := enclosedBegins enclosed
    obtain ⟨d, ds, first⟩ := List.exists_cons_of_ne_nil some
    rw [begins, first, List.cons_append, List.cons_append] at same
    obtain rfl := (List.cons.inj same).1
    cases delimiter.symm.trans (plain _ (by simp [first]))
  cases named : v.isNamed with
  | true =>
    cases named' : w.isNamed with
    | true => rfl
    | false => exact absurd same (differ left named named')
  | false =>
    cases named' : w.isNamed with
    | true => exact absurd same.symm (differ right named' named)
    | false => rfl

theorem elementsApart (left : v.readable = true) (right : w.readable = true) (stops : Stops r)
    (stops' : Stops s) (same : v.chars ++ r = w.chars ++ s) : v = w ∧ r = s := by
  have kind := namedApart left right same
  cases named : v.isNamed with
  | true =>
    obtain ⟨chars, rest⟩ := plainApart (namedPlain left named).2
      (namedPlain right (kind ▸ named)).2 stops stops' same
    exact ⟨textSame left right chars, rest⟩
  | false => exact enclosedApart left right named (kind ▸ named) same

end KeyForm
