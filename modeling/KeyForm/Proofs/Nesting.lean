import KeyForm.Proofs.ReadBack
/-! One run of the reader beside another that takes the same characters from another place,
inside brackets that are already open and after forms that are already read. The two differ
in the places they remember and in what was there before, until a bracket closes that the
first one does not know. -/
namespace KeyForm

namespace Reader

section
variable (places : Position → Position → Prop) (outer : List Opening) (below : List Element)

def Blames (e e' : ReadError) : Prop := e.fault = e'.fault ∧ places e.place e'.place

inductive Modes : Mode → Mode → Prop where
  | between : Modes .between .between
  | comment : Modes .comment .comment
  | quote : Modes .quote .quote
  | sharp : Modes .sharp .sharp
  | name {kind read} : Modes (.name kind read) (.name kind read)
  | text {p q read} (place : places p q) : Modes (.text p read) (.text q read)
  | escape {p q read} (place : places p q) : Modes (.escape p read) (.escape q read)

/-- The same brackets around the same forms, but on the lowest level of the first. -/
inductive Levels : List Opening → List Element → List Opening → List Element → Prop where
  | ground {items} : Levels [] items outer (items ++ below)
  | inner {b p q before before' openings openings' items} (place : places p q)
      (around : Levels openings before openings' before') :
      Levels (⟨b, p, before⟩ :: openings) items (⟨b, q, before'⟩ :: openings') items

structure Nested (r r' : Reader) : Prop where
  place : places r.place r'.place
  mode : Modes places r.mode r'.mode
  levels : Levels places outer below r.openings r.items r'.openings r'.items
  quoted : r.quoted = r'.quoted

def Along (x y : Except ReadError Reader) : Prop :=
  Alike (Blames places) (Nested places outer below) x y ∨
    ∃ o s, y = .ok s ∧ outer = o :: s.openings

end

variable {places : Position → Position → Prop} {outer : List Opening} {below : List Element}
variable {r r' : Reader} {c : Char} {cs : List Char} {kind : NameKind} {read : List Char}

theorem Levels.add {openings openings' : List Opening} {items items' : List Element}
    (levels : Levels places outer below openings items openings' items') (e : Element) :
    Levels places outer below openings (e :: items) openings' (e :: items') := by
  cases levels with
  | ground => exact .ground
  | inner place around => exact .inner place around

theorem Levels.outside {openings openings' : List Opening} {items items' : List Element}
    (levels : Levels places outer below openings items openings' items') :
    openings'.length = openings.length + outer.length := by
  induction levels with
  | ground => simp
  | inner place around ih =>
    simp only [List.length_cons, ih]
    omega

theorem startNested {p p' : Position} (place : places p p') :
    Nested places outer below (ready p [] []) (ready p' outer below) :=
  ⟨place, .between, .ground, rfl⟩

theorem failNested {α β : Type} {values : α → β → Prop}
    (nested : Nested places outer below r r') (fault : ReadFault) :
    Alike (Blames places) values (r.fail fault) (r'.fail fault) :=
  .error ⟨rfl, nested.place⟩

theorem addNested (nested : Nested places outer below r r') (e : Element) :
    Nested places outer below (r.add e) (r'.add e) :=
  ⟨nested.place, .between, nested.levels.add e, rfl⟩

theorem openNested (nested : Nested places outer below r r') (b : Bracket) :
    Nested places outer below (r.openBracket b) (r'.openBracket b) :=
  ⟨nested.place, .between, .inner nested.place nested.levels, rfl⟩

theorem alongAfter {x y : Except ReadError Reader} {f g : Reader → Except ReadError Reader}
    (first : Alike (Blames places) (Nested places outer below) x y)
    (later : ∀ s s', Nested places outer below s s' → Along places outer below (f s) (g s')) :
    Along places outer below (x >>= f) (y >>= g) := by
  cases first with
  | error blames => exact .inl (.error blames)
  | ok same => exact later _ _ same

theorem closeNested (nested : Nested places outer below r r') (b : Bracket) :
    Along places outer below (r.closeBracket b) (r'.closeBracket b) := by
  have stray : Alike (Blames places) (Nested places outer below) (r.fail (.strayCloser b))
      (r'.fail (.strayCloser b)) := failNested nested _
  obtain ⟨p, mode, openings, items, quoted⟩ := r
  obtain ⟨p', mode', openings', items', quoted'⟩ := r'
  have levels := nested.levels
  have same : quoted = quoted' := nested.quoted
  subst same
  unfold closeBracket
  cases levels with
  | ground =>
    cases openings' with
    | nil => exact .inl stray
    | cons o rest =>
      simp only
      split
      · exact .inl stray
      · exact .inr ⟨o, _, rfl, rfl⟩
  | inner _ around =>
    simp only
    split
    · exact .inl stray
    · exact .inl (.ok ⟨nested.place, .between, around.add _, rfl⟩)

theorem beginNested (nested : Nested places outer below r r') (c : Char) :
    Along places outer below (r.begin c) (r'.begin c) := by
  have stays {mode mode' : Mode} {quoted : Bool} (modes : Modes places mode mode') :
      Along places outer below (.ok ⟨r.place, mode, r.openings, r.items, quoted⟩)
        (.ok ⟨r'.place, mode', r'.openings, r'.items, quoted⟩) :=
    .inl (.ok ⟨nested.place, modes, nested.levels, rfl⟩)
  unfold begin
  by_cases blank : isBlank c = true
  · rw [if_pos blank, if_pos blank, ← nested.quoted]
    exact stays .between
  rw [if_neg blank, if_neg blank, ← nested.quoted]
  split
  case h_1 => exact stays .comment
  case h_2 => exact .inl (.ok (openNested nested .round))
  case h_3 => exact .inl (.ok (openNested nested .square))
  case h_4 => exact closeNested nested .round
  case h_5 => exact closeNested nested .square
  case h_6 => exact stays (.text nested.place)
  case h_7 => exact stays .quote
  case h_8 => exact stays .sharp
  case h_9 | h_10 => exact stays .name

theorem finishNameNested (nested : Nested places outer below r r') (kind : NameKind)
    (read : List Char) : Alike (Blames places) (Nested places outer below)
      (r.finishName kind read) (r'.finishName kind read) := by
  unfold finishName
  cases kind.element read.reverse with
  | ok e => exact .ok (addNested nested e)
  | error fault => exact failNested nested fault

theorem takeNameNested (nested : Nested places outer below r r') (kind : NameKind)
    (read : List Char) (c : Char) :
    Along places outer below (r.takeName kind read c) (r'.takeName kind read c) := by
  unfold takeName
  split
  · exact alongAfter (finishNameNested nested kind read) fun _ _ named => beginNested named c
  · exact .inl (.ok ⟨nested.place, .name, nested.levels, nested.quoted⟩)

theorem takeNested (nested : Nested places outer below r r') (c : Char) :
    Along places outer below (r.take c) (r'.take c) := by
  obtain ⟨p, mode, openings, items, quoted⟩ := r
  obtain ⟨p', mode', openings', items', quoted'⟩ := r'
  have stays {mode mode' : Mode} (modes : Modes places mode mode') :
      Along places outer below (.ok ⟨p, mode, openings, items, quoted⟩)
        (.ok ⟨p', mode', openings', items', quoted'⟩) :=
    .inl (.ok ⟨nested.place, modes, nested.levels, nested.quoted⟩)
  unfold take
  cases nested.mode with
  | between => exact beginNested nested c
  | comment =>
    refine stays ?_
    split
    · exact .between
    · exact .comment
  | quote =>
    simp only
    split
    · exact .inl (failNested nested .bareQuote)
    · exact beginNested nested c
  | sharp =>
    simp only
    split
    · exact stays .name
    · exact takeNameNested nested .plain ['#'] c
  | name => exact takeNameNested nested _ _ c
  | text place =>
    simp only
    split
    · exact .inl (.ok (addNested nested _))
    · exact stays (.escape place)
    · exact stays (.text place)
  | escape place => exact stays (.text place)

theorem stepNested (move : ∀ p q c, places p q → places (p.after c) (q.after c))
    (nested : Nested places outer below r r') (c : Char) :
    Along places outer below (r.step c) (r'.step c) := by
  unfold step
  cases takeNested nested c with
  | inl alike =>
    refine .inl (alike.bind ?_)
    intro s s' same
    exact .ok ⟨move _ _ c same.place, same.mode, same.levels, same.quoted⟩
  | inr left =>
    obtain ⟨o, s, closed, level⟩ := left
    rw [closed]
    exact .inr ⟨o, _, rfl, level⟩

def settle (r : Reader) : Except ReadError Reader :=
  match r.mode with
  | .between | .comment => .ok r
  | .quote => r.fail .bareQuote
  | .sharp => r.finishName .plain ['#']
  | .name kind read => r.finishName kind read
  | .text opened _ | .escape opened _ => .error ⟨opened, .openString⟩

theorem finishSettled (r : Reader) : r.finish = r.settle >>= complete := by
  obtain ⟨p, mode, openings, items, quoted⟩ := r
  cases mode <;> rfl

theorem settleNested (nested : Nested places outer below r r') :
    Alike (Blames places) (Nested places outer below) r.settle r'.settle := by
  obtain ⟨p, mode, openings, items, quoted⟩ := r
  obtain ⟨p', mode', openings', items', quoted'⟩ := r'
  unfold settle
  cases nested.mode with
  | between | comment => exact .ok nested
  | quote => exact failNested nested .bareQuote
  | sharp | name => exact finishNameNested nested _ _
  | text place | escape place => exact .error ⟨rfl, place⟩

theorem runAppend (r : Reader) (cs later : List Char) :
    r.run (cs ++ later) = r.run cs >>= fun r => r.run later := by
  induction cs generalizing r with
  | nil => rfl
  | cons c cs ih =>
    simp only [List.cons_append, run]
    cases r.step c with
    | error e => rfl
    | ok s => exact ih s

theorem runNested (move : ∀ p q c, places p q → places (p.after c) (q.after c))
    (nested : Nested places [] below r r') (cs : List Char) :
    Alike (Blames places) (Nested places [] below) (r.run cs) (r'.run cs) := by
  induction cs generalizing r r' with
  | nil => exact .ok nested
  | cons c cs ih =>
    cases stepNested move nested c with
    | inl alike => exact alike.bind fun _ _ same => ih same
    | inr left => obtain ⟨_, _, _, ⟨⟩⟩ := left

theorem completeNested (nested : Nested places [] below r r') :
    Alike (Blames places) (fun es fs => fs = below.reverse ++ es) r.complete r'.complete := by
  obtain ⟨p, mode, openings, items, quoted⟩ := r
  obtain ⟨p', mode', openings', items', quoted'⟩ := r'
  have levels := nested.levels
  have same : quoted = quoted' := nested.quoted
  subst same
  unfold complete
  simp only
  split
  · exact failNested nested .endOfInput
  cases levels with
  | ground => exact .ok List.reverse_append
  | inner place around => exact .error ⟨rfl, place⟩

theorem resultNested (move : ∀ p q c, places p q → places (p.after c) (q.after c))
    (nested : Nested places [] below r r') (cs : List Char) :
    Alike (Blames places) (fun es fs => fs = below.reverse ++ es)
      (r.result cs) (r'.result cs) := by
  refine (runNested move nested cs).bind ?_
  intro s s' same
  rw [finishSettled, finishSettled]
  exact (settleNested same).bind fun _ _ settled => completeNested settled

end Reader
end KeyForm
