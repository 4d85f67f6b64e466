import KeyForm.Form.Reader
/-! What the reader makes of a name, a string and a bracket, whatever follows it. A name
has no end of its own: it ends with the text or at the first delimiter, which is then
taken as if the name had been complete before. -/
namespace KeyForm

def Position.past (p : Position) (cs : List Char) : Position := cs.foldl Position.after p

theorem pastAppend (p : Position) (first later : List Char) :
    p.past (first ++ later) = (p.past first).past later := List.foldl_append

def Stops (rest : List Char) : Prop := ∀ c ∈ rest.head?, isDelimiter c = true

namespace Reader

def result (r : Reader) (cs : List Char) : Except ReadError (List Element) := do
  (← r.run cs).finish

theorem readFormResult (source : String) : readForm source = start.result source.toList := rfl

abbrev ready (p : Position) (openings : List Opening) (items : List Element) : Reader :=
  ⟨p, .between, openings, items, false⟩

variable {p : Position} {openings : List Opening} {items : List Element} {quoted : Bool}
variable {c : Char} {cs rest : List Char} {mode mode' : Mode}

theorem resultNil (r : Reader) : r.result [] = r.finish := rfl

theorem resultTake {r r' : Reader} (taken : r.take c = .ok r') :
    r.result (c :: cs) = { r' with place := r'.place.after c }.result cs := by
  simp only [result, run, step, taken]
  rfl

theorem plainBegins (plain : isDelimiter c = false) (quote : c ≠ '\'') (sharp : c ≠ '#')
    (colon : c ≠ ':') (r : Reader) : r.begin c = .ok { r with mode := .name .plain [c] } := by
  simp only [isDelimiter, Bool.or_eq_false_iff, beq_eq_false_iff_ne] at plain
  obtain ⟨⟨⟨⟨⟨⟨blank, h1⟩, h2⟩, h3⟩, h4⟩, h5⟩, h6⟩ := plain
  unfold begin
  rw [blank]
  simp only [Bool.false_eq_true, if_false]

theorem nameGrows {kind : NameKind} {read : List Char}
    (plain : ∀ c ∈ cs, isDelimiter c = false) :
    result ⟨p, .name kind read, openings, items, quoted⟩ (cs ++ rest) =
      result ⟨p.past cs, .name kind (cs.reverse ++ read), openings, items, quoted⟩ rest := by
  induction cs generalizing p read with
  | nil => rfl
  | cons c cs ih =>
    have taken : take ⟨p, .name kind read, openings, items, quoted⟩ c =
        .ok ⟨p, .name kind (c :: read), openings, items, quoted⟩ := by
      simp [take, takeName, plain c (by simp)]
    rw [List.cons_append, resultTake taken, ih fun c mem => plain c (by simp [mem])]
    simp [Position.past]

theorem nameEnds {kind : NameKind} {read : List Char} {e : Element} (stops : Stops rest)
    (named : kind.element read.reverse = .ok e) :
    result ⟨p, .name kind read, openings, items, quoted⟩ rest =
      (ready p openings (e :: items)).result rest := by
  have finished : finishName ⟨p, .name kind read, openings, items, quoted⟩ kind read =
      .ok (ready p openings (e :: items)) := by
    simp [finishName, named, add, ready]
  cases rest with
  | nil =>
    simp only [resultNil, finish, finished]
    rfl
  | cons c rest =>
    have delimiter : isDelimiter c = true := stops c (by simp)
    have taken : take ⟨p, .name kind read, openings, items, quoted⟩ c =
        (ready p openings (e :: items)).take c := by
      simp only [take, takeName, delimiter, finished]
      rfl
    simp only [result, run, step, taken]

theorem nameRead {kind : NameKind} {read : List Char} {e : Element} (stops : Stops rest)
    (plain : ∀ c ∈ cs, isDelimiter c = false)
    (named : kind.element (read.reverse ++ cs) = .ok e) :
    result ⟨p, .name kind read, openings, items, quoted⟩ (cs ++ rest) =
      (ready (p.past cs) openings (e :: items)).result rest := by
  rw [nameGrows plain]
  exact nameEnds stops (by simpa using named)

theorem sharpPlain (other : ∀ c ∈ rest.head?, c ≠ '\'') :
    result ⟨p, .sharp, openings, items, quoted⟩ rest =
      result ⟨p, .name .plain ['#'], openings, items, quoted⟩ rest := by
  cases rest with
  | nil => rfl
  | cons c rest =>
    have taken : take ⟨p, .sharp, openings, items, quoted⟩ c =
        take ⟨p, .name .plain ['#'], openings, items, quoted⟩ c := by
      simp only [take, if_neg (other c (by simp)), takeName]
      rfl
    simp only [result, run, step, taken]

theorem textEscape {opened : Position} {read : List Char} (c : Char) :
    result ⟨p, .text opened read, openings, items, quoted⟩ ('\\' :: c :: rest) =
      result ⟨p.past ['\\', c], .text opened (unescape c :: read), openings, items, quoted⟩
        rest := rfl

theorem textGrows {opened : Position} {read : List Char} (quote : c ≠ '"') (back : c ≠ '\\') :
    result ⟨p, .text opened read, openings, items, quoted⟩ (c :: rest) =
      result ⟨p.after c, .text opened (c :: read), openings, items, quoted⟩ rest := by
  have taken : take ⟨p, .text opened read, openings, items, quoted⟩ c =
      .ok ⟨p, .text opened (c :: read), openings, items, quoted⟩ := by
    simp only [take]
  exact resultTake taken

theorem textRead {opened : Position} {read : List Char} (text : List Char) :
    result ⟨p, .text opened read, openings, items, quoted⟩
        (Element.escaped text ++ '"' :: rest) =
      (ready (p.past (Element.escaped text ++ ['"'])) openings
        (.str (String.ofList (read.reverse ++ text)) :: items)).result rest := by
  fun_induction Element.escaped text generalizing p read with
  | case1 => simp; rfl
  | case2 cs ih | case3 cs ih | case4 cs ih | case5 cs ih =>
    simp only [List.cons_append]
    rw [textEscape, ih]
    simp [Position.past, unescape]
  | case6 c cs quote back feed tab ih =>
    simp only [List.cons_append]
    rw [textGrows quote back, ih]
    simp [Position.past]

theorem opened (b : Bracket) :
    result ⟨p, .between, openings, items, quoted⟩ (b.opener :: rest) =
      (ready (p.after b.opener) (⟨b, p, items⟩ :: openings) []).result rest := by
  cases b <;> rfl

theorem closed (b : Bracket) (place : Position) (before : List Element) :
    (ready p (⟨b, place, before⟩ :: openings) items).result (b.closer :: rest) =
      (ready (p.after b.closer) openings (b.wrap items.reverse :: before)).result rest := by
  cases b <;> rfl

theorem blankSkipped (blank : isBlank c = true) :
    result ⟨p, .between, openings, items, quoted⟩ (c :: rest) =
      result ⟨p.after c, .between, openings, items, quoted⟩ rest := by
  have taken : take ⟨p, .between, openings, items, quoted⟩ c =
      .ok ⟨p, .between, openings, items, quoted⟩ := by
    simp [take, begin, blank]
  exact resultTake taken

theorem completed : (ready p [] items).result [] = .ok items.reverse := rfl

end Reader
end KeyForm
