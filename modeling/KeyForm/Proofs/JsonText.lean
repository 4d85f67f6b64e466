import KeyForm.Proofs.JsonGrammar
/-! A reader of JSON text that keeps to a limit. It reads every document as the grammar derives it,
with more fuel than the text has characters, so a text has one value at most. -/
namespace KeyForm.Json
variable {c : Char} {cs text rest : List Char} {fuel : Nat}

theorem unitRead (c : Char) : unitChar? c.toNat = some c := by
  have valid : c.toNat.isValidChar := c.valid
  rw [unitChar?, dif_pos valid]
  rfl

theorem surrogateUnread {unit : Nat} (surrogate : 0xd800 ≤ unit ∧ unit < 0xe000) :
    unitChar? unit = none := by
  refine dif_neg fun valid => ?_
  rcases valid with below | ⟨above, -⟩
  · omega
  · omega

theorem pairRead {first second : Nat} (upper : 0xd800 ≤ first ∧ first < 0xdc00)
    (lower : 0xdc00 ≤ second ∧ second < 0xe000)
    (number : c.toNat = 0x10000 + (first - 0xd800) * 0x400 + (second - 0xdc00)) :
    pairChar? first second = some c := by
  rw [pairChar?, if_pos ⟨upper.1, upper.2, lower⟩, ← number, unitRead]

theorem plainRead (visible : 0x20 ≤ c.toNat) (quote : c ≠ '"') (back : c ≠ '\\') :
    readString (c :: cs) = (do let r ← readString cs; some (c :: r.1, r.2)) := by
  rw [readString]
  · simp [Nat.not_lt.mpr visible, back]
  · exact quote
  · intro _ _ _ _ _ same
    exact absurd same back
  · exact fun _ _ same => absurd same back

theorem insideRead (inside : Inside cs text rest) : readString cs = some (text, rest) := by
  induction inside with
  | closed => rfl
  | plain visible quote back tail ih => rw [plainRead visible quote back, ih]; rfl
  | short form tail ih =>
    simp only [shortForms, List.mem_cons, Prod.mk.injEq, List.not_mem_nil, or_false] at form
    rcases form with form | form | form | form | form | form | form | form
    all_goals
      obtain ⟨rfl, rfl⟩ := form
      simp [readString, shortEscape?, ih]
  | unit number tail ih => simp [readString, number, unitRead, ih]
  | pair high upper low lower number tail ih =>
    have unread := surrogateUnread ⟨upper.1, Nat.lt_trans upper.2 (by decide)⟩
    simp [readString, high, unread, low, pairRead upper lower number, ih]

theorem spaceSkipped (space : Space cs rest) : skipSpace cs = skipSpace rest := by
  induction space with
  | none => rfl
  | more blank tail ih => rw [← ih, skipSpace, List.dropWhile_cons_of_pos blank]; rfl

theorem skipStays (stays : isSpace c = false) : skipSpace (c :: cs) = c :: cs := by
  rw [skipSpace, List.dropWhile_cons_of_neg (by simp [stays])]

theorem spaceReaches (space : Space cs (c :: rest)) (stays : isSpace c = false) :
    skipSpace cs = c :: rest := by
  rw [spaceSkipped space, skipStays stays]

theorem valueBegins {v : Json} (value : Value cs v rest) :
    ∃ c tail, cs = c :: tail ∧ isSpace c = false ∧ c ≠ ']' := by
  cases value with
  | null | yes | no | string | noItems | items | noMembers | members =>
    exact ⟨_, _, rfl, by decide⟩

theorem valueSkips (space : Space cs rest) : readValue fuel cs = readValue fuel rest := by
  cases fuel with
  | zero => rfl
  | succ fuel => simp only [readValue, spaceSkipped space]

theorem Space.shorter (space : Space cs rest) : rest.length ≤ cs.length := by
  induction space with
  | none => exact Nat.le_refl _
  | more _ _ ih => exact Nat.le_succ_of_le ih

theorem Inside.shorter (inside : Inside cs text rest) : rest.length < cs.length := by
  induction inside with
  | closed => exact Nat.lt_succ_self _
  | plain | short | unit | pair => simp only [List.length_cons]; omega

mutual

theorem Value.shorter {cs rest : List Char} {v : Json} :
    Value cs v rest → rest.length < cs.length
  | .null | .yes | .no => by simp only [List.length_cons]; omega
  | .string inside => by
    have text := inside.shorter
    simp only [List.length_cons]
    omega
  | .noItems space | .noMembers space => by
    have blank := space.shorter
    simp only [List.length_cons] at blank ⊢
    omega
  | .items first more => by
    have item := first.shorter
    have later := more.shorter
    simp only [List.length_cons]
    omega
  | .members first more => by
    have member := first.shorter
    have later := more.shorter
    simp only [List.length_cons]
    omega

theorem Item.shorter {cs rest : List Char} {v : Json} : Item cs v rest → rest.length < cs.length
  | .mk before value behind => by
    have left := before.shorter
    have here := value.shorter
    have right := behind.shorter
    omega

theorem Items.shorter {cs rest : List Char} {vs : List Json} :
    Items cs vs rest → rest.length < cs.length
  | .closed => by simp
  | .more next more => by
    have item := next.shorter
    have later := more.shorter
    simp only [List.length_cons]
    omega

theorem Member.shorter {cs rest : List Char} {m : String × Json} :
    Member cs m rest → rest.length < cs.length
  | .mk before name between value => by
    have left := before.shorter
    have text := name.shorter
    have colon := between.shorter
    have item := value.shorter
    simp only [List.length_cons] at left colon
    omega

theorem Members.shorter {cs rest : List Char} {ms : List (String × Json)} :
    Members cs ms rest → rest.length < cs.length
  | .closed => by simp
  | .more next more => by
    have member := next.shorter
    have later := more.shorter
    simp only [List.length_cons]
    omega

end

-- A value is read up to its last character; what comes after it skips the space that follows.
mutual

theorem valueRead {cs rest : List Char} {v : Json} :
    (fuel : Nat) → Value cs v rest → cs.length < fuel → readValue fuel cs = some (v, rest)
  | _ + 1, .null, _ | _ + 1, .yes, _ | _ + 1, .no, _ => rfl
  | _ + 1, .string inside, _ => by simp [readValue, skipStays, isSpace, insideRead inside]
  | _ + 1, .noItems space, _ | _ + 1, .noMembers space, _ => by
    simp [readValue, skipStays, isSpace, spaceReaches space]
  | fuel + 1, .items ⟨before, value, behind⟩ more, enough => by
    have start := before.shorter
    have left := value.shorter
    simp only [List.length_cons] at enough
    have head := valueRead fuel value (by omega)
    have tail := itemsRead fuel more behind (by omega)
    obtain ⟨c, later, rfl, stays, other⟩ := valueBegins value
    simp [readValue, skipStays, isSpace, spaceReaches before stays, other, head, tail]
  | fuel + 1, .members ⟨before, name, between, item⟩ more, enough => by
    have start := before.shorter
    simp only [List.length_cons] at enough start
    obtain ⟨after, head, behind, left⟩ :=
      memberRead fuel ⟨.none, name, between, item⟩ (by simp only [List.length_cons]; omega)
    simp only [List.length_cons] at left
    have tail := membersRead fuel more behind (by omega)
    simp [readValue, skipStays, isSpace, spaceReaches before, head, tail]

theorem itemsRead {cs rest before : List Char} {vs : List Json} :
    (fuel : Nat) → Items cs vs rest → Space before cs → before.length < fuel →
      readItems fuel before = some (vs, rest)
  | _ + 1, .closed, space, _ => by simp [readItems, spaceReaches space, isSpace]
  | fuel + 1, .more ⟨before, value, behind⟩ more, space, enough => by
    have start := space.shorter
    have blank := before.shorter
    have left := value.shorter
    simp only [List.length_cons] at start
    have head := (valueSkips before).trans (valueRead fuel value (by omega))
    have tail := itemsRead fuel more behind (by omega)
    simp [readItems, spaceReaches space, isSpace, head, tail]

theorem memberRead {cs rest : List Char} {m : String × Json} :
    (fuel : Nat) → Member cs m rest → cs.length < fuel →
      ∃ after, readMember fuel cs = some (m, after) ∧ Space after rest ∧ after.length < cs.length
  | fuel + 1, ⟨before, name, between, ⟨space, value, behind⟩⟩, enough => by
    have start := before.shorter
    have text := name.shorter
    have colon := between.shorter
    have blank := space.shorter
    have left := value.shorter
    simp only [List.length_cons] at start colon
    have head := (valueSkips space).trans (valueRead fuel value (by omega))
    refine ⟨_, ?_, behind, by omega⟩
    simp [readMember, spaceReaches before, spaceReaches between, isSpace, insideRead name, head]

theorem membersRead {cs rest before : List Char} {ms : List (String × Json)} :
    (fuel : Nat) → Members cs ms rest → Space before cs → before.length < fuel →
      readMembers fuel before = some (ms, rest)
  | _ + 1, .closed, space, _ => by simp [readMembers, spaceReaches space, isSpace]
  | fuel + 1, .more next more, space, enough => by
    have start := space.shorter
    simp only [List.length_cons] at start
    obtain ⟨after, head, behind, left⟩ := memberRead fuel next (by omega)
    have tail := membersRead fuel more behind (by omega)
    simp [readMembers, spaceReaches space, isSpace, head, tail]

end

theorem documentRead {v : Json} {source : String} (document : Document v source) :
    parse? source = some v := by
  obtain ⟨before, value, behind⟩ := document
  have start := before.shorter
  have head := (valueSkips before).trans
    (valueRead (2 * source.toList.length + 1) value (by omega))
  simp only [parse?, head, spaceSkipped behind, Option.bind_eq_bind, Option.bind_some]
  rfl

theorem documentUnique {v w : Json} {source : String} (first : Document v source)
    (second : Document w source) : v = w :=
  Option.some.inj ((documentRead first).symm.trans (documentRead second))

def readWithin (limit : Option Nat) (source : String) : Option Json :=
  (parse? source).filter fun v => v.Within limit

theorem readsWithin (limit : Option Nat) : Reads (readWithin limit) limit where
  within document allowed := by
    rw [readWithin, documentRead document, Option.filter_some, if_pos (by simpa using allowed)]
  beyond document refused := by
    rw [readWithin, documentRead document, Option.filter_some, if_neg (by simpa using refused)]

end KeyForm.Json
