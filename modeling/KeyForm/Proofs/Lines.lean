import Mathlib.Data.List.Induction
import KeyForm.Proofs.Nesting
/-! The lines of a text. A reader stands at the line and the column that the text before it
comes to, and a line break ends whatever it can end, so a text can be read up to a line break
and from there on by itself. -/
namespace KeyForm

def lastLine (cs : List Char) : List Char := (cs.reverse.takeWhile (· ≠ '\n')).reverse

theorem firstPast (cs : List Char) :
    Position.first.past cs = ⟨1 + cs.count '\n', 1 + (lastLine cs).length⟩ := by
  induction cs using List.reverseRecOn with
  | nil => rfl
  | append_singleton cs c ih =>
    have moved : Position.first.past (cs ++ [c]) = (Position.first.past cs).after c :=
      pastAppend ..
    rw [moved, ih, Position.after]
    split
    · next newline => simp [lastLine, newline, Nat.add_assoc]
    · next other =>
      simp [lastLine, other]
      omega

namespace Reader
variable {r s : Reader} {c : Char} {cs : List Char} {kind : NameKind} {read : List Char}

theorem beginPlace (begun : Begun r c s) : s.place = r.place := by
  cases begun <;> rfl

theorem finishNamePlace (finished : r.finishName kind read = .ok s) :
    s.place = r.place ∧ s.openings = r.openings := by
  unfold finishName at finished
  split at finished
  · cases finished
    exact ⟨rfl, rfl⟩
  · cases finished

inductive Took (r : Reader) (c : Char) : Reader → Prop where
  | begun {s : Reader} (begun : Begun r c s) : Took r c s
  | ended {kind : NameKind} {read : List Char} {named s : Reader}
      (finished : r.finishName kind read = .ok named) (begun : Begun named c s) : Took r c s
  | grown (kind : NameKind) (read : List Char) :
      Took r c { r with mode := .name kind (c :: read) }
  | function (sharp : r.mode = .sharp) (quote : c = '\'') :
      Took r c { r with mode := .name .function [] }
  | comment {mode : Mode} (outside : mode = .between ∨ mode = .comment) :
      Took r c { r with mode := mode }
  | closed (e : Element) : Took r c (r.add e)
  | text {opened : Position} {read longer : List Char} (inside : r.mode = .text opened read)
      (quote : c ≠ '"') (back : c ≠ '\\') : Took r c { r with mode := .text opened longer }
  | escape {opened : Position} {read : List Char} (inside : r.mode = .text opened read)
      (back : c = '\\') : Took r c { r with mode := .escape opened read }
  | escaped {opened : Position} {read longer : List Char}
      (inside : r.mode = .escape opened read) :
      Took r c { r with mode := .text opened longer }

theorem tookName (taken : r.takeName kind read c = .ok s) : Took r c s := by
  unfold takeName at taken
  split at taken
  · obtain ⟨named, finished, begun⟩ := okBind taken
    exact .ended finished (begunOf begun)
  · cases taken
    exact .grown kind read

theorem tookOf (taken : r.take c = .ok s) : Took r c s := by
  unfold take at taken
  split at taken
  case h_1 => exact .begun (begunOf taken)
  case h_2 =>
    cases taken
    refine .comment ?_
    split
    · exact .inl rfl
    · exact .inr rfl
  case h_3 =>
    split at taken
    · cases taken
    · exact .begun (begunOf taken)
  case h_4 sharp =>
    split at taken
    · next quote =>
      cases taken
      exact .function sharp quote
    · exact tookName taken
  case h_5 => exact tookName taken
  case h_6 inside =>
    split at taken
    · exact Except.ok.inj taken ▸ .closed _
    · exact Except.ok.inj taken ▸ .escape inside rfl
    · next quote back => exact Except.ok.inj taken ▸ .text inside quote back
  case h_7 inside => exact Except.ok.inj taken ▸ .escaped inside

theorem takePlace (taken : r.take c = .ok s) : s.place = r.place := by
  cases tookOf taken with
  | begun begun => exact beginPlace begun
  | ended finished begun => exact (beginPlace begun).trans (finishNamePlace finished).1
  | _ => rfl

theorem runPlace (ran : r.run cs = .ok s) : s.place = r.place.past cs := by
  induction cs generalizing r with
  | nil =>
    cases ran
    rfl
  | cons c cs ih =>
    obtain ⟨next, stepped, later⟩ := okBind ran
    obtain ⟨taken, took, moved⟩ := okBind stepped
    cases moved
    rw [ih later, takePlace took]
    rfl

theorem settlePlace (settled : r.settle = .ok s) :
    s.place = r.place ∧ s.openings = r.openings := by
  unfold settle at settled
  split at settled
  case h_1 | h_2 =>
    cases settled
    exact ⟨rfl, rfl⟩
  case h_4 | h_5 => exact finishNamePlace settled
  all_goals cases settled

theorem newlineSettles (settled : r.settle = .ok s) :
    r.take '\n' = .ok { s with mode := .between } := by
  have ends : isDelimiter '\n' = true := by decide
  have skipped (r : Reader) : r.begin '\n' = .ok { r with mode := .between } := rfl
  have named {kind : NameKind} {read : List Char} (finished : r.finishName kind read = .ok s) :
      r.takeName kind read '\n' = .ok { s with mode := .between } := by
    rw [takeName, if_pos ends, finished]
    exact skipped s
  unfold settle at settled
  split at settled
  case h_1 mode =>
    cases settled
    simp only [take, mode, skipped]
  case h_2 mode =>
    cases settled
    simp only [take, mode, if_true]
  case h_4 mode =>
    simp only [take, mode]
    exact named settled
  case h_5 mode =>
    simp only [take, mode]
    exact named settled
  all_goals cases settled

theorem newlineFails {e : ReadError} (failed : r.settle = .error e)
    (other : e.fault ≠ .openString) : r.take '\n' = .error e := by
  have ends : isDelimiter '\n' = true := by decide
  have named {kind : NameKind} {read : List Char}
      (failed : r.finishName kind read = .error e) :
      r.takeName kind read '\n' = .error e := by
    rw [takeName, if_pos ends, failed]
    rfl
  unfold settle at failed
  split at failed
  case h_3 mode =>
    simp only [take, mode]
    exact failed
  case h_4 mode =>
    simp only [take, mode]
    exact named failed
  case h_5 mode =>
    simp only [take, mode]
    exact named failed
  case h_6 | h_7 =>
    cases failed
    exact absurd rfl other
  all_goals cases failed

theorem completeSound {es : List Element} (done : r.complete = .ok es) :
    r.quoted = false ∧ r.openings = [] ∧ es = r.items.reverse := by
  unfold complete at done
  split at done
  · cases done
  · next unquoted =>
    split at done
    · next level =>
      cases done
      exact ⟨by simpa using unquoted, level, rfl⟩
    · cases done

theorem completeFails {e : ReadError} (failed : r.complete = .error e) :
    e = ⟨r.place, .endOfInput⟩ ∨
      ∃ o outer, r.openings = o :: outer ∧ r.quoted = false ∧
        e = ⟨o.place, .openSequence o.bracket⟩ := by
  unfold complete at failed
  split at failed
  · cases failed
    exact .inl rfl
  · next unquoted =>
    split at failed
    · cases failed
    · next o outer level =>
      cases failed
      exact .inr ⟨o, outer, level, by simpa using unquoted, rfl⟩

theorem lineEnds {es : List Element} (done : r.finish = .ok es) :
    r.step '\n' = .ok (ready ⟨r.place.line + 1, 1⟩ [] es.reverse) := by
  rw [finishSettled] at done
  obtain ⟨s, settled, complete⟩ := okBind done
  obtain ⟨unquoted, level, rfl⟩ := completeSound complete
  rw [step, newlineSettles settled, ← (settlePlace settled).1, List.reverse_reverse]
  obtain ⟨p, mode, openings, items, quoted⟩ := s
  cases unquoted
  cases level
  rfl

theorem lineFails {e : ReadError} (failed : r.finish = .error e)
    (string : e.fault ≠ .openString) (sequence : ∀ b, e.fault ≠ .openSequence b)
    (ended : e.fault ≠ .endOfInput) : r.step '\n' = .error e := by
  rw [finishSettled] at failed
  cases settled : r.settle with
  | error e' =>
    rw [settled] at failed
    cases failed
    rw [step, newlineFails settled string]
    rfl
  | ok s =>
    rw [settled] at failed
    obtain rfl | ⟨o, _, _, _, rfl⟩ := completeFails failed
    · exact absurd rfl ended
    · exact absurd rfl (sequence o.bracket)

def Lower (lines : Nat) (p q : Position) : Prop := q = ⟨p.line + lines, p.column⟩

theorem lowerAfter (lines : Nat) (p q : Position) (c : Char) (lower : Lower lines p q) :
    Lower lines (p.after c) (q.after c) := by
  cases lower
  unfold Lower Position.after
  split
  · simp only [Nat.add_right_comm]
  · rfl

theorem joinedResult (r : Reader) (cs later : List Char) :
    r.result (cs ++ '\n' :: later) =
      r.run cs >>= fun ended => ended.step '\n' >>= fun next => next.result later := by
  rw [result, runAppend]
  cases r.run cs with
  | error e => rfl
  | ok ended =>
    simp only [bind, Except.bind, run]
    cases ended.step '\n' with
    | error e => rfl
    | ok next => rfl

theorem lineTaken {es : List Element} (later : List Char) (read : start.result cs = .ok es) :
    Alike (Blames (Lower (cs.count '\n' + 1))) (fun fs gs => gs = es ++ fs)
      (start.result later) (start.result (cs ++ '\n' :: later)) := by
  obtain ⟨ended, ran, done⟩ := okBind read
  have line : ended.place.line = 1 + cs.count '\n' := by
    rw [runPlace ran]
    exact congrArg Position.line (firstPast cs)
  have broken : start.result (cs ++ '\n' :: later) =
      (ready ⟨1 + (cs.count '\n' + 1), 1⟩ [] es.reverse).result later := by
    rw [joinedResult, ran]
    simp only [bind, Except.bind]
    rw [lineEnds done, line, Nat.add_assoc]
  have nested : Nested (Lower (cs.count '\n' + 1)) [] es.reverse start
      (ready ⟨1 + (cs.count '\n' + 1), 1⟩ [] es.reverse) := startNested rfl
  have alike := resultNested (lowerAfter _) nested later
  rw [List.reverse_reverse] at alike
  rwa [broken]

theorem lineRefused {e : ReadError} (later : List Char) (read : start.result cs = .error e)
    (string : e.fault ≠ .openString) (sequence : ∀ b, e.fault ≠ .openSequence b)
    (ended : e.fault ≠ .endOfInput) : start.result (cs ++ '\n' :: later) = .error e := by
  unfold result at read
  rw [joinedResult]
  cases ran : start.run cs with
  | error e' =>
    rw [ran] at read
    cases read
    rfl
  | ok r =>
    rw [ran] at read
    simp only [bind, Except.bind] at read ⊢
    rw [lineFails read string sequence ended]

end Reader

def endMessages : List String :=
  ["unterminated string", "unterminated sequence, expected ')'",
    "unterminated sequence, expected ']'", "unexpected end of input"]

theorem endFaults {fault : ReadFault} (other : fault.message ∉ endMessages) :
    fault ≠ .openString ∧ (∀ b, fault ≠ .openSequence b) ∧ fault ≠ .endOfInput := by
  refine ⟨?_, ?_, ?_⟩
  · intro same
    subst same
    exact other (by decide)
  · intro b same
    subst same
    cases b <;> exact other (by decide)
  · intro same
    subst same
    exact other (by decide)

theorem linesReadApart (a b : String) :
    (∀ es fs, readForm a = .ok es → readForm b = .ok fs →
      readForm (a ++ "\n" ++ b) = .ok (es ++ fs)) ∧
    (∀ es e, readForm a = .ok es → readForm b = .error e →
      readForm (a ++ "\n" ++ b) =
        .error ⟨⟨e.place.line + (a.toList.count '\n' + 1), e.place.column⟩, e.fault⟩) ∧
    (∀ e, readForm a = .error e → e.fault.message ∉ endMessages →
      readForm (a ++ "\n" ++ b) = .error e) := by
  have joined : (a ++ "\n" ++ b).toList = a.toList ++ '\n' :: b.toList := by
    simp [String.toList_append]
  simp only [Reader.readFormResult, joined]
  refine ⟨?_, ?_, ?_⟩
  · intro es fs first later
    have alike := Reader.lineTaken b.toList first
    rw [later] at alike
    obtain ⟨gs, read, rfl⟩ := alike.ofOk
    exact read
  · intro es e first failed
    have alike := Reader.lineTaken b.toList first
    rw [failed] at alike
    obtain ⟨⟨place, fault⟩, read, same, lower⟩ := alike.ofError
    cases same
    cases lower
    exact read
  · intro e failed other
    obtain ⟨string, sequence, ended⟩ := endFaults other
    exact Reader.lineRefused b.toList failed string sequence ended

theorem commentBroken :
    readForm ("a ;b" ++ "\n" ++ "c") = .ok ([.symbol "a"] ++ [.symbol "c"]) ∧
    readForm ("a ;b" ++ "\n" ++ "c\n (d") = .error ⟨⟨3, 2⟩, .openSequence .round⟩ ∧
    readForm ("[' e]" ++ "\n" ++ "c") = .error ⟨⟨1, 3⟩, .bareQuote⟩ := by
  refine ⟨?_, ?_, ?_⟩
  · exact (linesReadApart "a ;b" "c").1 _ _ rfl rfl
  · exact (linesReadApart "a ;b" "c\n (d").2.1 _ _ rfl rfl
  · exact (linesReadApart "[' e]" "c").2.2 _ rfl (by decide)

end KeyForm
