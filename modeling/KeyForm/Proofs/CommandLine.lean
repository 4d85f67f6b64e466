import KeyForm.Program.Arguments
import KeyForm.Proofs.Outcome
/-! The command line as a list of what it says: flags, options with their values, and files. An
option has its value with it or in the argument after it, and all arguments after two hyphens are
files. Arguments are accepted exactly if they say something that way and the things said, one
after another, are accepted. -/
namespace KeyForm

inductive Mention where
  | switch (on : Bool)
  | bind
  | value (slot : ValueSlot) (text : String)
  deriving DecidableEq, Repr

def Mention.word? : Mention → Option String
  | .switch true => some "--heuristic"
  | .switch false => some "--no-heuristic"
  | .bind => some "--bind"
  | .value _ _ => none

def ValueSlot.word? : ValueSlot → Option String
  | .clearPolicy => some "--clear-policy"
  | .format => some "--format"
  | .config => some "--config"
  | .file => none

def Free (text : String) : Prop := text = "-" ∨ text.toList.head? ≠ some '-'

instance (text : String) : Decidable (Free text) := inferInstanceAs (Decidable (_ ∨ _))

theorem Free.apart {text : String} (free : Free text) : text ≠ "--" := by
  rintro rfl
  exact absurd free (by decide)

/-- What arguments say, in the order in which they say it. -/
inductive CommandLine : List String → List Mention → Prop where
  | done : CommandLine [] []
  | files (paths : List String) : CommandLine ("--" :: paths) (paths.map (.value .file))
  | flag {m word rest ms} (named : m.word? = some word) (later : CommandLine rest ms) :
      CommandLine (word :: rest) (m :: ms)
  | apart {slot word text rest ms} (named : slot.word? = some word) (free : Free text)
      (later : CommandLine rest ms) : CommandLine (word :: text :: rest) (.value slot text :: ms)
  | joined {slot word text rest ms} (named : slot.word? = some word)
      (later : CommandLine rest ms) :
      CommandLine ((word ++ "=" ++ text) :: rest) (.value slot text :: ms)
  | file {path rest ms} (free : Free path) (later : CommandLine rest ms) :
      CommandLine (path :: rest) (.value .file path :: ms)

namespace Arguments

def mention (a : Arguments) : Mention → Except ArgumentFault Arguments
  | .switch true => a.set .heuristic
  | .switch false => a.set .noHeuristic
  | .bind => a.set .bind
  | .value slot text => a.fill slot text

def mentionAll (a : Arguments) (ms : List Mention) : Except ArgumentFault Arguments :=
  ms.foldlM mention a

namespace Progress
variable {p s q : Progress} {a b : Arguments}

theorem longTaken {argument : String} {cs : List Char} (long : argument.toList = '-' :: '-' :: cs)
    (p : Progress) : p.take argument = p.takeLong (splitLong cs).1 (splitLong cs).2 := by
  simp only [take, long]

theorem splitJoined {name : List Char} (plain : ∀ c ∈ name, c ≠ '=') (value : List Char) :
    splitLong (name ++ '=' :: value) = (String.ofList name, some (String.ofList value)) := by
  have all : ∀ c ∈ name, (c != '=') = true := by simpa using plain
  simp [splitLong, List.takeWhile_append_of_pos all, List.dropWhile_append_of_pos all]

theorem flagTaken {m : Mention} {word : String} (named : m.word? = some word) (p : Progress) :
    p.take word = p.settle >>= fun s => s.settled.mention m >>= fun a =>
      .ok { s with settled := a } := by
  match m, named with
  | .switch true, rfl | .switch false, rfl | .bind, rfl => rfl

theorem wordTaken {slot : ValueSlot} {word : String} (named : slot.word? = some word)
    (p : Progress) :
    p.take word = p.settle >>= fun s => .ok { s with pending := some (slot, .none) } := by
  match slot, named with
  | .clearPolicy, rfl | .format, rfl | .config, rfl => rfl

theorem joinedTaken {slot : ValueSlot} {word : String} (named : slot.word? = some word)
    (text : String) (p : Progress) :
    p.take (word ++ "=" ++ text) = p.settle >>= fun s => s.settled.fill slot text >>= fun a =>
      .ok { s with settled := a } := by
  have split (name : List Char) (plain : ∀ c ∈ name, c ≠ '=')
      (long : word.toList = '-' :: '-' :: name) :
      p.take (word ++ "=" ++ text) = p.takeLong (String.ofList name) (some text) := by
    have whole : (word ++ "=" ++ text).toList = '-' :: '-' :: (name ++ '=' :: text.toList) := by
      simp [long]
    rw [longTaken whole, splitJoined plain, String.ofList_toList]
  match slot, named with
  | .clearPolicy, rfl => exact split "clear-policy".toList (by simp) rfl
  | .format, rfl => exact split "format".toList (by simp) rfl
  | .config, rfl => exact split "config".toList (by simp) rfl

theorem freeTaken {text : String} (free : Free text) (p : Progress) :
    p.take text = p.takeValue text := by
  unfold take
  split
  · next long =>
    rcases free with rfl | other
    · cases long
    · simp [long] at other
  · next short =>
    rcases free with rfl | other
    · cases short
    · simp [short] at other
  · rfl

theorem runTakes {argument : String} (other : argument ≠ "--") (rest : List String)
    (p : Progress) : p.run (argument :: rest) = p.take argument >>= fun p => p.run rest := by
  rw [run]
  exact other

def attached (value : Option String) : String := value.elim "" ("=" ++ ·)

theorem splitWhole (cs : List Char) :
    cs = (splitLong cs).1.toList ++ (attached (splitLong cs).2).toList := by
  have parts := List.takeWhile_append_dropWhile (p := (· != '=')) (l := cs)
  unfold splitLong
  split
  · next ended =>
    rw [ended] at parts
    simpa [attached] using parts.symm
  · next sign value begun =>
    have equals := List.head?_dropWhile_not (· != '=') cs
    rw [begun] at parts equals
    obtain rfl : sign = '=' := by simpa using equals
    simpa [attached] using parts.symm

inductive Took (p : Progress) : String → Option (ValueSlot × Option String) → Prop where
  | value {slot : ValueSlot} {text : String} (awaits : p.pending = some (slot, .none))
      (free : Free text) : Took p text (some (slot, some text))
  | file {s : Progress} {path : String} (now : p.settle = .ok s) (free : Free path) :
      Took p path (some (.file, some path))
  | word {s : Progress} {slot : ValueSlot} {word : String} (now : p.settle = .ok s)
      (named : slot.word? = some word) : Took p word (some (slot, .none))
  | joined {s : Progress} {slot : ValueSlot} {word text : String} (now : p.settle = .ok s)
      (named : slot.word? = some word) : Took p (word ++ "=" ++ text) .none
  | flag {s : Progress} {m : Mention} {word : String} (now : p.settle = .ok s)
      (named : m.word? = some word) : Took p word .none

theorem settleClears (now : p.settle = .ok s) : s.pending = .none ∧ s.hasFile = p.hasFile := by
  unfold settle at now
  split at now
  · next clear =>
    cases now
    exact ⟨clear, rfl⟩
  · cases now
  · obtain ⟨a, -, done⟩ := okBind now
    cases done
    exact ⟨rfl, rfl⟩

theorem settleDone (clear : s.pending = .none) : s.settle = .ok s := by
  simp only [settle, clear]

theorem slotWord {name : String} {slot : ValueSlot} (known : slot? name = some slot) :
    slot.word? = some ("--" ++ name) := by
  unfold slot? at known
  split at known
  all_goals
    cases known
  all_goals rfl

theorem flagWord {name : String} {flag : Flag} (known : flag? name = some flag)
    (given : a.set flag = .ok b) : ∃ m : Mention, m.word? = some ("--" ++ name) := by
  unfold flag? at known
  split at known
  all_goals
    cases known
  · exact ⟨.switch true, rfl⟩
  · exact ⟨.switch false, rfl⟩
  · exact ⟨.bind, rfl⟩
  · cases given
  · cases given

theorem longTook {p' : Progress} {name : String} {value : Option String}
    (taken : p.takeLong name value = .ok p') :
    Took p ("--" ++ name ++ attached value) p'.pending := by
  unfold takeLong at taken
  split at taken
  · next slot _ text known =>
    obtain ⟨s, now, taken⟩ := okBind taken
    obtain ⟨a, -, done⟩ := okBind taken
    cases done
    simp only [attached, Option.elim, ← String.append_assoc, (settleClears now).1]
    exact .joined now (slotWord known)
  · next slot _ known =>
    obtain ⟨s, now, done⟩ := okBind taken
    cases done
    simpa [attached] using Took.word now (slotWord known)
  · cases taken
  · next flag _ known =>
    obtain ⟨s, now, taken⟩ := okBind taken
    obtain ⟨a, given, done⟩ := okBind taken
    cases done
    obtain ⟨m, named⟩ := flagWord known given
    simpa [attached, (settleClears now).1] using Took.flag now named
  · cases taken

theorem took {p' : Progress} {argument : String} (taken : p.take argument = .ok p') :
    Took p argument p'.pending := by
  unfold take at taken
  split at taken
  · next cs long =>
    have text : argument = "--" ++ (splitLong cs).1 ++ attached (splitLong cs).2 := by
      apply String.toList_injective
      rw [long]
      simpa using splitWhole cs
    rw [text]
    exact longTook taken
  · next letter cs _ short =>
    unfold takeShort at taken
    split at taken
    · obtain ⟨s, -, taken⟩ := okBind taken
      cases taken
    · obtain ⟨s, -, taken⟩ := okBind taken
      cases taken
    · cases taken
  · next long short =>
    have free : Free argument := by
      refine Decidable.or_iff_not_imp_left.mpr fun other sign => ?_
      obtain ⟨cs, text⟩ := List.head?_eq_some_iff.mp sign
      cases cs with
      | nil => exact other (String.toList_injective text)
      | cons letter tail => exact short letter tail text
    unfold takeValue at taken
    split at taken
    · next slot awaits =>
      cases taken
      exact .value awaits free
    · unfold takeFile at taken
      split at taken
      · cases taken
      · obtain ⟨s, now, done⟩ := okBind taken
        cases done
        exact .file now free

def Reads : Option (ValueSlot × Option String) → List String → Prop
  | some (_, .none), arguments =>
    ∃ text rest ms, arguments = text :: rest ∧ Free text ∧ CommandLine rest ms
  | _, arguments => ∃ ms, CommandLine arguments ms

theorem settledReads {arguments : List String} {ms : List Mention} (now : p.settle = .ok s)
    (line : CommandLine arguments ms) : Reads p.pending arguments := by
  unfold settle at now
  split at now
  · next clear => exact clear ▸ ⟨ms, line⟩
  · cases now
  · next waits => exact waits ▸ ⟨ms, line⟩

theorem filesSettle {paths : List String} (ran : paths.foldlM takeFile p >>= settle = .ok q) :
    ∃ s, p.settle = .ok s := by
  cases paths with
  | nil => exact ⟨q, ran⟩
  | cons path rest =>
    obtain ⟨r, taken, -⟩ := okBind ran
    obtain ⟨p', taken, -⟩ := okBind taken
    unfold takeFile at taken
    split at taken
    · cases taken
    · obtain ⟨s, now, -⟩ := okBind taken
      exact ⟨s, now⟩

theorem runReads {arguments : List String} (ran : p.run arguments = .ok q) :
    Reads p.pending arguments := by
  induction arguments generalizing p with
  | nil => exact settledReads ran .done
  | cons argument rest ih =>
    by_cases ends : argument = "--"
    · subst ends
      obtain ⟨s, now⟩ := filesSettle ran
      exact settledReads now (.files rest)
    · rw [runTakes ends] at ran
      obtain ⟨p', taken, ran⟩ := okBind ran
      -- The rest says something after what this argument leaves pending.
      have later := ih ran
      have told := took taken
      generalize p'.pending = pending at later told
      cases told with
      | value awaits free =>
        obtain ⟨ms, line⟩ := later
        exact awaits ▸ ⟨_, _, ms, rfl, free, line⟩
      | file now free =>
        obtain ⟨ms, line⟩ := later
        exact settledReads now (.file free line)
      | word now named =>
        obtain ⟨text, rest, ms, rfl, free, line⟩ := later
        exact settledReads now (.apart named free line)
      | joined now named =>
        obtain ⟨ms, line⟩ := later
        exact settledReads now (.joined named line)
      | flag now named =>
        obtain ⟨ms, line⟩ := later
        exact settledReads now (.flag named line)

def Ends (a : Arguments) (x : Except ArgumentFault Progress) : Prop :=
  ∃ q, x = .ok q ∧ q.settled = a

theorem endsNot {fault : ArgumentFault} : ¬ Ends a (.error fault) := by
  rintro ⟨q, ran, -⟩
  cases ran

def Open (p : Progress) : Prop :=
  (∃ slot, p.pending = some (slot, .none)) ∨ ∃ s, p.settle = .ok s

theorem runOpen {arguments : List String} (ran : p.run arguments = .ok q) : p.Open := by
  cases arguments with
  | nil => exact .inr ⟨q, ran⟩
  | cons argument rest =>
    by_cases ends : argument = "--"
    · subst ends
      exact .inr (filesSettle ran)
    · rw [runTakes ends] at ran
      obtain ⟨p', taken, -⟩ := okBind ran
      have told := took taken
      generalize p'.pending = pending at told
      cases told with
      | value awaits => exact .inl ⟨_, awaits⟩
      | file now | word now | joined now | flag now => exact .inr ⟨_, now⟩

def Filed (p : Progress) : Prop :=
  p.hasFile = true → p.settled.file.isSome = true ∨ ∃ text, p.pending = some (.file, some text)

theorem fillKeeps {slot : ValueSlot} {text : String} (filled : a.fill slot text = .ok b) :
    (slot = .file ∨ a.file.isSome = true) → b.file.isSome = true := by
  unfold fill at filled
  split at filled
  · cases filled
  · cases slot
    all_goals
      simp only at filled
      split at filled
      all_goals
        cases filled
    all_goals simp

theorem mentionKeeps {m : Mention} (given : a.mention m = .ok b) (filed : a.file.isSome = true) :
    b.file.isSome = true := by
  match m with
  | .value _ _ => exact fillKeeps given (.inr filed)
  | .switch true | .switch false | .bind =>
    simp only [mention, set] at given
    split at given
    · cases given
    · cases given
      exact filed

theorem Filed.settle (filed : Filed p) (now : p.settle = .ok s) (taken : s.hasFile = true) :
    s.settled.file.isSome = true := by
  rw [(settleClears now).2] at taken
  have kept := filed taken
  unfold Progress.settle at now
  split at now
  · next clear =>
    cases now
    simpa [clear] using kept
  · cases now
  · next slot text waits =>
    obtain ⟨b, filled, done⟩ := okBind now
    cases done
    refine fillKeeps filled ?_
    rcases kept with kept | ⟨path, file⟩
    · exact .inr kept
    · rw [waits] at file
      cases file
      exact .inl rfl

/-- A way to go on that makes the same of a progress as these mentions. -/
structure GoesOn (k : Progress → Except ArgumentFault Progress) (ms : List Mention) : Prop where
  opens : ∀ {p q}, k p = .ok q → p.Open
  ends : ∀ {p s a}, p.settle = .ok s → Filed p →
    (Ends a (k p) ↔ s.settled.mentionAll ms = .ok a)

variable {k : Progress → Except ArgumentFault Progress} {ms : List Mention}

theorem GoesOn.value (later : GoesOn k ms) {slot : ValueSlot} {text : String}
    (pending : p.pending = some (slot, some text)) (filed : Filed p) :
    Ends a (k p) ↔ p.settled.mentionAll (.value slot text :: ms) = .ok a := by
  have now : p.settle = p.settled.fill slot text >>= fun b =>
      .ok { p with settled := b, pending := .none } := by
    simp only [Progress.settle, pending]
  rw [mentionAll, List.foldlM_cons, mention]
  -- A value that is refused comes to light only later, but whatever goes on settles it first.
  cases filled : p.settled.fill slot text with
  | error fault =>
    rw [filled] at now
    refine iff_of_false ?_ nofun
    rintro ⟨q, ran, -⟩
    rcases later.opens ran with ⟨slot', awaits⟩ | ⟨s, settled⟩
    · rw [pending] at awaits
      cases awaits
    · rw [now] at settled
      cases settled
  | ok b =>
    rw [filled] at now
    exact later.ends now filed

theorem GoesOn.file (later : GoesOn k ms) (now : p.settle = .ok s) (filed : Filed p)
    (path : String) :
    Ends a (p.takeFile path >>= k) ↔ s.settled.mentionAll (.value .file path :: ms) = .ok a := by
  have kept := filed.settle now
  unfold takeFile
  split
  · next taken =>
    have twice : s.settled.fill .file path = .error .argumentConflict := by
      rw [fill, isSet, kept ((settleClears now).2.trans taken)]
      rfl
    refine iff_of_false endsNot ?_
    rw [mentionAll, List.foldlM_cons, mention, twice]
    nofun
  · rw [now]
    exact later.value rfl fun _ => .inr ⟨path, rfl⟩

theorem GoesOn.given (later : GoesOn k ms) (now : p.settle = .ok s) (filed : Filed p)
    (m : Mention) :
    Ends a (s.settled.mention m >>= (fun b => .ok { s with settled := b }) >>= k) ↔
      s.settled.mentionAll (m :: ms) = .ok a := by
  rw [mentionAll, List.foldlM_cons]
  cases given : s.settled.mention m with
  | error fault => exact iff_of_false endsNot nofun
  | ok b =>
    have clear : settle { s with settled := b } = .ok { s with settled := b } :=
      settleDone (settleClears now).1
    exact later.ends clear fun taken => .inl (mentionKeeps given (filed.settle now taken))

theorem goesOnDone {k : Progress → Except ArgumentFault Progress} (settles : ∀ p, k p = p.settle) :
    GoesOn k [] where
  opens ran := .inr ⟨_, settles _ ▸ ran⟩
  ends {p s a} now _ := by
    rw [settles, now]
    constructor
    · rintro ⟨q, ran, rfl⟩
      cases ran
      rfl
    · intro same
      cases same
      exact ⟨s, rfl, rfl⟩

theorem filesGoOn (paths : List String) :
    GoesOn (fun p => paths.foldlM takeFile p >>= settle) (paths.map (.value .file)) := by
  induction paths with
  | nil => exact goesOnDone fun _ => rfl
  | cons path rest ih =>
    refine ⟨fun ran => .inr (filesSettle ran), fun now filed => ?_⟩
    rw [List.foldlM_cons, bind_assoc]
    exact ih.file now filed path

theorem lineGoesOn {arguments : List String} (line : CommandLine arguments ms) :
    GoesOn (fun p => p.run arguments) ms := by
  induction line with
  | done => exact goesOnDone fun _ => rfl
  | files paths => exact filesGoOn paths
  | @flag m word rest ms named later ih =>
    refine ⟨runOpen, fun {p s a} now filed => ?_⟩
    have other : word ≠ "--" := by
      match m, named with
      | .switch true, rfl | .switch false, rfl | .bind, rfl => decide
    rw [runTakes other, flagTaken named, now]
    exact ih.given now filed m
  | @apart slot word text rest ms named free later ih =>
    refine ⟨runOpen, fun {p s a} now filed => ?_⟩
    have other : word ≠ "--" := by
      match slot, named with
      | .clearPolicy, rfl | .format, rfl | .config, rfl => decide
    rw [runTakes other, wordTaken named, now]
    change Ends a (run _ _) ↔ _
    rw [runTakes free.apart, freeTaken free]
    have kept := filed.settle now
    exact ih.value rfl fun taken => .inl (kept taken)
  | @joined slot word text rest ms named later ih =>
    refine ⟨runOpen, fun {p s a} now filed => ?_⟩
    have other : word ++ "=" ++ text ≠ "--" := by
      intro ends
      have sign : '=' ∈ (word ++ "=" ++ text).toList := by simp
      exact absurd (ends ▸ sign) (by decide)
    rw [runTakes other, joinedTaken named, now]
    exact ih.given now filed (.value slot text)
  | @file path rest ms free later ih =>
    refine ⟨runOpen, fun {p s a} now filed => ?_⟩
    have taken : p.take path = p.takeFile path := by
      rw [freeTaken free, takeValue]
      split
      · next slot awaits =>
        rw [Progress.settle, awaits] at now
        cases now
      · rfl
    rw [runTakes free.apart, taken]
    exact ih.file now filed path

end Progress

open Progress

theorem parsedLine {arguments : List String} {a : Arguments} (parsed : parse arguments = .ok a) :
    ∃ ms, CommandLine arguments ms := by
  obtain ⟨q, ran, -⟩ := okBind parsed
  exact runReads ran

theorem lineParsed {arguments : List String} {ms : List Mention}
    (line : CommandLine arguments ms) {a : Arguments} :
    parse arguments = .ok a ↔ mentionAll .none ms = .ok a := by
  refine Iff.trans ?_ ((lineGoesOn line).ends (p := .start) rfl nofun)
  rw [parse]
  constructor
  · intro parsed
    obtain ⟨q, ran, same⟩ := okBind parsed
    exact ⟨q, ran, Except.ok.inj same⟩
  · rintro ⟨q, ran, rfl⟩
    rw [ran]
    rfl

end Arguments
end KeyForm
