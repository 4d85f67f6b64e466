import KeyForm.Batch.Binding
/-! The bind calls that a form leads to. They are those of its batches, taken entry by entry,
and they are made in that order up to the first one that is refused; a form that does not
compile leads to none. -/
namespace KeyForm

namespace Binder
variable {σ ε : Type}

def logged (bind : Binder σ ε) : Binder (σ × List Call) ε :=
  fun settings entry (s, made) =>
    ((bind settings entry s).1, (bind settings entry s).2, made ++ [(settings, entry)])

inductive Binds (bind : Binder σ ε) : List Call → σ → σ → Prop where
  | none {s} : Binds bind [] s s
  | call {settings entry rest s next last} (bound : bind settings entry s = (.ok (), next))
      (later : Binds bind rest next last) : Binds bind ((settings, entry) :: rest) s last

inductive Performs (bind : Binder σ ε) (calls : List Call) (s : σ) :
    List Call → Except ε Nat → σ → Prop where
  | all {last} (bound : Binds bind calls s last) :
      Performs bind calls s calls (.ok calls.length) last
  | refused {before settings entry after next e last}
      (cut : calls = before ++ (settings, entry) :: after) (bound : Binds bind before s next)
      (failed : bind settings entry next = (.error e, last)) :
      Performs bind calls s (before ++ [(settings, entry)]) (.error e) last

def onward (first : Except ε Nat × σ) (later : Nat → σ → Except ε Nat × σ) :
    Except ε Nat × σ :=
  match first with
  | (.error e, s) => (.error e, s)
  | (.ok n, s) => later n s

def perform (bind : Binder σ ε) (bound : Nat) : List Call → σ → Except ε Nat × σ
  | [], s => (.ok bound, s)
  | (settings, entry) :: rest, s =>
    match bind settings entry s with
    | (.error e, s) => (.error e, s)
    | (.ok (), s) => perform bind (bound + 1) rest s

variable {bind : Binder σ ε} {settings : Settings} {entry : Entry} {rest : List Call}
variable {s next : σ} {e : ε} {bound : Nat}

theorem performBound (ok : bind settings entry s = (.ok (), next)) :
    perform bind bound ((settings, entry) :: rest) s = perform bind (bound + 1) rest next := by
  simp only [perform, ok]

theorem performRefused (failed : bind settings entry s = (.error e, next)) :
    perform bind bound ((settings, entry) :: rest) s = (.error e, next) := by
  simp only [perform, failed]

theorem onwardAgain (x : Except ε Nat × σ) (f g : Nat → σ → Except ε Nat × σ) :
    onward (onward x f) g = onward x fun n s => onward (f n s) g := by
  obtain ⟨_ | _, _⟩ := x <;> rfl

theorem performAppend (bind : Binder σ ε) (bound : Nat) (first later : List Call) (s : σ) :
    perform bind bound (first ++ later) s =
      onward (perform bind bound first s) fun n s => perform bind n later s := by
  induction first generalizing bound s with
  | nil => rfl
  | cons call rest ih =>
    obtain ⟨settings, entry⟩ := call
    rw [List.cons_append]
    match made : bind settings entry s with
    | (.error e, next) => rw [performRefused made, performRefused made]; rfl
    | (.ok (), next) => rw [performBound made, performBound made, ih]

theorem performAfter (bind : Binder σ ε) (bound : Nat) (calls : List Call) (s : σ) :
    perform bind bound calls s =
      onward (perform bind 0 calls s) fun n s => (.ok (bound + n), s) := by
  induction calls generalizing bound s with
  | nil => rfl
  | cons call rest ih =>
    obtain ⟨settings, entry⟩ := call
    match made : bind settings entry s with
    | (.error e, next) => rw [performRefused made, performRefused made]; rfl
    | (.ok (), next) =>
      rw [performBound made, performBound made, ih (bound + 1), ih (0 + 1), onwardAgain]
      simp only [onward, Nat.zero_add, Nat.add_assoc]

theorem entriesPerformed (bind : Binder σ ε) (settings : Settings) (bound : Nat)
    (entries : List Entry) (s : σ) :
    applyEntries bind settings bound entries s =
      perform bind bound (entries.map fun e => (settings, e)) s := by
  induction entries generalizing bound s with
  | nil => rfl
  | cons e rest ih =>
    rw [List.map_cons]
    match made : bind settings e s with
    | (.error refusal, next) => simp only [performRefused made, applyEntries, made]
    | (.ok (), next) => simp only [performBound made, applyEntries, made, ih]

theorem batchesPerformed (bind : Binder σ ε) (bound : Nat) (batches : List Batch) (s : σ) :
    applyFrom bind bound batches s = perform bind bound (batches.flatMap Batch.calls) s := by
  induction batches generalizing bound s with
  | nil => rfl
  | cons b rest ih =>
    simp only [applyFrom, List.flatMap_cons, performAppend, ih, entriesPerformed]
    rfl

theorem applyPerformed (bind : Binder σ ε) (batches : List Batch) (s : σ) :
    bind.apply batches s = perform bind 0 (batches.flatMap Batch.calls) s :=
  batchesPerformed bind 0 batches s

theorem applyAppend (bind : Binder σ ε) (first later : List Batch) (s : σ) :
    bind.apply (first ++ later) s =
      onward (bind.apply first s) fun n s =>
        onward (bind.apply later s) fun m s => (.ok (n + m), s) := by
  simp only [applyPerformed, List.flatMap_append, performAppend]
  congr
  funext n s
  exact performAfter bind n _ s

theorem Performs.call {made : List Call} {outcome : Except ε Nat} {last : σ}
    (bound : bind settings entry s = (.ok (), next))
    (later : Performs bind rest next made outcome last) :
    Performs bind ((settings, entry) :: rest) s ((settings, entry) :: made)
      (outcome.map (1 + ·)) last := by
  cases later with
  | all others =>
    have all := Performs.all (.call bound others)
    rwa [List.length_cons, Nat.add_comm] at all
  | refused cut others failed =>
    exact .refused (congrArg ((settings, entry) :: ·) cut) (.call bound others) failed

-- What a logged binder has seen is all that can be told of the calls made to a binder of
-- which nothing is known.
theorem performed (bind : Binder σ ε) (bound : Nat) (calls : List Call) (s : σ)
    (log : List Call) : ∃ made outcome last, Performs bind calls s made outcome last ∧
      perform bind bound calls s = (outcome.map (bound + ·), last) ∧
      perform bind.logged bound calls (s, log) =
        (outcome.map (bound + ·), last, log ++ made) := by
  induction calls generalizing bound s log with
  | nil => exact ⟨[], .ok 0, s, .all .none, rfl, by rw [List.append_nil]; rfl⟩
  | cons call rest ih =>
    obtain ⟨settings, entry⟩ := call
    match made : bind settings entry s with
    | (.error e, last) =>
      have seen : bind.logged settings entry (s, log) =
          (.error e, last, log ++ [(settings, entry)]) := by simp only [logged, made]
      have cut : (settings, entry) :: rest = [] ++ (settings, entry) :: rest := rfl
      refine ⟨_, .error e, last, .refused cut .none made, ?_, ?_⟩
      · rw [performRefused made]; rfl
      · rw [performRefused seen]; rfl
    | (.ok (), next) =>
      have seen : bind.logged settings entry (s, log) =
          (.ok (), next, log ++ [(settings, entry)]) := by simp only [logged, made]
      obtain ⟨later, outcome, last, performs, plain, kept⟩ :=
        ih (bound + 1) next (log ++ [(settings, entry)])
      have counted : (outcome.map (1 + ·)).map (bound + ·) = outcome.map (bound + 1 + ·) := by
        cases outcome <;> simp [Except.map, Nat.add_assoc]
      refine ⟨_, _, last, performs.call made, ?_, ?_⟩
      · rw [performBound made, plain, counted]
      · rw [performBound seen, kept, counted, List.append_assoc]
        rfl

end Binder

def Compiler.calls (c : Compiler) (es : List Element) : List Call :=
  match c.compile es with
  | .error _ => []
  | .ok batches => batches.flatMap Batch.calls

def recorded (forms : List (Compiler × List Element)) (calls : List Call) : List Call :=
  forms.foldl (fun calls form => (form.1.define Binder.recording form.2 calls).2) calls

section
variable {σ ε : Type} {c : Compiler} {es : List Element} {bind : Binder σ ε} {s : σ}

theorem definedNone {e : CompileError} (failed : c.compile es = .error e) :
    c.define bind es s = (.error (.compile e), s) := by
  simp only [Compiler.define, failed]

theorem definedAll {batches : List Batch} (ok : c.compile es = .ok batches)
    {outcome : Except ε Nat} {last : σ} (applied : bind.apply batches s = (outcome, last)) :
    c.define bind es s = (outcome.mapError .bind, last) := by
  simp only [Compiler.define, ok, applied]
  cases outcome <;> rfl

end

theorem recordingPerformed (bound : Nat) (calls record : List Call) :
    Binder.perform .recording bound calls record =
      (.ok (bound + calls.length), record ++ calls) := by
  induction calls generalizing bound record with
  | nil => rw [List.append_nil]; rfl
  | cons call rest ih =>
    obtain ⟨settings, entry⟩ := call
    rw [Binder.performBound rfl, ih]
    simp [Nat.add_assoc, Nat.add_comm 1]

theorem definedRecord (c : Compiler) (es : List Element) (record : List Call) :
    (c.define Binder.recording es record).2 = record ++ c.calls es := by
  unfold Compiler.calls
  cases ok : c.compile es with
  | error e => rw [definedNone ok, List.append_nil]
  | ok batches =>
    have applied := (Binder.applyPerformed .recording batches record).trans
      (recordingPerformed 0 _ record)
    rw [definedAll ok applied]

theorem recordedCalls (forms : List (Compiler × List Element)) (record : List Call) :
    recorded forms record = record ++ forms.flatMap fun form => form.1.calls form.2 := by
  induction forms generalizing record with
  | nil => rw [List.flatMap_nil, List.append_nil]; rfl
  | cons form rest ih =>
    have onward : recorded (form :: rest) record =
        recorded rest (form.1.define Binder.recording form.2 record).2 := rfl
    rw [onward, ih, definedRecord, List.flatMap_cons, List.append_assoc]

theorem callsInOrder {σ ε : Type} (c : Compiler) (es : List Element) (bind : Binder σ ε)
    (s : σ) :
    (∀ e, c.compile es = .error e →
      c.define bind es s = (.error (.compile e), s) ∧
      c.define bind.logged es (s, []) = (.error (.compile e), s, [])) ∧
    (∀ batches, c.compile es = .ok batches → ∃ made outcome last,
      Binder.Performs bind (batches.flatMap Batch.calls) s made outcome last ∧
      c.define bind es s = (outcome.mapError .bind, last) ∧
      c.define bind.logged es (s, []) = (outcome.mapError .bind, last, made)) ∧
    (∀ first later, bind.apply (first ++ later) s =
      Binder.onward (bind.apply first s) fun n s =>
        Binder.onward (bind.apply later s) fun m s => (.ok (n + m), s)) ∧
    ∀ forms, recorded forms [] = forms.flatMap fun form => form.1.calls form.2 := by
  refine ⟨?_, ?_, ?_, ?_⟩
  · intro e failed
    exact ⟨definedNone failed, definedNone failed⟩
  · intro batches ok
    obtain ⟨made, outcome, last, performs, plain, kept⟩ :=
      Binder.performed bind 0 (batches.flatMap Batch.calls) s []
    have counted : outcome.map (0 + ·) = outcome := by
      cases outcome <;> simp [Except.map]
    rw [counted] at plain kept
    rw [← Binder.applyPerformed] at plain kept
    exact ⟨made, outcome, last, performs, definedAll ok plain, definedAll ok kept⟩
  · intro first later
    exact Binder.applyAppend bind first later s
  · intro forms
    exact recordedCalls forms []

end KeyForm
