import KeyForm.Proofs.Outcome
import KeyForm.Proofs.Outline
/-! Classifier and assembly as one pass over the elements. Each of them keeps its own
record of what is half done; in step with each other they have only the states of a
`Walk`, in which a key, an option and the extended entries can never be half done at the
same time. -/
namespace KeyForm

structure Rules where
  registry : Registry
  policy : ClearPolicy
  strategy : Strategy

def Compiler.rules (c : Compiler) (elements : List Element) : Rules :=
  ⟨c.registry, c.options.clearPolicy, .choose c.options.heuristic elements⟩

inductive Turn where
  | key
  | definition (index : Nat) (key : Element)
  | entry
  | value (named : Nat) (spec : OptionSpec) (extendedOnly : Bool)

def Turn.next (extendedOnly : Bool) : Turn := if extendedOnly then .entry else .key

structure Yield where
  defaults : Settings
  entries : List Entry
  batches : List Batch

namespace Yield

def opened (live : Settings) : Yield := ⟨live, [], []⟩

def add (y : Yield) (e : Entry) : Yield := { y with entries := y.entries ++ [e] }

def flush (y : Yield) (live : Settings) : Yield :=
  { y with entries := [], batches := y.batches ++ batchOf live y.entries }

end Yield

inductive Stage where
  | leading (positional : List Element) (awaiting : Option (Nat × OptionSpec))
  | keys (yield : Yield) (turn : Turn)

structure Walk where
  live : Settings
  stage : Stage

namespace Walk

def start : Walk := ⟨.empty, .leading [] none⟩

def misfit (index : Nat) (cause : Misfit) : Except CompileError Walk :=
  .error (.malformed index cause)

def takeContext (live : Settings) (positional : List Element) (index : Nat) (e : Element) :
    Except CompileError Walk :=
  match positional with
  | [] => .ok ⟨live.set keymapsName e.toTargets, .leading [e.toTargets] none⟩
  | [first] =>
    .ok ⟨(live.set statesName first).set keymapsName e.toTargets,
      .leading [first, e.toTargets] none⟩
  | _ => misfit index (.thirdContext e)

def takeItem (live : Settings) (y : Yield) (extendedOnly : Bool) (index : Nat) (e : Element) :
    Except CompileError Walk :=
  if extendedOnly then
    if e = .list [] then misfit index .emptyEntry
    else if e.isList then .ok ⟨live, .keys (y.add (.extended e)) .entry⟩
    else misfit index (.noEntry e)
  else if e.isList then misfit index (.looseList e)
  else if e.isKeyLiteral then .ok ⟨live, .keys y (.definition index e)⟩
  else misfit index (.noKey e)

def takeName (registry : Registry) (index : Nat) (name : String)
    (next : OptionSpec → Except CompileError Walk) : Except CompileError Walk :=
  match registry.get? name with
  | none => .error (.unknownOption index name (registry.suggest name))
  | some spec => next spec

def takeValue (index : Nat) (e : Element) (named : Nat) (spec : OptionSpec)
    (next : Except CompileError Walk) : Except CompileError Walk :=
  if e.isSeparator then misfit named (.missingValue spec.name)
  else if !spec.accepts e then misfit index (.refusedValue e spec)
  else next

def takeSeparator (policy : ClearPolicy) (clearing : Bool) (live : Settings) (y : Yield) :
    Walk :=
  ⟨if clearing then policy.cleared y.defaults else live, .keys (y.flush live) .key⟩

def takeJudged (judged : Except CompileError LeadingClass) (live : Settings)
    (positional : List Element) (index : Nat) (e : Element) : Except CompileError Walk :=
  match judged with
  | .error err => .error err
  | .ok .contextValue => takeContext live positional index e
  | .ok .keySectionStart => takeItem live (.opened live) false index e

def leadingStep (rules : Rules) (live : Settings) (positional : List Element) (index : Nat)
    (e : Element) : Except CompileError Walk :=
  match e with
  | .separator => .ok (takeSeparator rules.policy false live (.opened live))
  | .clearingSeparator => .ok (takeSeparator rules.policy true live (.opened live))
  | .keyword name => takeName rules.registry index name fun spec =>
    .ok ⟨live, .leading positional (some (index, spec))⟩
  | _ => takeJudged (rules.strategy.classify index e) live positional index e

def itemStep (rules : Rules) (live : Settings) (y : Yield) (extendedOnly : Bool)
    (index : Nat) (e : Element) : Except CompileError Walk :=
  match e with
  | .separator => .ok (takeSeparator rules.policy false live y)
  | .clearingSeparator => .ok (takeSeparator rules.policy true live y)
  | .keyword name => takeName rules.registry index name fun spec =>
    .ok ⟨live, .keys y (.value index spec extendedOnly)⟩
  | _ => takeItem live y extendedOnly index e

def definitionStep (rules : Rules) (live : Settings) (y : Yield) (place : Nat)
    (key : Element) (index : Nat) (e : Element) : Except CompileError Walk :=
  match e with
  | .separator | .clearingSeparator => .error (.unpairedKey place key)
  | .keyword name => takeName rules.registry index name fun _ =>
    .error (.unpairedKey place key)
  | .list _ => misfit index (.looseList e)
  | _ => .ok ⟨live, .keys (y.add (.plain key e)) .key⟩

def valueStep (live : Settings) (y : Yield) (spec : OptionSpec) (extendedOnly : Bool)
    (e : Element) : Walk :=
  match spec.kind with
  | .setting => ⟨live.set spec.name (spec.normalize e), .keys y (.next extendedOnly)⟩
  | .extendedMarker =>
    if e.isList && !e.isNil then ⟨live, .keys (y.add (.extended e)) (.next extendedOnly)⟩
    else ⟨live, .keys y (.next e.isTrue)⟩

def step (rules : Rules) (w : Walk) (index : Nat) (e : Element) :
    Except CompileError Walk :=
  match w.stage with
  | .leading positional none => leadingStep rules w.live positional index e
  | .leading positional (some (named, spec)) =>
    takeValue index e named spec <|
      match spec.kind with
      | .setting =>
        .ok ⟨w.live.set spec.name (spec.normalize e), .leading positional none⟩
      | .extendedMarker => misfit named (.earlyMarker spec.name)
  | .keys y .key => itemStep rules w.live y false index e
  | .keys y .entry => itemStep rules w.live y true index e
  | .keys y (.definition place key) => definitionStep rules w.live y place key index e
  | .keys y (.value named spec extendedOnly) =>
    takeValue index e named spec (.ok (valueStep w.live y spec extendedOnly e))

def close (rules : Rules) (w : Walk) (index : Nat) : Except CompileError (List Batch) :=
  match w.stage with
  | .leading _ (some (named, spec)) | .keys _ (.value named spec _) =>
    .error (.malformed named (.missingValue spec.name))
  | .leading _ none =>
    if rules.strategy.allowsOpenEnd then .ok [] else .error (.malformed index .unreachedKeys)
  | .keys _ (.definition place key) => .error (.unpairedKey place key)
  | .keys y .key | .keys y .entry => .ok (y.flush w.live).batches

def advance (rules : Rules) (w : Walk) (index : Nat) :
    List Element → Except CompileError Walk
  | [] => .ok w
  | e :: rest => do (← w.step rules index e).advance rules (index + 1) rest

def run (rules : Rules) (w : Walk) (index : Nat) :
    List Element → Except CompileError (List Batch)
  | [] => w.close rules index
  | e :: rest => do (← w.step rules index e).run rules (index + 1) rest

theorem runAppend (rules : Rules) (w : Walk) (index : Nat) (first later : List Element) :
    w.run rules index (first ++ later) =
      w.advance rules index first >>= fun w => w.run rules (index + first.length) later := by
  induction first generalizing w index with
  | nil => rfl
  | cons e rest ih =>
    simp only [List.cons_append, run, advance, List.length_cons, bind_assoc, ih]
    simp only [Nat.add_comm, Nat.add_left_comm]

/-! The pass stands for both halves. Only the length of a run is not told by it, and the
classifier asks that only for being odd. -/

def odd (w : Walk) : Bool :=
  match w.stage with
  | .keys _ (.definition _ _) => true
  | _ => false

def classifier (w : Walk) (runLength : Nat) : Classifier :=
  match w.stage with
  | .leading _ awaiting => ⟨.leading, awaiting, false, runLength⟩
  | .keys _ .key | .keys _ (.definition _ _) => ⟨.keys, none, false, runLength⟩
  | .keys _ .entry => ⟨.keys, none, true, runLength⟩
  | .keys _ (.value named spec extendedOnly) =>
    ⟨.keys, some (named, spec), extendedOnly, runLength⟩

def assembly (w : Walk) : Assembly :=
  match w.stage with
  | .leading positional awaiting =>
    ⟨w.live, none, positional, [], none, awaiting.map Prod.snd, []⟩
  | .keys y .key | .keys y .entry =>
    ⟨w.live, some y.defaults, [], y.entries, none, none, y.batches⟩
  | .keys y (.definition place key) =>
    ⟨w.live, some y.defaults, [], y.entries, some (place, key), none, y.batches⟩
  | .keys y (.value _ spec _) =>
    ⟨w.live, some y.defaults, [], y.entries, none, some spec, y.batches⟩

end Walk

structure LockStep (w : Walk) (c : Classifier) (a : Assembly) : Prop where
  classifier : ∃ n, decide (n % 2 = 1) = w.odd ∧ c = w.classifier n
  assembly : a = w.assembly

def lay (policy : ClearPolicy) (a : Assembly) (taken : Classifier.Step) :
    Except CompileError (Classifier × Assembly) := do
  let (token, next) ← taken
  .ok (next, ← a.apply policy token)

abbrev Follows : Except CompileError Walk → Except CompileError (Classifier × Assembly) → Prop :=
  Alike Eq fun w p => LockStep w p.1 p.2

theorem settingStored {a : Assembly} {token : Token} {spec : OptionSpec}
    (pending : a.pendingOption = some spec) (kind : spec.kind = .setting) :
    a.setOption token = { a with
      pendingOption := none, live := a.live.set spec.name (spec.normalize token.element) } := by
  simp [Assembly.setOption, pending, kind]

theorem markerDropped {a : Assembly} {token : Token} {spec : OptionSpec}
    (pending : a.pendingOption = some spec) (kind : spec.kind = .extendedMarker) :
    a.setOption token = { a with pendingOption := none } := by
  simp [Assembly.setOption, pending, kind]

namespace Walk
variable {rules : Rules} {index n : Nat} {e : Element}

theorem evenPace (even : n % 2 = 0) : decide (n % 2 = 1) = false := by simp [even]

theorem nextFollows (live : Settings) (y : Yield) (x : Bool) (even : n % 2 = 0) :
    LockStep ⟨live, .keys y (.next x)⟩ ⟨.keys, none, x, n⟩
      ⟨live, some y.defaults, [], y.entries, none, none, y.batches⟩ := by
  cases x <;> exact ⟨⟨n, evenPace even, rfl⟩, rfl⟩

theorem leadingValueFollows (live : Settings) (positional : List Element) (named : Nat)
    (spec : OptionSpec) (even : n % 2 = 0) :
    Follows (step rules ⟨live, .leading positional (some (named, spec))⟩ index e)
      (lay rules.policy ⟨live, none, positional, [], none, some spec, []⟩
        (Classifier.step rules.registry rules.strategy ⟨.leading, some (named, spec), false, n⟩
          index e)) := by
  simp only [step, takeValue, lay, Classifier.step, Classifier.takeValue, Classifier.misfit,
    misfit]
  split
  · exact .error rfl
  split
  · exact .error rfl
  cases kind : spec.kind with
  | setting =>
    refine .ok ?_
    rw [settingStored rfl kind]
    exact ⟨⟨n, evenPace even, rfl⟩, rfl⟩
  | extendedMarker => exact .error rfl

theorem valueFollows (live : Settings) (y : Yield) (named : Nat) (spec : OptionSpec) (x : Bool)
    (even : n % 2 = 0) :
    Follows (step rules ⟨live, .keys y (.value named spec x)⟩ index e)
      (lay rules.policy ⟨live, some y.defaults, [], y.entries, none, some spec, y.batches⟩
        (Classifier.step rules.registry rules.strategy ⟨.keys, some (named, spec), x, n⟩
          index e)) := by
  simp only [step, takeValue, lay, Classifier.step, Classifier.takeValue, Classifier.misfit,
    misfit]
  split
  · exact .error rfl
  split
  · exact .error rfl
  cases kind : spec.kind with
  | setting =>
    refine .ok ?_
    rw [settingStored rfl kind]
    simp only [valueStep, kind]
    exact nextFollows _ y x even
  | extendedMarker =>
    simp only [valueStep, kind, reduceCtorEq, if_false]
    split
    · exact .ok (nextFollows live (y.add (.extended e)) x even)
    · refine .ok ?_
      rw [markerDropped rfl kind]
      exact nextFollows live y e.isTrue even

theorem nameFollows {registry : Registry} {name : String} {c : Classifier} {a : Assembly}
    {next : OptionSpec → Except CompileError Walk} {policy : ClearPolicy}
    (found : ∀ spec kind, kind = .optionName ∨ kind = .extendedMarker →
      Follows (next spec) (lay policy a (.ok (⟨kind, index, e, some spec⟩,
        { c with awaiting := some (index, spec), runLength := 0 })))) :
    Follows (Walk.takeName registry index name next)
      (lay policy a (c.takeName registry index e name)) := by
  simp only [Walk.takeName, Classifier.takeName]
  cases registry.get? name with
  | none => exact .error rfl
  | some spec =>
    refine found spec _ ?_
    cases spec.kind <;> simp

theorem takeItemFollows (policy : ClearPolicy) (live : Settings) (y : Yield) (x : Bool)
    (even : n % 2 = 0) :
    Follows (takeItem live y x index e)
      (lay policy ⟨live, some y.defaults, [], y.entries, none, none, y.batches⟩
        (Classifier.takeEntry ⟨.keys, none, x, n⟩ index e)) := by
  simp only [takeItem, Classifier.takeEntry, even, if_true, Classifier.misfit, misfit]
  cases x with
  | true =>
    simp only [if_true]
    split
    · exact .error rfl
    split
    · exact .ok ⟨⟨n, evenPace even, rfl⟩, rfl⟩
    · exact .error rfl
  | false =>
    simp only [Bool.false_eq_true, if_false]
    split
    · exact .error rfl
    split
    · exact .ok ⟨⟨n + 1, by simp [odd]; omega, rfl⟩, rfl⟩
    · exact .error rfl

theorem flushFollows (live : Settings) (y : Yield) :
    (Assembly.mk live (some y.defaults) [] y.entries none none y.batches).flush =
      assembly ⟨live, .keys (y.flush live) .key⟩ := by
  cases entries : y.entries with
  | nil => simp [Assembly.flush, assembly, Yield.flush, batchOf, entries]
  | cons _ _ => simp [Assembly.flush, assembly, Yield.flush, batchOf, entries]

theorem separatorFollows (policy : ClearPolicy) (clearing : Bool) (live : Settings)
    (y : Yield) :
    LockStep (takeSeparator policy clearing live y) ⟨.keys, none, false, 0⟩
      (let a := (Assembly.mk live (some y.defaults) [] y.entries none none y.batches).flush
      if clearing then a.clear policy else a) := by
  refine ⟨⟨0, rfl, rfl⟩, ?_⟩
  rw [flushFollows]
  cases clearing with
  | false => rfl
  | true => cases policy <;> rfl

theorem itemFollows (live : Settings) (y : Yield) (x : Bool) (even : n % 2 = 0) :
    Follows (itemStep rules live y x index e)
      (lay rules.policy ⟨live, some y.defaults, [], y.entries, none, none, y.batches⟩
        (Classifier.step rules.registry rules.strategy ⟨.keys, none, x, n⟩ index e)) := by
  cases e with
  | separator => exact .ok (separatorFollows rules.policy false live y)
  | clearingSeparator => exact .ok (separatorFollows rules.policy true live y)
  | keyword name =>
    refine nameFollows fun spec kind named => ?_
    rcases named with rfl | rfl <;> exact .ok ⟨⟨0, rfl, rfl⟩, rfl⟩
  | symbol | str | vector | list | function =>
    exact takeItemFollows rules.policy live y x even

theorem definitionFollows (live : Settings) (y : Yield) (place : Nat) (key : Element)
    (odd : n % 2 = 1) :
    Follows (definitionStep rules live y place key index e)
      (lay rules.policy ⟨live, some y.defaults, [], y.entries, some (place, key), none, y.batches⟩
        (Classifier.step rules.registry rules.strategy ⟨.keys, none, false, n⟩ index e)) := by
  have notEven : ¬ n % 2 = 0 := by omega
  have even : (n + 1) % 2 = 0 := by omega
  cases e with
  | separator | clearingSeparator => exact .error rfl
  | keyword name =>
    refine nameFollows fun spec kind named => ?_
    rcases named with rfl | rfl <;> exact .error rfl
  | list items => exact .error rfl
  | symbol | str | vector | function =>
    simp only [lay, Classifier.step, Classifier.takeEntry, if_neg notEven]
    exact .ok ⟨⟨n + 1, evenPace even, rfl⟩, rfl⟩

theorem contextFollows (policy : ClearPolicy) (live : Settings) (positional : List Element)
    (even : n % 2 = 0) :
    Follows (takeContext live positional index e)
      (lay policy ⟨live, none, positional, [], none, none, []⟩
        (.ok (⟨.contextValue, index, e, none⟩, ⟨.leading, none, false, n⟩))) := by
  match positional with
  | [] | [_] => exact .ok ⟨⟨n, evenPace even, rfl⟩, rfl⟩
  | _ :: _ :: _ => exact .error rfl

theorem openingFollows (policy : ClearPolicy) (live : Settings) (positional : List Element)
    (even : n % 2 = 0) :
    Follows (takeItem live (.opened live) false index e)
      (lay policy ⟨live, none, positional, [], none, none, []⟩
        (Classifier.takeEntry ⟨.keys, none, false, n⟩ index e)) := by
  simp only [takeItem, Classifier.takeEntry, even, if_true, Classifier.misfit, misfit,
    Bool.false_eq_true, if_false]
  split
  · exact .error rfl
  split
  · exact .ok ⟨⟨n + 1, by simp [odd]; omega, rfl⟩, rfl⟩
  · exact .error rfl

theorem leadingFollows (live : Settings) (positional : List Element) (even : n % 2 = 0) :
    Follows (leadingStep rules live positional index e)
      (lay rules.policy ⟨live, none, positional, [], none, none, []⟩
        (Classifier.step rules.registry rules.strategy ⟨.leading, none, false, n⟩ index e)) := by
  cases e with
  | separator => exact .ok (separatorFollows rules.policy false live (.opened live))
  | clearingSeparator => exact .ok (separatorFollows rules.policy true live (.opened live))
  | keyword name =>
    refine nameFollows fun spec kind named => ?_
    rcases named with rfl | rfl <;> exact .ok ⟨⟨0, rfl, rfl⟩, rfl⟩
  | symbol | str | vector | list | function =>
    simp only [leadingStep, Classifier.step]
    cases rules.strategy.classify index _ with
    | error _ => exact .error rfl
    | ok judged =>
      cases judged with
      | contextValue => exact contextFollows rules.policy live positional even
      | keySectionStart => exact openingFollows rules.policy live positional even

end Walk

theorem stepFollows (rules : Rules) {w : Walk} {c : Classifier} {a : Assembly}
    (h : LockStep w c a) (index : Nat) (e : Element) :
    Follows (w.step rules index e)
      (lay rules.policy a (c.step rules.registry rules.strategy index e)) := by
  obtain ⟨⟨n, pace, rfl⟩, rfl⟩ := h
  obtain ⟨live, stage⟩ := w
  match stage with
  | .leading positional none =>
    exact Walk.leadingFollows live positional (by simpa [Walk.odd] using pace)
  | .leading positional (some (named, spec)) =>
    exact Walk.leadingValueFollows live positional named spec (by simpa [Walk.odd] using pace)
  | .keys y .key => exact Walk.itemFollows live y false (by simpa [Walk.odd] using pace)
  | .keys y .entry => exact Walk.itemFollows live y true (by simpa [Walk.odd] using pace)
  | .keys y (.definition place key) =>
    exact Walk.definitionFollows live y place key (by simpa [Walk.odd] using pace)
  | .keys y (.value named spec x) =>
    exact Walk.valueFollows live y named spec x (by simpa [Walk.odd] using pace)

def finishBoth (policy : ClearPolicy) (a : Assembly) (stream : TokenStream) :
    Except CompileError (List Batch) := do
  let a ← (stream.tokens.map Prod.fst).foldlM (Assembly.apply policy) a
  match stream.failure with
  | some err => .error err
  | none => a.finish

theorem closeFollows {rules : Rules} {w : Walk} {c : Classifier} {a : Assembly}
    (h : LockStep w c a) (index : Nat) :
    finishBoth rules.policy a ⟨[], c.ending rules.strategy index⟩ = w.close rules index := by
  obtain ⟨⟨n, pace, rfl⟩, rfl⟩ := h
  obtain ⟨live, stage⟩ := w
  match stage with
  | .leading positional none =>
    simp only [finishBoth, Classifier.ending, Walk.classifier, Walk.assembly, Walk.close]
    cases rules.strategy.allowsOpenEnd <;> rfl
  | .leading positional (some _) => rfl
  | .keys y .key | .keys y .entry =>
    have flushed := congrArg Assembly.batches (Walk.flushFollows live y)
    exact congrArg Except.ok flushed
  | .keys y (.definition _ _) | .keys y (.value _ _ _) => rfl

theorem finishBothCons (rules : Rules) (c : Classifier) (a : Assembly) (index : Nat)
    (e : Element) (rest : List Element) :
    finishBoth rules.policy a (.scan rules.registry rules.strategy c index (e :: rest)) =
      lay rules.policy a (c.step rules.registry rules.strategy index e) >>= fun p =>
        finishBoth rules.policy p.2
          (.scan rules.registry rules.strategy p.1 (index + 1) rest) := by
  simp only [TokenStream.scan]
  cases c.step rules.registry rules.strategy index e with
  | error _ => rfl
  | ok taken =>
    obtain ⟨token, next⟩ := taken
    simp only [finishBoth, List.map_cons, List.foldlM_cons, bind_assoc]
    cases laid : a.apply rules.policy token <;> simp only [lay, laid, bind, Except.bind]

-- The invariant is the lock step: it says where the classifier and the assembly are, given
-- where the pass is, so one element at a time is enough.
theorem runFollows (rules : Rules) {w : Walk} {c : Classifier} {a : Assembly}
    (h : LockStep w c a) (index : Nat) (elements : List Element) :
    w.run rules index elements = finishBoth rules.policy a
      (.scan rules.registry rules.strategy c index elements) := by
  induction elements generalizing w c a index with
  | nil => exact (closeFollows h index).symm
  | cons e rest ih =>
    rw [finishBothCons]
    refine ((stepFollows rules h index e).bind fun next both follows => ?_).eq
    rw [← ih follows (index + 1)]
    exact .refl _

theorem compileWalks (c : Compiler) (elements : List Element) :
    c.compile elements = Walk.start.run (c.rules elements) 0 elements := by
  have begun : LockStep .start .start .start := ⟨⟨0, rfl, rfl⟩, rfl⟩
  exact (runFollows (c.rules elements) begun 0 elements).symm

end KeyForm
