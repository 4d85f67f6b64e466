import KeyForm.Proofs.CommandLine
import Mathlib.Data.List.Chain
import Mathlib.Data.List.Induction
/-! Which options of a command line count. An option has one value at most, wherever it stands,
and of the two flags for the heuristic the last one counts, because each of them ends the other.
So the same things said in another order are accepted alike and ask for the same run, as long as
these two flags keep their order. -/
namespace KeyForm

inductive SlotValue where
  | path (text : String)
  | policy (policy : ClearPolicy)
  | format (format : OutputFormat)
  deriving DecidableEq, Repr

def ValueSlot.read? : ValueSlot → String → Option SlotValue
  | .file, text | .config, text => if text.isEmpty then none else some (.path text)
  | .clearPolicy, text => (ClearPolicy.parse? text).map .policy
  | .format, text => (OutputFormat.ofName? text).map .format

namespace Mention

def switch? : Mention → Option Bool
  | .switch on => some on
  | .bind | .value _ _ => none

def text? (slot : ValueSlot) : Mention → Option String
  | .value other text => if other = slot then some text else none
  | .bind | .switch _ => none

def switches (ms : List Mention) : List Bool := ms.filterMap switch?

def texts (slot : ValueSlot) (ms : List Mention) : List String := ms.filterMap (text? slot)

end Mention

open Mention (switches texts)

/-- At most one text is there, and it gives the value. -/
def Gives {α : Type} (read? : String → Option α) (texts : List String) (value : Option α) : Prop :=
  texts.map read? = value.toList.map some

theorem givesSnoc {α : Type} {read? : String → Option α} {texts : List String} {text : String}
    {value : Option α} : Gives read? (texts ++ [text]) value ↔
      Gives read? texts none ∧ ∃ v, read? text = some v ∧ value = some v := by
  cases value with
  | none => simp [Gives]
  | some v =>
    simp only [Gives, List.map_append, List.map_cons, List.map_nil, Option.toList_some,
      Option.toList_none, Option.some.injEq]
    rw [List.append_eq_singleton_iff]
    simp [eq_comm]

theorem givesPermuted {α : Type} {read? : String → Option α} {texts others : List String}
    {value : Option α} (gives : Gives read? texts value) (same : others.Perm texts) :
    Gives read? others value := by
  cases value with
  | none =>
    obtain rfl := List.map_eq_nil_iff.mp gives
    rwa [List.perm_nil.mp same]
  | some v =>
    obtain ⟨text, rest, rfl, -, none⟩ := List.map_eq_cons_iff.mp gives
    obtain rfl := List.map_eq_nil_iff.mp none
    rwa [List.perm_singleton.mp same]

namespace Arguments

def value? (a : Arguments) : ValueSlot → Option SlotValue
  | .file => a.file.map .path
  | .config => a.config.map .path
  | .clearPolicy => a.clearPolicy.map .policy
  | .format => a.format.map .format

def without (a : Arguments) : ValueSlot → Arguments
  | .file => { a with file := .none }
  | .config => { a with config := .none }
  | .clearPolicy => { a with clearPolicy := .none }
  | .format => { a with format := .none }

def isSwitched (a : Arguments) (on : Bool) : Bool := if on then a.heuristic else a.noHeuristic

def switchedLast (a : Arguments) (last : Option Bool) : Arguments :=
  { a with heuristic := last == some true, noHeuristic := last == some false }

variable {a b : Arguments} {ms : List Mention}

theorem valueWithout (slot other : ValueSlot) :
    (a.without slot).value? other = if other = slot then .none else a.value? other := by
  cases slot <;> cases other <;> rfl

theorem filledFrom {slot : ValueSlot} {text : String} (filled : a.fill slot text = .ok b) :
    a = b.without slot ∧ ∃ v, slot.read? text = some v ∧ b.value? slot = some v := by
  obtain ⟨file, heuristic, noHeuristic, policy, format, bind, config⟩ := a
  unfold fill at filled
  split at filled
  · cases filled
  next free =>
  cases slot
  case file | config =>
    obtain rfl := Option.not_isSome_iff_eq_none.mp free
    simp only at filled
    split at filled
    · cases filled
    · next shown =>
      cases filled
      exact ⟨rfl, _, if_neg shown, rfl⟩
  case clearPolicy | format =>
    obtain rfl := Option.not_isSome_iff_eq_none.mp free
    simp only at filled
    split at filled
    · next read =>
      cases filled
      exact ⟨rfl, _, congrArg (Option.map _) read, rfl⟩
    · cases filled

theorem fillsBack {slot : ValueSlot} {text : String} {v : SlotValue}
    (read : slot.read? text = some v) (held : b.value? slot = some v) :
    (b.without slot).fill slot text = .ok b := by
  obtain ⟨file, heuristic, noHeuristic, policy, format, bind, config⟩ := b
  cases slot
  case file | config =>
    obtain ⟨shown, rfl⟩ : text.isEmpty = false ∧ SlotValue.path text = v := by
      simpa [ValueSlot.read?] using read
    obtain ⟨path, rfl, same⟩ := Option.map_eq_some_iff.mp held
    cases same
    simp [fill, isSet, without, shown]
  case clearPolicy | format =>
    obtain ⟨named, known, rfl⟩ := Option.map_eq_some_iff.mp read
    obtain ⟨kept, rfl, same⟩ := Option.map_eq_some_iff.mp held
    cases same
    simp [fill, isSet, without, known]

/-- What is kept of a command line. No option has two values, and no flag is given again while
it holds; the two flags for the heuristic end each other. -/
structure Fits (ms : List Mention) (a : Arguments) : Prop where
  values : ∀ slot, Gives slot.read? (texts slot ms) (a.value? slot)
  switched : ∀ on, a.isSwitched on = ((switches ms).getLast? == some on)
  alternate : (switches ms).IsChain (· ≠ ·)
  bind : ms.count .bind = a.bind.toNat

theorem noneFits : Fits [] a ↔ a = none := by
  constructor
  · intro fits
    have lacks (slot : ValueSlot) : a.value? slot = .none := by
      have gives := (fits.values slot).symm
      rw [texts, List.filterMap_nil, List.map_nil] at gives
      simpa using gives
    have file := lacks .file
    have config := lacks .config
    have policy := lacks .clearPolicy
    have format := lacks .format
    have on := fits.switched true
    have off := fits.switched false
    have bind := fits.bind
    obtain ⟨_, _, _, _, _, bound, _⟩ := a
    cases bound <;> simp_all [value?, isSwitched, switches, none]
  · rintro rfl
    refine ⟨fun slot => ?_, fun on => ?_, .nil, rfl⟩
    · cases slot <;> rfl
    · cases on <;> rfl

theorem valueFits {slot : ValueSlot} {text : String} : Fits (ms ++ [.value slot text]) b ↔
    Fits ms (b.without slot) ∧ ∃ v, slot.read? text = some v ∧ b.value? slot = some v := by
  have flags : switches (ms ++ [.value slot text]) = switches ms := by
    simp [switches, Mention.switch?]
  have bound : (ms ++ [Mention.value slot text]).count Mention.bind = ms.count Mention.bind := by
    simp
  have same : (b.without slot).bind = b.bind ∧
      ∀ on, (b.without slot).isSwitched on = b.isSwitched on := by
    cases slot <;> exact ⟨rfl, fun _ => rfl⟩
  have here : texts slot (ms ++ [.value slot text]) = texts slot ms ++ [text] := by
    simp [texts, Mention.text?]
  have there (other : ValueSlot) (apart : other ≠ slot) :
      texts other (ms ++ [.value slot text]) = texts other ms := by
    simp [texts, Mention.text?, apart.symm]
  constructor
  · rintro ⟨values, switched, alternate, bind⟩
    obtain ⟨lacks, read⟩ := givesSnoc.mp (here ▸ values slot)
    refine ⟨⟨fun other => ?_, fun on => ?_, flags ▸ alternate, ?_⟩, read⟩
    · rw [valueWithout]
      split
      · next at_slot => exact at_slot ▸ lacks
      · next apart => exact there other apart ▸ values other
    · rw [same.2, switched, flags]
    · rw [same.1, ← bind, bound]
  · rintro ⟨⟨values, switched, alternate, bind⟩, v, read, held⟩
    refine ⟨fun other => ?_, fun on => ?_, flags ▸ alternate, ?_⟩
    · have kept := values other
      rw [valueWithout] at kept
      by_cases at_slot : other = slot
      · subst at_slot
        rw [if_pos rfl] at kept
        rw [here, held]
        exact givesSnoc.mpr ⟨kept, v, read, rfl⟩
      · rwa [if_neg at_slot, ← there other at_slot] at kept
    · rw [← same.2, switched, flags]
    · rw [bound, bind, same.1]

theorem bindFits : Fits (ms ++ [.bind]) b ↔ Fits ms { b with bind := false } ∧ b.bind = true := by
  have others (slot : ValueSlot) : texts slot (ms ++ [.bind]) = texts slot ms := by
    simp [texts, Mention.text?]
  have flags : switches (ms ++ [.bind]) = switches ms := by
    simp [switches, Mention.switch?]
  have bound : (ms ++ [Mention.bind]).count Mention.bind = ms.count Mention.bind + 1 := by simp
  have same (slot : ValueSlot) : value? { b with bind := false } slot = b.value? slot := by
    cases slot <;> rfl
  constructor
  · rintro ⟨values, switched, alternate, bind⟩
    rw [bound] at bind
    cases given : b.bind with
    | false => simp [given] at bind
    | true =>
      refine ⟨⟨fun slot => ?_, fun on => ?_, flags ▸ alternate, ?_⟩, rfl⟩
      · rw [same, ← others]
        exact values slot
      · rw [← flags]
        exact switched on
      · simpa [given] using bind
  · rintro ⟨⟨values, switched, alternate, bind⟩, given⟩
    refine ⟨fun slot => ?_, fun on => ?_, flags ▸ alternate, ?_⟩
    · rw [others, ← same]
      exact values slot
    · rw [flags]
      exact switched on
    · rw [bound, bind, given]
      rfl

theorem lastSwitched (last : Option Bool) (on : Bool) :
    (a.switchedLast last).isSwitched on = (last == some on) := by
  cases on <;> rfl

theorem switchedValue (last : Option Bool) (slot : ValueSlot) :
    (a.switchedLast last).value? slot = a.value? slot := by
  cases slot <;> rfl

theorem lastKept {last : Option Bool} (switched : ∀ on, b.isSwitched on = (last == some on)) :
    b.switchedLast last = b := by
  have on : b.heuristic = _ := switched true
  have off : b.noHeuristic = _ := switched false
  rw [switchedLast, ← on, ← off]

theorem switchGiven (on : Bool) (a : Arguments) : a.mention (.switch on) =
    if a.isSwitched on then .error .argumentConflict else .ok (a.switchedLast (some on)) := by
  cases on <;> rfl

theorem switchFits {on : Bool} : Fits (ms ++ [.switch on]) b ↔
    ∃ a, Fits ms a ∧ a.mention (.switch on) = .ok b := by
  have others (slot : ValueSlot) : texts slot (ms ++ [.switch on]) = texts slot ms := by
    simp [texts, Mention.text?]
  have flags : switches (ms ++ [.switch on]) = switches ms ++ [on] := by
    simp [switches, Mention.switch?]
  have ends : (switches ms ++ [on]).getLast? = some on := by simp
  have bound : (ms ++ [Mention.switch on]).count Mention.bind = ms.count Mention.bind := by simp
  constructor
  · rintro ⟨values, switched, alternate, bind⟩
    rw [flags, List.isChain_append] at alternate
    rw [flags, ends] at switched
    obtain ⟨alternate, -, differs⟩ := alternate
    -- What held before is read off the mentions, since the flag that is set hides it.
    refine ⟨b.switchedLast (switches ms).getLast?,
      ⟨fun slot => ?_, lastSwitched _, alternate, bound ▸ bind⟩, ?_⟩
    · rw [switchedValue, ← others]
      exact values slot
    · have free : ¬ (b.switchedLast (switches ms).getLast?).isSwitched on = true := by
        rw [lastSwitched, beq_iff_eq]
        exact fun twice => differs on twice on rfl rfl
      rw [switchGiven, if_neg free]
      exact congrArg Except.ok (lastKept switched)
  · rintro ⟨a, ⟨values, switched, alternate, bind⟩, given⟩
    rw [switchGiven] at given
    split at given
    · cases given
    next free =>
    cases given
    refine ⟨fun slot => ?_, fun on' => ?_, ?_, bound ▸ bind⟩
    · rw [switchedValue, others]
      exact values slot
    · rw [flags, ends, lastSwitched]
    · rw [flags, List.isChain_append]
      refine ⟨alternate, .singleton _, ?_⟩
      rintro last before _ ⟨⟩ rfl
      rw [switched, before] at free
      simp at free

theorem bindGiven : a.mention .bind = .ok b ↔ a = { b with bind := false } ∧ b.bind = true := by
  rw [mention, set]
  constructor
  · intro given
    split at given
    · cases given
    next free =>
    cases given
    refine ⟨?_, rfl⟩
    exact congrArg (fun bind => { a with bind }) (Bool.not_eq_true _ ▸ free)
  · rintro ⟨rfl, given⟩
    exact congrArg (fun bind => Except.ok { b with bind }) given.symm

theorem snocFits {m : Mention} :
    Fits (ms ++ [m]) b ↔ ∃ a, Fits ms a ∧ a.mention m = .ok b := by
  match m with
  | .switch on => exact switchFits
  | .bind =>
    rw [bindFits]
    constructor
    · rintro ⟨fits, held⟩
      exact ⟨_, fits, bindGiven.mpr ⟨rfl, held⟩⟩
    · rintro ⟨a, fits, given⟩
      obtain ⟨rfl, held⟩ := bindGiven.mp given
      exact ⟨fits, held⟩
  | .value slot text =>
    rw [valueFits]
    constructor
    · rintro ⟨fits, v, read, held⟩
      exact ⟨_, fits, fillsBack read held⟩
    · rintro ⟨a, fits, filled⟩
      obtain ⟨rfl, told⟩ := filledFrom filled
      exact ⟨fits, told⟩

theorem mentionsFit : mentionAll none ms = .ok a ↔ Fits ms a := by
  -- From the end, since what is kept tells the last of the flags and not the first.
  induction ms using List.reverseRecOn generalizing a with
  | nil =>
    rw [noneFits]
    exact ⟨fun same => (Except.ok.inj same).symm, fun same => same ▸ rfl⟩
  | append_singleton ms m ih =>
    have last (a' : Arguments) : [m].foldlM mention a' = a'.mention m := by simp
    rw [snocFits, mentionAll, List.foldlM_append]
    constructor
    · intro ran
      obtain ⟨a', first, given⟩ := okBind ran
      exact ⟨a', ih.mp first, last a' ▸ given⟩
    · rintro ⟨a', fits, given⟩
      have first := ih.mpr fits
      rw [mentionAll] at first
      rw [first]
      exact (last a').trans given

structure Rearranged (others ms : List Mention) : Prop where
  same : others.Perm ms
  switches : switches others = switches ms

theorem Fits.rearranged {others : List Mention} (fits : Fits ms a)
    (moved : Rearranged others ms) : Fits others a where
  values slot := givesPermuted (fits.values slot) (moved.same.filterMap _)
  switched := moved.switches ▸ fits.switched
  alternate := moved.switches ▸ fits.alternate
  bind := (moved.same.count_eq _).trans fits.bind

structure Decides (ms : List Mention) (c : Config) (options : CompileOptions) : Prop where
  heuristic : options.heuristic = (switches ms).getLast?.getD c.heuristic
  once : (texts .clearPolicy ms).length ≤ 1
  policy : ∀ text ∈ texts .clearPolicy ms, ClearPolicy.parse? text = some options.clearPolicy
  filePolicy : texts .clearPolicy ms = [] → options.clearPolicy = c.clearPolicy

theorem Fits.policy (fits : Fits ms a) :
    (texts .clearPolicy ms = [] ∧ a.clearPolicy = .none) ∨
    ∃ text policy, texts .clearPolicy ms = [text] ∧ ClearPolicy.parse? text = some policy ∧
      a.clearPolicy = some policy := by
  have gives := fits.values .clearPolicy
  cases held : a.clearPolicy with
  | none =>
    rw [value?, held] at gives
    exact .inl ⟨List.map_eq_nil_iff.mp gives, rfl⟩
  | some policy =>
    rw [value?, held] at gives
    obtain ⟨text, rest, alone, read, none⟩ := List.map_eq_cons_iff.mp gives
    obtain rfl := List.map_eq_nil_iff.mp none
    obtain ⟨_, named, ⟨⟩⟩ := Option.map_eq_some_iff.mp read
    exact .inr ⟨text, policy, alone, named, rfl⟩

theorem Fits.decides (fits : Fits ms a) (c : Config) : Decides ms c (a.merge c).options where
  heuristic := by
    have on : a.heuristic = _ := fits.switched true
    have off : a.noHeuristic = _ := fits.switched false
    simp only [merge, on, off]
    cases (switches ms).getLast? with
    | none => rfl
    | some last => cases last <;> rfl
  once := by
    rcases fits.policy with ⟨none, -⟩ | ⟨text, _, one, -⟩
    · simp [none]
    · simp [one]
  policy text here := by
    rcases fits.policy with ⟨none, -⟩ | ⟨text', policy, one, named, held⟩
    · simp [none] at here
    · obtain rfl : text = text' := by simpa [one] using here
      rw [named, merge, held]
      rfl
  filePolicy none := by
    rcases fits.policy with ⟨-, lacks⟩ | ⟨text, _, one, -⟩
    · rw [merge, lacks]
      rfl
    · simp [one] at none

end Arguments

/-- Arguments that are accepted say something, and whatever they say decides the run. -/
theorem lastFlagWins {arguments : List String} {a : Arguments}
    (accepted : Arguments.parse arguments = .ok a) :
    (∃ ms, CommandLine arguments ms) ∧ ∀ ms, CommandLine arguments ms →
      (∀ c : Config, Arguments.Decides ms c (a.merge c).options) ∧
      ∀ moved others, CommandLine moved others → Arguments.Rearranged others ms →
        Arguments.parse moved = .ok a := by
  refine ⟨Arguments.parsedLine accepted, fun ms line => ?_⟩
  have fits := Arguments.mentionsFit.mp ((Arguments.lineParsed line).mp accepted)
  refine ⟨fits.decides, fun moved others line' rearranged => ?_⟩
  exact (Arguments.lineParsed line').mpr (Arguments.mentionsFit.mpr (fits.rearranged rearranged))

def mixedLine : List String :=
  ["--no-heuristic", "--format", "json", "--heuristic", "--clear-policy=all", "--config", "-",
    "--", "--no-heuristic"]

def mixedMentions : List Mention :=
  [.switch false, .value .format "json", .switch true, .value .clearPolicy "all",
    .value .config "-", .value .file "--no-heuristic"]

def movedLine : List String :=
  ["--config=-", "--no-heuristic", "--clear-policy", "all", "--heuristic", "--format=json", "--",
    "--no-heuristic"]

def mixedArguments : Arguments :=
  ⟨some "--no-heuristic", true, false, some .all, some .json, false, some "-"⟩

/-- A file may have the name of a flag. -/
theorem mixedDecided :
    Arguments.parse mixedLine = .ok mixedArguments ∧ CommandLine mixedLine mixedMentions ∧
    (∀ c : Config, Arguments.Decides mixedMentions c (mixedArguments.merge c).options) ∧
    Arguments.parse movedLine = .ok mixedArguments := by
  have accepted : Arguments.parse mixedLine = .ok mixedArguments := rfl
  have line : CommandLine mixedLine mixedMentions :=
    .flag rfl (.apart rfl (by decide) (.flag rfl
      (@CommandLine.joined .clearPolicy "--clear-policy" "all" _ _ rfl
        (.apart rfl (by decide) (.files ["--no-heuristic"])))))
  have moved : CommandLine movedLine
      [.value .config "-", .switch false, .value .clearPolicy "all", .switch true,
        .value .format "json", .value .file "--no-heuristic"] :=
    @CommandLine.joined .config "--config" "-" _ _ rfl
      (.flag rfl (.apart rfl (by decide) (.flag rfl
        (@CommandLine.joined .format "--format" "json" _ _ rfl (.files ["--no-heuristic"])))))
  obtain ⟨decides, again⟩ := (lastFlagWins accepted).2 mixedMentions line
  exact ⟨accepted, line, decides, again movedLine _ moved ⟨by decide, rfl⟩⟩

end KeyForm
