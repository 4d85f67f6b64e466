import KeyForm.Proofs.ReadBack
import KeyForm.Proofs.RegistryContents
import KeyForm.Proofs.Suggestions
/-! Option names in the text of a form. The names in a registry have no blanks and do not begin
with a colon. In a text a bracket, a quote or a semicolon ends a name as a blank does, so an
option can be written exactly if its name has none of these marks in it. -/
namespace KeyForm

def nameMarks : List Char := ['(', ')', '[', ']', '"', ';']

theorem delimiterIff {c : Char} : isDelimiter c = true ↔ isBlank c = true ∨ c ∈ nameMarks := by
  simp [isDelimiter, nameMarks, or_assoc]

theorem fitNamed {name : String} (fit : ¬ Unfit name) :
    isName name.toList = true ↔ ∀ c ∈ name.toList, c ∉ nameMarks := by
  obtain ⟨filled, -, visible⟩ : name ≠ "" ∧ _ ∧ ¬ ∃ c ∈ name.toList, isBlank c = true := by
    simpa only [Unfit, not_or] using fit
  have plain (c) (here : c ∈ name.toList) : isDelimiter c = false ↔ c ∉ nameMarks := by
    have seen : ¬ isBlank c = true := fun blank => visible ⟨c, here, blank⟩
    rw [← Bool.not_eq_true, delimiterIff, not_or]
    exact and_iff_right seen
  constructor
  · intro valid c here
    exact (plain c here).mp ((Reader.nameDelimits valid).2 c here)
  · intro clear
    have whole : ∀ c ∈ name.toList, isDelimiter c = false := fun c here =>
      (plain c here).mpr (clear c here)
    simpa [isName, filled] using whole

theorem keywordRead {name : String} :
    readForm (":" ++ name) = .ok [.keyword name] ↔ isName name.toList = true := by
  have text : ":" ++ name = formText [.keyword name] := by
    apply String.toList_injective
    simp [formText, Element.spaced, Element.spacedRest, Element.chars]
  constructor
  · intro read
    exact readReadable read _ List.mem_cons_self
  · intro valid
    rw [text]
    exact Reader.readFormText (by simpa [Element.readable] using valid)

namespace Registry

theorem offeredFit {start : Registry} (fit : ∀ name ∈ start.names, ¬ Unfit name)
    {specs : List OptionSpec} {name : String}
    (held : (start.offerAll specs).contains name = true) : ¬ Unfit name := by
  rw [Catalog.contains, getOfferedAll, Option.isSome_or, Bool.or_eq_true] at held
  rcases held with known | added
  · exact fit name (containsName.mp known)
  · obtain ⟨spec, found⟩ := Option.isSome_iff_exists.mp added
    obtain ⟨accepted, rfl⟩ : ¬ Unfit spec.name ∧ spec.name = name := by
      simpa using List.find?_some found
    exact accepted

theorem startFit {start : Registry} (initial : start = .empty ∨ start = .builtin) :
    ∀ name ∈ start.names, ¬ Unfit name := by
  rcases initial with rfl | rfl
  · exact nofun
  · have fit : Registry.builtin.names.all isOptionName = true := rfl
    exact fun name here => fitIff.mp (List.all_eq_true.mp fit name here)

end Registry

/-- The one way to write an option works if any text at all gives it. -/
theorem optionsWritten {start : Registry} (initial : start = .empty ∨ start = .builtin)
    (specs : List OptionSpec) {name : String}
    (held : (start.offerAll specs).contains name = true) :
    (readForm (":" ++ name) = .ok [.keyword name] ↔ ∀ c ∈ name.toList, c ∉ nameMarks) ∧
    ((∃ source es, readForm source = .ok es ∧ .keyword name ∈ es) ↔
      ∀ c ∈ name.toList, c ∉ nameMarks) := by
  have fit := Registry.offeredFit (Registry.startFit initial) held
  rw [keywordRead, fitNamed fit]
  refine ⟨Iff.rfl, ?_, ?_⟩
  · rintro ⟨source, es, read, here⟩
    exact (fitNamed fit).mp (readReadable read _ here)
  · intro clear
    exact ⟨_, _, keywordRead.mpr ((fitNamed fit).mpr clear), List.mem_cons_self⟩

def repeatOption : OptionSpec := .setting "repeat?" .boolean "Whether the keys repeat"

theorem repeatWritten :
    (Registry.builtin.offerAll [repeatOption]).contains "repeat?" = true ∧
    readForm ":repeat?" = .ok [.keyword "repeat?"] := by
  have held : (Registry.builtin.offerAll [repeatOption]).contains "repeat?" = true := rfl
  exact ⟨held, (optionsWritten (.inr rfl) [repeatOption] held).1.mpr (by simp [nameMarks])⟩

def bracketOption : OptionSpec := .setting "a(b" .any "An option with a bracket in its name"

theorem bracketUnwritten :
    Registry.register .empty bracketOption = .ok (Catalog.empty.insert bracketOption) ∧
    (Registry.offerAll .empty [bracketOption]).contains "a(b" = true ∧
    readForm ":a(b" = .error ⟨⟨1, 3⟩, .openSequence .round⟩ ∧
    ¬ ∃ source es, readForm source = .ok es ∧ .keyword "a(b" ∈ es := by
  refine ⟨rfl, rfl, rfl, ?_⟩
  rintro ⟨source, es, read, here⟩
  exact absurd (readReadable read _ here) (by decide)

end KeyForm
