import KeyForm.Proofs.OnePass
import KeyForm.Proofs.Overlay
/-! Adding options to a registry. An option that is refused leaves the registry as it was,
and one that is added is found under its own name only. So a form which does not use the
new name is read as before: of all that can happen to it only the suggestion for an unknown
name may change. -/
namespace KeyForm

namespace Registry
variable {r r' : Registry} {spec : OptionSpec}

def offer (r : Registry) (spec : OptionSpec) : Registry :=
  match r.register spec with
  | .ok r' => r'
  | .error _ => r

def offerAll (r : Registry) (specs : List OptionSpec) : Registry := specs.foldl offer r

theorem registered (added : r.register spec = .ok r') :
    r.get? spec.name = none ∧ r' = r.insert spec := by
  unfold register at added
  split at added
  · cases added
  split at added
  · cases added
  next free =>
  cases added
  simpa [Catalog.contains] using free

theorem getRegistered (added : r.register spec = .ok r') (key : String) :
    r'.get? key = if spec.name = key then some spec else r.get? key := by
  rw [(registered added).2, Catalog.getInsert]

theorem registeredKeeps (added : r.register spec = .ok r') {key : String} {known : OptionSpec}
    (found : r.get? key = some known) : r'.get? key = some known := by
  have other : spec.name ≠ key := by
    rintro rfl
    rw [(registered added).1] at found
    cases found
  rw [getRegistered added, if_neg other, found]

theorem offerKeeps {key : String} {known : OptionSpec} (found : r.get? key = some known)
    (spec : OptionSpec) : (r.offer spec).get? key = some known := by
  unfold offer
  split
  · exact registeredKeeps ‹_› found
  · exact found

theorem offerAllKeeps {key : String} {known : OptionSpec} (found : r.get? key = some known)
    (specs : List OptionSpec) : (r.offerAll specs).get? key = some known := by
  induction specs generalizing r with
  | nil => exact found
  | cons spec rest ih => exact ih (offerKeeps found spec)

end Registry

def Undisturbed {α : Type} (added : String) (before after : Except CompileError α) : Prop :=
  match before with
  | .error (.unknownOption index name _) =>
    name ≠ added → ∃ known, after = .error (.unknownOption index name known)
  | .error (.malformed _ _) | .error (.unpairedKey _ _) | .ok _ => after = before

namespace Undisturbed
variable {α β : Type} {added : String}

theorem refl (x : Except CompileError α) : Undisturbed added x x := by
  match x with
  | .error (.unknownOption _ _ known) => exact fun _ => ⟨known, rfl⟩
  | .error (.malformed _ _) | .error (.unpairedKey _ _) | .ok _ => rfl

theorem bind {x y : Except CompileError α} {f g : α → Except CompileError β}
    (first : Undisturbed added x y) (next : ∀ a, Undisturbed added (f a) (g a)) :
    Undisturbed added (x >>= f) (y >>= g) := by
  match x with
  | .error (.unknownOption _ _ _) =>
    intro other
    obtain ⟨known, rfl⟩ := first other
    exact ⟨known, rfl⟩
  | .error (.malformed _ _) | .error (.unpairedKey _ _) =>
    obtain rfl : y = _ := first
    rfl
  | .ok a =>
    obtain rfl : y = _ := first
    exact next a

end Undisturbed

section
variable {r r' : Registry} {spec : OptionSpec} {policy : ClearPolicy} {strategy : Strategy}
variable {index : Nat} {e : Element}

theorem nameUndisturbed (added : r.register spec = .ok r') (name : String)
    (next : OptionSpec → Except CompileError Walk) :
    Undisturbed spec.name (Walk.takeName r index name next)
      (Walk.takeName r' index name next) := by
  unfold Walk.takeName
  cases found : r.get? name with
  | some known =>
    rw [Registry.registeredKeeps added found]
    exact .refl _
  | none =>
    intro other
    rw [Registry.getRegistered added, if_neg other.symm, found]
    exact ⟨_, rfl⟩

theorem leadingUndisturbed (added : r.register spec = .ok r') (live : Settings)
    (positional : List Element) :
    Undisturbed spec.name
      (Walk.leadingStep ⟨r, policy, strategy⟩ live positional index e)
      (Walk.leadingStep ⟨r', policy, strategy⟩ live positional index e) := by
  cases e with
  | keyword name => exact nameUndisturbed added name _
  | _ => exact .refl _

theorem itemUndisturbed (added : r.register spec = .ok r') (live : Settings) (y : Yield)
    (x : Bool) :
    Undisturbed spec.name (Walk.itemStep ⟨r, policy, strategy⟩ live y x index e)
      (Walk.itemStep ⟨r', policy, strategy⟩ live y x index e) := by
  cases e with
  | keyword name => exact nameUndisturbed added name _
  | _ => exact .refl _

theorem definitionUndisturbed (added : r.register spec = .ok r') (live : Settings) (y : Yield)
    (place : Nat) (key : Element) :
    Undisturbed spec.name
      (Walk.definitionStep ⟨r, policy, strategy⟩ live y place key index e)
      (Walk.definitionStep ⟨r', policy, strategy⟩ live y place key index e) := by
  cases e with
  | keyword name => exact nameUndisturbed added name _
  | _ => exact .refl _

/-- A value has its option with it, so it is judged without the registry. -/
theorem stepUndisturbed (added : r.register spec = .ok r') (w : Walk) :
    Undisturbed spec.name (w.step ⟨r, policy, strategy⟩ index e)
      (w.step ⟨r', policy, strategy⟩ index e) := by
  obtain ⟨live, stage⟩ := w
  match stage with
  | .leading positional none => exact leadingUndisturbed added live positional
  | .keys y .key => exact itemUndisturbed added live y false
  | .keys y .entry => exact itemUndisturbed added live y true
  | .keys y (.definition place key) => exact definitionUndisturbed added live y place key
  | .leading _ (some _) | .keys _ (.value _ _ _) => exact .refl _

theorem runUndisturbed (added : r.register spec = .ok r') (w : Walk) (es : List Element) :
    Undisturbed spec.name (w.run ⟨r, policy, strategy⟩ index es)
      (w.run ⟨r', policy, strategy⟩ index es) := by
  induction es generalizing w index with
  | nil => exact .refl _
  | cons e rest ih => exact (stepUndisturbed added w).bind fun next => ih next

end

theorem registeringUndisturbed {r r' : Registry} {spec : OptionSpec}
    (added : r.register spec = .ok r') (options : CompileOptions) (es : List Element) :
    Undisturbed spec.name (Compiler.compile ⟨r, options⟩ es)
      (Compiler.compile ⟨r', options⟩ es) := by
  rw [compileWalks, compileWalks]
  exact runUndisturbed added .start es

def nearbyOption : OptionSpec := .setting "prefixes" .any "Several prefixes"

def misspelledForm : List Element := [.separator, .keyword "prefixed", .str "x"]

def acceptedForm : List Element :=
  [.symbol "m", .separator, .keyword "prefix", .str "x", .str "a", .symbol "f"]

def acceptedBatches : List Batch :=
  [⟨(Settings.set .empty keymapsName (.list [.symbol "m"])).set "prefix" (.str "x"),
    [.plain (.str "a") (.symbol "f")]⟩]

/-- The unknown name has another nearest name than before, and is as unknown. -/
theorem nearbyUndisturbed :
    Registry.register .builtin nearbyOption = .ok (Registry.builtin.insert nearbyOption) ∧
    Registry.suggest .builtin "prefixed" = some "prefix" ∧
    Registry.suggest (Registry.builtin.insert nearbyOption) "prefixed" = some "prefixes" ∧
    Undisturbed "prefixes"
      (Compiler.compile ⟨.builtin, ⟨false, .all⟩⟩ misspelledForm)
      (Compiler.compile ⟨Registry.builtin.insert nearbyOption, ⟨false, .all⟩⟩ misspelledForm) ∧
    Compiler.compile ⟨.builtin, ⟨false, .all⟩⟩ misspelledForm =
      .error (.unknownOption 1 "prefixed" (some "prefix")) ∧
    Compiler.compile ⟨Registry.builtin.insert nearbyOption, ⟨false, .all⟩⟩ misspelledForm =
      .error (.unknownOption 1 "prefixed" (some "prefixes")) ∧
    Compiler.compile ⟨Registry.builtin.insert nearbyOption, ⟨false, .all⟩⟩ acceptedForm =
      .ok acceptedBatches := by
  have added : Registry.register .builtin nearbyOption =
      .ok (Registry.builtin.insert nearbyOption) := rfl
  have refused : Compiler.compile ⟨.builtin, ⟨false, .all⟩⟩ misspelledForm =
      .error (.unknownOption 1 "prefixed" (some "prefix")) := by decide +kernel
  have nearer : Registry.suggest (Registry.builtin.insert nearbyOption) "prefixed" =
      some "prefixes" := by decide +kernel
  have accepted : Compiler.compile ⟨.builtin, ⟨false, .all⟩⟩ acceptedForm =
      .ok acceptedBatches := rfl
  have misspelled := registeringUndisturbed added ⟨false, .all⟩ misspelledForm
  have kept := registeringUndisturbed added ⟨false, .all⟩ acceptedForm
  rw [accepted] at kept
  exact ⟨added, by decide +kernel, nearer, misspelled, refused, by decide +kernel, kept⟩

end KeyForm
