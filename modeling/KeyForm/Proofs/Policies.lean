import Mathlib.Data.List.Forall2
import KeyForm.Proofs.Acceptance
import KeyForm.Proofs.Overlay
/-! What the choice of a clear policy decides. Whether a form compiles, at which element it
fails and which entries it has do not depend on the policy; only after a clearing separator
are the settings of the leading section laid under the later ones or not. -/
namespace KeyForm

/-! A token is refused for the key that waits or for the context values before it. The
settings, which are all that a policy changes, never refuse one. -/

structure Level (a b : Assembly) : Prop where
  key : a.pendingKey = b.pendingKey
  positional : a.positional = b.positional
  defaults : a.defaults.isSome = b.defaults.isSome

namespace Level
variable {a b : Assembly} {policy policy' : ClearPolicy}

theorem checkPaired (h : Level a b) : a.checkPaired = b.checkPaired := by
  simp only [Assembly.checkPaired, h.key]

theorem endDefaults (h : Level a b) : Level a.endDefaults b.endDefaults := by
  have ended := h.defaults
  unfold Assembly.endDefaults
  cases left : a.defaults with
  | some _ =>
    cases right : b.defaults with
    | some _ => exact h
    | none => simp [left, right] at ended
  | none =>
    cases right : b.defaults with
    | some _ => simp [left, right] at ended
    | none => exact ⟨h.key, rfl, rfl⟩

theorem flush (h : Level a b) : Level a.flush b.flush := by
  unfold Assembly.flush
  split <;> split <;> exact ⟨h.key, h.positional, h.defaults⟩

theorem clear (h : Level a b) : Level (a.clear policy) (b.clear policy') := by
  cases policy <;> cases policy' <;> exact ⟨h.key, h.positional, h.defaults⟩

theorem setOption (h : Level a b) (token : Token) :
    Level (a.setOption token) (b.setOption token) := by
  have kept : ∀ c : Assembly, (c.setOption token).pendingKey = c.pendingKey ∧
      (c.setOption token).positional = c.positional ∧
      (c.setOption token).defaults = c.defaults := by
    intro c
    unfold Assembly.setOption
    split
    · exact ⟨rfl, rfl, rfl⟩
    · next spec _ => cases spec.kind <;> exact ⟨rfl, rfl, rfl⟩
  obtain ⟨key, positional, defaults⟩ := kept a
  obtain ⟨key', positional', defaults'⟩ := kept b
  exact ⟨by rw [key, key', h.key], by rw [positional, positional', h.positional],
    by rw [defaults, defaults', h.defaults]⟩

theorem addContext (h : Level a b) (token : Token) :
    Alike Eq Level (a.addContext token) (b.addContext token) := by
  unfold Assembly.addContext
  rw [h.positional]
  split
  · exact .ok ⟨h.key, rfl, h.defaults⟩
  · exact .ok ⟨h.key, rfl, h.defaults⟩
  · exact .error rfl

theorem apply (h : Level a b) (policy policy' : ClearPolicy) (token : Token) :
    Alike Eq Level (a.apply policy token) (b.apply policy' token) := by
  have paired : Alike Eq Eq a.checkPaired b.checkPaired := h.checkPaired ▸ .refl _
  unfold Assembly.apply
  cases token.kind with
  | contextValue => exact h.addContext token
  | optionName | extendedMarker =>
    exact paired.bind fun _ _ _ => .ok ⟨h.key, h.positional, h.defaults⟩
  | optionValue => exact .ok (h.setOption token)
  | sectionSeparator => exact paired.bind fun _ _ _ => .ok h.endDefaults.flush
  | clearingSeparator => exact paired.bind fun _ _ _ => .ok h.endDefaults.flush.clear
  | keyAtom => exact .ok ⟨rfl, h.endDefaults.positional, h.endDefaults.defaults⟩
  | definitionAtom =>
    simp only [h.key]
    cases b.pendingKey with
    | none => exact .error rfl
    | some _ => exact .ok ⟨rfl, h.positional, h.defaults⟩
  | extendedEntry =>
    exact paired.bind fun _ _ _ =>
      .ok ⟨h.endDefaults.key, h.endDefaults.positional, h.endDefaults.defaults⟩

theorem lay (h : Level a b) (policy policy' : ClearPolicy) (tokens : List Token) :
    Alike Eq Level (tokens.foldlM (Assembly.apply policy) a)
      (tokens.foldlM (Assembly.apply policy') b) := by
  induction tokens generalizing a b with
  | nil => exact .ok h
  | cons token rest ih =>
    simp only [List.foldlM_cons]
    exact (h.apply policy policy' token).bind fun _ _ next => ih next

theorem finish (h : Level a b) (policy policy' : ClearPolicy) (stream : TokenStream) :
    Alike Eq (fun _ _ => True) (finishBoth policy a stream) (finishBoth policy' b stream) := by
  refine (h.lay policy policy' _).bind fun a b last => ?_
  cases stream.failure with
  | some err => exact .error rfl
  | none =>
    have paired : Alike Eq Eq a.checkPaired b.checkPaired := last.checkPaired ▸ .refl _
    exact paired.bind fun _ _ _ => .ok trivial

end Level

theorem faultEither (registry : Registry) (heuristic : Bool) (policy policy' : ClearPolicy)
    (es : List Element) :
    Alike Eq (fun _ _ => True) (Compiler.compile ⟨registry, ⟨heuristic, policy⟩⟩ es)
      (Compiler.compile ⟨registry, ⟨heuristic, policy'⟩⟩ es) := by
  have begun : Level .start .start := ⟨rfl, rfl, rfl⟩
  exact begun.finish policy policy' (.ofForm registry (.choose heuristic es) es)

theorem compiledEither {registry : Registry} {heuristic : Bool} {policy : ClearPolicy}
    {es : List Element} {batches : List Batch}
    (ok : Compiler.compile ⟨registry, ⟨heuristic, policy⟩⟩ es = .ok batches)
    (policy' : ClearPolicy) :
    Compiler.compile ⟨registry, ⟨heuristic, policy'⟩⟩ es =
      .ok ((outline heuristic es).batches registry policy') := by
  cases separated : es.any Element.isSeparator with
  | true =>
    obtain ⟨o, rfl, form⟩ := separatedForm separated ok
    have cuts : outline heuristic o.elements = o := by simp [outline, separated, cutForm form]
    rw [cuts]
    exact separatedCompiles form
  | false =>
    obtain ⟨on, leading, body, rfl, form⟩ := inferredForm separated ok
    have on : heuristic = true := on
    have start := keyStartForm form.leading form.begins
    have cuts : outline heuristic (leading ++ body) = ⟨leading, [⟨false, body⟩]⟩ := by
      simp [outline, on, separated, start]
    rw [cuts]
    exact inferredCompiles on separated form

/-! Settings laid over those of the leading section. -/

structure Twin (defaults : Settings) (preserved all : Batch) : Prop where
  entries : preserved.entries = all.entries
  settings : preserved.settings = defaults.merge all.settings

section
variable (registry : Registry) (defaults : Settings)

theorem mergeAssigned (base : Settings) (name : String) (value : Element) :
    defaults.merge (assigned registry base name value) =
      assigned registry (defaults.merge base) name value := by
  unfold assigned
  split
  · split
    · exact defaults.mergeInsert base _
    · rfl
  · rfl

theorem mergeSection (base : Settings) (body : List Element) :
    defaults.merge (sectionSettings registry base body) =
      sectionSettings registry (defaults.merge base) body := by
  induction body using byItems generalizing base with
  | nil => rfl
  | option name value rest ih =>
    simp only [sectionSettings]
    rw [ih, mergeAssigned]
  | other e rest item ih =>
    rw [sectionSettings.eq_2 _ _ _ _ item, sectionSettings.eq_2 _ _ _ _ item, ih]

theorem batchTwin (all : Settings) (entries : List Entry) :
    List.Forall₂ (Twin defaults) (batchOf (defaults.merge all) entries)
      (batchOf all entries) := by
  unfold batchOf
  split
  · exact .nil
  · exact .cons ⟨rfl, rfl⟩ .nil

theorem sectionsTwin (all : Settings) (sections : List Section) :
    List.Forall₂ (Twin defaults)
      (sectionBatches registry .preserveDefaults defaults (defaults.merge all) sections)
      (sectionBatches registry .all defaults all sections) := by
  induction sections generalizing all with
  | nil => exact .nil
  | cons s rest ih =>
    have based : (if s.clearing then ClearPolicy.preserveDefaults.cleared defaults
        else defaults.merge all) =
        defaults.merge (if s.clearing then ClearPolicy.all.cleared defaults else all) := by
      split
      · exact defaults.mergeEmpty.symm
      · rfl
    simp only [sectionBatches]
    rw [based, ← mergeSection]
    exact List.rel_append (batchTwin defaults _ _) (ih _)

theorem earlyBatches (policy : ClearPolicy) (before : Settings) (sections : List Section) :
    sectionBatches registry .all defaults before (sections.takeWhile fun s => !s.clearing) <+:
      sectionBatches registry policy defaults before sections := by
  induction sections generalizing before with
  | nil => exact List.prefix_rfl
  | cons s rest ih =>
    cases clearing : s.clearing with
    | true =>
      rw [List.takeWhile_cons_of_neg (by simp [clearing])]
      exact List.nil_prefix
    | false =>
      rw [List.takeWhile_cons_of_pos (by simp [clearing])]
      simp only [sectionBatches, clearing]
      exact (List.prefix_append_right_inj _).mpr (ih _)

end

def Outline.early (o : Outline) : Outline :=
  { o with sections := o.sections.takeWhile fun s => !s.clearing }

structure PolicyTwins (registry : Registry) (o : Outline) (preserved all : List Batch) :
    Prop where
  batches : List.Forall₂ (Twin (leadingSettings registry [] .empty o.leading)) preserved all
  early : o.early.batches registry .all <+: preserved ∧ o.early.batches registry .all <+: all
  empty : leadingSettings registry [] .empty o.leading = .empty → preserved = all

theorem outlineTwins (registry : Registry) (o : Outline) :
    PolicyTwins registry o (o.batches registry .preserveDefaults) (o.batches registry .all) := by
  have twins := sectionsTwin registry (leadingSettings registry [] .empty o.leading)
    (leadingSettings registry [] .empty o.leading) o.sections
  rw [Catalog.mergeSelf] at twins
  refine ⟨twins, ⟨earlyBatches registry _ _ _ _, earlyBatches registry _ _ _ _⟩, ?_⟩
  intro empty
  simp only [Outline.batches, empty] at twins ⊢
  refine List.forall₂_eq_eq_eq ▸ twins.imp ?_
  rintro ⟨settings, entries⟩ ⟨settings', entries'⟩ ⟨same, merged⟩
  have laid : settings = settings' := merged.trans (Catalog.emptyMerge settings')
  rw [laid, show entries = entries' from same]

theorem policiesDiffer (registry : Registry) (heuristic : Bool) (es : List Element) :
    Alike Eq (PolicyTwins registry (outline heuristic es))
      (Compiler.compile ⟨registry, ⟨heuristic, .preserveDefaults⟩⟩ es)
      (Compiler.compile ⟨registry, ⟨heuristic, .all⟩⟩ es) := by
  cases ran : Compiler.compile ⟨registry, ⟨heuristic, .preserveDefaults⟩⟩ es with
  | ok batches =>
    have preserved := compiledEither ran .preserveDefaults
    rw [ran] at preserved
    rw [compiledEither ran .all, preserved]
    exact .ok (outlineTwins registry _)
  | error e =>
    have same := faultEither registry heuristic .preserveDefaults .all es
    rw [ran] at same
    generalize Compiler.compile ⟨registry, ⟨heuristic, .all⟩⟩ es = other at same ⊢
    cases same with
    | error h => exact .error h

end KeyForm
