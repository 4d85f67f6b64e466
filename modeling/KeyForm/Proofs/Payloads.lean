import KeyForm.Proofs.Contents
import KeyForm.Proofs.Replacement
/-! What comes of new elements in the batches. They are carried along as they are, so a new
payload changes no setting, and the new value of a setting no entry and no name; and every
payload of a form stands in its entries once, in the order of the form. -/
namespace KeyForm

structure SettingsAlike (free : Bool) (s s' : Settings) : Prop where
  names : s.names = s'.names
  fixed : free = false → s = s'

structure EntryAlike (free : Bool) (e e' : Entry) : Prop where
  form : e.isExtended = e'.isExtended
  fixed : free = false → e = e'

structure BatchAlike (payloads values : Bool) (b b' : Batch) : Prop where
  settings : SettingsAlike values b.settings b'.settings
  entries : List.Forall₂ (EntryAlike payloads) b.entries b'.entries

structure Matched (payloads values : Bool) (a a' : Assembly) : Prop where
  live : SettingsAlike values a.live a'.live
  defaults : Option.Rel (SettingsAlike values) a.defaults a'.defaults
  positional : a.positional = a'.positional
  entries : List.Forall₂ (EntryAlike payloads) a.entries a'.entries
  key : Option.Rel (fun k k' => payloads = false → k.2 = k'.2) a.pendingKey a'.pendingKey
  option : a.pendingOption = a'.pendingOption
  batches : List.Forall₂ (BatchAlike payloads values) a.batches a'.batches

abbrev Fitting {α β : Type} (values : α → β → Prop) :
    Except CompileError α → Except CompileError β → Prop :=
  Alike (fun _ _ => True) values

section
variable {payloads values : Bool} {token : Token} {e : Element}

theorem SettingsAlike.refl (s : Settings) : SettingsAlike values s s := ⟨rfl, fun _ => rfl⟩

theorem SettingsAlike.set {s s' : Settings} (h : SettingsAlike values s s') (name : String)
    {value value' : Element} (fixed : values = false → value = value') :
    SettingsAlike values (s.set name value) (s'.set name value') where
  names := Catalog.namesInsert rfl h.names
  fixed free := by rw [h.fixed free, fixed free]

theorem Replaces.payloadFixed (new : Replaces payloads values token e)
    (kind : token.kind.isPayload = true) (free : payloads = false) : token.element = e := by
  cases new with
  | same => rfl
  | payload free' => simp [free] at free'
  | value _ new => cases new; simp [TokenKind.isPayload, *] at kind

theorem Replaces.valueFixed (new : Replaces payloads values token e)
    (kind : token.kind.isPayload = false) (free : values = false) : token.element = e := by
  cases new with
  | same => rfl
  | payload _ new => cases new <;> simp [TokenKind.isPayload, *] at kind
  | value free' => simp [free] at free'

theorem Replaces.contextFixed (new : Replaces payloads values token e)
    (kind : token.kind = .contextValue) : token.element = e := by
  cases new with
  | same => rfl
  | payload _ new => cases new <;> simp [*] at kind
  | value _ new => cases new; simp [*] at kind

namespace Matched
variable {a a' : Assembly}

theorem checkPaired (h : Matched payloads values a a') :
    Fitting Eq a.checkPaired a'.checkPaired := by
  have key := h.key
  unfold Assembly.checkPaired
  generalize a.pendingKey = k at key ⊢
  generalize a'.pendingKey = k' at key ⊢
  cases key with
  | none => exact .ok rfl
  | some => exact .error trivial

theorem endDefaults (h : Matched payloads values a a') :
    Matched payloads values a.endDefaults a'.endDefaults := by
  have ended := h.defaults
  unfold Assembly.endDefaults
  cases left : a.defaults with
  | some _ =>
    cases right : a'.defaults with
    | some _ => exact h
    | none => simp [left, right] at ended
  | none =>
    cases right : a'.defaults with
    | some _ => simp [left, right] at ended
    | none => exact { h with defaults := .some h.live, positional := rfl }

theorem flush (h : Matched payloads values a a') :
    Matched payloads values a.flush a'.flush := by
  have entries := h.entries
  unfold Assembly.flush
  cases left : a.entries with
  | nil =>
    rw [left] at entries
    cases right : a'.entries with
    | nil => simpa using h
    | cons _ _ => rw [right] at entries; cases entries
  | cons _ _ =>
    rw [left] at entries
    cases right : a'.entries with
    | nil => rw [right] at entries; cases entries
    | cons _ _ =>
      have batch : BatchAlike payloads values ⟨a.live, a.entries⟩ ⟨a'.live, a'.entries⟩ :=
        ⟨h.live, h.entries⟩
      rw [left, right] at batch
      exact { h with entries := .nil, batches := List.rel_append h.batches (.cons batch .nil) }

theorem clear (h : Matched payloads values a a') (policy : ClearPolicy) :
    Matched payloads values (a.clear policy) (a'.clear policy) := by
  cases policy with
  | all => exact { h with live := .refl .empty }
  | preserveDefaults =>
    refine { h with live := ?_ }
    have ended := h.defaults
    show SettingsAlike values (a.defaults.getD .empty) (a'.defaults.getD .empty)
    generalize a.defaults = d at ended ⊢
    generalize a'.defaults = d' at ended ⊢
    cases ended with
    | none => exact .refl .empty
    | some alike => exact alike

theorem setOption (h : Matched payloads values a a') (new : Replaces payloads values token e)
    (kind : token.kind = .optionValue) :
    Matched payloads values (a.setOption token) (a'.setOption (token.with e)) := by
  have fixed := new.valueFixed (by rw [kind]; rfl)
  unfold Assembly.setOption
  rw [← h.option, show (token.with e).option = token.option from rfl]
  cases a.pendingOption <|> token.option with
  | none => exact h
  | some spec =>
    cases marker : spec.kind with
    | extendedMarker => simpa [marker] using { h with option := rfl }
    | setting =>
      simp only [marker]
      have live := h.live.set spec.name fun free => congrArg spec.normalize (fixed free)
      exact { h with live := live, option := rfl }

theorem addContext (h : Matched payloads values a a') (token : Token) :
    Fitting (Matched payloads values) (a.addContext token) (a'.addContext token) := by
  unfold Assembly.addContext
  rw [← h.positional]
  split
  · exact .ok { h with positional := rfl, live := h.live.set _ fun _ => rfl }
  · exact .ok { h with
      positional := rfl, live := (h.live.set _ fun _ => rfl).set _ fun _ => rfl }
  · exact .error trivial

theorem apply (h : Matched payloads values a a') (policy : ClearPolicy)
    (new : Replaces payloads values token e) :
    Fitting (Matched payloads values) (a.apply policy token)
      (a'.apply policy (token.with e)) := by
  have paired := h.checkPaired
  have fixed := new.payloadFixed
  unfold Assembly.apply
  rw [show (token.with e).kind = token.kind from rfl]
  cases kind : token.kind with
  | contextValue =>
    obtain rfl := new.contextFixed kind
    exact h.addContext token
  | optionName | extendedMarker =>
    exact paired.bind fun _ _ _ => .ok { h with option := rfl }
  | optionValue => exact .ok (h.setOption new kind)
  | sectionSeparator => exact paired.bind fun _ _ _ => .ok h.endDefaults.flush
  | clearingSeparator => exact paired.bind fun _ _ _ => .ok (h.endDefaults.flush.clear policy)
  | keyAtom =>
    rw [kind] at fixed
    exact .ok { h.endDefaults with key := .some (fixed rfl) }
  | definitionAtom =>
    rw [kind] at fixed
    have key := h.key
    simp only
    generalize a.pendingKey = k at key ⊢
    generalize a'.pendingKey = k' at key ⊢
    cases key with
    | none => exact .error trivial
    | @some k k' same =>
      have entry : EntryAlike payloads (.plain k.2 token.element) (.plain k'.2 e) :=
        ⟨rfl, fun free => by rw [same free, fixed rfl free]⟩
      exact .ok { h with key := .none, entries := List.rel_append h.entries (.cons entry .nil) }
  | extendedEntry =>
    rw [kind] at fixed
    have entry : EntryAlike payloads (.extended token.element) (.extended e) :=
      ⟨rfl, fun free => congrArg _ (fixed rfl free)⟩
    exact paired.bind fun _ _ _ => .ok { h.endDefaults with
      option := rfl, entries := List.rel_append h.endDefaults.entries (.cons entry .nil) }

theorem lay (h : Matched payloads values a a') (policy : ClearPolicy)
    {tokens : List (Token × Classifier)} {es : List Element}
    (new : List.Forall₂ (Replaces payloads values) (tokens.map Prod.fst) es) :
    Fitting (Matched payloads values)
      ((tokens.map Prod.fst).foldlM (Assembly.apply policy) a)
      (((replacedTokens tokens es).map Prod.fst).foldlM (Assembly.apply policy) a') := by
  induction tokens generalizing a a' es with
  | nil =>
    cases new
    exact .ok h
  | cons p rest ih =>
    cases new with
    | cons here others =>
      simp only [List.map_cons, List.foldlM_cons, replacedTokens, List.zipWith_cons_cons]
      exact (h.apply policy here).bind fun _ _ next => ih next others

theorem finish (h : Matched payloads values a a') :
    Fitting (List.Forall₂ (BatchAlike payloads values)) a.finish a'.finish :=
  h.checkPaired.bind fun _ _ _ => .ok h.flush.batches

end Matched
end

/-! The payloads of a form, in the order in which they stand in it. -/

def payloadsAt (tokens : List Token) (es : List Element) : List Element :=
  ((tokens.zip es).filter fun p => p.1.kind.isPayload).map Prod.snd

def Batch.parts (b : Batch) : List Element := b.entries.flatMap Entry.parts

namespace Assembly

def laid (a : Assembly) : List Element :=
  a.batches.flatMap Batch.parts ++ a.entries.flatMap Entry.parts ++
    (a.pendingKey.map Prod.snd).toList

theorem endDefaultsLaid (a : Assembly) : a.endDefaults.laid = a.laid := by
  unfold endDefaults
  split <;> rfl

theorem flushLaid (a : Assembly) : a.flush.laid = a.laid := by
  unfold flush
  split
  · rfl
  · simp [laid, Batch.parts]

theorem clearLaid (policy : ClearPolicy) (a : Assembly) : (a.clear policy).laid = a.laid := by
  cases policy <;> rfl

theorem setOptionLaid (a : Assembly) (token : Token) : (a.setOption token).laid = a.laid := by
  unfold setOption
  split
  · rfl
  · next spec _ => cases spec.kind <;> rfl

theorem addContextLaid {a a' : Assembly} {token : Token} (added : a.addContext token = .ok a') :
    a'.laid = a.laid := by
  unfold addContext at added
  split at added
  · cases added; rfl
  · cases added; rfl
  · cases added

theorem laidFree {a : Assembly} (free : a.pendingKey = none) :
    a.laid = a.batches.flatMap Batch.parts ++ a.entries.flatMap Entry.parts := by
  simp [laid, free]

theorem applyLaid {policy : ClearPolicy} {a a' : Assembly} {token : Token}
    (applied : a.apply policy token = .ok a')
    (unpaired : token.kind = .keyAtom → a.pendingKey = none) :
    a'.laid = a.laid ++ if token.kind.isPayload then [token.element] else [] := by
  unfold apply at applied
  cases kind : token.kind with
  | contextValue =>
    simp only [kind] at applied
    simpa [TokenKind.isPayload] using addContextLaid applied
  | optionName | extendedMarker =>
    simp only [kind] at applied
    obtain ⟨_, _, done⟩ := okBind applied
    cases done
    simp [TokenKind.isPayload, laid]
  | optionValue =>
    simp only [kind] at applied
    cases applied
    simpa [TokenKind.isPayload] using a.setOptionLaid token
  | sectionSeparator =>
    simp only [kind] at applied
    obtain ⟨_, _, done⟩ := okBind applied
    cases done
    simp [TokenKind.isPayload, flushLaid, endDefaultsLaid]
  | clearingSeparator =>
    simp only [kind] at applied
    obtain ⟨_, _, done⟩ := okBind applied
    cases done
    simp [TokenKind.isPayload, clearLaid, flushLaid, endDefaultsLaid]
  | keyAtom =>
    simp only [kind] at applied
    cases applied
    have free : a.endDefaults.pendingKey = none :=
      (endDefaultsKeeps a).key.trans (unpaired kind)
    rw [← a.endDefaultsLaid, laidFree free]
    simp [TokenKind.isPayload, laid]
  | definitionAtom =>
    simp only [kind] at applied
    split at applied
    · cases applied
    · next key =>
      cases applied
      simp [TokenKind.isPayload, laid, key, Entry.parts]
  | extendedEntry =>
    simp only [kind] at applied
    obtain ⟨_, checked, done⟩ := okBind applied
    cases done
    have free : a.endDefaults.pendingKey = none :=
      (endDefaultsKeeps a).freed checked
    rw [← a.endDefaultsLaid, laidFree free]
    simp [TokenKind.isPayload, laid, free, Entry.parts]

end Assembly

def payloadsOf (tokens : List Token) : List Element :=
  (tokens.filter fun t => t.kind.isPayload).map Token.element

theorem tokensLaid (rules : Rules) {w : Walk} {c : Classifier} {a a' : Assembly} {index : Nat}
    {es : List Element} (h : LockStep w c a) (bound : a.positional.length ≤ 2)
    (applied : ((TokenStream.scan rules.registry rules.strategy c index es).tokens.map
      Prod.fst).foldlM (Assembly.apply rules.policy) a = .ok a') :
    a'.laid = a.laid ++ payloadsOf
      ((TokenStream.scan rules.registry rules.strategy c index es).tokens.map Prod.fst) := by
  induction es generalizing w c a index with
  | nil =>
    cases applied
    simp [TokenStream.scan, payloadsOf]
  | cons e rest ih =>
    simp only [TokenStream.scan] at applied ⊢
    cases step : c.step rules.registry rules.strategy index e with
    | error err =>
      rw [step] at applied
      cases applied
      simp [payloadsOf]
    | ok p =>
      obtain ⟨token, next⟩ := p
      simp only [step, List.map_cons, List.foldlM_cons] at applied ⊢
      obtain ⟨a₁, here, later⟩ := okBind applied
      obtain ⟨w₁, locked⟩ := stepLocked h step here
      have unpaired : token.kind = .keyAtom → a.pendingKey = none := by
        intro kind
        obtain ⟨_, even, _⟩ := (Taken.ofStep step).opensPair kind
        have pairing := (lockedCoupled h bound).pairing
        cases key : a.pendingKey with
        | none => rfl
        | some _ =>
          have odd := pairing.mpr (by simp [key])
          omega
      rw [ih locked (appliedKey here bound).2 later, Assembly.applyLaid here unpaired]
      cases payload : token.kind.isPayload <;> simp [payloadsOf, payload]

theorem payloadsWith (tokens : List Token) (es : List Element) :
    payloadsOf (tokens.zipWith Token.with es) = payloadsAt tokens es := by
  induction tokens generalizing es with
  | nil => rfl
  | cons token rest ih =>
    cases es with
    | nil => rfl
    | cons e later =>
      have kind : (token.with e).kind = token.kind := rfl
      have tail := ih later
      unfold payloadsOf payloadsAt at tail ⊢
      rw [List.zipWith_cons_cons, List.zip_cons_cons, List.filter_cons, List.filter_cons, kind]
      cases token.kind.isPayload with
      | false => exact tail
      | true => exact congrArg (e :: ·) tail

theorem payloadsReplaced (tokens : List (Token × Classifier)) (es : List Element) :
    payloadsOf ((replacedTokens tokens es).map Prod.fst) =
      payloadsAt (tokens.map Prod.fst) es := by
  rw [← payloadsWith, replacedTokens, List.map_zipWith, List.zipWith_map_left]

theorem compiledFinish {c : Compiler} {es : List Element} {batches : List Batch}
    (ok : c.compile es = .ok batches) : (c.classify es).failure = none ∧
      ∃ a, c.assemble ((c.classify es).tokens.map Prod.fst) = .ok a ∧ a.finish = .ok batches := by
  obtain ⟨a, assembled, done⟩ := okBind ok
  split at done
  · cases done
  · next whole => exact ⟨whole, a, assembled, done⟩

theorem compiledPayloads {c : Compiler} {es : List Element} {batches : List Batch}
    (ok : c.compile es = .ok batches) :
    batches.flatMap Batch.parts = payloadsOf ((c.classify es).tokens.map Prod.fst) := by
  have begun : LockStep .start .start .start := ⟨⟨0, rfl, rfl⟩, rfl⟩
  obtain ⟨_, a, assembled, done⟩ := compiledFinish ok
  have laid : a.laid = payloadsOf ((c.classify es).tokens.map Prod.fst) :=
    tokensLaid (c.rules es) begun (Nat.zero_le 2) assembled
  obtain ⟨_, checked, done⟩ := okBind done
  cases done
  have free : a.flush.pendingKey = none := (flushKeeps a).freed checked
  have flushed : a.flush.entries = [] := by
    unfold Assembly.flush
    split
    · next none => simpa using none
    · rfl
  rw [← Assembly.flushLaid, Assembly.laidFree free, flushed] at laid
  simpa using laid

theorem replacedCompiles {c : Compiler} {es : List Element} {batches : List Batch}
    (ok : c.compile es = .ok batches) {payloads values : Bool} {es' : List Element}
    (new : List.Forall₂ (Replaces payloads values)
      ((c.classify es).tokens.map Prod.fst) es') :
    ∃ batches', c.compile es' = .ok batches' ∧
      List.Forall₂ (BatchAlike payloads values) batches batches' := by
  obtain ⟨whole, a, assembled, done⟩ := compiledFinish ok
  have begun : Matched payloads values .start .start :=
    ⟨.refl _, .none, rfl, .nil, .none, rfl, .nil⟩
  have run : Fitting (List.Forall₂ (BatchAlike payloads values))
      (c.assemble ((c.classify es).tokens.map Prod.fst) >>= Assembly.finish)
      (c.assemble ((replacedTokens (c.classify es).tokens es').map Prod.fst) >>=
        Assembly.finish) :=
    (begun.lay c.options.clearPolicy new).bind fun _ _ last => last.finish
  have compiled : c.compile es' =
      c.assemble ((replacedTokens (c.classify es).tokens es').map Prod.fst) >>=
        Assembly.finish := by
    simp only [Compiler.compile, classifyReplaced whole new]
  rw [← compiled, assembled] at run
  generalize compiles : c.compile es' = outcome at run
  change Fitting _ a.finish outcome at run
  rw [done] at run
  cases run with
  | ok alike => exact ⟨_, rfl, alike⟩

theorem scanElements {registry : Registry} {strategy : Strategy} {c : Classifier} {index : Nat}
    {es : List Element} {payloads values : Bool}
    (whole : (TokenStream.scan registry strategy c index es).failure = none) :
    List.Forall₂ (Replaces payloads values)
      ((TokenStream.scan registry strategy c index es).tokens.map Prod.fst) es := by
  induction es generalizing c index with
  | nil => exact .nil
  | cons e rest ih =>
    simp only [TokenStream.scan] at whole ⊢
    cases step : c.step registry strategy index e with
    | error err => simp [step] at whole
    | ok p =>
      obtain ⟨token, next⟩ := p
      simp only [step] at whole ⊢
      obtain rfl : token.element = e := by cases Taken.ofStep step <;> rfl
      exact .cons .same (ih whole)

theorem payloadsPlaced {c : Compiler} {es es' : List Element} {batches : List Batch}
    (ok : c.compile es' = .ok batches) (whole : (c.classify es).failure = none)
    {payloads values : Bool} (new : List.Forall₂ (Replaces payloads values)
      ((c.classify es).tokens.map Prod.fst) es') :
    batches.flatMap Batch.parts = payloadsAt ((c.classify es).tokens.map Prod.fst) es' := by
  rw [compiledPayloads ok, classifyReplaced whole new, payloadsReplaced]

theorem noInterference {c : Compiler} {es : List Element} {batches : List Batch}
    (ok : c.compile es = .ok batches) {payloads values : Bool} {es' : List Element}
    (new : List.Forall₂ (Replaces payloads values)
      ((c.classify es).tokens.map Prod.fst) es') :
    ∃ batches', c.compile es' = .ok batches' ∧
      List.Forall₂ (BatchAlike payloads values) batches batches' ∧
      batches.flatMap Batch.parts = payloadsAt ((c.classify es).tokens.map Prod.fst) es ∧
      batches'.flatMap Batch.parts =
        payloadsAt ((c.classify es).tokens.map Prod.fst) es' := by
  obtain ⟨whole, _⟩ := compiledFinish ok
  obtain ⟨batches', compiles, alike⟩ := replacedCompiles ok new
  have itself : List.Forall₂ (Replaces payloads values)
      ((c.classify es).tokens.map Prod.fst) es := scanElements whole
  exact ⟨batches', compiles, alike, payloadsPlaced ok whole itself,
    payloadsPlaced compiles whole new⟩

def carryingForm : List Element :=
  [.symbol "m", .keyword "prefix", .str "p", .separator, .str "a", .symbol "f",
   .keyword "infix", .vector [], .keyword "ext", .list [.str "z"], .clearingSeparator,
   .keyword "ext", .symbol "t", .list [.symbol "q"]]

def disguisedForm : List Element :=
  [.symbol "m", .keyword "prefix", .list [], .separator, .vector [.symbol "t"], .symbol "nil",
   .keyword "infix", .symbol "nil", .keyword "ext", .list [.keyword "ext", .symbol "t"],
   .clearingSeparator, .keyword "ext", .symbol "t", .list [.list []]]

theorem disguisedUndisturbed :
    let c : Compiler := ⟨.builtin, ⟨false, .preserveDefaults⟩⟩
    let tokens := (c.classify carryingForm).tokens.map Prod.fst
    List.Forall₂ (Replaces true true) tokens disguisedForm ∧
    ∃ batches batches', c.compile carryingForm = .ok batches ∧
      c.compile disguisedForm = .ok batches' ∧
      List.Forall₂ (BatchAlike true true) batches batches' ∧
      batches.flatMap Batch.parts = payloadsAt tokens carryingForm ∧
      batches'.flatMap Batch.parts = payloadsAt tokens disguisedForm := by
  intro c tokens
  have new : List.Forall₂ (Replaces true true) tokens disguisedForm :=
    .cons .same <| .cons .same <| .cons (.value rfl (.setting rfl rfl rfl rfl rfl)) <|
    .cons .same <| .cons (.payload rfl (.key rfl rfl)) <|
    .cons (.payload rfl (.definition rfl rfl)) <| .cons .same <|
    .cons (.value rfl (.setting rfl rfl rfl rfl rfl)) <| .cons .same <|
    .cons (.payload rfl (.entry rfl (by simp))) <| .cons .same <| .cons .same <|
    .cons .same <| .cons (.payload rfl (.entry rfl (by simp))) .nil
  obtain ⟨batches', facts⟩ := noInterference (c := c) rfl new
  exact ⟨new, _, batches', rfl, facts⟩

end KeyForm
