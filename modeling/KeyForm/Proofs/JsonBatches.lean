import KeyForm.Program.Format
import KeyForm.Proofs.JsonLayout
import KeyForm.Proofs.JsonText
import KeyForm.Proofs.Overlay
/-! Batches read back from their JSON text. Nothing is asked of the batches: any element
can stand anywhere in them, with any name and any text in it, and what is read is the
list that was written. The text keeps the rules of the layout, and the order of the fields. -/
namespace KeyForm

namespace Element

mutual

theorem jsonDecoded (inEntry : Bool) : (e : Element) → ofJson? inEntry e.toJson = some e
  | .symbol _ | .keyword _ | .str _ | .function _ => by simp [toJson, ofJson?, ofMember?]
  | .separator | .clearingSeparator => rfl
  | .vector es | .list es => by
    simp [toJson, ofJson?, ofMember?, jsonItemsDecoded inEntry es]

theorem jsonItemsDecoded (inEntry : Bool) :
    (es : List Element) → itemsOfJson? inEntry (itemsToJson es) = some es
  | [] => rfl
  | e :: es => by
    simp [itemsToJson, itemsOfJson?, jsonDecoded inEntry e, jsonItemsDecoded inEntry es]

end

end Element

theorem mapDecoded {α β : Type} (encode : α → β) (decode : β → Option α)
    (decoded : ∀ a, decode (encode a) = some a) (as : List α) :
    (as.map encode).mapM decode = some as := by
  induction as with
  | nil => rfl
  | cons a as ih => simp [decoded a, ih]

-- The items are in ascending order already, so filling a collection with them again
-- lays them over the empty one.
theorem Settings.jsonDecoded (s : Settings) : Settings.ofJson? s.toJson = some s := by
  have members := mapDecoded (fun p : String × Element => (p.1, p.2.toJson))
    (fun m => (Element.ofJson? false m.2).map (m.1, ·))
    (fun p => by simp [Element.jsonDecoded]) s.items
  simp only [Settings.ofJson?, Settings.toJson, members]
  exact congrArg some (Catalog.emptyMerge s)

theorem Entry.jsonDecoded (entry : Entry) : Entry.ofJson? entry.toJson = some entry := by
  cases entry with
  | plain key definition =>
    simp [Entry.toJson, Entry.ofJson?, Json.member?, Json.string?, Element.jsonDecoded]
  | extended literal =>
    simp [Entry.toJson, Entry.ofJson?, Json.member?, Json.string?, Element.jsonDecoded]

theorem Batch.jsonDecoded (b : Batch) : Batch.ofJson? b.toJson = some b := by
  have entries := mapDecoded Entry.toJson Entry.ofJson? Entry.jsonDecoded b.entries
  simp [Batch.toJson, Batch.ofJson?, Batch.ofFields?, Json.member?, Settings.jsonDecoded,
    entries]

def batchesToJson (batches : List Batch) : Json := .array (batches.map Batch.toJson)

theorem batchesDecoded (batches : List Batch) :
    batchesOfJson? (batchesToJson batches) = some batches :=
  mapDecoded Batch.toJson Batch.ofJson? Batch.jsonDecoded batches

def Json.names : Json → List String
  | .object members => members.map Prod.fst
  | _ => []

structure Batch.Ordered (b : Batch) : Prop where
  fields : b.toJson.names = ["settings", "entries"]
  settings : b.settings.toJson.names.Pairwise (· < ·)
  entries : ∀ e ∈ b.entries, e.toJson.names =
    if e.isExtended then ["form", "literal"] else ["form", "key", "definition"]

theorem batchOrdered (b : Batch) : b.Ordered where
  fields := rfl
  settings := by
    have names : b.settings.toJson.names = b.settings.items.map Prod.fst := by
      simp [Settings.toJson, Json.names]
    rw [names, List.pairwise_map]
    exact b.settings.ascending
  entries e _ := by
    cases e with
    | plain | extended => rfl

theorem Json.itemsAll (vs : List Json) : itemsNumberless vs = vs.all numberless := by
  induction vs with
  | nil => rfl
  | cons v vs ih => rw [itemsNumberless, List.all_cons, ih]

theorem Json.membersAll (ms : List (String × Json)) :
    membersNumberless ms = ms.all fun m => m.2.numberless := by
  induction ms with
  | nil => rfl
  | cons m ms ih => rw [membersNumberless, List.all_cons, ih]

mutual

theorem Element.jsonNumberless : (e : Element) → e.toJson.numberless = true
  | .symbol _ | .keyword _ | .str _ | .function _ => rfl
  | .separator | .clearingSeparator => rfl
  | .vector es | .list es => by
    simp [toJson, Json.numberless, Json.membersNumberless, jsonItemsNumberless es]

theorem Element.jsonItemsNumberless :
    (es : List Element) → Json.itemsNumberless (itemsToJson es) = true
  | [] => rfl
  | e :: es => by
    simp [itemsToJson, Json.itemsNumberless, jsonNumberless e, jsonItemsNumberless es]

end

theorem Entry.jsonNumberless (entry : Entry) : entry.toJson.numberless = true := by
  cases entry with
  | plain | extended =>
    simp [toJson, Json.numberless, Json.membersNumberless, Element.jsonNumberless]

theorem Batch.jsonNumberless (b : Batch) : b.toJson.numberless = true := by
  simp [toJson, Settings.toJson, Json.numberless, Json.membersAll, Json.itemsAll,
    Element.jsonNumberless, Entry.jsonNumberless]

theorem batchesNumberless (batches : List Batch) : (batchesToJson batches).numberless = true := by
  simp [batchesToJson, Json.numberless, Json.itemsAll, Batch.jsonNumberless]

/-- What a text tells by the grammar of JSON and the names of the fields. -/
def Decodes (source : String) (batches : List Batch) : Prop :=
  ∃ v, Json.Document v source ∧ batchesOfJson? v = some batches

/-- At any depth the text is one document with one value, and decodes to the batches and to
nothing else. A reader of text without a limit gives them back at any depth, and a reader with a
limit gives them back exactly where they are nested within it. -/
theorem jsonReadBack {read : String → Option Json} {limit : Option Nat}
    (reads : Json.Reads read limit) (batches : List Batch) :
    OutputFormat.render batches .json = (batchesToJson batches).text ++ "\n" ∧
      Json.Written 0 (batchesToJson batches) (batchesToJson batches).text.toList ∧
      (∀ b ∈ batches, b.Ordered) ∧
      (∀ v, Json.Document v (batchesToJson batches).text ↔ v = batchesToJson batches) ∧
      (∀ others, Decodes (OutputFormat.render batches .json) others ↔ others = batches) ∧
      (read (OutputFormat.render batches .json)).bind batchesOfJson? =
        if (batchesToJson batches).Within limit then some batches else none := by
  have document : OutputFormat.render batches .json = (batchesToJson batches).text ++ "\n" :=
    rfl
  have plain := batchesNumberless batches
  have decoded := batchesDecoded batches
  have line := @Json.textDocument _ plain ['\n'] (by simp [Json.isSpace])
  have here := @Json.textDocument _ plain [] nofun
  rw [String.ofList_nil, String.append_empty] at here
  refine ⟨document, Json.textWritten _, fun b _ => batchOrdered b, fun v => ?_,
    fun others => ?_, ?_⟩
  · constructor
    · exact fun other => Json.documentUnique other here
    · rintro rfl
      exact here
  · constructor
    · rintro ⟨v, other, told⟩
      obtain rfl := Json.documentUnique other line
      exact Option.some.inj (told.symm.trans decoded)
    · rintro rfl
      exact ⟨_, line, decoded⟩
  · rw [document]
    split
    next allowed =>
      rw [reads.within line allowed]
      exact decoded
    next refused =>
      rw [reads.beyond line refused]
      rfl

def vectorsIn : Nat → Element
  | 0 => .vector []
  | n + 1 => .vector [vectorsIn n]

def deepBatch (n : Nat) : Batch :=
  ⟨.empty, [.plain (vectorsIn n) (.symbol "f")]⟩

theorem vectorsNested (n : Nat) : (vectorsIn n).toJson.nesting = 2 * n + 2 := by
  induction n with
  | zero => rfl
  | succ n ih =>
    simp [vectorsIn, Element.toJson, Element.itemsToJson, Json.nesting, Json.itemsNesting,
      Json.membersNesting, ih]
    omega

theorem deepNested (n : Nat) : (batchesToJson [deepBatch n]).nesting = 2 * n + 6 := by
  have settings : (Settings.toJson .empty).nesting = 1 := rfl
  simp [batchesToJson, deepBatch, Batch.toJson, Entry.toJson, Json.nesting, Json.itemsNesting,
    Json.membersNesting, vectorsNested, Element.toJson, settings]

-- A key of 61 vectors makes 126 levels together with what is around it, one of 62 makes 128.
theorem deepVectorsRead :
    Json.Reads (Json.readWithin (some 127)) (some 127) ∧
    (Json.readWithin (some 127) (OutputFormat.render [deepBatch 60] .json)).bind batchesOfJson? =
      some [deepBatch 60] ∧
    (Json.readWithin (some 127) (OutputFormat.render [deepBatch 61] .json)).bind batchesOfJson? =
      none ∧
    (Json.readWithin none (OutputFormat.render [deepBatch 61] .json)).bind batchesOfJson? =
      some [deepBatch 61] := by
  have limited := Json.readsWithin (some 127)
  have allowed : (batchesToJson [deepBatch 60]).Within (some 127) := by
    simp [Json.Within, deepNested]
  have refused : ¬ (batchesToJson [deepBatch 61]).Within (some 127) := by
    simp [Json.Within, deepNested]
  obtain ⟨-, -, -, -, -, shallow⟩ := jsonReadBack limited [deepBatch 60]
  obtain ⟨-, -, -, -, -, deep⟩ := jsonReadBack limited [deepBatch 61]
  obtain ⟨-, -, -, -, -, unlimited⟩ := jsonReadBack (Json.readsWithin none) [deepBatch 61]
  exact ⟨limited, shallow.trans (if_pos allowed), deep.trans (if_neg refused),
    unlimited.trans (if_pos nofun)⟩

end KeyForm
