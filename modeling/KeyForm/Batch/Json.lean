import KeyForm.Batch.Basic
import KeyForm.Json.Value
/-! Batches as JSON values, and back. -/
namespace KeyForm

namespace Json

def string? : Json → Option String
  | .string s => some s
  | _ => none

def member? (members : List (String × Json)) (name : String) : Option Json :=
  match members.filter fun m => m.1 == name with
  | [m] => some m.2
  | _ => none

end Json

namespace Element

mutual

def toJson : Element → Json
  | .symbol name => .object [("symbol", .string name)]
  | .keyword name => .object [("keyword", .string name)]
  | .str text => .object [("str", .string text)]
  | .vector items => .object [("vector", .array (itemsToJson items))]
  | .list items => .object [("list", .array (itemsToJson items))]
  | .function name => .object [("function", .string name)]
  | .separator => .string "separator"
  | .clearingSeparator => .string "clearing_separator"

def itemsToJson : List Element → List Json
  | [] => []
  | e :: rest => e.toJson :: itemsToJson rest

end

/-- Whether a value is no payload at all; inside an entry an empty object is none too. -/
def isNoPayload (inEntry : Bool) : Json → Bool
  | .null => true
  | .object [] => inEntry
  | _ => false

mutual

def ofJson? (inEntry : Bool) : Json → Option Element
  | .string "separator" => some .separator
  | .string "clearing_separator" => some .clearingSeparator
  | .object [(name, payload)] => ofMember? inEntry name payload
  | _ => none

def ofMember? (inEntry : Bool) (name : String) : Json → Option Element
  | .string s =>
    match name with
    | "symbol" => some (.symbol s)
    | "keyword" => some (.keyword s)
    | "str" => some (.str s)
    | "function" => some (.function s)
    | _ => none
  | .array items =>
    match name with
    | "vector" => (itemsOfJson? inEntry items).map .vector
    | "list" => (itemsOfJson? inEntry items).map .list
    | _ => none
  | payload =>
    if isNoPayload inEntry payload then
      match name with
      | "separator" => some .separator
      | "clearing_separator" => some .clearingSeparator
      | _ => none
    else none

def itemsOfJson? (inEntry : Bool) : List Json → Option (List Element)
  | [] => some []
  | v :: rest => do
    let e ← ofJson? inEntry v
    let items ← itemsOfJson? inEntry rest
    some (e :: items)

end

end Element

namespace Settings

def toJson (s : Settings) : Json :=
  .object (s.items.map fun p => (p.1, p.2.toJson))

def ofJson? : Json → Option Settings
  | .object members => do
    let items ← members.mapM fun m => (Element.ofJson? false m.2).map (m.1, ·)
    some (Catalog.ofList items)
  | _ => none

end Settings

namespace Entry

def toJson : Entry → Json
  | .plain key definition =>
    .object [("form", .string "plain"), ("key", key.toJson),
      ("definition", definition.toJson)]
  | .extended literal =>
    .object [("form", .string "extended"), ("literal", literal.toJson)]

def ofJson? : Json → Option Entry
  | .object members => do
    match ← (← Json.member? members "form").string? with
    | "plain" =>
      let key ← Element.ofJson? true (← Json.member? members "key")
      let definition ← Element.ofJson? true (← Json.member? members "definition")
      some (.plain key definition)
    | "extended" =>
      let literal ← Element.ofJson? true (← Json.member? members "literal")
      some (.extended literal)
    | _ => none
  | .array [.string "plain", key, definition] => do
    some (.plain (← Element.ofJson? true key) (← Element.ofJson? true definition))
  | .array [.string "extended", literal] => do
    some (.extended (← Element.ofJson? true literal))
  | _ => none

end Entry

namespace Batch

def toJson (b : Batch) : Json :=
  .object [("settings", b.settings.toJson), ("entries", .array (b.entries.map Entry.toJson))]

def ofFields? (settings entries : Json) : Option Batch := do
  let settings ← Settings.ofJson? settings
  match entries with
  | .array items => some ⟨settings, ← items.mapM Entry.ofJson?⟩
  | _ => none

def ofJson? : Json → Option Batch
  | .object members => do
    ofFields? (← Json.member? members "settings") (← Json.member? members "entries")
  | .array [settings, entries] => ofFields? settings entries
  | _ => none

end Batch

def batchesOfJson? : Json → Option (List Batch)
  | .array items => items.mapM Batch.ofJson?
  | _ => none

def jsonDocument (batches : List Batch) : String :=
  (Json.array (batches.map Batch.toJson)).text ++ "\n"

end KeyForm
