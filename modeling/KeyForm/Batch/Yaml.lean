import KeyForm.Batch.Basic
import KeyForm.Yaml.Node
/-! Batches as YAML: the tag of a node names the kind of its element. -/
namespace KeyForm
open Yaml (Node)

namespace Element

mutual

def toYaml : Element → Node
  | .symbol name => .scalar (some "symbol") name
  | .keyword name => .scalar (some "keyword") name
  | .str text => .scalar (some "str") text
  | .vector items => .sequence (some "vector") (itemsToYaml items)
  | .list items => .sequence (some "list") (itemsToYaml items)
  | .function name => .scalar (some "function") name
  | .separator => .scalar none "separator"
  | .clearingSeparator => .scalar none "clearing_separator"

def itemsToYaml : List Element → List Node
  | [] => []
  | e :: rest => e.toYaml :: itemsToYaml rest

end

end Element

def Entry.toYaml : Entry → Node
  | .plain key definition =>
    .mapping [("form", .scalar none "plain"), ("key", key.toYaml),
      ("definition", definition.toYaml)]
  | .extended literal =>
    .mapping [("form", .scalar none "extended"), ("literal", literal.toYaml)]

def Settings.toYaml (s : Settings) : Node :=
  .mapping (s.items.map fun p => (p.1, p.2.toYaml))

def Batch.toYaml (b : Batch) : Node :=
  .mapping [("settings", Settings.toYaml b.settings),
    ("entries", .sequence none (b.entries.map Entry.toYaml))]

def yamlDocument (batches : List Batch) : String :=
  Node.document (batches.map Batch.toYaml)

end KeyForm
