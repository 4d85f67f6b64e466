import KeyForm.Batch.Json
import KeyForm.Batch.Basic
import KeyForm.Batch.Yaml
/-! The formats in which compiled batches are written. -/
namespace KeyForm

inductive OutputFormat where
  | text
  | json
  | yaml
  deriving DecidableEq, Repr

namespace OutputFormat

def name : OutputFormat → String
  | .text => "text"
  | .json => "json"
  | .yaml => "yaml"

def ofName? (s : String) : Option OutputFormat :=
  [OutputFormat.text, .json, .yaml].find? (·.name == s)

def render (batches : List Batch) : OutputFormat → String
  | .text => listing batches
  | .json => jsonDocument batches
  | .yaml => yamlDocument batches

end OutputFormat
end KeyForm
