import KeyForm.Program.Config
import KeyForm.Program.Format
/-! The arguments of the command line. An option that takes a value is settled when the
next argument is understood, so of two faults the one that is settled first counts. -/
namespace KeyForm

inductive ArgumentFault where
  | unknownArgument
  | invalidValue
  | valueValidation
  | tooManyValues
  | argumentConflict
  | displayHelp
  | displayVersion
  deriving DecidableEq, Repr

structure Arguments where
  file : Option String
  heuristic : Bool
  noHeuristic : Bool
  clearPolicy : Option ClearPolicy
  format : Option OutputFormat
  bind : Bool
  config : Option String
  deriving DecidableEq, Repr

inductive ValueSlot where
  | file
  | clearPolicy
  | format
  | config
  deriving DecidableEq, Repr

inductive Flag where
  | heuristic
  | noHeuristic
  | bind
  | help
  | version
  deriving DecidableEq, Repr

namespace Arguments

def none : Arguments := ⟨.none, false, false, .none, .none, false, .none⟩

def slot? : String → Option ValueSlot
  | "clear-policy" => some .clearPolicy
  | "format" => some .format
  | "config" => some .config
  | _ => .none

def flag? : String → Option Flag
  | "heuristic" => some .heuristic
  | "no-heuristic" => some .noHeuristic
  | "bind" => some .bind
  | "help" => some .help
  | "version" => some .version
  | _ => .none

def isSet (a : Arguments) : ValueSlot → Bool
  | .file => a.file.isSome
  | .clearPolicy => a.clearPolicy.isSome
  | .format => a.format.isSome
  | .config => a.config.isSome

def fill (a : Arguments) (slot : ValueSlot) (value : String) :
    Except ArgumentFault Arguments :=
  if a.isSet slot then .error .argumentConflict else
  match slot with
  | .file =>
    if value.isEmpty then .error .invalidValue else .ok { a with file := some value }
  | .config =>
    if value.isEmpty then .error .invalidValue else .ok { a with config := some value }
  | .clearPolicy =>
    match ClearPolicy.parse? value with
    | some policy => .ok { a with clearPolicy := some policy }
    | .none => .error .valueValidation
  | .format =>
    match OutputFormat.ofName? value with
    | some format => .ok { a with format := some format }
    | .none => .error .invalidValue

/-- Sets a flag. No flag that is set is given again, but each of the two flags for the
heuristic takes the other one back. -/
def set (a : Arguments) : Flag → Except ArgumentFault Arguments
  | .heuristic =>
    if a.heuristic then .error .argumentConflict
    else .ok { a with heuristic := true, noHeuristic := false }
  | .noHeuristic =>
    if a.noHeuristic then .error .argumentConflict
    else .ok { a with heuristic := false, noHeuristic := true }
  | .bind => if a.bind then .error .argumentConflict else .ok { a with bind := true }
  | .help => .error .displayHelp
  | .version => .error .displayVersion

structure Progress where
  settled : Arguments
  pending : Option (ValueSlot × Option String)
  hasFile : Bool

namespace Progress

def start : Progress := ⟨.none, .none, false⟩

def settle (p : Progress) : Except ArgumentFault Progress :=
  match p.pending with
  | .none => .ok p
  | some (_, .none) => .error .invalidValue
  | some (slot, some value) => do
    .ok { p with settled := ← p.settled.fill slot value, pending := .none }

def takeFile (p : Progress) (value : String) : Except ArgumentFault Progress := do
  if p.hasFile then .error .unknownArgument
  else
    let p ← p.settle
    .ok { p with pending := some (.file, some value), hasFile := true }

def takeFlag (p : Progress) (flag : Flag) : Except ArgumentFault Progress := do
  let p ← p.settle
  .ok { p with settled := ← p.settled.set flag }

def takeLong (p : Progress) (name : String) (value : Option String) :
    Except ArgumentFault Progress :=
  match slot? name, flag? name, value with
  | some slot, _, some value => do
    let p ← p.settle
    .ok { p with settled := ← p.settled.fill slot value }
  | some slot, _, .none => do
    let p ← p.settle
    .ok { p with pending := some (slot, .none) }
  | .none, some _, some _ => .error .tooManyValues
  | .none, some flag, .none => p.takeFlag flag
  | .none, .none, _ => .error .unknownArgument

def takeShort (p : Progress) (letter : Char) : Except ArgumentFault Progress :=
  match letter with
  | 'h' => p.takeFlag .help
  | 'V' => p.takeFlag .version
  | _ => .error .unknownArgument

def takeValue (p : Progress) (value : String) : Except ArgumentFault Progress :=
  match p.pending with
  | some (slot, .none) => .ok { p with pending := some (slot, some value) }
  | _ => p.takeFile value

def splitLong (cs : List Char) : String × Option String :=
  let name := String.ofList (cs.takeWhile (· != '='))
  match cs.dropWhile (· != '=') with
  | [] => (name, .none)
  | _ :: value => (name, some (String.ofList value))

def take (p : Progress) (argument : String) : Except ArgumentFault Progress :=
  match argument.toList with
  | '-' :: '-' :: rest => let (name, value) := splitLong rest; p.takeLong name value
  | '-' :: letter :: _ => p.takeShort letter
  | _ => p.takeValue argument

def run (p : Progress) : List String → Except ArgumentFault Progress
  | [] => p.settle
  | "--" :: files => do (← files.foldlM takeFile p).settle
  | argument :: rest => do (← p.take argument).run rest

end Progress

def parse (arguments : List String) : Except ArgumentFault Arguments := do
  .ok (← Progress.start.run arguments).settled

end Arguments

inductive InputSource where
  | stdin
  | file (path : String)
  deriving DecidableEq, Repr

def InputSource.name : InputSource → String
  | .stdin => "<stdin>"
  | .file path => path

structure RunConfig where
  input : InputSource
  options : CompileOptions
  format : OutputFormat
  bind : Bool
  deriving DecidableEq, Repr

def Arguments.merge (a : Arguments) (c : Config) : RunConfig where
  input := match a.file with
    | some "-" | .none => .stdin
    | some path => .file path
  options := {
    heuristic := match a.heuristic, a.noHeuristic with
      | true, _ => true
      | _, true => false
      | _, _ => c.heuristic
    clearPolicy := a.clearPolicy.getD c.clearPolicy }
  format := a.format.getD .text
  bind := a.bind

end KeyForm
