import KeyForm.Form.Reader
import KeyForm.Program.Arguments
import KeyForm.Program.Files
/-! The program: it reads a configuration and a form, compiles the form and writes the
batches. How files are read is left open, so that a run can be followed without any. -/
namespace KeyForm

structure Surroundings (m : Type → Type) where
  contents : String → m (Except FileFault ByteArray)
  stdin : m (Except FileFault ByteArray)
  home : Option String
  configHome : Option String

structure Outcome where
  exitCode : Nat
  stdout : String
  stderr : String
  deriving DecidableEq, Repr

inductive ConfigError where
  | io (path : String) (fault : FileFault)
  | parse
  deriving DecidableEq, Repr

namespace ConfigError

def messages : ConfigError → List String
  | .io path fault => [s!"failed to read config at {path}: {fault.message}", fault.message]
  | .parse => ["failed to parse config: not a configuration", "not a configuration"]

end ConfigError

def configDirectory? (home configHome : Option String) : Option String :=
  (configHome <|> home.map (joinPath · ".config")).map (joinPath · "bindform")

def configFile? (home configHome : Option String) : Option String :=
  (configDirectory? home configHome).map (joinPath · "config.yaml")

structure Failure where
  message : String
  causes : List String
  deriving DecidableEq, Repr

namespace Failure

def indented (lead : String) (cause : String) : String :=
  let margin := String.ofList (List.replicate lead.length ' ')
  lead ++ ("\n" ++ margin).intercalate (cause.splitOn "\n")

def causeLines : List String → List String
  | [cause] => [indented "    " cause]
  | causes => causes.mapIdx fun i cause => indented s!"    {i}: " cause

def text (f : Failure) : String :=
  let causes :=
    if f.causes.isEmpty then ""
    else "\n\nCaused by:\n" ++ "\n".intercalate (causeLines f.causes)
  s!"Error: {f.message}{causes}\n"

end Failure

namespace Program
variable {m : Type → Type} [Monad m]

def version : String := "bindform 0.3.0\n"

def usage : String :=
  "Usage: bindform [OPTIONS] [FILE]\n\n" ++
  "Compile key-binding forms into binding batches\n\n" ++
  "  [FILE]                 form to compile; stdin if it is missing or -\n" ++
  "  --heuristic            infer where context values end without a separator\n" ++
  "  --no-heuristic         require a separator\n" ++
  "  --clear-policy POLICY  what || resets the settings to: preserve-defaults or all\n" ++
  "  --format FORMAT        text, json or yaml\n" ++
  "  --bind                 list one line per bind call\n" ++
  "  --config PATH          configuration file to use\n" ++
  "  -h, --help             show this text\n" ++
  "  -V, --version          show the version\n"

def readText (s : Surroundings m) (path : String) : m (Except FileFault String) := do
  if path.contains '\x00' then return .error .nulInName
  return (← s.contents path).bind decodeText

def loadConfigFrom (s : Surroundings m) (path : String) : m (Except ConfigError Config) := do
  match ← readText s path with
  | .error fault => return .error (.io path fault)
  | .ok text =>
    match Config.ofYaml? text with
    | some config => return .ok config
    | none => return .error .parse

def loadConfig (s : Surroundings m) : m Config := do
  match configFile? s.home s.configHome with
  | none => return .default
  | some path =>
    match ← loadConfigFrom s path with
    | .ok config => return config
    | .error _ => return .default

def inputText (s : Surroundings m) : InputSource → m (Except FileFault String)
  | .stdin => do return (← s.stdin).bind decodeText
  | .file path => readText s path

def compileText (c : Compiler) (name source : String) : Except Failure (List Batch) := do
  let elements ← (readForm source).mapError fun e =>
    ⟨s!"Failed to parse {name}", [e.message]⟩
  (c.compile elements).mapError fun e =>
    ⟨s!"Failed to compile {name} ({elements.length} elements)", [e.message]⟩

def renderRun (run : RunConfig) (batches : List Batch) : String :=
  if run.bind then callListing batches else run.format.render batches

def execute (s : Surroundings m) (a : Arguments) : m (Except Failure String) := do
  let config ← match a.config with
    | none => Except.ok <$> loadConfig s
    | some path =>
      pure <| (← loadConfigFrom s path).mapError fun e =>
        Failure.mk s!"Failed to load config from {path}" e.messages
  match config with
  | .error failure => return .error failure
  | .ok config =>
    let run := a.merge config
    match config.registry with
    | .error e => return .error ⟨e.message, []⟩
    | .ok registry =>
      match ← inputText s run.input with
      | .error fault => return .error ⟨s!"Failed to read {run.input.name}", [fault.message]⟩
      | .ok source =>
        return (compileText ⟨registry, run.options⟩ run.input.name source).map (renderRun run)

def run (s : Surroundings m) (arguments : List String) : m Outcome := do
  match Arguments.parse arguments with
  | .error .displayHelp => return ⟨0, usage, ""⟩
  | .error .displayVersion => return ⟨0, version, ""⟩
  | .error _ => return ⟨2, "", usage⟩
  | .ok a =>
    match ← execute s a with
    | .ok output => return ⟨0, output, ""⟩
    | .error failure => return ⟨1, "", failure.text⟩

end Program
end KeyForm
