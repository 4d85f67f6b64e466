import KeyForm.Program.Run
/-! The command line. -/
namespace KeyForm

/-- A system may count its errors downwards from zero; the program shows them upwards. -/
def errorNumber (code : UInt32) : Nat :=
  if code.toNat < Nat.pow 2 31 then code.toNat else Nat.pow 2 32 - code.toNat

def fileFault : IO.Error → FileFault
  | .noFileOrDirectory _ code reason | .resourceExhausted (some _) code reason
  | .permissionDenied _ code reason | .inappropriateType _ code reason
  | .invalidArgument _ code reason | .otherError code reason
  | .illegalOperation code reason | .hardwareFault code reason =>
    .system reason.capitalize (errorNumber code)
  | e => .system (toString e) 0

partial def readAll (stream : IO.FS.Stream) (bytes : ByteArray) : IO ByteArray := do
  let more ← stream.read 65536
  if more.isEmpty then return bytes else readAll stream (bytes ++ more)

def guarded (action : IO ByteArray) : IO (Except FileFault ByteArray) := do
  try
    return .ok (← action)
  catch e =>
    return .error (fileFault e)

end KeyForm

open KeyForm in
def main (arguments : List String) : IO UInt32 := do
  let surroundings : Surroundings IO :=
    { contents := fun path => guarded (IO.FS.readBinFile path)
      stdin := guarded do readAll (← IO.getStdin) .empty
      home := ← IO.getEnv "HOME"
      configHome := ← IO.getEnv "XDG_CONFIG_HOME" }
  let outcome ← Program.run surroundings arguments
  (← IO.getStdout).putStr outcome.stdout
  (← IO.getStderr).putStr outcome.stderr
  return outcome.exitCode.toUInt32
