import KeyForm.Compile.Compiler
/-! Handing batches to whatever performs the bind calls. A binder may keep any state and
refuse any call; the first refusal ends the run. -/
namespace KeyForm

/-- Performs one call: the new state, and the reason if the call is refused. -/
abbrev Binder (σ ε : Type) := Settings → Entry → σ → Except ε Unit × σ

abbrev Call := Settings × Entry

namespace Binder
variable {σ ε : Type}

def applyEntries (bind : Binder σ ε) (settings : Settings) (bound : Nat) :
    List Entry → σ → Except ε Nat × σ
  | [], s => (.ok bound, s)
  | entry :: rest, s =>
    match bind settings entry s with
    | (.error e, s) => (.error e, s)
    | (.ok (), s) => applyEntries bind settings (bound + 1) rest s

def applyFrom (bind : Binder σ ε) (bound : Nat) : List Batch → σ → Except ε Nat × σ
  | [], s => (.ok bound, s)
  | b :: rest, s =>
    match applyEntries bind b.settings bound b.entries s with
    | (.error e, s) => (.error e, s)
    | (.ok bound, s) => applyFrom bind bound rest s

def apply (bind : Binder σ ε) (batches : List Batch) (s : σ) : Except ε Nat × σ :=
  applyFrom bind 0 batches s

def recording : Binder (List Call) Empty :=
  fun settings entry calls => (.ok (), calls ++ [(settings, entry)])

end Binder

inductive DefineError (ε : Type) where
  | compile (error : CompileError)
  | bind (error : ε)
  deriving DecidableEq, Repr

def DefineError.message {ε : Type} (text : ε → String) : DefineError ε → String
  | .compile error => error.message
  | .bind error => s!"bind failed: {text error}"

def Compiler.define {σ ε : Type} (c : Compiler) (bind : Binder σ ε)
    (elements : List Element) (s : σ) : Except (DefineError ε) Nat × σ :=
  match c.compile elements with
  | .error e => (.error (.compile e), s)
  | .ok batches =>
    match bind.apply batches s with
    | (.error e, s) => (.error (.bind e), s)
    | (.ok n, s) => (.ok n, s)

end KeyForm
