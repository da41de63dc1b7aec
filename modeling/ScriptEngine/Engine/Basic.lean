import ScriptEngine.Engine.Extension

/-!
# Engines

An engine is put together from a list of extensions, the built-in instructions always coming first: the registration steps of
all extensions are taken in order, then all their handlers are installed in order, and then the registry and the dispatch table
must know the same opcodes. The first thing that goes wrong is the error. An engine does not change once it is built.
-/

namespace ScriptEngine

/-- How many words a run may execute when nothing else is said. -/
def defaultStepLimit : Nat := 1000000

/-- A registry and a dispatch table over the same opcodes, and the number of words that a run may execute; a limit of zero is no
limit. -/
structure Engine (σ : Type) where
  registry : Registry
  dispatch : Dispatch σ
  stepLimit : Nat := defaultStepLimit

namespace Engine

variable {σ : Type}

/-- The registry after the registration steps of all extensions. -/
def registryOf (extensions : List (Extension σ)) : Except SetupError Registry :=
  match Registry.load {} (extensions.flatMap (·.registrations)) with
  | (r, none) => .ok r
  | (_, some e) => .error e

/-- The dispatch table after installing the handlers of all extensions. -/
def dispatchOf (extensions : List (Extension σ)) : Except SetupError (Dispatch σ) :=
  match Dispatch.load {} (extensions.flatMap (·.handlers)) with
  | (d, none) => .ok d
  | (_, some e) => .error e

/-- What keeps a registry and a dispatch table from belonging together: the first registered opcode without a handler, or else
the first installed opcode without an instruction. -/
def mismatch? (r : Registry) (d : Dispatch σ) : Option SetupError :=
  match r.all.find? (fun i => !d.contains i.opcode) with
  | some i => some (.missingHandler i.mnemonic i.opcode)
  | none => (d.opcodes.find? fun op => (r.byOpcode? op).isNone).map .missingDescriptor

/-- The engine of a list of extensions and a step limit. -/
def build [Host σ] (extensions : List (Extension σ)) (stepLimit : Nat := defaultStepLimit) : Except SetupError (Engine σ) := do
  let loaded := Builtin.extension :: extensions
  let registry ← registryOf loaded
  let dispatch ← dispatchOf loaded
  match mismatch? registry dispatch with
  | some e => .error e
  | none => return { registry, dispatch, stepLimit }

end Engine

end ScriptEngine
