import ScriptEngine.Builtin.Behaviour
import ScriptEngine.Machine.Dispatch
import ScriptEngine.Registry.Basic

/-!
# Extensions

An extension is a group of instructions that an engine is put together from: the steps that fill the registry, and the handlers
that are installed. The two are separate, since a compiler may be there without a machine; that they agree on the opcodes is
checked when an engine is built. The built-in instructions are an extension too.
-/

namespace ScriptEngine

/-- A group of instructions. -/
structure Extension (σ : Type) where
  name : String
  registrations : List Registration
  handlers : List (Opcode × Handler σ)

namespace Builtin

/-- The opcode range of the built-in instructions of a segment. -/
def range (s : Segment) : Reservation := ⟨"core", s, 0, (ofSegment s).length, .core⟩

/-- The steps that register the built-in instructions: a range in each segment that has any, then the instructions. -/
def registrations : List Registration :=
  (Segment.all.filter fun s => !(ofSegment s).isEmpty).map (fun s => .reserve (range s)) ++
    all.map fun b => .instruction b.mnemonic b.signature b.opcode

/-- The built-in instructions as an extension. -/
def extension {σ : Type} [Host σ] : Extension σ where
  name := "core"
  registrations
  handlers := all.map fun b => (b.opcode, b.handler)

end Builtin

end ScriptEngine
