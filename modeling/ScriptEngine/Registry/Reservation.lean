import ScriptEngine.Setup

/-!
# Reserved opcode ranges

A group of instructions reserves a contiguous range of opcodes before it registers any. Ranges lie within one region of one
segment, are not empty, and share no opcode with each other.
-/

namespace ScriptEngine

/-- The opcodes from `base` on, `count` of them, that a group has asked for in a region of a segment. -/
structure Reservation where
  group : String
  segment : Segment
  base : Nat
  count : Nat
  region : Region
  deriving DecidableEq, Repr, Inhabited

/-- The ranges granted so far, the earliest first. -/
structure OpcodeSpace where
  reservations : List Reservation := []
  deriving DecidableEq, Repr, Inhabited

namespace Reservation

/-- The first opcode value after the range. -/
def stop (r : Reservation) : Nat := r.base + r.count

/-- An opcode of the range by its position. -/
def get? (r : Reservation) (i : Nat) : Option Opcode :=
  if i < r.count then some ⟨r.segment, r.base + i⟩ else none

/-- The opcodes of the range, in increasing order. -/
def opcodes (r : Reservation) : List Opcode := (List.range' r.base r.count).map (⟨r.segment, ·⟩)

/-- The range holds an opcode. -/
def Holds (r : Reservation) (op : Opcode) : Prop := op.segment = r.segment ∧ r.base ≤ op.code ∧ op.code < r.stop

instance (r : Reservation) (op : Opcode) : Decidable (r.Holds op) := inferInstanceAs (Decidable (_ ∧ _))

/-- Two ranges share an opcode; for ranges that are not empty. -/
def Overlaps (r q : Reservation) : Prop := r.segment = q.segment ∧ q.base < r.stop ∧ r.base < q.stop

instance (r q : Reservation) : Decidable (r.Overlaps q) := inferInstanceAs (Decidable (_ ∧ _))

/-- The range lies within its region. -/
def InRegion (r : Reservation) : Prop :=
  (r.segment.bounds r.region).1 ≤ r.base ∧ r.stop ≤ (r.segment.bounds r.region).2

instance (r : Reservation) : Decidable r.InRegion := inferInstanceAs (Decidable (_ ∧ _))

end Reservation

namespace OpcodeSpace

/-- Grants a range and gives it back: it must not be empty, must fit the opcode field, must lie within its region, and must share no
opcode with a range granted before. The first of these that fails is the error. -/
def reserveInPlace (r : Reservation) : Setup OpcodeSpace Reservation := do
  if r.count = 0 then throw (.emptyReservation r.group)
  if r.segment.opcodeLimit < r.stop then throw (.outOfSegment r.segment (r.stop - 1))
  if ¬ r.InRegion then throw (.regionViolation r.group r.segment r.base r.count r.region)
  if let some other := (← get).reservations.find? (·.Overlaps r) then
    throw (.rangeOverlap r.group other.group r.segment r.base r.count)
  modify fun s => ⟨s.reservations ++ [r]⟩
  return r

/-- The ranges granted after a request, unless it is refused. -/
def reserve (s : OpcodeSpace) (r : Reservation) : Except SetupError OpcodeSpace := (reserveInPlace r).outcome s

/-- The ranges granted after a request, whether it is refused or not. -/
def attempt (s : OpcodeSpace) (r : Reservation) : OpcodeSpace := (reserveInPlace r).after s

/-- The range that holds an opcode. -/
def owner? (s : OpcodeSpace) (op : Opcode) : Option Reservation := s.reservations.find? (·.Holds op)

end OpcodeSpace

end ScriptEngine
