import ScriptEngine.Builtin.Behaviour

/-!
# Slots of local variables

The three kinds of local variables are written and read by slot. Writing one slot leaves all others as they are, those of the other
kinds among them, and a slot gives back what it keeps of what was written: a short keeps 16 bits, and the other kinds keep all.
-/

namespace ScriptEngine

/-- How many slots there are of a kind. -/
def LocalSizes.count (sizes : LocalSizes) : LocalKind → Nat
  | .short => sizes.shorts
  | .long => sizes.longs
  | .float => sizes.floats

/-- What a slot gives back of a cell that was written to it. A short keeps the low 16 bits, read with their sign: the integer from
`-2 ^ 15` up to `2 ^ 15` that differs from the written one by a multiple of `2 ^ 16`. The other kinds keep all bits. -/
def LocalKind.kept : LocalKind → Cell → Cell
  | .short, c => .ofInt (.ofInt (c.int.toInt.bmod (2 ^ 16)))
  | .long, c | .float, c => c

namespace Locals

variable {l l' : Locals} {kind : LocalKind} {i : Nat} {c : Cell}

/-- The variable of a kind in a slot, as a cell. -/
def slot (l : Locals) (kind : LocalKind) (i : Nat) : Cell :=
  match kind with
  | .short => .ofInt (l.short i)
  | .long => .ofInt (l.long i)
  | .float => .ofFloat (l.float i)

/-- The locals after writing a cell into a slot; nothing if there is no such slot. -/
def set? (l : Locals) (kind : LocalKind) (i : Nat) (c : Cell) : Option Locals :=
  match kind with
  | .short => l.setShort? i c.int
  | .long => l.setLong? i c.int
  | .float => l.setFloat? i c.float

/-- Locals as they are made hold zero. -/
theorem slot_ofSizes (sizes : LocalSizes) (kind : LocalKind) (i : Nat) : (ofSizes sizes).slot kind i = .zero := by
  cases kind <;> simp only [slot, short, long, float, ofSizes, Array.getElem?_replicate] <;> split <;> rfl

/-- Fetching gives what is in the slot that the cell names, or zero if it names none. -/
theorem fetch_eq (l : Locals) (kind : LocalKind) (c : Cell) : l.fetch kind c = c.index?.elim .zero (l.slot kind) := by
  unfold fetch
  cases c.index? <;> cases kind <;> rfl

/-- There is a slot to be written below the number of slots of the kind, and not beyond. -/
theorem isSome_set?_iff : (l.set? kind i c).isSome = true ↔ i < l.sizes.count kind := by
  cases kind <;> simp [set?, setShort?, setLong?, setFloat?, sizes, LocalSizes.count]

/-- Writing keeps the numbers of slots. -/
theorem sizes_set? (h : l.set? kind i c = some l') : l'.sizes = l.sizes := by
  cases kind <;> simp only [set?, setShort?, setLong?, setFloat?, Option.dite_none_right_eq_some, Option.some.injEq] at h <;>
  · obtain ⟨hi, rfl⟩ := h
    simp [sizes]

/-- A short that is written is cut to its low 16 bits. -/
theorem toInt32_toInt16 (v : Int32) : v.toInt16.toInt32 = .ofInt (v.toInt.bmod (2 ^ 16)) := by
  rw [← Int32.ofInt_toInt v.toInt16.toInt32, Int16.toInt_toInt32, Int32.toInt_toInt16]

/-- The slot that is written gives back what it keeps, and every other slot is as it was. -/
theorem slot_set? (h : l.set? kind i c = some l') (kind' : LocalKind) (i' : Nat) :
    l'.slot kind' i' = if kind = kind' ∧ i = i' then kind.kept c else l.slot kind' i' := by
  cases kind <;> simp only [set?, setShort?, setLong?, setFloat?, Option.dite_none_right_eq_some, Option.some.injEq] at h <;>
  · obtain ⟨hi, rfl⟩ := h
    by_cases hsame : i = i'
    · subst hsame
      cases kind' <;> simp [slot, short, long, float, LocalKind.kept, toInt32_toInt16] <;> rfl
    · cases kind' <;> simp [slot, short, long, float, hsame]

end Locals

end ScriptEngine
