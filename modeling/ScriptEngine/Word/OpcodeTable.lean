import ScriptEngine.Word.Opcode

/-!
# Tables over opcodes

A finite map from opcodes, kept as a list of entries in increasing order of their opcodes. The registry keeps its descriptors
in such a table and the machine its handlers, so both list their opcodes in the same order.
-/

namespace ScriptEngine

/-- A finite map from opcodes, with its entries in order. -/
structure OpcodeTable (α : Type u) where
  entries : List (Opcode × α) := []

namespace OpcodeTable

variable {α : Type u}

instance : Inhabited (OpcodeTable α) := ⟨{}⟩

/-- The value at an opcode. -/
def get? (t : OpcodeTable α) (op : Opcode) : Option α := (t.entries.find? (·.1 = op)).map (·.2)

/-- The opcode has a value. -/
def contains (t : OpcodeTable α) (op : Opcode) : Bool := (t.get? op).isSome

/-- Entries with a new one put before all that do not come before it. -/
def insertEntry (op : Opcode) (v : α) : List (Opcode × α) → List (Opcode × α)
  | [] => [(op, v)]
  | e :: es => if e.1.Before op then e :: insertEntry op v es else (op, v) :: e :: es

/-- The table with a value at an opcode that has none. -/
def insert (t : OpcodeTable α) (op : Opcode) (v : α) : OpcodeTable α := ⟨insertEntry op v t.entries⟩

/-- The opcodes that have a value, in order. -/
def opcodes (t : OpcodeTable α) : List Opcode := t.entries.map (·.1)

/-- The values, in the order of their opcodes. -/
def values (t : OpcodeTable α) : List α := t.entries.map (·.2)

/-- How many opcodes have a value. -/
def size (t : OpcodeTable α) : Nat := t.entries.length

/-- Looking for an entry after an insertion finds the new entry under its own opcode, and what was there under any other. -/
theorem find?_insertEntry (op q : Opcode) (v : α) (es : List (Opcode × α)) :
    (insertEntry op v es).find? (·.1 = q) = if op = q then some (op, v) else es.find? (·.1 = q) := by
  induction es with
  | nil => by_cases h : op = q <;> simp [insertEntry, h]
  | cons e es ih =>
    unfold insertEntry
    split
    next hb =>
      have hne : e.1 ≠ op := fun h => Opcode.not_before_self op (h ▸ hb)
      by_cases h : e.1 = q
      · have : op ≠ q := fun h' => hne (h.trans h'.symm)
        simp [h, this]
      · simp only [List.find?_cons, h, decide_false]
        exact ih
    next => by_cases h : op = q <;> simp [h]

/-- An insertion adds the new entry and keeps the others. -/
theorem mem_insertEntry (e : Opcode × α) (op : Opcode) (v : α) (es : List (Opcode × α)) :
    e ∈ insertEntry op v es ↔ e = (op, v) ∨ e ∈ es := by
  induction es with
  | nil => simp [insertEntry]
  | cons e' es ih =>
    unfold insertEntry
    split
    · rw [List.mem_cons, ih, List.mem_cons, or_left_comm]
    · rw [List.mem_cons]

/-- The values after an insertion are the new one and those from before. -/
theorem mem_values_insert (t : OpcodeTable α) (x : α) (op : Opcode) (v : α) :
    x ∈ (t.insert op v).values ↔ x = v ∨ x ∈ t.values := by
  simp only [values, insert, List.mem_map, mem_insertEntry]
  constructor
  · rintro ⟨e, rfl | he, rfl⟩
    · exact Or.inl rfl
    · exact Or.inr ⟨e, he, rfl⟩
  · rintro (rfl | ⟨e, he, rfl⟩)
    · exact ⟨(op, x), Or.inl rfl, rfl⟩
    · exact ⟨e, Or.inr he, rfl⟩

/-- A table answers for the inserted opcode with its value, and for every other opcode as before. -/
theorem get?_insert (t : OpcodeTable α) (op q : Opcode) (v : α) :
    (t.insert op v).get? q = if op = q then some v else t.get? q := by
  unfold get? insert
  rw [find?_insertEntry]
  split <;> rfl

end OpcodeTable

end ScriptEngine
