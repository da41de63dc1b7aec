import Mathlib.Data.List.Forall2
import ScriptEngine.Assembly.Assemble
import ScriptEngine.Proofs.Result
import ScriptEngine.Proofs.Script.Interning

/-!
# What operands stand for

An operand stands for a number or, by its position, for a literal. `Denotes` says for which, from the way the operand is written
and the literals of the finished script; since the pools only grow, it is enough to know it when the operand has been read.
`literalsOf` gives the pools themselves: the distinct literals of each kind, in the order of their first occurrence.
-/

namespace ScriptEngine.Assembly

/-! ## The literals of operands -/

namespace Operand

/-- The string that an operand writes. -/
def text? : Operand → Option String
  | text s => some s
  | _ => none

/-- The float literal that an operand writes. -/
def float? : Operand → Option Binary32
  | float x => some x
  | _ => none

/-- The integer literal that an operand writes. -/
def int? : Operand → Option Int32
  | int n => some n
  | _ => none

/-- The literal that an operand writes. -/
def literal? : Operand → Option Literal
  | number _ => none
  | text s => some (.string s)
  | float x => some (.float x)
  | int n => some (.int n)

/-- The literals with the operand's literal among them. -/
def note (l : Literals) (o : Operand) : Literals := (o.resolve l).2

/-- An operand adds the literal that it writes. -/
theorem note_eq (l : Literals) (o : Operand) : o.note l = o.literal?.elim l fun v => (v.add l).2 := by
  cases o <;> rfl

end Operand

/-- The literals of some operands: those of each kind, each once, in the order of their first occurrence. -/
def literalsOf (operands : List Operand) : Literals where
  ints := (operands.filterMap Operand.int?).eraseDups
  floats := (operands.filterMap Operand.float?).eraseDups
  strings := (operands.filterMap Operand.text?).eraseDups

/-- The literals of some operands are the pools of the literals that they write. -/
theorem literalsOf_eq (operands : List Operand) : literalsOf operands = .distinctOf (operands.filterMap Operand.literal?) := by
  have hints : (fun o : Operand => o.literal?.bind Literal.int?) = Operand.int? := by
    funext o
    cases o <;> rfl
  have hfloats : (fun o : Operand => o.literal?.bind Literal.float?) = Operand.float? := by
    funext o
    cases o <;> rfl
  have hstrings : (fun o : Operand => o.literal?.bind Literal.string?) = Operand.text? := by
    funext o
    cases o <;> rfl
  rw [literalsOf, Literals.distinctOf, List.filterMap_filterMap, List.filterMap_filterMap, List.filterMap_filterMap, hints,
    hfloats, hstrings]

/-- One more operand adds its literal unless it is there. -/
theorem note_literalsOf (operands : List Operand) (o : Operand) :
    o.note (literalsOf operands) = literalsOf (operands ++ [o]) := by
  rw [literalsOf_eq, literalsOf_eq, List.filterMap_append, Operand.note_eq]
  cases hliteral : o.literal? with
  | none => rw [List.filterMap_cons_none hliteral, List.filterMap_nil, List.append_nil, Option.elim_none]
  | some v => rw [List.filterMap_cons_some hliteral, List.filterMap_nil, Option.elim_some, Literals.add_distinctOf]

/-- Noting operands one after the other gives the literals of all of them. -/
theorem foldl_note_literalsOf (operands more : List Operand) :
    more.foldl Operand.note (literalsOf operands) = literalsOf (operands ++ more) := by
  have hstep : ∀ operands l o, l = literalsOf operands → o.note l = literalsOf (operands ++ [o]) := by
    rintro operands _ o rfl
    exact note_literalsOf operands o
  exact foldl_follows hstep rfl more

/-- An operand changes at most the end of its own pool. -/
theorem extends_note (l : Literals) (o : Operand) : l.Extends (o.note l) := by
  rw [Operand.note_eq]
  cases o.literal? with
  | none => exact .refl l
  | some v => exact (v.adds_add l).extends

theorem extends_foldl_note (l : Literals) (operands : List Operand) : l.Extends (operands.foldl Operand.note l) := by
  induction operands generalizing l with
  | nil => exact Literals.Extends.refl l
  | cons o operands ih => exact (extends_note l o).trans (ih _)

/-! ## Arguments -/

/-- The argument that an operand stands for in a script with the literals `l`: an integer stands for itself, and a text in
quotes, a float after `#` and an integer after `@` for a position at which their pool holds them. -/
inductive Denotes (l : Literals) : List Char → Nat → Prop where
  | number {token : List Char} {v : Nat} : integer? token = some (v : Int) → Denotes l token v
  | text {s : List Char} {v : Nat} : l.string? v = some (String.ofList s) → Denotes l ('"' :: (s ++ ['"'])) v
  | float {f : List Char} {x : Binary32} {v : Nat} :
      Binary32.ofText? f = some x → l.float? v = some x → Denotes l ('#' :: f) v
  | int {t : List Char} {n : Int32} {v : Nat} : int32? t = some n → l.int? v = some n → Denotes l ('@' :: t) v

/-- What an operand stands for is not changed by literals that are added later. -/
theorem Denotes.mono {l l' : Literals} (h : l.Extends l') {token : List Char} {v : Nat} (hd : Denotes l token v) :
    Denotes l' token v := by
  cases hd with
  | number hn => exact .number hn
  | text hs => exact .text (h.string? hs)
  | float hf hx => exact .float hf (h.float? hx)
  | int ht hn => exact .int ht (h.int? hn)

/-- The value of an operand is what it stands for, unless it is negative. -/
theorem denotes_resolve {token : List Char} {o : Operand} (h : Operand.ofToken? token = some o) (l : Literals)
    (hpos : 0 ≤ (o.resolve l).1) : Denotes (o.note l) token (o.resolve l).1.toNat := by
  unfold Operand.ofToken? at h
  split at h
  · rename_i cs
    split at h
    · rename_i hlast
      cases h
      obtain ⟨s, rfl⟩ := List.getLast?_eq_some_iff.mp hlast
      rw [List.dropLast_concat]
      exact .text (getElem?_intern l.strings (String.ofList s))
    · cases h
  · rename_i f
    obtain ⟨x, hx, rfl⟩ := Option.map_eq_some_iff.mp h
    exact .float hx (getElem?_intern l.floats x)
  · rename_i t
    obtain ⟨n, hn, rfl⟩ := Option.map_eq_some_iff.mp h
    exact .int hn (getElem?_intern l.ints n)
  · obtain ⟨n, hn, rfl⟩ := Option.map_eq_some_iff.mp h
    have hnat : ((n.toNat : Nat) : Int) = n := Int.toNat_of_nonneg hpos
    exact .number (hn.trans (congrArg some hnat.symm))

/-- An argument is what its token stands for, and it fits its field. -/
theorem argument_eq_ok {l l' : Literals} {token : List Char} {bits v : Nat} (h : argument l token bits = .ok (v, l')) :
    ∃ o, Operand.ofToken? token = some o ∧ l' = o.note l ∧ v < 2 ^ bits ∧ Denotes l' token v := by
  unfold argument at h
  split at h
  · cases h
  rename_i o ho
  simp only at h
  split at h
  · rename_i hrange
    cases h
    refine ⟨o, ho, rfl, ?_, denotes_resolve ho l hrange.1⟩
    rw [Int.toNat_lt hrange.1]
    exact_mod_cast hrange.2
  · cases h

/-- The arguments of a line are what its operands stand for, once the literals of all of them are there. -/
theorem arguments_eq_ok {l l' : Literals} {fields : List (List Char × Nat)} {values : List Nat}
    (h : arguments l fields = .ok (values, l')) :
    l' = ((fields.map (·.1)).filterMap Operand.ofToken?).foldl Operand.note l ∧
      List.Forall₂ (fun field v => v < 2 ^ field.2 ∧ Denotes l' field.1 v) fields values := by
  induction fields generalizing l values with
  | nil =>
    cases h
    exact ⟨rfl, .nil⟩
  | cons field fields ih =>
    obtain ⟨token, bits⟩ := field
    rw [arguments] at h
    obtain ⟨⟨v, l₁⟩, harg, h⟩ := bind_eq_ok_iff.mp h
    obtain ⟨⟨rest, l₂⟩, hrest, h⟩ := bind_eq_ok_iff.mp h
    cases h
    obtain ⟨o, ho, rfl, hlt, hden⟩ := argument_eq_ok harg
    obtain ⟨hrest, hall⟩ := ih hrest
    rw [List.map_cons, List.filterMap_cons_some ho, List.foldl_cons]
    refine ⟨hrest, .cons ⟨hlt, ?_⟩ hall⟩
    rw [hrest]
    exact hden.mono (extends_foldl_note _ _)

end ScriptEngine.Assembly
