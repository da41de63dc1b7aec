import Mathlib.Data.List.Nodup
import ScriptEngine.Proofs.Script.Pools

/-!
# Histories of added literals

Literals are added one by one, of all three kinds in any order, and each time a position is given out. A position names the literal
that it was given out for ever after, and two literals of one kind have the same position exactly when they are the same. For floats
that is a matter of bits: the two zeros have positions of their own, and so has every NaN.

The pools themselves are what was added, each value once and in the order of its first occurrence (`Literals.distinctOf`). That is
what the induction over the history carries; positions are settled by it, since no pool holds a value twice.
-/

namespace ScriptEngine

/-- The kinds of literals, with a pool each. -/
inductive LiteralKind where
  | int | float | string
  deriving DecidableEq, Repr

/-- A literal of any kind. -/
inductive Literal where
  | int (v : Int32)
  | float (x : Binary32)
  | string (s : String)
  deriving DecidableEq, Repr

namespace Literal

/-- The kind of a literal. -/
def kind : Literal → LiteralKind
  | int _ => .int
  | float _ => .float
  | string _ => .string

/-- The integer that a literal is. -/
def int? : Literal → Option Int32
  | int v => some v
  | _ => none

/-- The float that a literal is. -/
def float? : Literal → Option Binary32
  | float x => some x
  | _ => none

/-- The string that a literal is. -/
def string? : Literal → Option String
  | string s => some s
  | _ => none

/-- The position of a literal in the pool of its kind, adding it if it is missing. -/
def add (l : Literals) : Literal → Nat × Literals
  | int v => l.addInt v
  | float x => l.addFloat x
  | string s => l.addString s

/-- The same literal. Floats are the same when their bits are. -/
def Same : Literal → Literal → Prop
  | int v, int w => v = w
  | float x, float y => x.bits = y.bits
  | string s, string t => s = t
  | _, _ => False

/-- The literal is what is read at a position of the pool of its kind, bit for bit. -/
def At (l : Literals) (i : Nat) : Literal → Prop
  | int v => l.int? i = some v
  | float x => (l.float? i).map (·.bits) = some x.bits
  | string s => l.string? i = some s

/-- What adding a literal does to the pools: nothing, or the pool of its kind has it at the end and the others are as before. -/
inductive Adds : Literal → Literals → Literals → Prop where
  | none (v : Literal) (l : Literals) : Adds v l l
  | int (v : Int32) (l : Literals) : Adds (int v) l { l with ints := l.ints ++ [v] }
  | float (x : Binary32) (l : Literals) : Adds (float x) l { l with floats := l.floats ++ [x] }
  | string (s : String) (l : Literals) : Adds (string s) l { l with strings := l.strings ++ [s] }

variable {l l' : Literals} {v w : Literal} {i j : Nat}

/-- Adding a literal leaves its pool as it is, or puts it at the end. -/
theorem adds_add (v : Literal) (l : Literals) : Adds v l (v.add l).2 := by
  cases v with
  | int n =>
    have hadd : ((int n).add l).2 = { l with ints := (intern l.ints n).2 } := rfl
    rcases intern_eq_or l.ints n with hpool | hpool <;> rw [hadd, hpool]
    · exact .none _ l
    · exact .int n l
  | float x =>
    have hadd : ((float x).add l).2 = { l with floats := (intern l.floats x).2 } := rfl
    rcases intern_eq_or l.floats x with hpool | hpool <;> rw [hadd, hpool]
    · exact .none _ l
    · exact .float x l
  | string s =>
    have hadd : ((string s).add l).2 = { l with strings := (intern l.strings s).2 } := rfl
    rcases intern_eq_or l.strings s with hpool | hpool <;> rw [hadd, hpool]
    · exact .none _ l
    · exact .string s l

/-- Adding a literal keeps what the pools begin with. -/
theorem Adds.extends (h : Adds v l l') : l.Extends l' := by
  cases h with
  | none => exact .refl l
  | int n => exact ⟨List.prefix_append _ _, List.prefix_refl _, List.prefix_refl _⟩
  | float x => exact ⟨List.prefix_refl _, List.prefix_append _ _, List.prefix_refl _⟩
  | string s => exact ⟨List.prefix_refl _, List.prefix_refl _, List.prefix_append _ _⟩

/-- A literal is read at the position that is given out for it. -/
theorem at_add (v : Literal) (l : Literals) : v.At (v.add l).2 (v.add l).1 := by
  cases v with
  | int n => exact getElem?_intern l.ints n
  | float x => exact congrArg (Option.map (·.bits)) (getElem?_intern l.floats x)
  | string s => exact getElem?_intern l.strings s

/-- What is read at a position stays there when literals are added. -/
theorem At.mono (h : v.At l i) (hextends : l.Extends l') : v.At l' i := by
  cases v with
  | int n => exact hextends.int? h
  | string s => exact hextends.string? h
  | float x =>
    obtain ⟨y, hy, hbits⟩ := Option.map_eq_some_iff.mp h
    exact Option.map_eq_some_iff.mpr ⟨y, hextends.float? hy, hbits⟩

/-- At one position of the pool of a kind one literal is read. -/
theorem At.same (hv : v.At l i) (hw : w.At l i) (hkind : v.kind = w.kind) : v.Same w := by
  cases v <;> cases w <;> cases hkind <;> exact Option.some.inj (hv.symm.trans hw)

end Literal

namespace Literals

/-! ## The pools -/

/-- No pool holds a value twice. -/
structure Distinct (l : Literals) : Prop where
  ints : l.ints.Nodup
  floats : (l.floats.map (·.bits)).Nodup
  strings : l.strings.Nodup

/-- In pools without repetition a literal is read at one position only. -/
theorem Distinct.eq_of_at {l : Literals} (h : l.Distinct) {v w : Literal} {i j : Nat} (hv : v.At l i) (hw : w.At l j)
    (hsame : v.Same w) : i = j := by
  have hpos : ∀ {α : Type} {pool : List α} {x y : α}, pool.Nodup → pool[i]? = some x → pool[j]? = some y → x = y → i = j := by
    rintro α pool x y hnodup hx hy rfl
    exact (List.getElem?_inj (List.getElem?_eq_some_iff.mp hx).1 hnodup).mp (hx.trans hy.symm)
  cases v <;> cases w <;> try exact hsame.elim
  case int.int => exact hpos h.ints hv hw hsame
  case string.string => exact hpos h.strings hv hw hsame
  case float.float x y =>
    rw [Literal.At, Literals.float?, ← List.getElem?_map] at hv hw
    exact hpos h.floats hv hw hsame

/-- The pools of some literals: those of each kind, each once, in the order of their first occurrence. -/
def distinctOf (vs : List Literal) : Literals where
  ints := (vs.filterMap Literal.int?).eraseDups
  floats := (vs.filterMap Literal.float?).eraseDups
  strings := (vs.filterMap Literal.string?).eraseDups

/-- The pools of some literals hold no value twice. -/
theorem distinct_distinctOf (vs : List Literal) : (distinctOf vs).Distinct := by
  have hbits : Function.Injective Binary32.bits := by
    rintro ⟨_⟩ ⟨_⟩ rfl
    rfl
  exact ⟨nodup_eraseDups _, (nodup_eraseDups _).map hbits, nodup_eraseDups _⟩

/-- One more literal is added to the pools of those before it. -/
theorem add_distinctOf (vs : List Literal) (v : Literal) : (v.add (distinctOf vs)).2 = distinctOf (vs ++ [v]) := by
  unfold distinctOf
  cases v <;>
    simp only [List.filterMap_append, List.filterMap_cons, List.filterMap_nil, Literal.int?, Literal.float?, Literal.string?,
      List.append_nil, ← intern_eraseDups] <;>
    rfl

/-! ## Histories -/

/-- Adds literals one after the other: the positions that are given out, in order, and the pools at the end. -/
def addAll (l : Literals) : List Literal → List Nat × Literals
  | [] => ([], l)
  | v :: vs =>
    let (i, l) := v.add l
    let (positions, l) := l.addAll vs
    (i :: positions, l)

/-- Adding literals one after the other gives the pools of all of them. -/
theorem addAll_distinctOf (vs more : List Literal) : ((distinctOf vs).addAll more).2 = distinctOf (vs ++ more) := by
  induction more generalizing vs with
  | nil => rw [List.append_nil, addAll]
  | cons v more ih => rw [List.append_cons, ← ih, ← add_distinctOf, addAll]

/-- Adding literals keeps what the pools begin with. -/
theorem extends_addAll (l : Literals) (vs : List Literal) : l.Extends (l.addAll vs).2 := by
  induction vs generalizing l with
  | nil => exact .refl l
  | cons v vs ih => exact (v.adds_add l).extends.trans (ih _)

/-- A position is given out for each literal. -/
theorem length_addAll (l : Literals) (vs : List Literal) : (l.addAll vs).1.length = vs.length := by
  induction vs generalizing l with
  | nil => rfl
  | cons v vs ih => exact congrArg (· + 1) (ih _)

/-- Each literal is read in the end at the position that was given out for it. -/
theorem at_addAll {l : Literals} {vs : List Literal} {k i : Nat} {v : Literal} (hv : vs[k]? = some v)
    (hi : (l.addAll vs).1[k]? = some i) : v.At (l.addAll vs).2 i := by
  induction vs generalizing l k with
  | nil => cases hv
  | cons w vs ih =>
    cases k with
    | zero =>
      cases hv
      cases hi
      exact (v.at_add l).mono (extends_addAll _ vs)
    | succ k => exact ih hv hi

/-- Literals are interned. Let literals of any kinds be added one after the other, at first to empty pools. A position is given out
for each. No pool holds a value twice: each lists the values of its kind, in the order of their first occurrence. At each position
that was given out, the literal that it was given out for is read in the end, whatever has been added since. Two positions that were
given out for literals of one kind are the same exactly when the literals are, where floats are the same when their bits are. One
addition, to any pools, changes no pool but that of its kind, and at most puts the literal at the end of it. -/
theorem literals_are_interned (vs : List Literal) :
    let positions := (addAll {} vs).1
    let l := (addAll {} vs).2
    positions.length = vs.length ∧ l.Distinct ∧
    l.ints = (vs.filterMap Literal.int?).eraseDups ∧
    l.floats = (vs.filterMap Literal.float?).eraseDups ∧
    l.strings = (vs.filterMap Literal.string?).eraseDups ∧
    (∀ (k i : Nat) (v : Literal), vs[k]? = some v → positions[k]? = some i → v.At l i) ∧
    (∀ (k k' i i' : Nat) (v w : Literal), vs[k]? = some v → vs[k']? = some w → positions[k]? = some i →
      positions[k']? = some i' → v.kind = w.kind → (i = i' ↔ v.Same w)) ∧
    ∀ (v : Literal) (l : Literals), v.Adds l (v.add l).2 := by
  intro positions l
  have hpools : l = distinctOf vs := addAll_distinctOf [] vs
  have hdistinct : l.Distinct := hpools ▸ distinct_distinctOf vs
  refine ⟨length_addAll {} vs, hdistinct, ?_, ?_, ?_, fun k i v hv hi => at_addAll hv hi, ?_, Literal.adds_add⟩
  · rw [hpools, distinctOf]
  · rw [hpools, distinctOf]
  · rw [hpools, distinctOf]
  · rintro k k' i i' v w hv hw hi hi' hkind
    have hvat : v.At l i := at_addAll hv hi
    have hwat : w.At l i' := at_addAll hw hi'
    constructor
    · rintro rfl
      exact hvat.same hwat hkind
    · exact hdistinct.eq_of_at hvat hwat

/-- The two zeros and two NaNs have positions of their own, and an integer is counted in another pool. -/
example :
    (addAll {} [.float ⟨0⟩, .float ⟨0x80000000⟩, .float ⟨0x7fc00001⟩, .int 0, .float ⟨0x7fc00000⟩, .float ⟨0x7fc00001⟩]).1 =
      [0, 1, 2, 0, 3, 2] := by
  decide

end Literals

end ScriptEngine
