import Mathlib.Data.List.Forall2
import ScriptEngine.Host.Recording
import ScriptEngine.Proofs.Machine.Operands
import ScriptEngine.Proofs.Session.Instructions

/-!
# What instructions do to the host

An instruction makes one call to the host at most. Which call it is and with what arguments can be read off the stack before the
instruction: a cell names a string literal by its position, and a stack that is too short is read as if it had zero cells at its
bottom (`Standard.Calls`). The only other way in which an instruction changes the host is that it writes a local variable.
-/

namespace ScriptEngine

/-! ## What operands denote -/

/-- The text that a cell names: the string literal at its value read with sign, or the empty text if the value is negative or no
position of a literal. -/
inductive Literals.Names (l : Literals) (c : Cell) : String → Prop where
  | literal {text : String} : 0 ≤ c.int.toInt → l.strings[c.int.toInt.toNat]? = some text → Names l c text
  | negative : c.int.toInt < 0 → Names l c ""
  | past : (l.strings.length : Int) ≤ c.int.toInt → Names l c ""

/-- A cell names exactly the text that a handler reads from it. -/
theorem Literals.names_iff {l : Literals} {c : Cell} {text : String} : l.Names c text ↔ l.textAt c = text := by
  unfold Literals.textAt Cell.index?
  constructor
  · intro h
    cases h with
    | literal hsign htext =>
      rw [if_pos hsign, Option.bind_some, Literals.string?, htext]
      rfl
    | negative hsign =>
      rw [if_neg (by omega)]
      rfl
    | past hlength =>
      have hnone : l.strings[c.int.toInt.toNat]? = none := List.getElem?_eq_none (by omega)
      rw [if_pos (by omega), Option.bind_some, Literals.string?, hnone]
      rfl
  · rintro rfl
    by_cases hsign : 0 ≤ c.int.toInt
    · rw [if_pos hsign, Option.bind_some]
      cases htext : l.string? c.int.toInt.toNat with
      | some text => exact .literal hsign htext
      | none =>
        have hlength : l.strings.length ≤ c.int.toInt.toNat := List.getElem?_eq_none_iff.mp htext
        exact .past (by omega)
    · rw [if_neg hsign]
      exact .negative (by omega)

namespace Machine

variable {σ : Type}

/-- A stack with zero cells added at the bottom, as many as it lacks of `n`. -/
def padded (stack : List Cell) (n : Nat) : List Cell := stack ++ List.replicate (n - stack.length) .zero

/-- A padded stack holds the cells that are read at each depth. -/
theorem getElem?_padded (m : Machine σ) {n depth : Nat} (h : depth < n) :
    (padded m.stack n)[depth]? = some (m.peek depth) := by
  unfold padded peek
  by_cases hinside : depth < m.stack.length
  · rw [List.getElem?_append_left hinside, List.getElem?_eq_getElem hinside]
    rfl
  · have houtside : m.stack.length ≤ depth := Nat.le_of_not_lt hinside
    rw [List.getElem?_append_right houtside, List.getElem?_eq_none houtside,
      List.getElem?_replicate_of_lt (by omega)]
    rfl

/-- The topmost cells of a padded stack are those that are read. -/
theorem take_padded (m : Machine σ) {n k : Nat} (h : k ≤ n) : (padded m.stack n).take k = (List.range k).map m.peek := by
  refine List.ext_getElem? fun depth => ?_
  by_cases hdepth : depth < k
  · rw [List.getElem?_take_of_lt hdepth, getElem?_padded m (by omega), List.getElem?_map,
      List.getElem?_range hdepth]
    rfl
  · rw [List.getElem?_take_eq_none (by omega), List.getElem?_eq_none (by simp; omega)]

/-- The texts that the topmost cells of a padded stack name, from the deepest cell to the top, are those that a handler reads. -/
theorem names_take_padded_iff {l : Literals} {m : Machine σ} {n k : Nat} (h : k ≤ n) {texts : List String} :
    List.Forall₂ l.Names ((padded m.stack n).take k).reverse texts ↔
      (List.range k).reverse.map (fun depth => l.textAt (m.peek depth)) = texts := by
  have hnames : l.Names = fun c text => l.textAt c = text := by
    funext c text
    exact propext Literals.names_iff
  have hread : (List.range k).reverse.map (fun depth => l.textAt (m.peek depth)) =
      ((List.range k).reverse.map m.peek).map l.textAt := by
    rw [List.map_map]
    rfl
  rw [m.take_padded h, ← List.map_reverse, hnames, hread, ← List.forall₂_map_left_iff, List.forall₂_eq_eq_eq]

end Machine

/-! ## Calls -/

/-- The host after it has received a call. -/
def HostCall.perform {σ : Type} [Host σ] (h : σ) : HostCall → σ
  | global name => (Host.global h name).2
  | setGlobal name value => Host.setGlobal h name value
  | messageBox text buttons => Host.messageBox h text buttons
  | setControlEnabled name enabled => Host.setControlEnabled h name enabled
  | controlEnabled name => (Host.controlEnabled h name).2
  | menuMode => (Host.menuMode h).2
  | random limit => (Host.random h limit).2

namespace Standard

variable {σ : Type}

/-- The call to the host that an instruction makes on a stack. -/
inductive Calls (l : Literals) (stack : List Cell) : Standard → Nat → HostCall → Prop where
  | messageBox {n : Nat} {cell : Cell} {text : String} {buttons : List String} :
      (Machine.padded stack (n + 1))[n]? = some cell → l.Names cell text →
      List.Forall₂ l.Names ((Machine.padded stack (n + 1)).take n).reverse buttons →
      Calls l stack (builtin .messageBox) n (.messageBox text buttons)
  | storeGlobal {arg0 : Nat} {cell value : Cell} {name : String} : (Machine.padded stack 2)[0]? = some value →
      (Machine.padded stack 2)[1]? = some cell → l.Names cell name →
      Calls l stack (builtin .storeGlobal) arg0 (.setGlobal name value)
  | fetchGlobal {arg0 : Nat} {cell : Cell} {name : String} : (Machine.padded stack 1)[0]? = some cell → l.Names cell name →
      Calls l stack (builtin .fetchGlobal) arg0 (.global name)
  | setControl {arg0 : Nat} (c : Control) (enabled : Bool) :
      Calls l stack (setControl c enabled) arg0 (.setControlEnabled c.name enabled)
  | getDisabled {arg0 : Nat} (c : Control) : Calls l stack (getDisabled c) arg0 (.controlEnabled c.name)
  | menuMode {arg0 : Nat} : Calls l stack (query .menuMode) arg0 .menuMode
  | random {arg0 : Nat} {cell : Cell} : (Machine.padded stack 1)[0]? = some cell →
      Calls l stack (query .random) arg0 (.random cell.int)

/-- The call to the host that an instruction makes in a state, if it makes one. -/
def call? (x : Standard) (arg0 : Nat) (l : Literals) (m : Machine σ) : Option HostCall :=
  match x with
  | builtin .messageBox =>
    some (.messageBox (l.textAt (m.peek arg0)) ((List.range arg0).reverse.map fun depth => l.textAt (m.peek depth)))
  | builtin .storeGlobal => some (.setGlobal (l.textAt (m.peek 1)) m.top)
  | builtin .fetchGlobal => some (.global (l.textAt m.top))
  | setControl c enabled => some (.setControlEnabled c.name enabled)
  | getDisabled c => some (.controlEnabled c.name)
  | query .menuMode => some .menuMode
  | query .random => some (.random m.top.int)
  | _ => none

/-- The call that an instruction makes on a stack is the one that is read off the state. -/
theorem calls_iff {x : Standard} {arg0 : Nat} {l : Literals} {m : Machine σ} {c : HostCall} :
    x.Calls l m.stack arg0 c ↔ x.call? arg0 l m = some c := by
  have htop : m.top = m.peek 0 := by cases hstack : m.stack <;> simp [Machine.top, Machine.peek, hstack]
  constructor
  · intro h
    cases h with
    | messageBox hcell htext hbuttons =>
      rw [m.getElem?_padded (Nat.lt_succ_self _), Option.some_inj] at hcell
      subst hcell
      rw [call?, Literals.names_iff.mp htext, (Machine.names_take_padded_iff (Nat.le_succ _)).mp hbuttons]
    | storeGlobal hvalue hcell hname =>
      rw [m.getElem?_padded (by decide), Option.some_inj] at hvalue hcell
      subst hvalue hcell
      rw [call?, Literals.names_iff.mp hname, htop]
    | fetchGlobal hcell hname =>
      rw [m.getElem?_padded (by decide), Option.some_inj] at hcell
      subst hcell
      rw [call?, htop, Literals.names_iff.mp hname]
    | random hcell =>
      rw [m.getElem?_padded (by decide), Option.some_inj] at hcell
      subst hcell
      rw [call?, htop]
    | setControl | getDisabled | menuMode => rfl
  · intro h
    cases x with
    | builtin b =>
      cases b with
      | messageBox =>
        cases h
        exact .messageBox (m.getElem?_padded (Nat.lt_succ_self _)) (Literals.names_iff.mpr rfl)
          ((Machine.names_take_padded_iff (Nat.le_succ _)).mpr rfl)
      | storeGlobal =>
        cases h
        exact .storeGlobal (htop ▸ m.getElem?_padded (by decide)) (m.getElem?_padded (by decide)) (Literals.names_iff.mpr rfl)
      | fetchGlobal =>
        cases h
        exact .fetchGlobal (htop ▸ m.getElem?_padded (by decide)) (Literals.names_iff.mpr rfl)
      | _ => cases h
    | setControl c enabled =>
      cases h
      exact .setControl c enabled
    | getDisabled c =>
      cases h
      exact .getDisabled c
    | query q =>
      cases q with
      | menuMode =>
        cases h
        exact .menuMode
      | random =>
        cases h
        exact .random (htop ▸ m.getElem?_padded (by decide))
      | xbox => cases h

variable [Host σ]

/-- The host after an instruction: it has received the call that the instruction makes, or a local variable is written, or it is
as before. A write to a slot that is not there has no effect. -/
def hostAfter (x : Standard) (arg0 : Nat) (l : Literals) (m : Machine σ) : σ :=
  match x.call? arg0 l m, x with
  | some c, _ => c.perform m.host
  | none, builtin (.storeLocal kind) =>
    ((Host.getLocals m.host).store? kind (m.peek 1) m.top).elim m.host (Host.setLocals m.host)
  | none, _ => m.host

/-- An instruction does nothing to the host but make its call or write a local variable. -/
theorem host_apply (x : Standard) (arg0 arg1 : Nat) (l : Literals) (m : Machine σ) :
    (x.handler.apply arg0 arg1 l m).host = x.hostAfter arg0 l m := by
  cases x with
  | builtin b =>
    cases b with
    | messageBox | storeLocal | storeGlobal | skipOnZero | skipOnNonZero =>
      simp [handler, Builtin.handler, Handler.apply, hostAfter, call?, HostCall.perform, Builtin.showMessage_eq,
        Builtin.writeLocal_eq, Builtin.writeGlobal_eq, Builtin.skipWhen_eq]
    | _ => rfl
  | setControl c enabled | getDisabled c => rfl
  | query q => cases q <;> rfl

end Standard

end ScriptEngine
