import ScriptEngine.Proofs.Machine.Operands
import ScriptEngine.Proofs.Machine.Slots
import ScriptEngine.Proofs.Session.Instructions
import ScriptEngine.Session.Basic

/-!
# Local variables hold what was written last

Local variables are written by the game itself, which gives the number of a slot, and by words of scripts, which take it off the
stack as an integer with sign. Whoever writes, a slot holds what was last written to it, if anything was: a write that is accepted
changes the slot that it hits and no other one, and a write to a slot that is not there changes none. The induction is on the writes
that are still to come, with those that were done in what is kept (`LocalWrite.Holds`).

A host may keep its local variables wherever it likes. All that is asked of it is that it gives back what was put there.
-/

namespace ScriptEngine

/-- What is put in the place of the local variables of a host is what is there. -/
def Host.KeepsLocals (σ : Type) [Host σ] : Prop := ∀ (h : σ) (l : Locals), getLocals (setLocals h l) = l

/-- A session keeps its local variables. -/
theorem GameSession.keepsLocals {ρ : Type} [Generator ρ] : Host.KeepsLocals (GameSession ρ) := fun _ _ => rfl

/-! ## Writes -/

/-- A write to local variables. -/
inductive LocalWrite where
  /-- The game writes a short. -/
  | setShort (i : Nat) (v : Int32)
  /-- The game writes a long. -/
  | setLong (i : Nat) (v : Int32)
  /-- The game writes a float. -/
  | setFloat (i : Nat) (v : Binary32)
  /-- A word of a script writes the cell on top of the stack into the slot that the cell below it names. -/
  | storeLocal (kind : LocalKind) (slot value : Cell)
  deriving DecidableEq, Repr

namespace LocalWrite

/-- The kind of variable that is written. -/
def kind : LocalWrite → LocalKind
  | setShort _ _ => .short
  | setLong _ _ => .long
  | setFloat _ _ => .float
  | storeLocal kind _ _ => kind

/-- The number of the slot that is written. A negative integer is no number of a slot. -/
def slot? : LocalWrite → Option Nat
  | setShort i _ | setLong i _ | setFloat i _ => some i
  | storeLocal _ slot _ => slot.index?

/-- What is written, as a cell. -/
def cell : LocalWrite → Cell
  | setShort _ v | setLong _ v => .ofInt v
  | setFloat _ v => .ofFloat v
  | storeLocal _ _ value => value

/-- What the slot gives back if it is there. -/
def kept (w : LocalWrite) : Cell := w.kind.kept w.cell

/-- The slot that is written is there. -/
def Accepted (sizes : LocalSizes) (w : LocalWrite) : Prop := ∃ i ∈ w.slot?, i < sizes.count w.kind

/-- The slot of that kind and number is there, and it is the one that is written. -/
def Hits (sizes : LocalSizes) (kind : LocalKind) (i : Nat) (w : LocalWrite) : Prop :=
  w.kind = kind ∧ w.slot? = some i ∧ i < sizes.count kind

instance (sizes : LocalSizes) (kind : LocalKind) (i : Nat) : DecidablePred (Hits sizes kind i) :=
  fun _ => inferInstanceAs (Decidable (_ ∧ _ ∧ _))

/-- The locals after a write; nothing if it is refused. -/
def attempt? (l : Locals) : LocalWrite → Option Locals
  | setShort i v => l.setShort? i v
  | setLong i v => l.setLong? i v
  | setFloat i v => l.setFloat? i v
  | storeLocal kind slot value => l.store? kind slot value

/-- A host after a write to its locals. A write that is refused has no effect. -/
def perform {σ : Type} [Host σ] (h : σ) (w : LocalWrite) : σ :=
  (w.attempt? (Host.getLocals h)).elim h (Host.setLocals h)

/-- What some writes have left in a slot: what it keeps of the last one that hit it, and zero if none did. -/
def left (sizes : LocalSizes) (writes : List LocalWrite) (kind : LocalKind) (i : Nat) : Cell :=
  (writes.filter (Hits sizes kind i)).getLast?.elim .zero kept

/-- Every write is one to the slot of its kind that it names, whoever writes. -/
theorem attempt?_eq (l : Locals) (w : LocalWrite) : w.attempt? l = w.slot?.bind fun i => l.set? w.kind i w.cell := by
  cases w <;> rfl

/-- A write is accepted exactly when its slot is there. -/
theorem isSome_attempt?_iff {l : Locals} {w : LocalWrite} : (w.attempt? l).isSome = true ↔ w.Accepted l.sizes := by
  rw [attempt?_eq, Accepted]
  cases w.slot? with
  | none => simp
  | some i => simp [Locals.isSome_set?_iff]

/-- A write keeps the numbers of slots. -/
theorem sizes_attempt? {l l' : Locals} {w : LocalWrite} (h : w.attempt? l = some l') : l'.sizes = l.sizes := by
  rw [attempt?_eq] at h
  obtain ⟨i, -, h⟩ := Option.bind_eq_some_iff.mp h
  exact Locals.sizes_set? h

/-- A write that is accepted changes the slot that it hits, and no other one. -/
theorem slot_attempt? {l l' : Locals} {w : LocalWrite} (h : w.attempt? l = some l') (kind : LocalKind) (i : Nat) :
    l'.slot kind i = if w.Hits l.sizes kind i then w.kept else l.slot kind i := by
  rw [attempt?_eq] at h
  obtain ⟨j, hj, h⟩ := Option.bind_eq_some_iff.mp h
  have hthere : j < l.sizes.count w.kind := Locals.isSome_set?_iff.mp (Option.isSome_iff_exists.mpr ⟨l', h⟩)
  rw [Locals.slot_set? h]
  by_cases hsame : w.kind = kind ∧ j = i
  · obtain ⟨rfl, rfl⟩ := hsame
    rw [if_pos ⟨rfl, rfl⟩, if_pos ⟨rfl, hj, hthere⟩]
    rfl
  · rw [if_neg hsame, if_neg]
    rintro ⟨hkind, hslot, -⟩
    exact hsame ⟨hkind, Option.some.inj (hj.symm.trans hslot)⟩

/-- A write that is refused hits no slot. -/
theorem not_hits_of_refused {l : Locals} {w : LocalWrite} (h : w.attempt? l = none) (kind : LocalKind) (i : Nat) :
    ¬ w.Hits l.sizes kind i := by
  rintro ⟨rfl, hslot, hthere⟩
  have haccepted := isSome_attempt?_iff.mpr ⟨i, hslot, hthere⟩
  rw [h] at haccepted
  cases haccepted

/-! ## Histories of writes -/

/-- The numbers of slots stay, and each slot holds what the writes have left in it. -/
structure Holds (sizes : LocalSizes) (writes : List LocalWrite) (l : Locals) : Prop where
  sizes_eq : l.sizes = sizes
  slot_eq : ∀ kind i, l.slot kind i = left sizes writes kind i

/-- Locals as they are made hold what no writes have left in them. -/
theorem holds_ofSizes (sizes : LocalSizes) : Holds sizes [] (.ofSizes sizes) :=
  ⟨by simp [Locals.sizes, Locals.ofSizes], Locals.slot_ofSizes sizes⟩

/-- One more write leaves what it hits a slot with, and what was there in any other. -/
theorem left_concat (sizes : LocalSizes) (writes : List LocalWrite) (w : LocalWrite) (kind : LocalKind) (i : Nat) :
    left sizes (writes ++ [w]) kind i = if w.Hits sizes kind i then w.kept else left sizes writes kind i := by
  unfold left
  by_cases hhits : w.Hits sizes kind i <;> simp [hhits]

section Keeping

variable {σ : Type} [Host σ] (hkeeps : Host.KeepsLocals σ)

include hkeeps

/-- The locals of a host after a write are its locals with the write, unless it is refused. -/
theorem getLocals_perform (h : σ) (w : LocalWrite) :
    Host.getLocals (w.perform h) = (w.attempt? (Host.getLocals h)).getD (Host.getLocals h) := by
  unfold perform
  cases w.attempt? (Host.getLocals h) with
  | none => rfl
  | some l => exact hkeeps h l

/-- One more write is added to those whose last ones the slots hold. -/
theorem Holds.perform {sizes : LocalSizes} {writes : List LocalWrite} {h : σ} (hholds : Holds sizes writes (Host.getLocals h))
    (w : LocalWrite) : Holds sizes (writes ++ [w]) (Host.getLocals (w.perform h)) := by
  rw [getLocals_perform hkeeps]
  obtain ⟨rfl, hslot⟩ := hholds
  cases hattempt : w.attempt? (Host.getLocals h) with
  | none =>
    refine ⟨rfl, fun kind i => ?_⟩
    rw [left_concat, if_neg (not_hits_of_refused hattempt kind i)]
    exact hslot kind i
  | some l =>
    refine ⟨sizes_attempt? hattempt, fun kind i => ?_⟩
    rw [left_concat, Option.getD_some, slot_attempt? hattempt, hslot]

/-- More writes are added to those whose last ones the slots hold. -/
theorem Holds.performs {sizes : LocalSizes} {writes : List LocalWrite} {h : σ} (hholds : Holds sizes writes (Host.getLocals h))
    (more : List LocalWrite) : Holds sizes (writes ++ more) (Host.getLocals (more.foldl LocalWrite.perform h)) := by
  have hstep : ∀ writes (h : σ) w, Holds sizes writes (Host.getLocals h) →
      Holds sizes (writes ++ [w]) (Host.getLocals (w.perform h)) :=
    fun writes h w hholds => hholds.perform hkeeps w
  exact foldl_follows hstep hholds more

end Keeping

end LocalWrite

/-! ## The words of the standard engine -/

namespace Engine

variable {σ : Type} [Host σ] {limit : Nat} {e : Engine σ}

/-- A word that stores a local variable takes two cells off the stack and performs the write that they describe. -/
theorem perform_storeLocal (he : standard limit = .ok e) (kind : LocalKind) (arg0 arg1 : Nat) (l : Literals) (m : Machine σ) :
    e.dispatch.perform ⟨(Standard.builtin (.storeLocal kind)).opcode, arg0, arg1⟩ l m =
      .ok { m with
        stack := m.stack.drop 2
        host := (LocalWrite.storeLocal kind (m.peek 1) m.top).perform m.host } := by
  have happly : (Standard.builtin (.storeLocal kind)).handler.apply arg0 arg1 l m = Builtin.writeLocal kind m := rfl
  rw [perform_of_standard he, happly, Builtin.writeLocal_eq]
  rfl

/-- A word that fetches a local variable puts what is in the slot in the place of the cell that names it. -/
theorem perform_fetchLocal (he : standard limit = .ok e) (kind : LocalKind) (arg0 arg1 : Nat) (l : Literals) (m : Machine σ) :
    e.dispatch.perform ⟨(Standard.builtin (.fetchLocal kind)).opcode, arg0, arg1⟩ l m =
      .ok { m with stack := m.stack.set 0 (m.top.index?.elim .zero ((Host.getLocals m.host).slot kind)) } := by
  rw [perform_of_standard he, ← Locals.fetch_eq]
  rfl

/-- Local variables hold what was written last. On the standard engine for a host that keeps its local variables, the keywords
find for each kind a word that stores a variable and a word that fetches one. A word that stores performs the write which the two
topmost cells of the stack describe, whatever else the state is. Let the host have locals of any sizes as they are made. After any
writes, by the game and by such words, the sizes are the same. A write is accepted exactly when its slot is there, and otherwise
the host stays as it is. What is read from a slot, by the game or by a word that fetches, is what the writes have left there: the
last one that hit it, cut to 16 bits if it is a short, or zero if there is none. -/
theorem locals_hold_last_writes (hkeeps : Host.KeepsLocals σ) (limit : Nat) : ∃ e : Engine σ, standard limit = .ok e ∧
    ∃ store fetch : LocalKind → Descriptor,
      (∀ kind, e.registry.lookup ("storelocal" ++ kind.name) = .ok (store kind) ∧
        e.registry.lookup ("fetchlocal" ++ kind.name) = .ok (fetch kind)) ∧
      (∀ kind arg0 arg1 l (m : Machine σ), e.dispatch.perform ⟨(store kind).opcode, arg0, arg1⟩ l m =
        .ok { m with
          stack := m.stack.drop 2
          host := (LocalWrite.storeLocal kind (m.peek 1) m.top).perform m.host }) ∧
      ∀ (sizes : LocalSizes) (h : σ) (writes : List LocalWrite), Host.getLocals h = .ofSizes sizes →
        let after := writes.foldl LocalWrite.perform h
        let locals := Host.getLocals after
        let left := LocalWrite.left sizes writes
        locals.sizes = sizes ∧
        (∀ w : LocalWrite, ((w.attempt? locals).isSome = true ↔ w.Accepted sizes) ∧
          (¬ w.Accepted sizes → w.perform after = after)) ∧
        (∀ i, locals.short i = (left .short i).int ∧ locals.long i = (left .long i).int ∧
          locals.float i = (left .float i).float) ∧
        ∀ kind arg0 arg1 l (m : Machine σ), m.host = after →
          e.dispatch.perform ⟨(fetch kind).opcode, arg0, arg1⟩ l m =
            .ok { m with stack := m.stack.set 0 (m.top.index?.elim .zero (left kind)) } := by
  obtain ⟨e, he⟩ := exists_standard (σ := σ) limit
  choose store hstore hstore_opcode using fun kind => lookup_of_standard he (.builtin (.storeLocal kind))
  choose fetch hfetch hfetch_opcode using fun kind => lookup_of_standard he (.builtin (.fetchLocal kind))
  refine ⟨e, he, store, fetch, fun kind => ⟨hstore kind, hfetch kind⟩, ?_, ?_⟩
  · intro kind arg0 arg1 l m
    rw [hstore_opcode, perform_storeLocal he]
  · intro sizes h writes hstart after locals left
    have hnew : LocalWrite.Holds sizes [] (Host.getLocals h) := hstart ▸ LocalWrite.holds_ofSizes sizes
    obtain ⟨hsizes, hslot⟩ := hnew.performs hkeeps writes
    refine ⟨hsizes, ?_, ?_, ?_⟩
    · intro w
      have haccepted : (w.attempt? locals).isSome = true ↔ w.Accepted sizes := by
        rw [← hsizes]
        exact LocalWrite.isSome_attempt?_iff
      refine ⟨haccepted, fun hrefused => ?_⟩
      have hnone : w.attempt? locals = none := Option.not_isSome_iff_eq_none.mp (mt haccepted.mp hrefused)
      rw [LocalWrite.perform, hnone]
      rfl
    · intro i
      have hread : ∀ kind, left kind i = locals.slot kind i := fun kind => (hslot kind i).symm
      simp only [hread]
      exact ⟨rfl, rfl, rfl⟩
    · rintro kind arg0 arg1 l m hhost
      have hleft : (Host.getLocals m.host).slot kind = left kind := by
        rw [hhost]
        exact funext (hslot kind)
      rw [hfetch_opcode, perform_fetchLocal he, hleft]

/-- Of some writes to a session with one short, two longs and no float, the ones to slots that are not there have no effect: a long
after the last one, a short with a negative number, and a float. -/
theorem locals_hold_last_writes_of_few :
    Host.KeepsLocals (GameSession StdGen) ∧
      let writes : List LocalWrite :=
        [.setLong 1 9, .setLong 4 7, .setShort 0 5, .storeLocal .short ⟨0⟩ ⟨0x18000⟩, .storeLocal .short ⟨0xffffffff⟩ ⟨3⟩,
          .setLong (2 ^ 64 - 1) 8, .setFloat 0 .zero]
      let g := writes.foldl LocalWrite.perform { locals := .ofSizes ⟨1, 2, 0⟩, rng := mkStdGen : GameSession StdGen }
      g.locals.sizes = ⟨1, 2, 0⟩ ∧ g.locals.short 0 = -32768 ∧ g.locals.long 1 = 9 ∧ g.locals.long 4 = 0 := by
  obtain ⟨_, -, _, _, -, -, hall⟩ := locals_hold_last_writes (GameSession.keepsLocals (ρ := StdGen)) 0
  refine ⟨GameSession.keepsLocals, ?_⟩
  intro writes g
  obtain ⟨hsizes, -, hreads, -⟩ := hall ⟨1, 2, 0⟩ { locals := .ofSizes ⟨1, 2, 0⟩, rng := mkStdGen } writes rfl
  have hshort : LocalWrite.left ⟨1, 2, 0⟩ writes .short 0 = ⟨0xffff8000⟩ := by decide
  have hlong : LocalWrite.left ⟨1, 2, 0⟩ writes .long 1 = ⟨9⟩ := by decide
  have hbeyond : LocalWrite.left ⟨1, 2, 0⟩ writes .long 4 = .zero := by decide
  refine ⟨hsizes, ?_, ?_, ?_⟩
  · exact (hreads 0).1.trans (by rw [hshort]; rfl)
  · exact (hreads 1).2.1.trans (by rw [hlong]; rfl)
  · exact (hreads 4).2.1.trans (by rw [hbeyond]; rfl)

end Engine

end ScriptEngine
