import ScriptEngine.Proofs.Session.Messages
import ScriptEngine.Proofs.Text.Case
import ScriptEngine.Session.Basic

/-!
# Global variables hold what was written last

Global variables are written by the game itself, which gives their names, and by words of scripts, which name them by a string
literal. Scripts with different literals may write the same global: what counts is the name, and of the name not the case of its
ASCII letters. So a global holds what was written last under any name that is the same up to case (`GlobalWrite.left`).

The key under which a session keeps a global is the folded name. It is not mentioned in what is stated here: two names have the same
key exactly when they are the same up to case (`Text.fold_eq_iff`).
-/

namespace ScriptEngine

variable {ρ : Type}

namespace GameSession

/-- The entries that are left when those of one key are taken out say the same about any other key. -/
theorem lookup_filter_ne {key other : String} (h : other ≠ key) (entries : List (String × Cell)) :
    (entries.filter (·.1 != key)).lookup other = entries.lookup other := by
  induction entries with
  | nil => rfl
  | cons entry entries ih =>
    obtain ⟨name, v⟩ := entry
    rw [List.filter_cons]
    by_cases hname : name = key
    · have hother : (other == name) = false := by simpa [hname] using h
      simp [hname, List.lookup_cons, ih, hname ▸ hother]
    · simp [hname, List.lookup_cons, ih]

/-- After a write a global reads as what was written if it is the one that was written, and as before if it is another one. -/
theorem global_setGlobal (g : GameSession ρ) (written name : String) (v : Cell) :
    (g.setGlobal written v).global name = if Text.SameName written name then v else g.global name := by
  simp only [← Text.fold_eq_iff]
  by_cases hsame : Text.fold written = Text.fold name
  · simp [global, setGlobal, hsame]
  · have hother : (Text.fold name == Text.fold written) = false := by simpa using Ne.symm hsame
    simp [global, setGlobal, List.lookup_cons, hsame, hother, lookup_filter_ne (Ne.symm hsame)]

end GameSession

/-! ## Writes -/

/-- A write to a global variable. -/
inductive GlobalWrite where
  /-- The game writes a global. -/
  | setGlobal (name : String) (v : Cell)
  /-- A word of a script with these literals writes the cell on top of the stack under the name that the cell below it names. -/
  | storeGlobal (l : Literals) (name value : Cell)
  deriving DecidableEq, Repr

namespace GlobalWrite

/-- What is written. -/
def value : GlobalWrite → Cell
  | setGlobal _ v => v
  | storeGlobal _ _ value => value

/-- The name under which is written: the one that the game gives, or the text that a cell names. -/
inductive Names : GlobalWrite → String → Prop where
  | setGlobal (name : String) (v : Cell) : Names (setGlobal name v) name
  | storeGlobal {l : Literals} {c : Cell} {name : String} (v : Cell) : l.Names c name → Names (storeGlobal l c v) name

/-- The name under which is written is the same as another one, up to case. -/
def Hits (name : String) (w : GlobalWrite) : Prop := ∃ written, w.Names written ∧ Text.SameName written name

/-- A write is to one name only. -/
theorem Names.unique {w : GlobalWrite} {name name' : String} (h : w.Names name) (h' : w.Names name') : name = name' := by
  cases h with
  | setGlobal =>
    cases h'
    rfl
  | storeGlobal _ hcell =>
    cases h' with
    | storeGlobal _ hcell' => exact (Literals.names_iff.mp hcell).symm.trans (Literals.names_iff.mp hcell')

/-- A write hits the names that are the same as its own, up to case. -/
theorem Names.hits_iff {w : GlobalWrite} {written name : String} (h : w.Names written) :
    w.Hits name ↔ Text.SameName written name := by
  constructor
  · rintro ⟨written', h', hsame⟩
    rwa [h.unique h']
  · intro hsame
    exact ⟨written, h, hsame⟩

/-- A word writes under the text that a handler reads from the cell. -/
theorem names_textAt (l : Literals) (c v : Cell) : (storeGlobal l c v).Names (l.textAt c) :=
  .storeGlobal v (Literals.names_iff.mpr rfl)

instance (name : String) : DecidablePred (Hits name)
  | setGlobal written v => decidable_of_iff _ (Names.setGlobal written v).hits_iff.symm
  | storeGlobal l c v => decidable_of_iff _ (names_textAt l c v).hits_iff.symm

/-- What some writes have left under a name: what was written by the last one that hit it, and zero if none did. -/
def left (writes : List GlobalWrite) (name : String) : Cell := (writes.filter (Hits name)).getLast?.elim .zero value

/-- A session differs from the one at the beginning in its globals only, and these read as what the writes have left. -/
structure Holds (g : GameSession ρ) (writes : List GlobalWrite) (g' : GameSession ρ) : Prop where
  same : g' = { g with globals := g'.globals }
  global_eq : ∀ name, g'.global name = left writes name

/-- A session without globals holds what no writes have left. -/
theorem holds_nil {g : GameSession ρ} (h : g.globals = []) : Holds g [] g := by
  refine ⟨rfl, fun name => ?_⟩
  rw [GameSession.global, h]
  rfl

/-- One more write leaves what it writes under the names that it hits, and under the others what was there. -/
theorem left_concat (writes : List GlobalWrite) (w : GlobalWrite) (name : String) :
    left (writes ++ [w]) name = if w.Hits name then w.value else left writes name := by
  unfold left
  by_cases hhits : w.Hits name <;> simp [hhits]

/-! ## Histories of writes -/

variable [Generator ρ]

/-- A session after a write. -/
def perform (g : GameSession ρ) : GlobalWrite → GameSession ρ
  | setGlobal name v => Host.setGlobal g name v
  | storeGlobal l name value => Host.setGlobal g (l.textAt name) value

/-- A write changes the global that it hits, and no other one. -/
theorem global_perform (g : GameSession ρ) (w : GlobalWrite) (name : String) :
    (w.perform g).global name = if w.Hits name then w.value else g.global name := by
  cases w with
  | setGlobal written v =>
    simp only [(Names.setGlobal written v).hits_iff]
    exact g.global_setGlobal written name v
  | storeGlobal l c v =>
    simp only [(names_textAt l c v).hits_iff]
    exact g.global_setGlobal (l.textAt c) name v

/-- A write changes nothing of a session but its globals. -/
theorem perform_eq (g : GameSession ρ) (w : GlobalWrite) : w.perform g = { g with globals := (w.perform g).globals } := by
  cases w <;> rfl

/-- One more write is added to those whose last ones the globals hold. -/
theorem Holds.perform {g g' : GameSession ρ} {writes : List GlobalWrite} (h : Holds g writes g') (w : GlobalWrite) :
    Holds g (writes ++ [w]) (w.perform g') := by
  refine ⟨?_, fun name => ?_⟩
  · rw [w.perform_eq g', h.same]
  · rw [left_concat, global_perform, h.global_eq]

/-- More writes are added to those whose last ones the globals hold. -/
theorem Holds.performs {g g' : GameSession ρ} {writes : List GlobalWrite} (h : Holds g writes g') (more : List GlobalWrite) :
    Holds g (writes ++ more) (more.foldl GlobalWrite.perform g') :=
  foldl_follows (fun _ _ w h => h.perform w) h more

end GlobalWrite

/-! ## The words of the standard engine -/

namespace Engine

variable [Generator ρ] {limit : Nat} {e : Engine (GameSession ρ)}

/-- A word that stores a global takes two cells off the stack and performs the write that they describe. -/
theorem perform_storeGlobal (he : standard limit = .ok e) (arg0 arg1 : Nat) (l : Literals) (m : Machine (GameSession ρ)) :
    e.dispatch.perform ⟨(Standard.builtin .storeGlobal).opcode, arg0, arg1⟩ l m =
      .ok { m with
        stack := m.stack.drop 2
        host := (GlobalWrite.storeGlobal l (m.peek 1) m.top).perform m.host } := by
  have happly : (Standard.builtin .storeGlobal).handler.apply arg0 arg1 l m = Builtin.writeGlobal l m := rfl
  rw [perform_of_standard he, happly, Builtin.writeGlobal_eq]
  rfl

/-- A word that fetches a global puts its value in the place of the cell that names it, and leaves the session as it is. -/
theorem perform_fetchGlobal (he : standard limit = .ok e) (arg0 arg1 : Nat) (l : Literals) (m : Machine (GameSession ρ)) :
    e.dispatch.perform ⟨(Standard.builtin .fetchGlobal).opcode, arg0, arg1⟩ l m =
      .ok { m with stack := m.stack.set 0 (m.host.global (l.textAt m.top)) } := by
  rw [perform_of_standard he]
  rfl

/-- Global variables hold what was written last. On the standard engine for sessions, the keywords find a word that stores a
global and a word that fetches one. The word that stores performs the write which the two topmost cells of the stack describe,
whatever else the state is and whatever the literals of its script are. Let a session have no globals. After any writes, by the
game and by such words, it is the same but for its globals. What the game reads under a name, and what a word that fetches puts in
the place of a cell that names it, is what the writes have left there: what was written last under a name that is the same up to
the case of ASCII letters, or zero if nothing was. A cell that is negative or no position of a literal names the empty name, in a
word that stores as in a word that fetches. A write under a name leaves a global alone if the two names have different characters
at some place one of which is not an ASCII one. -/
theorem globals_hold_last_writes (limit : Nat) : ∃ e : Engine (GameSession ρ), standard limit = .ok e ∧
    ∃ store fetch : Descriptor,
      e.registry.lookup "storeglobal" = .ok store ∧ e.registry.lookup "fetchglobal" = .ok fetch ∧
      (∀ arg0 arg1 l (m : Machine (GameSession ρ)), e.dispatch.perform ⟨store.opcode, arg0, arg1⟩ l m =
        .ok { m with
          stack := m.stack.drop 2
          host := (GlobalWrite.storeGlobal l (m.peek 1) m.top).perform m.host }) ∧
      ∀ (g : GameSession ρ) (writes : List GlobalWrite), g.globals = [] →
        let after := writes.foldl GlobalWrite.perform g
        let left := GlobalWrite.left writes
        after = { g with globals := after.globals } ∧
        (∀ name, after.global name = left name) ∧
        (∀ arg0 arg1 l (m : Machine (GameSession ρ)) name, m.host = after → l.Names m.top name →
          e.dispatch.perform ⟨fetch.opcode, arg0, arg1⟩ l m = .ok { m with stack := m.stack.set 0 (left name) }) ∧
        ∀ (w : GlobalWrite) (name written : String) (i : Nat) (c d : Char), w.Names written →
          written.toList[i]? = some c → name.toList[i]? = some d → c ≠ d → 128 ≤ c.toNat ∨ 128 ≤ d.toNat →
          (w.perform after).global name = left name := by
  obtain ⟨e, he⟩ := exists_standard (σ := GameSession ρ) limit
  obtain ⟨store, hstore, hstore_opcode⟩ := lookup_of_standard he (.builtin .storeGlobal)
  obtain ⟨fetch, hfetch, hfetch_opcode⟩ := lookup_of_standard he (.builtin .fetchGlobal)
  refine ⟨e, he, store, fetch, hstore, hfetch, ?_, ?_⟩
  · intro arg0 arg1 l m
    rw [hstore_opcode, perform_storeGlobal he]
  · intro g writes hnone after left
    obtain ⟨hsame, hglobal⟩ := (GlobalWrite.holds_nil hnone).performs writes
    refine ⟨hsame, hglobal, ?_, ?_⟩
    · intro arg0 arg1 l m name hhost hnames
      have hleft : m.host.global name = left name := by
        rw [hhost]
        exact hglobal name
      rw [hfetch_opcode, perform_fetchGlobal he, Literals.names_iff.mp hnames, hleft]
    · intro w name written i c d hnames hwritten hname hne hascii
      have hother : ¬ w.Hits name := by
        rw [hnames.hits_iff]
        exact Text.not_sameName_of_not_ascii hwritten hname hne hascii
      rw [GlobalWrite.global_perform, if_neg hother]
      exact hglobal name

/-- The game and two scripts with different literals write one global. A write that differs in another letter than an ASCII one goes
elsewhere, and so do those of cells that name no literal, which are to the global without a name. -/
example :
    let writes : List GlobalWrite :=
      [.setGlobal "GameHour" ⟨9⟩, .storeGlobal { strings := ["", "gameHOUR"] } ⟨1⟩ ⟨7⟩,
        .storeGlobal { strings := ["gâmehour"] } ⟨0⟩ ⟨8⟩, .storeGlobal { strings := ["gamehour"] } ⟨0xffffffff⟩ ⟨5⟩,
        .storeGlobal { strings := ["gamehour"] } ⟨1⟩ ⟨6⟩]
    GlobalWrite.left writes "gamehour" = ⟨7⟩ ∧ GlobalWrite.left writes "GÂMEHOUR" = .zero ∧
      GlobalWrite.left writes "" = ⟨6⟩ := by
  decide

end Engine

end ScriptEngine
