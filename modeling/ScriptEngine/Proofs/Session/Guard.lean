import Mathlib.Data.Finset.Card
import ScriptEngine.Proofs.Machine.Slots
import ScriptEngine.Proofs.Session.Calls
import ScriptEngine.Proofs.Word.Codec
import ScriptEngine.Session.Basic

/-!
# What a script may leave behind in a session

A script cannot resize or corrupt the session it runs in. Local variables keep their number, the menu stays as it is, messages
are only added, and globals are never removed. The texts that a script leaves behind, in messages and as names of globals, are its
own string literals or empty, so it can create no more globals than it has literals and one, however long it runs.

Each call an instruction makes keeps this up by itself (`HostCall.Within`), since its texts are named by cells and its buttons are
counted by an argument of eight bits. What one step leaves behind and what further steps do add up (`GameSession.Guarded.trans`),
which is the induction over the run.
-/

namespace ScriptEngine

variable {ρ : Type}

namespace Literals

/-- The texts that a cell may stand for: the string literals, and the empty text. -/
def texts (l : Literals) : List String := "" :: l.strings

/-- The text that a cell stands for is one of them. -/
theorem textAt_mem_texts (l : Literals) (c : Cell) : l.textAt c ∈ l.texts := by
  unfold textAt texts
  cases htext : c.index?.bind l.string? with
  | none => exact List.mem_cons_self
  | some text =>
    obtain ⟨i, -, hi⟩ := Option.bind_eq_some_iff.mp htext
    exact List.mem_cons_of_mem _ (List.mem_of_getElem? hi)

end Literals

namespace GameSession

/-- The names of the globals that there are. -/
def globalNames (g : GameSession ρ) : List String := g.globals.map (·.1)

/-- Writing a global creates it if it is not there, and removes none. -/
theorem mem_globalNames_setGlobal (g : GameSession ρ) (name other : String) (v : Cell) :
    other ∈ (g.setGlobal name v).globalNames ↔ other = Text.fold name ∨ other ∈ g.globalNames := by
  by_cases hname : other = Text.fold name <;> simp [globalNames, setGlobal, hname]

/-- What a script with some literals may have done to a session after `n` words: the numbers of local variables and the menu are
the same; at most `n` messages are added to those shown, each with 255 buttons at most; no global is removed; and the texts of
messages and buttons, and the names of globals up to their case, are among the texts of the literals. -/
structure Guarded (l : Literals) (n : Nat) (g g' : GameSession ρ) : Prop where
  sizes : g'.locals.sizes = g.locals.sizes
  menuMode : g'.menuMode = g.menuMode
  messages : ∃ added : List Message, g'.messages.toList = g.messages.toList ++ added ∧ added.length ≤ n ∧
    ∀ msg ∈ added, msg.buttons.length ≤ 255 ∧ ∀ text ∈ msg.text :: msg.buttons, text ∈ l.texts
  kept : ∀ name ∈ g.globalNames, name ∈ g'.globalNames
  created : ∀ name ∈ g'.globalNames, name ∈ g.globalNames ∨ ∃ text ∈ l.texts, Text.fold text = name

namespace Guarded

variable {l : Literals} {n k : Nat} {g g' g'' : GameSession ρ}

/-- A session to which nothing was done but that messages were added. -/
theorem of_added (added : List Message) (hsizes : g'.locals.sizes = g.locals.sizes) (hmenu : g'.menuMode = g.menuMode)
    (hglobals : g'.globals = g.globals) (hlog : g'.messages.toList = g.messages.toList ++ added) (hlength : added.length ≤ n)
    (hall : ∀ msg ∈ added, msg.buttons.length ≤ 255 ∧ ∀ text ∈ msg.text :: msg.buttons, text ∈ l.texts) :
    Guarded l n g g' := by
  have hnames : g'.globalNames = g.globalNames := by rw [globalNames, globalNames, hglobals]
  refine ⟨hsizes, hmenu, ⟨added, hlog, hlength, hall⟩, ?_, ?_⟩
  · intro name hname
    rwa [hnames]
  · intro name hname
    rw [hnames] at hname
    exact Or.inl hname

/-- A session of which these parts are the same. -/
theorem of_same (hsizes : g'.locals.sizes = g.locals.sizes) (hmenu : g'.menuMode = g.menuMode)
    (hglobals : g'.globals = g.globals) (hmessages : g'.messages = g.messages) : Guarded l n g g' :=
  of_added [] hsizes hmenu hglobals (by simp [hmessages]) (Nat.zero_le n) (List.forall_mem_nil _)

theorem refl (l : Literals) (g : GameSession ρ) : Guarded l 0 g g := of_same rfl rfl rfl rfl

/-- What is left behind adds up. -/
theorem trans (h : Guarded l n g g') (h' : Guarded l k g' g'') : Guarded l (n + k) g g'' := by
  obtain ⟨added, hlog, hlength, hall⟩ := h.messages
  obtain ⟨added', hlog', hlength', hall'⟩ := h'.messages
  refine ⟨h'.sizes.trans h.sizes, h'.menuMode.trans h.menuMode, ⟨added ++ added', ?_, ?_, ?_⟩, ?_, ?_⟩
  · rw [hlog', hlog, List.append_assoc]
  · rw [List.length_append]
    exact Nat.add_le_add hlength hlength'
  · intro msg hmsg
    rcases List.mem_append.mp hmsg with hmsg | hmsg
    · exact hall msg hmsg
    · exact hall' msg hmsg
  · intro name hname
    exact h'.kept name (h.kept name hname)
  · intro name hname
    rcases h'.created name hname with hname | hnew
    · exact h.created name hname
    · exact Or.inr hnew

/-- The globals that were created are no more than the string literals and one. -/
theorem card_created_le (h : Guarded l n g g') :
    (g'.globalNames.toFinset \ g.globalNames.toFinset).card ≤ l.strings.length + 1 := by
  have hsub : g'.globalNames.toFinset \ g.globalNames.toFinset ⊆ (l.texts.map Text.fold).toFinset := by
    intro name hname
    simp only [Finset.mem_sdiff, List.mem_toFinset] at hname
    rcases h.created name hname.1 with hold | hnew
    · exact absurd hold hname.2
    · simpa using hnew
  calc (g'.globalNames.toFinset \ g.globalNames.toFinset).card
      ≤ (l.texts.map Text.fold).toFinset.card := Finset.card_le_card hsub
    _ ≤ (l.texts.map Text.fold).length := List.toFinset_card_le _
    _ = l.strings.length + 1 := by rw [List.length_map, Literals.texts, List.length_cons]

end Guarded

end GameSession

variable [Generator ρ]

/-! ## Calls -/

namespace HostCall

/-- The texts that a call passes on are among those of the literals, and it has 255 buttons at most. -/
def Within (l : Literals) : HostCall → Prop
  | messageBox text buttons => buttons.length ≤ 255 ∧ ∀ t ∈ text :: buttons, t ∈ l.texts
  | setGlobal name _ => name ∈ l.texts
  | global _ | setControlEnabled _ _ | controlEnabled _ | menuMode | random _ => True

/-- A call that passes on texts of the literals only leaves nothing else behind. -/
theorem Within.guarded {l : Literals} {c : HostCall} (h : c.Within l) (g : GameSession ρ) :
    GameSession.Guarded l 1 g (c.perform g) := by
  cases c with
  | global name | controlEnabled name => exact .of_same rfl rfl rfl rfl
  | menuMode => exact .of_same rfl rfl rfl rfl
  | setControlEnabled name enabled =>
    simp only [perform, Host.setControlEnabled]
    cases Control.ofName? name <;> exact .of_same rfl rfl rfl rfl
  | random limit =>
    obtain ⟨rng, hdraw⟩ := g.draw_snd limit
    have hperform : (random limit).perform g = { g with rng } := hdraw
    rw [hperform]
    exact .of_same rfl rfl rfl rfl
  | messageBox text buttons =>
    refine .of_added [⟨text, buttons⟩] rfl rfl rfl Array.toList_push (Nat.le_refl 1) ?_
    simpa [Within] using h
  | setGlobal name v =>
    have hnames := g.mem_globalNames_setGlobal name
    refine ⟨rfl, rfl, ⟨[], (List.append_nil _).symm, Nat.zero_le 1, List.forall_mem_nil _⟩, ?_, ?_⟩
    · intro other hother
      exact (hnames other v).mpr (Or.inr hother)
    · intro other hother
      rcases (hnames other v).mp hother with rfl | hold
      · exact Or.inr ⟨name, h, rfl⟩
      · exact Or.inl hold

end HostCall

/-! ## Steps and runs -/

namespace Locals

/-- Writing a local variable keeps their numbers. -/
theorem sizes_of_store? {l l' : Locals} {kind : LocalKind} {slot value : Cell} (h : l.store? kind slot value = some l') :
    l'.sizes = l.sizes := by
  obtain ⟨i, -, h⟩ := Option.bind_eq_some_iff.mp h
  exact sizes_set? h

end Locals

namespace Standard

variable {x : Standard} {arg0 : Nat} {l : Literals}

/-- The call of an instruction passes on texts of the literals only, if its argument has eight bits. -/
theorem within_of_call? {σ : Type} {m : Machine σ} {c : HostCall} (h : x.call? arg0 l m = some c)
    (harg : x = builtin .messageBox → arg0 ≤ 255) : c.Within l := by
  cases x with
  | builtin b =>
    cases b with
    | messageBox =>
      cases h
      refine ⟨by simpa using harg rfl, ?_⟩
      simp [Literals.textAt_mem_texts]
    | storeGlobal =>
      cases h
      exact l.textAt_mem_texts _
    | fetchGlobal =>
      cases h
      exact trivial
    | _ => cases h
  | setControl c enabled | getDisabled c =>
    cases h
    exact trivial
  | query q =>
    cases q with
    | menuMode | random =>
      cases h
      exact trivial
    | xbox => cases h

/-- What an instruction of a script leaves behind in the session. -/
theorem guarded_hostAfter (m : Machine (GameSession ρ)) (harg : x = builtin .messageBox → arg0 ≤ 255) :
    GameSession.Guarded l 1 m.host (x.hostAfter arg0 l m) := by
  unfold hostAfter
  split
  · rename_i c hcall
    exact (within_of_call? hcall harg).guarded m.host
  · rename_i kind hcall
    cases hstore : (Host.getLocals m.host).store? kind (m.peek 1) m.top with
    | none => exact .of_same rfl rfl rfl rfl
    | some locals => exact .of_same (Locals.sizes_of_store? hstore) rfl rfl rfl
  · exact .of_same rfl rfl rfl rfl

end Standard

namespace Engine

variable {limit : Nat} {e : Engine (GameSession ρ)}

/-- What a step leaves behind in the session. -/
theorem guarded_of_step (he : standard limit = .ok e) {s : Script} {m m' : Machine (GameSession ρ)}
    (hstep : e.step? s m = some (.ok m')) : GameSession.Guarded s.literals 1 m.host m'.host := by
  obtain ⟨word, i, x, -, hdecode, hop, rfl⟩ := (step?_of_standard he).mp hstep
  rw [x.host_apply]
  refine x.guarded_hostAfter m.next ?_
  -- The number of buttons is the argument of a word, which has eight bits in the segment of messages.
  rintro rfl
  have hfits := (Instruction.decode?_eq_some_iff.mp hdecode).1.2.1
  rw [← hop] at hfits
  exact Nat.le_of_lt_succ hfits

/-- The standard engine can be built for sessions, whatever its limit. Whatever the code and the literals of a script are, one
step leaves behind no more than one word may, and a run that ends, in whatever way, no more than the words may that it has
executed: the numbers of local variables and the menu are the same, messages are only added, one a word at most, no global is
removed, and all texts are literals of the script or empty. So the run creates no more globals than the script has string
literals and one. -/
theorem sessions_are_guarded (limit : Nat) : ∃ e : Engine (GameSession ρ), standard limit = .ok e ∧
    (∀ s m m', e.step? s m = some (.ok m') → GameSession.Guarded s.literals 1 m.host m'.host) ∧
    ∀ patience s g f, e.run patience s g = some f → ∃ n m, e.after? s n (.start g) = some m ∧ e.Stops s n m f ∧
      GameSession.Guarded s.literals n g f.host ∧
      (f.host.globalNames.toFinset \ g.globalNames.toFinset).card ≤ s.literals.strings.length + 1 := by
  obtain ⟨e, he⟩ := exists_standard (σ := GameSession ρ) limit
  refine ⟨e, he, fun s m m' => guarded_of_step he, ?_⟩
  intro patience s g f hrun
  obtain ⟨n, m, hafter, hstop, -⟩ := run_eq_some_iff.mp hrun
  have hstep : ∀ n m m', GameSession.Guarded s.literals n g m.host → e.step? s m = some (.ok m') →
      GameSession.Guarded s.literals (n + 1) g m'.host := by
    intro n m m' hm hstep
    exact hm.trans (guarded_of_step he hstep)
  have hguarded := after?_keeps_from_first hstep (.refl s.literals g) hafter
  have hhost : f.host = m.host := by cases hstop <;> rfl
  rw [← hhost] at hguarded
  exact ⟨n, m, hafter, hstop, hguarded, hguarded.card_created_le⟩

end Engine

end ScriptEngine
