import Mathlib.Data.List.Induction
import ScriptEngine.Command.Files
import ScriptEngine.Proofs.Result

/-!
# Reading what was written

A file that was written is read back under its name, and under every other name that leads to the same place. Whether two names
lead to one place cannot be told from the names alone, but the extension helps: a file is reached by a last step that enters its
name, as a step up leads to a folder that was gone through before. So two names with different extensions lead to different
places, unless the place is a folder (`Files.place_ne`).
-/

namespace ScriptEngine.Command

namespace Route

/-- The last step of a route that does not stay where it is. -/
def last? (r : Route) : Option Step := (r.steps.filter (· != .stay)).getLast?

/-- The extension can be read off the last step. -/
theorem extension?_eq_of_last? {r r' : Route} (h : r.last? = r'.last?) : r.extension? = r'.extension? := by
  unfold last? at h
  unfold extension?
  rw [h]

/-- A route with an extension ends by entering a name. -/
theorem last?_of_extension? {r : Route} {ext : String} (h : r.extension? = some ext) : ∃ name, r.last? = some (.enter name) := by
  unfold extension? at h
  unfold last?
  split at h
  · rename_i name hlast
    exact ⟨name, hlast⟩
  · cases h

end Route

namespace Files

variable {f f' : Files} {p q : Place} {steps : List Step}

/-! ## Walks -/

/-- A walk that is one step longer goes through a folder. -/
theorem walk_concat_eq_ok_iff {step : Step} :
    f.walk p (steps ++ [step]) = .ok q ↔ ∃ p', f.walk p steps = .ok p' ∧ f.isFolder p' = true ∧ p'.after step = q := by
  induction steps generalizing p with
  | nil => by_cases hfolder : f.isFolder p <;> simp [walk, hfolder]
  | cons first steps ih => by_cases hfolder : f.isFolder p <;> simp [walk, hfolder, ih]

/-- Where a walk leads to does not depend on what the files hold. -/
theorem walk_eq_ok_of_same_folders (hfolders : f'.isFolder = f.isFolder) :
    f'.walk p steps = .ok q ↔ f.walk p steps = .ok q := by
  induction steps generalizing p with
  | nil => rfl
  | cons step steps ih => by_cases hfolder : f.isFolder p <;> simp [walk, hfolders, hfolder, ih]

/-- Every folder that a place lies in, down from where the names begin, is there. -/
def Enclosed (f : Files) (p : Place) : Prop := ∀ k < p.names.length, f.isFolder { p with names := p.names.take k } = true

/-- What is known of a place from the last step that did not stay: it has the name that was entered; after a step up it is a
folder; and without any step, or above where the names begin, it has no name. -/
def EndsWith (f : Files) (p : Place) : Option Step → Prop
  | none => p.names = []
  | some (.enter name) => p.names.getLast? = some name
  | some .up => p.names = [] ∨ f.isFolder p = true
  | some .stay => False

/-- A step out of a folder keeps this. -/
theorem Enclosed.after (h : f.Enclosed p) (hfolder : f.isFolder p = true) (step : Step) : f.Enclosed (p.after step) := by
  cases step with
  | stay => exact h
  | enter name =>
    intro k hk
    have hk : k ≤ p.names.length := by simpa [Place.after, Nat.lt_succ_iff] using hk
    rcases Nat.lt_or_eq_of_le hk with hk | rfl
    · simpa [Place.after, List.take_append_of_le_length (Nat.le_of_lt hk)] using h k hk
    · simpa [Place.after] using hfolder
  | up =>
    intro k hk
    by_cases hnames : p.names = []
    · simp only [Place.after, hnames, ne_eq, not_true_eq_false, if_false] at hk
      split at hk <;> simp [hnames] at hk
    · simp only [Place.after, ne_eq, hnames, not_false_eq_true, if_true, List.length_dropLast] at hk ⊢
      have htake : p.names.dropLast.take k = p.names.take k := by
        rw [List.dropLast_eq_take, List.take_take, Nat.min_eq_left (by omega)]
      rw [htake]
      exact h k (by omega)

/-- A step up leads above where the names begin, or to a folder. -/
theorem Enclosed.endsWith_up (h : f.Enclosed p) : f.EndsWith (p.after .up) (some .up) := by
  by_cases hnames : p.names = []
  · left
    simp only [Place.after, hnames, ne_eq, not_true_eq_false, if_false]
    split <;> simp [hnames]
  · right
    have hpos := List.length_pos_iff.mpr hnames
    simp only [Place.after, ne_eq, hnames, not_false_eq_true, if_true, List.dropLast_eq_take]
    exact h _ (by omega)

/-- A walk from where names begin leads to a place in folders that are there, which ends as the last step says. -/
theorem enclosed_of_walk (hstart : p.names = []) (h : f.walk p steps = .ok q) :
    f.Enclosed q ∧ f.EndsWith q (steps.filter (· != .stay)).getLast? := by
  induction steps using List.reverseRecOn generalizing q with
  | nil =>
    cases h
    refine ⟨?_, hstart⟩
    intro k hk
    simp [hstart] at hk
  | append_singleton steps step ih =>
    obtain ⟨p', hwalk, hfolder, rfl⟩ := walk_concat_eq_ok_iff.mp h
    obtain ⟨henclosed, hends⟩ := ih hwalk
    refine ⟨henclosed.after hfolder step, ?_⟩
    cases step with
    | stay => simpa [Place.after] using hends
    | enter name => simp [EndsWith, Place.after]
    | up => simpa using henclosed.endsWith_up

/-- The place that a name leads to ends as the last step of the name says. -/
theorem endsWith_of_locate {name : String} (h : f.locate name = .ok p) : f.EndsWith p (Route.ofName name).last? := by
  unfold locate at h
  split at h
  · exact (enclosed_of_walk rfl h).2
  · cases h

/-- Two names with different extensions, one of which is there, lead to different places if the place of the other is no folder.
-/
theorem place_ne {a b ext : String} (hp : f.locate a = .ok p) (hq : f.locate b = .ok q)
    (hext : (Route.ofName a).extension? = some ext) (hne : (Route.ofName b).extension? ≠ some ext)
    (hfile : f.isFolder q = false) : q ≠ p := by
  rintro rfl
  obtain ⟨name, hlast⟩ := Route.last?_of_extension? hext
  have hends := endsWith_of_locate hp
  have hends' := endsWith_of_locate hq
  rw [hlast] at hends
  have hname : q.names.getLast? = some name := hends
  have hnames : q.names ≠ [] := by
    intro hnil
    rw [hnil] at hname
    cases hname
  refine hne ((Route.extension?_eq_of_last? ?_).trans hext)
  rw [hlast]
  cases hlast' : (Route.ofName b).last? with
  | none =>
    rw [hlast'] at hends'
    exact absurd hends' hnames
  | some step =>
    rw [hlast'] at hends'
    cases step with
    | stay => exact hends'.elim
    | enter name' => rw [Option.some.inj (hname.symm.trans hends')]
    | up =>
      rcases hends' with hnil | hfolder
      · exact absurd hnil hnames
      · rw [hfile] at hfolder
        cases hfolder

/-! ## Reading and writing -/

/-- A file is read when its name leads to a file and does not ask for a folder. -/
theorem read_eq_ok_iff {name : String} {bytes : List UInt8} :
    f.read name = .ok bytes ↔ ∃ p, f.locate name = .ok p ∧ f.isFolder p = false ∧ f.contents p = some bytes ∧
      (Route.ofName name).asksFolder = false := by
  unfold read
  rw [bind_eq_ok_iff]
  refine exists_congr fun p => and_congr_right fun _ => ?_
  cases f.isFolder p <;> cases f.contents p <;> cases (Route.ofName name).asksFolder <;> simp

/-- A file is written when its name leads to where a file can be and does not ask for a folder. Nothing else is changed. -/
theorem write_eq_ok_iff {name : String} {bytes : List UInt8} :
    f.write name bytes = .ok f' ↔ ∃ p, f.locate name = .ok p ∧ f.isFolder p = false ∧
      (Route.ofName name).asksFolder = false ∧ p.isNameable = true ∧
      { f with contents := fun q => if q = p then some bytes else f.contents q } = f' := by
  unfold write
  rw [bind_eq_ok_iff]
  refine exists_congr fun p => and_congr_right fun _ => ?_
  cases f.isFolder p <;> cases (Route.ofName name).asksFolder <;> cases p.isNameable <;> simp

/-- A name leads to the same place after a file was written. -/
theorem locate_of_write {name other : String} {bytes : List UInt8} (h : f.write name bytes = .ok f') :
    f'.locate other = .ok p ↔ f.locate other = .ok p := by
  obtain ⟨-, -, -, -, -, rfl⟩ := write_eq_ok_iff.mp h
  unfold locate
  split
  · exact walk_eq_ok_of_same_folders rfl
  · exact Iff.rfl

/-- A file that was written is read back. -/
theorem read_written {name : String} {bytes : List UInt8} (h : f.write name bytes = .ok f') : f'.read name = .ok bytes := by
  obtain ⟨p, hlocate, hfile, hasks, -, rfl⟩ := write_eq_ok_iff.mp h
  refine read_eq_ok_iff.mpr ⟨p, (locate_of_write h).mpr hlocate, hfile, ?_, hasks⟩
  simp

/-- A file is read as before when another one was written that has a different extension. -/
theorem read_of_write {a b ext : String} {bytes bytes' : List UInt8} (h : f.write b bytes' = .ok f')
    (hext : (Route.ofName a).extension? = some ext) (hne : (Route.ofName b).extension? ≠ some ext)
    (hread : f.read a = .ok bytes) : f'.read a = .ok bytes := by
  obtain ⟨p, hlocate, hfile, hbytes, hasks⟩ := read_eq_ok_iff.mp hread
  obtain ⟨q, hlocate', hfile', -, -, rfl⟩ := write_eq_ok_iff.mp h
  have hplace := place_ne hlocate hlocate' hext hne hfile'
  refine read_eq_ok_iff.mpr ⟨p, (locate_of_write h).mpr hlocate, hfile, ?_, hasks⟩
  rw [← hbytes]
  exact if_neg hplace.symm

end Files

end ScriptEngine.Command
