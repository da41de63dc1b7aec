import Mathlib.Data.List.Forall2
import ScriptEngine.Proofs.Settings.Meaning
import ScriptEngine.Proofs.Settings.Values
import ScriptEngine.Settings.Document

/-!
# Reading a settings file

The reader of settings files gives the settings of every text that denotes a value which gives settings.
-/

namespace ScriptEngine

namespace Json

/-- A field that was read means a field: it has the same name, and its value means the value. -/
def FieldMeans (field : String × Json) (field' : String × Value) : Prop := field.1 = field'.1 ∧ Means field.2 field'.2

/-- Fields that mean fields have names that can be decoded. -/
theorem FieldsMean.exists_named {fs : List (List JsonPiece × Json)} {fields : List (String × Value)} (h : FieldsMean fs fields) :
    ∃ named, fs.mapM (fun field => (text? field.1).map (·, field.2)) = some named ∧ List.Forall₂ FieldMeans named fields := by
  induction fields generalizing fs with
  | nil =>
    cases h
    exact ⟨[], rfl, .nil⟩
  | cons field fields ih =>
    cases h with
    | @cons ps name j v fs _ htext hmeans hmore =>
      obtain ⟨named, hnamed, hall⟩ := ih hmore
      refine ⟨(name, j) :: named, ?_, .cons ⟨rfl, hmeans⟩ hall⟩
      simp [htext, hnamed]

/-- The fields of a group are looked for by their names. -/
theorem Means.exists_named {v : Json} {fields : List (String × Value)} (h : Means v (.object fields)) :
    ∃ named, (∀ names, v.group? names = names.mapM (field? named)) ∧ List.Forall₂ FieldMeans named fields := by
  cases h with
  | object hfields =>
    obtain ⟨named, hnamed, hall⟩ := hfields.exists_named
    refine ⟨named, fun names => ?_, hall⟩
    exact (congrArg (Option.bind · fun fields => names.mapM (field? fields)) hnamed).trans rfl

/-- A field that gives a setting is found, with a value that means one which gives the setting, or is not found, and the setting
has its default. -/
theorem field?_of_gives {α : Type} {gives : Value → α → Prop} {default? : Option α} {named : List (String × Json)}
    {fields : List (String × Value)} (hnamed : List.Forall₂ FieldMeans named fields) {name : String} {a : α}
    (h : Value.FieldGives gives default? fields name a) :
    (∃ j v, field? named name = some (some j) ∧ Means j v ∧ gives v a) ∨ field? named name = some none ∧ default? = some a := by
  have hsame : List.Forall₂ FieldMeans (named.filter (·.1 = name)) (fields.filter (·.1 = name)) := by
    refine List.rel_filter ?_ hnamed
    rintro field field' ⟨hname, -⟩
    simp [hname]
  cases h with
  | @given v hfilter hgives =>
    rw [hfilter] at hsame
    obtain ⟨⟨name', j⟩, rest, ⟨-, hmeans⟩, hrest, hfound⟩ := List.forall₂_cons_right_iff.mp hsame
    obtain rfl := List.forall₂_nil_right_iff.mp hrest
    refine Or.inl ⟨j, v, ?_, hmeans, hgives⟩
    rw [field?, hfound]
  | missing hfilter hdefault =>
    rw [hfilter] at hsame
    refine Or.inr ⟨?_, hdefault⟩
    rw [field?, List.forall₂_nil_right_iff.mp hsame]

end Json

open Json (Means)

/-- The reader finds the level that a value gives. -/
theorem LogLevel.ofJson?_of_gives {j : Json} {v : Value} {l : LogLevel} (hmeans : Means j v) (h : Gives v l) :
    ofJson? j = some l := by
  cases h with
  | @name s _ hname =>
    cases hmeans with
    | text htext =>
      rw [ofJson?, htext, Option.bind_some, ofName?]
      have hfold : Text.fold s = Text.fold l.name := Text.fold_eq_iff.mpr hname
      rw [hfold]
      cases l <;> decide

/-- The reader finds the step limit that a value gives. -/
theorem RunSettings.stepLimit?_of_gives {j : Json} {v : Value} {limit : UInt64} (hmeans : Means j v) (h : LimitGives v limit) :
    stepLimit? j = some limit := by
  cases h
  cases hmeans with
  | natural hnatural => simp [stepLimit?, hnatural, limit.toNat_lt]

/-- The reader finds the log settings that a value gives. -/
theorem LogSettings.ofJson?_of_gives {j : Json} {v : Value} {s : LogSettings} (hmeans : Means j v) (h : Gives v s) :
    ofJson? j = some s := by
  cases h with
  | object happ hrest =>
    obtain ⟨named, hgroup, hnamed⟩ := hmeans.exists_named
    rw [ofJson?, hgroup]
    rcases Json.field?_of_gives hnamed happ with ⟨app, _, happ, hmeans, hgives⟩ | ⟨-, hnone⟩
    · have happ' := LogLevel.ofJson?_of_gives hmeans hgives
      rcases Json.field?_of_gives hnamed hrest with ⟨rest, _, hrest, hmeans, hgives⟩ | ⟨-, hnone⟩
      · have hrest' := LogLevel.ofJson?_of_gives hmeans hgives
        simp [happ, happ', hrest, hrest']
      · cases hnone
    · cases hnone

/-- The reader finds the run settings that a value gives. -/
theorem RunSettings.ofJson?_of_gives {j : Json} {v : Value} {s : RunSettings} (hmeans : Means j v) (h : Gives v s) :
    ofJson? j = some s := by
  cases h with
  | object hlimit =>
    obtain ⟨named, hgroup, hnamed⟩ := hmeans.exists_named
    rw [ofJson?, hgroup]
    rcases Json.field?_of_gives hnamed hlimit with ⟨j, _, hfield, hmeans, hgives⟩ | ⟨hfield, hdefault⟩
    · simp [hfield, stepLimit?_of_gives hmeans hgives]
    · have hs : ({} : RunSettings) = s := congrArg RunSettings.mk (Option.some.inj hdefault)
      rw [← hs]
      simp [hfield]

namespace Settings

/-- The reader finds what may be absent. -/
theorem section?_of_gives {α : Type} {gives : Value → α → Prop} {read : Json → Option α}
    (hread : ∀ {j v a}, Means j v → gives v a → read j = some a) {default a? : Option α} {named : List (String × Json)}
    {fields : List (String × Value)} (hnamed : List.Forall₂ Json.FieldMeans named fields) {name : String}
    (h : Value.FieldGives (Value.OptionGives gives) (some default) fields name a?) :
    ∃ found, Json.field? named name = some found ∧ section? default read found = some a? := by
  rcases Json.field?_of_gives hnamed h with ⟨j, v, hfield, hmeans, hgives⟩ | ⟨hfield, hdefault⟩
  · refine ⟨some j, hfield, ?_⟩
    cases hgives with
    | absent =>
      cases hmeans
      rfl
    | present hne hgives =>
      rw [section?, hread hmeans hgives, Option.map_some]
      rintro ⟨⟩
      cases hmeans
      exact hne rfl
  · refine ⟨none, hfield, ?_⟩
    cases hdefault
    rfl

/-- The reader finds the settings that a value gives. -/
theorem ofJson?_of_gives {j : Json} {v : Value} {s : Settings} (hmeans : Means j v) (h : Gives v s) : ofJson? j = some s := by
  cases h with
  | object hname hlog hrun =>
    obtain ⟨named, hgroup, hnamed⟩ := hmeans.exists_named
    obtain ⟨log, hlog, hlog'⟩ := section?_of_gives LogSettings.ofJson?_of_gives hnamed hlog
    obtain ⟨run, hrun, hrun'⟩ := section?_of_gives RunSettings.ofJson?_of_gives hnamed hrun
    rw [ofJson?, hgroup]
    rcases Json.field?_of_gives hnamed hname with ⟨j, _, hfield, hmeans, ⟨⟩⟩ | ⟨hfield, hdefault⟩
    · cases hmeans with
      | text htext => simp [hfield, hlog, hrun, htext, hlog', hrun']
    · have hs : ({ log? := s.log?, run? := s.run? } : Settings) = s := by
        cases s
        cases hdefault
        rfl
      simp [hfield, hlog, hrun, hlog', hrun', hs]

/-- The reader gives the settings of every text that denotes a value which gives settings. -/
theorem ofBytes?_of_gives {text : String} {v : Value} {s : Settings} (htext : Value.Denotes text.toList v) (h : Gives v s) :
    ofBytes? (Container.textBytes text) = some s := by
  obtain ⟨j, hreads, hmeans⟩ := Json.exists_reads htext
  have hbytes : Container.textBytes text = Json.encoded text.toList := Container.textBytes_eq_flatMap text
  rw [ofBytes?, hbytes, hreads.ofBytes?, Option.bind_some, ofJson?_of_gives hmeans h]

end Settings

end ScriptEngine
