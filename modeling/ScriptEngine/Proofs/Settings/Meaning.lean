import ScriptEngine.Proofs.Text.Case
import ScriptEngine.Settings.Value

/-!
# What a value gives

The settings that a value gives, by the definitions of the groups: a group is an object with a field for each setting, in any
order, and fields of other names do not matter. A setting without a field has its default, but log levels have none. `null` gives
an absent section, which is not the same as no field. The value of settings gives these settings.
-/

namespace ScriptEngine

/-- A field of an object gives a setting: there is one field of the name, and its value gives the setting, or there is none, and the
setting has its default, if there is a default. -/
inductive Value.FieldGives {α : Type} (gives : Value → α → Prop) (default? : Option α) (fields : List (String × Value))
    (name : String) (a : α) : Prop where
  | given {v : Value} : fields.filter (·.1 = name) = [(name, v)] → gives v a → FieldGives gives default? fields name a
  | missing : fields.filter (·.1 = name) = [] → default? = some a → FieldGives gives default? fields name a

/-- What may be absent is so for `null`, and is otherwise what the value gives. -/
inductive Value.OptionGives {α : Type} (gives : Value → α → Prop) : Value → Option α → Prop where
  | absent : OptionGives gives .null none
  | present {v : Value} {a : α} : v ≠ .null → gives v a → OptionGives gives v (some a)

/-- A text gives itself. -/
inductive Value.TextGives : Value → String → Prop where
  | text (s : String) : TextGives (.text s) s

/-- A name of a level, in any case of its letters, gives the level. -/
inductive LogLevel.Gives : Value → LogLevel → Prop where
  | name {s : String} {l : LogLevel} : Text.SameName s l.name → Gives (.text s) l

/-- A number below `2 ^ 64` gives a step limit. -/
inductive RunSettings.LimitGives : Value → UInt64 → Prop where
  | natural (limit : UInt64) : LimitGives (.natural limit.toNat) limit

/-- An object that gives both levels gives log settings. -/
inductive LogSettings.Gives : Value → LogSettings → Prop where
  | object {fields : List (String × Value)} {s : LogSettings} :
      Value.FieldGives LogLevel.Gives none fields "app_level_filter" s.app →
      Value.FieldGives LogLevel.Gives none fields "level_filter" s.rest → Gives (.object fields) s

/-- An object gives run settings. -/
inductive RunSettings.Gives : Value → RunSettings → Prop where
  | object {fields : List (String × Value)} {s : RunSettings} :
      Value.FieldGives RunSettings.LimitGives (some ({} : RunSettings).stepLimit) fields "step_limit" s.stepLimit →
      Gives (.object fields) s

/-- An object gives settings. -/
inductive Settings.Gives : Value → Settings → Prop where
  | object {fields : List (String × Value)} {s : Settings} :
      Value.FieldGives Value.TextGives (some ({} : Settings).appName) fields "app_name" s.appName →
      Value.FieldGives (Value.OptionGives LogSettings.Gives) (some ({} : Settings).log?) fields "logger_config" s.log? →
      Value.FieldGives (Value.OptionGives RunSettings.Gives) (some ({} : Settings).run?) fields "vm_config" s.run? →
      Gives (.object fields) s

/-! ## Values of settings -/

/-- The value of what may be absent gives it, if the value of what is there does. -/
theorem Value.gives_ofOption {α : Type} {gives : Value → α → Prop} {value : α → Value} (hgives : ∀ a, gives (value a) a)
    (hobject : ∀ a, ∃ fields, value a = .object fields) (a? : Option α) : OptionGives gives (ofOption value a?) a? := by
  cases a? with
  | none => exact .absent
  | some a =>
    refine .present ?_ (hgives a)
    obtain ⟨fields, hfields⟩ := hobject a
    rw [ofOption, hfields]
    rintro ⟨⟩

/-- The text of the name of a level gives the level. -/
theorem LogLevel.gives_name (l : LogLevel) : Gives (.text l.name) l := .name (Text.fold_eq_iff.mp rfl)

/-- The value of log settings gives them. -/
theorem LogSettings.gives_value (s : LogSettings) : Gives s.value s :=
  .object (.given rfl s.app.gives_name) (.given rfl s.rest.gives_name)

/-- The value of run settings gives them. -/
theorem RunSettings.gives_value (s : RunSettings) : Gives s.value s := .object (.given rfl (.natural s.stepLimit))

/-- The value of settings gives them. -/
theorem Settings.gives_value (s : Settings) : Gives s.value s := by
  have hlog := Value.gives_ofOption LogSettings.gives_value (fun _ => ⟨_, rfl⟩) s.log?
  have hrun := Value.gives_ofOption RunSettings.gives_value (fun _ => ⟨_, rfl⟩) s.run?
  exact .object (.given rfl (.text s.appName)) (.given rfl hlog) (.given rfl hrun)

end ScriptEngine
