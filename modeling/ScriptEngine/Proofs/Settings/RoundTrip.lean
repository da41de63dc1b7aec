import ScriptEngine.Command.Perform
import ScriptEngine.Proofs.Command.Files
import ScriptEngine.Proofs.Settings.Document

/-!
# Settings are read back

Settings survive being written and read. What is taken for granted of the writer is that it writes the compact text of the value
of settings, and of the reader that it gives the settings of every text that denotes a value which gives settings. That the
settings are the same then rests on the escapes of strings, on decimal numbers, and on what is absent being written as `null`.
-/

namespace ScriptEngine.Settings

open Container (textBytes)

/-- Settings survive being written and read, whatever they are: the text that is written for them gives the same settings, and so
does the file that it is written to, if that can be written. A section that is absent stays absent. The writer and the reader may
be any that write compact texts, and that read what texts denote. -/
theorem settings_survive_writing {write : Settings → String} {parse : List UInt8 → Option Settings}
    (hwrite : ∀ s, write s = s.value.compact)
    (hparse : ∀ (text : String) v s, Value.Denotes text.toList v → Gives v s → parse (textBytes text) = some s) (s : Settings) :
    parse (textBytes (write s)) = some s ∧
      ∀ (files files' : Command.Files) (name : String) (action : Command.Action),
        files.write name (textBytes (write s)) = .ok files' →
        Command.settings parse { settings? := some name, action } files' = .ok s := by
  have hread : parse (textBytes (write s)) = some s := by
    rw [hwrite]
    exact hparse s.value.compact s.value s s.value.denotes_compact s.gives_value
  refine ⟨hread, ?_⟩
  intro files files' name action hwritten
  rw [Command.settings]
  simp only [Command.Files.read_written hwritten, hread]
  rfl

/-- Settings under a name that needs escapes of both kinds, without a section for the log. -/
def odd : Settings := { appName := "\"\\\n\x00é😀", log? := none, run? := some { stepLimit := 0 } }

/-- They are read back from a file in an empty folder. -/
theorem odd_survives_writing :
    ∃ files', (Command.Files.ofFolder []).write "odd.json" (textBytes odd.value.compact) = .ok files' ∧
      Command.settings ofBytes? { settings? := some "odd.json", action := .list } files' = .ok odd := by
  have hparse : ∀ (text : String) v s, Value.Denotes text.toList v → Gives v s → ofBytes? (textBytes text) = some s :=
    fun _ _ _ => ofBytes?_of_gives
  obtain ⟨files', hwrite⟩ :
      ∃ files', (Command.Files.ofFolder []).write "odd.json" (textBytes odd.value.compact) = .ok files' := ⟨_, rfl⟩
  have hsurvives := settings_survive_writing (fun _ => rfl) hparse odd
  exact ⟨files', hwrite, hsurvives.2 _ _ _ .list hwrite⟩

end ScriptEngine.Settings
