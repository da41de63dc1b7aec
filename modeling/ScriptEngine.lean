import ScriptEngine.Main
import ScriptEngine.Host.Recording
import ScriptEngine.Host.Replay
import ScriptEngine.Proofs.Registry.Growth
import ScriptEngine.Proofs.Word.Codec
import ScriptEngine.Proofs.Assembly.Operands
import ScriptEngine.Proofs.Engine.Runs
import ScriptEngine.Proofs.Assembly.Code
import ScriptEngine.Proofs.Engine.Consistency
import ScriptEngine.Proofs.Engine.Safety
import ScriptEngine.Proofs.Script.Sections
import ScriptEngine.Proofs.Script.RoundTrip
import ScriptEngine.Proofs.Registry.Correspondence
import ScriptEngine.Proofs.Machine.Installation
import ScriptEngine.Proofs.Engine.Building
import ScriptEngine.Proofs.Engine.Conservative
import ScriptEngine.Proofs.Assembly.Tokens
import ScriptEngine.Proofs.Session.Standard
import ScriptEngine.Proofs.Text.Line
import ScriptEngine.Proofs.Text.Numeral
import ScriptEngine.Proofs.Assembly.Reassembly
import ScriptEngine.Proofs.Registry.Space
import ScriptEngine.Proofs.Word.Bijection
import ScriptEngine.Proofs.Session.Instructions
import ScriptEngine.Proofs.Machine.Operands
import ScriptEngine.Proofs.Session.Frame
import ScriptEngine.Proofs.Session.Calls
import ScriptEngine.Proofs.Session.Guard
import ScriptEngine.Proofs.Engine.Trace
import ScriptEngine.Proofs.Session.Recording
import ScriptEngine.Proofs.Session.Switches
import ScriptEngine.Proofs.Registry.Together
import ScriptEngine.Proofs.Engine.Order
import ScriptEngine.Proofs.Command.Files
import ScriptEngine.Proofs.Command.Storing
import ScriptEngine.Proofs.Session.Position
import ScriptEngine.Proofs.Script.Chunks
import ScriptEngine.Proofs.Script.Layout
import ScriptEngine.Proofs.Script.Reading
import ScriptEngine.Proofs.Script.Prefixes
import ScriptEngine.Proofs.Script.Normal
import ScriptEngine.Proofs.Session.Forward
import ScriptEngine.Proofs.Registry.Requests
import ScriptEngine.Proofs.Machine.Attempts
import ScriptEngine.Proofs.Registry.Registering
import ScriptEngine.Proofs.Assembly.Prefixes
import ScriptEngine.Proofs.Assembly.Grammar
import ScriptEngine.Proofs.Machine.Slots
import ScriptEngine.Proofs.Session.Messages
import ScriptEngine.Proofs.Session.Variables
import ScriptEngine.Proofs.Text.Case
import ScriptEngine.Proofs.Session.Globals
import ScriptEngine.Proofs.Session.Integers
import ScriptEngine.Proofs.Script.Interning
import ScriptEngine.Proofs.Text.Utf8
import ScriptEngine.Proofs.Settings.Strings
import ScriptEngine.Proofs.Settings.Values
import ScriptEngine.Proofs.Settings.RoundTrip
import ScriptEngine.Proofs.Assembly.Integers
import ScriptEngine.Proofs.Registry.SignatureGrammar
import ScriptEngine.Proofs.Script.Width
import ScriptEngine.Proofs.Text.Digits
