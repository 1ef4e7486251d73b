import JsonBinding.Index.Document
import JsonBinding.LogLevel
import JsonBinding.Publication

/-!
# The command

The command reads an index and perhaps settings, generates the units for what the endpoints return
and publishes them into a directory (`Command.run`).
-/

namespace JsonBinding.Command

/-- What the command is asked to do. -/
structure Arguments where
  logLevel : LogLevel := .info
  index : String
  settings? : Option String := none
  directory : String := "generated"
  deriving DecidableEq

/-- How the command is used. -/
def usage : String :=
  "usage: jsonb-codegen [--log-level <level>] <index.json> [config.json] [out-dir]"

/-- The fault of arguments that do not fit the usage. -/
def badArguments : Fault := .invalidSetting "arguments" usage

/-- The log level that the arguments ask for, and the other arguments. -/
def splitLogLevel : List String → LogLevel → Except Fault (LogLevel × List String)
  | [], level => .ok (level, [])
  | "--log-level" :: rest, _ =>
    match rest with
    | [] => .error badArguments
    | value :: rest =>
      match LogLevel.ofText? value with
      | some level => splitLogLevel rest level
      | none => .error (.invalidSetting "log level" (value ++ ": " ++ LogLevel.refusal))
  | arg :: rest, level => do
    let (level, others) ← splitLogLevel rest level
    pure (level, arg :: others)

/-- What some arguments ask for. -/
def Arguments.ofList (args : List String) : Except Fault Arguments := do
  match ← splitLogLevel args .info with
  | (logLevel, [index]) => pure { logLevel, index }
  | (logLevel, [index, settings]) => pure { logLevel, index, settings? := some settings }
  | (logLevel, [index, settings, directory]) =>
    pure { logLevel, index, settings? := some settings, directory }
  | _ => throw badArguments

variable {m : Type → Type} [Monad m] (files : Files m)

/-- The text of a file that is read for some purpose. -/
def readFile (purpose path : String) : ExceptT Fault m String := do
  match ← (files.read path : m (Except String String)) with
  | .ok text => pure text
  | .error reason => throw (.fileFailed purpose path reason)

/-- The settings in a file. -/
def readSettings (path : String) : ExceptT Fault m Settings := do
  let text ← readFile files "read configuration" path
  let doc ← (SettingsDocument.ofFile path text : Except Fault SettingsDocument)
  (doc.check : Except Fault Settings)

/-- The index in a file. -/
def readIndex (path : String) : ExceptT Fault m Index := do
  let text ← readFile files "read type index" path
  (Index.ofText text : Except Fault Index)

/-- Does what some arguments ask for. -/
def run (args : List String) : ExceptT Fault m Unit := do
  let args ← (Arguments.ofList args : Except Fault Arguments)
  let settings ← match args.settings? with
    | some path => readSettings files path
    | none => pure {}
  let index ← readIndex files args.index
  let schema : Schema := ⟨index, settings⟩
  let outcome ← ((schema.generate index.candidates true {}).1 : Except Fault Outcome)
  let outlet ← Outlet.create files args.directory
  let published : StateT Outlet m (Except Fault Unit) := Outlet.publish files outcome
  let (result, _) ← (published.run outlet : m (Except Fault Unit × Outlet))
  (result : Except Fault Unit)

end JsonBinding.Command
