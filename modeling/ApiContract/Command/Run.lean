import ApiContract.Client
import ApiContract.Command.Arguments
import ApiContract.Command.Config
import ApiContract.Document
import ApiContract.Endpoint.Wire

namespace ApiContract

inductive DocumentError where
  | file (e : FileError)
  | malformed
  | decode (e : DecodeError)

def DocumentError.message : DocumentError → String
  | .file e => "io error: " ++ e.message ++ ": " ++ e.message
  | .malformed => "serialization error"
  | .decode e => "serialization error: " ++ e.message

structure Ending where
  log : List LogEvent := []
  result : Except String (Nat × String)

namespace Command

variable [Monad m] [FileAccess m]

def readDocument (path : String) : m (Except DocumentError Json) := do
  match ← FileAccess.read path with
  | .error e => return .error (.file e)
  | .ok text =>
    match (DocumentFormat.ofPath path).parse? text with
    | some value => return .ok value
    | none => return .error .malformed

def load (path what : String) (decode : Json → Decoded α) : m (Except String α) := do
  let loaded := (← readDocument path).bind fun value => (decode value).mapError .decode
  return loaded.mapError fun e => "failed to load " ++ what ++ ": " ++ path ++ ": " ++ e.message

def rejectedEvent (v : Violation) : LogEvent :=
  ⟨.info, "value rejected", [("kind", v.kind.name), ("path", v.location.text)]⟩

def runValidate (schema value : String) (mode : Mode) : m Ending := do
  match ← load schema "schema" (Schema.ofJson .plain) with
  | .error e => return { result := .error e }
  | .ok s =>
    match ← load value "value" .ok with
    | .error e => return { result := .error e }
    | .ok v =>
      match s.validate mode v with
      | .ok () => return { result := .ok (0, "OK\n") }
      | .error violation =>
        return { log := [rejectedEvent violation], result := .ok (1, violation.message ++ "\n") }

def runTypes (schema : String) : m Ending := do
  match ← load schema "schema" (Schema.ofJson .plain) with
  | .error e => return { result := .error e }
  | .ok s => return { result := .ok (0, s.typeText ++ "\n") }

def clientErrorChain (e : ClientError) : String :=
  match e with
  | .template _ source => e.message ++ ": " ++ source.message
  | e => e.message

def generatingEvent (endpoints : List Endpoint) (flavor : Flavor) : LogEvent :=
  ⟨.info, "generating client",
    [("endpoints", toString endpoints.length), ("flavor", flavor.name)]⟩

def wroteEvent (path text : String) : LogEvent :=
  ⟨.info, "wrote output", [("path", path), ("bytes", toString text.utf8ByteSize)]⟩

def runGenerate (manifest : String) (flavor : Flavor) (out : Option String) : m Ending := do
  match ← load manifest "manifest" Manifest.ofJson with
  | .error e => return { result := .error e }
  | .ok endpoints =>
    let generation := Client.generate endpoints flavor
    let log := generatingEvent endpoints flavor :: generation.log
    match generation.result, out with
    | .error e, _ =>
      let message := "failed to generate client from manifest: " ++ manifest ++ ": " ++
        clientErrorChain e
      return { log, result := .error message }
    | .ok text, none => return { log, result := .ok (0, text) }
    | .ok text, some path =>
      match ← FileAccess.write path text with
      | .ok () => return { log := log ++ [wroteEvent path text], result := .ok (0, "") }
      | .error e =>
        return { log, result := .error ("failed to write output: " ++ path ++ ": " ++ e.message) }

def runParams (template : String) : Ending :=
  match Template.parse template with
  | .ok parts =>
    { result := .ok (0, String.join ((Template.parameterNames parts).map (· ++ "\n"))) }
  | .error e => { result := .error ("invalid path template: " ++ template ++ ": " ++ e.message) }

def run (config : Config) : Command → m Ending
  | .validate schema value lenient => runValidate schema value (config.mode lenient)
  | .types schema => runTypes schema
  | .generate manifest flavor out =>
    runGenerate manifest ((flavor.or config.flavor).getD .untyped) (out.or config.output)
  | .params template => return runParams template

end Command

structure Report where
  exit : Nat
  stdout : String
  log : List LogEvent

namespace Invocation

def startingEvent : LogEvent :=
  ⟨.debug, "frapi CLI starting", [("version", "\"0.1.0\"")]⟩

def level (i : Invocation) : LogLevel :=
  match i.verbosity with
  | 0 => .warn
  | 1 => .info
  | 2 => .debug
  | _ => .trace

def report (i : Invocation) (ending : Ending) : Report :=
  let shown (log : List LogEvent) : List LogEvent :=
    log.filter (·.level.detail ≤ i.level.detail)
  match ending.result with
  | .ok (exit, stdout) => ⟨exit, stdout, shown ending.log⟩
  | .error message => ⟨2, "", shown (ending.log ++ [⟨.error, message, []⟩])⟩

def run [Monad m] [FileAccess m] (i : Invocation) : m Report := do
  let (log, config) ← Config.load i.config
  let ending : Ending ← match config with
    | .error message => pure { result := .error message }
    | .ok config => i.command.run config
  return i.report { ending with log := startingEvent :: log ++ ending.log }

end Invocation

def versionText : String :=
  "frapi 0.1.0\n"

end ApiContract
