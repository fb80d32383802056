import ApiContract.Text.Quoted

namespace ApiContract

inductive LogLevel where
  | error
  | warn
  | info
  | debug
  | trace
  deriving DecidableEq

namespace LogLevel

def name : LogLevel → String
  | .error => "ERROR"
  | .warn => "WARN"
  | .info => "INFO"
  | .debug => "DEBUG"
  | .trace => "TRACE"

def detail : LogLevel → Nat
  | .error => 0
  | .warn => 1
  | .info => 2
  | .debug => 3
  | .trace => 4

end LogLevel

structure LogEvent where
  level : LogLevel
  message : String
  fields : List (String × String)
  deriving DecidableEq

def terminalChar (c : Char) : List Char :=
  if ['\x07', '\x08', '\x0c', '\x1b', '\x7f'].contains c then
    ['\\', 'x'] ++ List.leftpad 2 '0' (Text.lowerHex c.toNat)
  else if 0x80 ≤ c.toNat ∧ c.toNat ≤ 0x9f then
    ['\\', 'u', '{'] ++ Text.lowerHex c.toNat ++ ['}']
  else
    [c]

def terminalText (s : String) : String :=
  String.ofList (s.toList.flatMap terminalChar)

def LogEvent.line (e : LogEvent) : String :=
  e.level.name ++ " " ++ terminalText e.message ++
    String.join (e.fields.map fun (k, v) => " " ++ k ++ "=" ++ v)

end ApiContract
