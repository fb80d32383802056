import ApiContract.Endpoint.Basic

namespace ApiContract

inductive Command where
  | validate (schema value : String) (lenient : Bool)
  | types (schema : String)
  | generate (manifest : String) (flavor : Option Flavor) (out : Option String)
  | params (template : String)
  deriving DecidableEq

structure Invocation where
  verbosity : Nat
  config : Option String
  command : Command
  deriving DecidableEq

inductive Request where
  | run (invocation : Invocation)
  | version
  | usageError
  deriving DecidableEq

namespace Arguments

inductive OptionKind where
  | flag
  | counted
  | version
  | path
  | flavor
  deriving DecidableEq

structure OptionSpec where
  name : String
  short : Option Char
  kind : OptionKind

def OptionKind.takesValue : OptionKind → Bool
  | .path | .flavor => true
  | _ => false

def OptionKind.admits : OptionKind → String → Bool
  | .path, value => !value.isEmpty
  | .flavor, value => (Flavor.ofName? value).isSome
  | _, _ => false

def globalOptions : List OptionSpec :=
  [⟨"verbose", some 'v', .counted⟩, ⟨"config", none, .path⟩]

def commandOptions : String → Option (List OptionSpec)
  | "validate" =>
    some [⟨"schema", none, .path⟩, ⟨"value", none, .path⟩, ⟨"lenient", none, .flag⟩]
  | "types" => some [⟨"schema", none, .path⟩]
  | "generate" =>
    some [⟨"manifest", none, .path⟩, ⟨"flavor", none, .flavor⟩, ⟨"out", some 'o', .path⟩]
  | "params" => some []
  | _ => none

structure Given where
  options : List (String × String) := []
  positionals : List String := []

namespace Given

def add (g : Given) (spec : OptionSpec) (value : String) : Option Given :=
  if spec.kind ≠ .counted && (g.options.lookup spec.name).isSome then none
  else if spec.kind.takesValue && !spec.kind.admits value then none
  else some { g with options := (spec.name, value) :: g.options }

def value? (g : Given) (name : String) : Option String :=
  g.options.lookup name

def count (g : Given) (name : String) : Nat :=
  (g.options.filter (·.1 == name)).length

end Given

inductive Stop where
  | atEnd
  | version
  | command (name : String) (rest : List String)

/-- Short options in one argument such as `-vo`, of which the last may still need its value. -/
inductive Cluster where
  | complete (given : Given)
  | awaiting (given : Given) (spec : OptionSpec)
  | version

def cluster (specs : List OptionSpec) (g : Given) : List Char → Option Cluster
  | [] => some (.complete g)
  | c :: rest => do
    let spec ← specs.find? (·.short == some c)
    if spec.kind = .version then
      return .version
    else if !spec.kind.takesValue then
      cluster specs (← g.add spec "") rest
    else
      match rest with
      | [] => return .awaiting g spec
      | '=' :: value => return .complete (← g.add spec (String.ofList value))
      | value => return .complete (← g.add spec (String.ofList value))

def looksLikeOption (arg : String) : Bool :=
  match arg.toList with
  | '-' :: _ :: _ => true
  | _ => false

def splitLong (cs : List Char) : String × Option String :=
  let name := String.ofList (cs.takeWhile (· ≠ '='))
  match cs.dropWhile (· ≠ '=') with
  | '=' :: value => (name, some (String.ofList value))
  | _ => (name, none)

/-- Reads the arguments of one level. The top level takes no positional arguments and stops at the
command. -/
def scan (specs : List OptionSpec) (isTop : Bool) (g : Given) :
    List String → Option (Given × Stop)
  | [] => some (g, .atEnd)
  | arg :: rest =>
    match arg.toList with
    | ['-', '-'] =>
      if isTop && !rest.isEmpty then none
      else some ({ g with positionals := rest.reverse ++ g.positionals }, .atEnd)
    | '-' :: '-' :: cs => do
      let (name, value) := splitLong cs
      let spec ← specs.find? (·.name == name)
      match spec.kind.takesValue, value, rest with
      | true, some value, rest => scan specs isTop (← g.add spec value) rest
      | true, none, value :: rest =>
        if looksLikeOption value then none else scan specs isTop (← g.add spec value) rest
      | true, none, [] => none
      | false, some _, _ => none
      | false, none, rest =>
        if spec.kind = .version then return (g, .version)
        else scan specs isTop (← g.add spec "") rest
    | '-' :: c :: cs =>
      match cluster specs g (c :: cs), rest with
      | none, _ => none
      | some .version, _ => some (g, .version)
      | some (.complete g), rest => scan specs isTop g rest
      | some (.awaiting g spec), value :: rest =>
        if looksLikeOption value then none else do scan specs isTop (← g.add spec value) rest
      | some (.awaiting _ _), [] => none
    | _ =>
      if isTop then
        if (commandOptions arg).isSome then some (g, .command arg rest) else none
      else
        scan specs isTop { g with positionals := arg :: g.positionals } rest

def command? (name : String) (g : Given) : Option Command :=
  match name, g.positionals with
  | "validate", [] => do
    return .validate (← g.value? "schema") (← g.value? "value") (g.value? "lenient").isSome
  | "types", [] => do return .types (← g.value? "schema")
  | "generate", [] => do
    return .generate (← g.value? "manifest") ((g.value? "flavor").bind Flavor.ofName?)
      (g.value? "out")
  | "params", [template] => some (.params template)
  | _, _ => none

/-- Global options after the command override those before it. -/
def invocation (top sub : Given) (command : Command) : Invocation :=
  let verbosity := if sub.count "verbose" = 0 then top.count "verbose" else sub.count "verbose"
  ⟨verbosity, (sub.value? "config").or (top.value? "config"), command⟩

def parse (args : List String) : Request :=
  match scan (⟨"version", some 'V', .version⟩ :: globalOptions) true {} args with
  | some (_, .version) => .version
  | some (top, .command name rest) =>
    let parsed : Option Invocation := do
      let specs ← commandOptions name
      let (sub, _) ← scan (specs ++ globalOptions) false {} rest
      return invocation top sub (← command? name sub)
    match parsed with
    | some invocation => .run invocation
    | none => .usageError
  | _ => .usageError

end Arguments

end ApiContract
