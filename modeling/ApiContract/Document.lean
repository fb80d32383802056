import ApiContract.Json.Parse
import ApiContract.Yaml.Value

namespace ApiContract

inductive DocumentFormat where
  | json
  | yaml
  deriving DecidableEq

namespace DocumentFormat

def name : DocumentFormat → String
  | .json => "json"
  | .yaml => "yaml"

def fileName? (path : String) : Option (List Char) :=
  let parts := path.toList.splitOn '/'
  (parts.filter fun part => part ≠ [] ∧ part ≠ ['.']).getLast?.filter (· ≠ ['.', '.'])

def extension? (path : String) : Option (List Char) :=
  (fileName? path).bind fun name =>
    let after := name.reverse.takeWhile (· ≠ '.')
    if after.length + 1 < name.length then some after.reverse else none

def ofPath (path : String) : DocumentFormat :=
  match extension? path with
  | some ['y', 'a', 'm', 'l'] => .yaml
  | some ['y', 'm', 'l'] => .yaml
  | _ => .json

def parse? (format : DocumentFormat) (text : String) : Option Json :=
  match format with
  | .json => Json.parse? text
  | .yaml => Yaml.parse? text

end DocumentFormat

end ApiContract
