import ApiContract.Text.Quoted

namespace ApiContract

inductive Method where
  | get
  | post
  | put
  | patch
  | delete
  | head
  | options
  | trace
  | connect
  deriving DecidableEq

namespace Method

def all : List Method :=
  [.get, .post, .put, .patch, .delete, .head, .options, .trace, .connect]

def name : Method → String
  | .get => "get"
  | .post => "post"
  | .put => "put"
  | .patch => "patch"
  | .delete => "delete"
  | .head => "head"
  | .options => "options"
  | .trace => "trace"
  | .connect => "connect"

def wireName : Method → String
  | .get => "GET"
  | .post => "POST"
  | .put => "PUT"
  | .patch => "PATCH"
  | .delete => "DELETE"
  | .head => "HEAD"
  | .options => "OPTIONS"
  | .trace => "TRACE"
  | .connect => "CONNECT"

def carriesPayload : Method → Bool
  | .post | .put | .patch => true
  | _ => false

def ofName? (name : String) : Option Method :=
  all.find? (·.name == name)

theorem ofName?_name (m : Method) : ofName? m.name = some m := by
  cases m <;> decide

def unknownMessage (name : String) : String :=
  "unknown http method: " ++ Text.quoted name

end Method

end ApiContract
