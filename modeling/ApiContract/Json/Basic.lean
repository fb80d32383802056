import ApiContract.Number.Basic

namespace ApiContract

inductive Json where
  | null
  | bool (value : Bool)
  | num (value : Number)
  | str (value : String)
  | arr (items : List Json)
  | obj (members : List (String × Json))

namespace Json

def insertMember (key : String) (value : Json) : List (String × Json) → List (String × Json)
  | [] => [(key, value)]
  | (k, v) :: rest =>
    if key < k then (key, value) :: (k, v) :: rest
    else if key = k then (key, value) :: rest
    else (k, v) :: insertMember key value rest

def object (members : List (String × Json)) : Json :=
  .obj (members.foldl (fun sorted (k, v) => insertMember k v sorted) [])

end Json

end ApiContract
