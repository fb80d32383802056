import ApiContract.Text.Quoted

/-!
Path templates such as `/users/:id/files/*`: text, separators, named parameters and wildcards. A
backslash keeps itself and the character after it as text. The quantifiers `+` and `?` are refused.
-/

namespace ApiContract

inductive TemplatePart where
  | text (chars : String)
  | separator
  | param (name : String)
  | wildcard
  deriving DecidableEq

/-- Positions count bytes of the template. -/
inductive TemplateError where
  | emptyParamName (template : String) (position : Nat)
  | unsupportedQuantifier (template : String) (quantifier : Char) (position : Nat)
  deriving DecidableEq

def TemplateError.message : TemplateError → String
  | .emptyParamName template position =>
    "empty param name at position " ++ toString position ++ " in path template " ++
      Text.quoted template
  | .unsupportedQuantifier template quantifier position =>
    String.ofList [quantifier] ++ " is not supported (position " ++ toString position ++
      " in path template " ++ Text.quoted template ++ ")"

namespace Template

def isNameChar (c : Char) : Bool :=
  c.isAlphanum || c = '_'

def byteLength : List Char → Nat
  | [] => 0
  | c :: cs => c.utf8Size + byteLength cs

def flush (pending : List Char) (parts : List TemplatePart) : List TemplatePart :=
  if pending.isEmpty then parts else .text (String.ofList pending.reverse) :: parts

/-- Parses the rest of a template from a byte position; `pending` is text, newest character
first. -/
def scan (template : String) (position : Nat) (pending : List Char) :
    List Char → Except TemplateError (List TemplatePart)
  | [] => .ok (flush pending [])
  | ['\\'] => .ok (flush ('\\' :: pending) [])
  | '\\' :: c :: rest => scan template (position + 1 + c.utf8Size) (c :: '\\' :: pending) rest
  | c :: rest =>
    if c = '/' then
      (scan template (position + 1) [] rest).map fun parts => flush pending (.separator :: parts)
    else if c = ':' then
      let name := rest.takeWhile isNameChar
      if name.isEmpty then
        .error (.emptyParamName template position)
      else
        (scan template (position + 1 + byteLength name) [] (rest.dropWhile isNameChar)).map
          fun parts => flush pending (.param (String.ofList name) :: parts)
    else if c = '*' then
      (scan template (position + 1) [] rest).map fun parts => flush pending (.wildcard :: parts)
    else if c = '+' ∨ c = '?' then
      .error (.unsupportedQuantifier template c position)
    else
      scan template (position + c.utf8Size) (c :: pending) rest
termination_by cs => cs.length
decreasing_by
  all_goals simp only [List.length_cons]
  all_goals have := (List.dropWhile_sublist isNameChar (l := rest)).length_le
  all_goals omega

def parse (template : String) : Except TemplateError (List TemplatePart) :=
  scan template 0 [] template.toList

inductive Piece where
  | verbatim (text : String)
  | argument (name : String)
  deriving DecidableEq

def wildcardName (before : Nat) : String :=
  if before = 0 then "wildcard" else "wildcard" ++ toString (before + 1)

def piecesFrom (wildcards : Nat) : List TemplatePart → List Piece
  | [] => []
  | .text t :: rest => .verbatim t :: piecesFrom wildcards rest
  | .separator :: rest => .verbatim "/" :: piecesFrom wildcards rest
  | .param name :: rest => .argument name :: piecesFrom wildcards rest
  | .wildcard :: rest => .argument (wildcardName wildcards) :: piecesFrom (wildcards + 1) rest

def pieces (parts : List TemplatePart) : List Piece :=
  piecesFrom 0 parts

def Piece.argumentName? : Piece → Option String
  | .verbatim _ => none
  | .argument name => some name

def parameterNames (parts : List TemplatePart) : List String :=
  (pieces parts).filterMap Piece.argumentName?

def escapedText (s : String) : String :=
  String.ofList <| s.toList.flatMap fun c =>
    if c = '\\' ∨ c = '\x60' ∨ c = '$' then ['\\', c] else [c]

def Piece.interpolated : Piece → String
  | .verbatim text => escapedText text
  | .argument name => "$\x7b" ++ name ++ "\x7d"

def interpolatedPath (parts : List TemplatePart) : String :=
  String.join ((pieces parts).map Piece.interpolated)

end Template

end ApiContract
