namespace ApiContract

inductive FileError where
  | notFound
  | isDirectory
  | notDirectory
  | nameTooLong
  | zeroByte
  | notText
  | other (message : String)
  deriving DecidableEq

def FileError.message : FileError → String
  | .notFound => "No such file or directory (os error 2)"
  | .isDirectory => "Is a directory (os error 21)"
  | .notDirectory => "Not a directory (os error 20)"
  | .nameTooLong => "File name too long (os error 36)"
  | .zeroByte => "file name contained an unexpected NUL byte"
  | .notText => "stream did not contain valid UTF-8"
  | .other message => message

class FileAccess (m : Type → Type) where
  read : String → m (Except FileError String)
  write : String → String → m (Except FileError Unit)

inductive FileContent where
  | text (content : String)
  | bytes
  deriving DecidableEq

abbrev Place := List String

/-- Files by their places. Directories are implicit: a place is one if a file is below it, or if it
leads to the working directory. -/
structure FileStore where
  workingDirectory : Place
  files : List (Place × FileContent)

namespace FileStore

def isDirectory (store : FileStore) (place : Place) : Bool :=
  place.isPrefixOf store.workingDirectory ||
    store.files.any fun (p, _) => place.length < p.length && place.isPrefixOf p

def content? (store : FileStore) (place : Place) : Option FileContent :=
  store.files.lookup place

def maxNameBytes : Nat := 255
def maxPathBytes : Nat := 4095

def enter (store : FileStore) (place : Place) (name : String) : Except FileError Place :=
  let inside := place ++ [name]
  if !store.isDirectory place then .error .notDirectory
  else if name = "." then .ok place
  else if name = ".." then .ok place.dropLast
  else if maxNameBytes < name.utf8ByteSize then .error .nameTooLong
  else if store.isDirectory inside || (store.content? inside).isSome then .ok inside
  else .error .notFound

def start (store : FileStore) (path : String) : Except FileError (Place × List String) :=
  let cs := path.toList
  let names := ((cs.splitOn '/').filter (· ≠ [])).map String.ofList
  if cs.contains '\x00' then .error .zeroByte
  else if cs.isEmpty then .error .notFound
  else if maxPathBytes < path.utf8ByteSize then .error .nameTooLong
  else if cs.head? = some '/' then .ok ([], names)
  else .ok (store.workingDirectory, names)

def namesDirectory (path : String) : Bool :=
  path.toList.getLast? = some '/'

def read (store : FileStore) (path : String) : Except FileError String := do
  let (place, names) ← store.start path
  let place ← names.foldlM store.enter place
  if store.isDirectory place then
    .error .isDirectory
  else if namesDirectory path then
    .error .notDirectory
  else
    match store.content? place with
    | some (.text s) => .ok s
    | some .bytes => .error .notText
    | none => .error .notFound

def set (store : FileStore) (place : Place) (content : FileContent) : FileStore :=
  { store with files := (place, content) :: store.files.filter (·.1 ≠ place) }

/-- Writes a file into a directory that exists. A path that can only name a directory is refused
even if nothing is there. -/
def write (store : FileStore) (path text : String) : Except FileError FileStore := do
  let (place, names) ← store.start path
  let directory ← names.dropLast.foldlM store.enter place
  if !store.isDirectory directory then .error .notDirectory
  match names.getLast? with
  | none => .error .isDirectory
  | some name =>
    let place := directory ++ [name]
    if name = "." ∨ name = ".." ∨ namesDirectory path then .error .isDirectory
    else if maxNameBytes < name.utf8ByteSize then .error .nameTooLong
    else if store.isDirectory place then .error .isDirectory
    else .ok (store.set place (.text text))

end FileStore

instance : FileAccess (StateM FileStore) where
  read path := do return (← get).read path
  write path text := do
    match (← get).write path text with
    | .ok store =>
      set store
      return .ok ()
    | .error e => return .error e

end ApiContract
