namespace ApiContract.Identifier

/-- Marks fields that describe their object and are no part of its type. -/
def metaMark : Char := '$'

def isMeta (name : String) : Bool :=
  name.toList.head? == some metaMark

def isLetter (c : Char) : Bool :=
  c.isAlpha || c = '_' || c = '$'

def isSimple (name : String) : Bool :=
  match name.toList with
  | [] => false
  | c :: cs => isLetter c && cs.all fun c => isLetter c || c.isDigit

theorem not_mem_of_isSimple {name : String} {c : Char} (h : isSimple name = true)
    (hletter : isLetter c = false) (hdigit : c.isDigit = false) : c ∉ name.toList := by
  unfold isSimple at h
  split at h
  · cases h
  · rename_i first rest hname
    rw [Bool.and_eq_true, List.all_eq_true] at h
    rw [hname, List.mem_cons, not_or]
    constructor
    · rintro rfl
      simp [hletter] at h
    · intro hc
      simpa [hletter, hdigit] using h.2 c hc

def reservedWords : List String :=
  ["arguments", "await", "break", "case", "catch", "class", "const", "continue", "debugger",
   "default", "delete", "do", "else", "enum", "eval", "export", "extends", "false", "finally",
   "for", "function", "if", "implements", "import", "in", "instanceof", "interface", "let", "new",
   "null", "package", "private", "protected", "public", "return", "static", "super", "switch",
   "this", "throw", "true", "try", "typeof", "var", "void", "while", "with", "yield"]

def isReserved (name : String) : Bool :=
  reservedWords.contains name

def isBinding (name : String) : Bool :=
  isSimple name && !isReserved name

/-- Only the double quote is escaped, not the backslash. -/
def quotedKey (key : String) : String :=
  String.ofList ('"' :: key.toList.flatMap (fun c => if c = '"' then ['\\', '"'] else [c]) ++ ['"'])

def keyText (key : String) : String :=
  if isSimple key then key else quotedKey key

end ApiContract.Identifier
