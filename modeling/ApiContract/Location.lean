import ApiContract.Identifier

namespace ApiContract

inductive Segment where
  | field (name : String)
  | index (position : Nat)
  deriving DecidableEq

abbrev Location := List Segment

def Segment.appendTo (before : String) : Segment → String
  | .index i => before ++ "[" ++ toString i ++ "]"
  | .field key =>
    if Identifier.isSimple key then
      if before.isEmpty then key else before ++ "." ++ key
    else
      before ++ "[" ++ Identifier.quotedKey key ++ "]"

def Location.text (location : Location) : String :=
  location.foldl Segment.appendTo ""

/-- A place inside a value, linked to the place around it. -/
inductive Frame where
  | root
  | field (parent : Frame) (name : String)
  | index (parent : Frame) (position : Nat)

namespace Frame

/-- Pushes the segments of a frame and of all frames above it, innermost first. -/
def pushUp (segments : Location) : Frame → Location
  | .root => segments
  | .field parent name => parent.pushUp (segments ++ [.field name])
  | .index parent position => parent.pushUp (segments ++ [.index position])

def segments (frame : Frame) : Location :=
  (frame.pushUp []).reverse

end Frame

end ApiContract
