/-! # Places

A place is where a path leads: some names down from the working directory, from a directory above it, or
from the top of all directories. Going up and down again meets the same places, except that a place above
the working directory does not know the names that lead back into it. -/

namespace DataShapes

/-- Where the names of a place start. -/
inductive Origin where
  /-- So many levels above the working directory; none is the working directory itself. -/
  | above (levels : Nat)
  /-- The top of all directories, which is above itself. -/
  | top
  deriving DecidableEq, Repr, Inhabited

def Origin.up : Origin → Origin
  | .above levels => .above (levels + 1)
  | .top => .top

structure Place where
  origin : Origin
  names : List String
  deriving DecidableEq, Repr, Inhabited

namespace Place

def working : Place := ⟨.above 0, []⟩

/-- Whether no name leads to a place from its origin. -/
def isOrigin (place : Place) : Bool := place.names.isEmpty

def down (place : Place) (name : String) : Place := ⟨place.origin, place.names ++ [name]⟩

def up (place : Place) : Place :=
  if place.isOrigin then ⟨place.origin.up, []⟩ else ⟨place.origin, place.names.dropLast⟩

/-- Whether a place is the working directory or below it. -/
def isWithin (place : Place) : Bool := place.origin == .above 0

/-- Whether the last name of a place takes more than the 255 bytes a name may have. -/
def isTooLong (place : Place) : Bool := place.names.getLast?.any fun name => 255 < name.utf8ByteSize

end Place

end DataShapes
