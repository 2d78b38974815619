/-! # Sets of names

A set of names is listed in the order of code points, each name once. -/

namespace DataShapes

namespace NameSet

def insert (name : String) : List String → List String
  | [] => [name]
  | other :: names =>
    if name < other then name :: other :: names
    else if name = other then other :: names
    else other :: insert name names

def ofList (names : List String) : List String := names.foldr insert []

end NameSet

end DataShapes
