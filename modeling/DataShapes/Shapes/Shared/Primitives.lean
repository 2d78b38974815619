import DataShapes.Graph.Usage
import DataShapes.Schema.Document
import DataShapes.Shapes.Naming

/-! # Primitive schemas

The schemas that do not depend on the model: directions of ordering, modes of matching, and JSON values
if some field holds them. `null` is a JSON value inside arrays and records; whether a field admits it
depends on the field alone. -/

namespace DataShapes

namespace Primitives

/-- How to order, where `null` goes, and how texts match. -/
def ordering : List Declaration :=
  [⟨Naming.sortOrder, .enumeration ["asc", "desc"]⟩,
    ⟨Naming.queryMode, .enumeration ["default", "insensitive"]⟩,
    ⟨Naming.nullsOrder, .enumeration ["first", "last"]⟩,
    ⟨Naming.sortOrderInput, .strictObject [
      ("sort", .ref Naming.sortOrder),
      ("nulls", (Schema.ref Naming.nullsOrder).optional)]⟩]

/-- The JSON values other than `null`: first those without parts, then those with parts. -/
def jsonLeaves : List Schema := [.leaf .string, .leaf .number, .leaf .boolean]

def jsonContainers : List Schema :=
  [.array (.ref Naming.jsonValue), .record (.ref Naming.jsonValue)]

/-- Any JSON value, and any but `null`. -/
def json : List Declaration :=
  [⟨Naming.jsonValue, .union (jsonLeaves ++ [.leaf .null] ++ jsonContainers)⟩,
    ⟨Naming.inputJsonValue, .union (jsonLeaves ++ jsonContainers)⟩]

/-- The primitive schemas that a model needs. -/
def declarations (model : DataModel) : List Declaration :=
  ordering ++ if (model.scalarUsage .json).any then json else []

end Primitives

end DataShapes
