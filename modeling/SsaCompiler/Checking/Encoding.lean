import SsaCompiler.Checking.CheckedUnit
import SsaCompiler.Json.Value

/-!
# The JSON form of what checking finds out

Types are written as they are shown to a user, bindings by their identifiers, and tables as lists of
pairs in the order of their keys.
-/

namespace SsaCompiler

def FileSpan.locationJson (span : FileSpan) : Json := .string span.render

def BindingId.toJson (id : BindingId) : Json := .string id.render

def Binding.members {τ : Type} (typeText : τ → String) (binding : Binding τ) :
    List (String × Json) :=
  [("id", binding.id.toJson), ("unit", .nat binding.unit.index), ("name", .string binding.name),
    ("qualified", .string binding.qualified), ("ty", .string (typeText binding.type)),
    ("storage", .string binding.storage.name), ("span", binding.span.locationJson)]

def TypeError.toJson (error : TypeError) : Json :=
  let extra := match error with
    | .unboundName _ _ suggestions => [("suggestions", Json.list .string suggestions)]
    | .duplicate _ _ first => [("first", first.locationJson)]
    | _ => []
  .object ([("kind", .string error.kind.name), ("message", .string error.message),
    ("span", error.span.locationJson), ("code", .string error.kind.code),
    ("help", .optional .string error.help?)] ++ extra)

namespace Declarations

def typeJson (decls : Declarations) (type : Ty) : Json := .string (decls.describe type)

def bindingJson (decls : Declarations) (binding : Binding Ty) : Json :=
  .object (binding.members decls.describe)

def structJson (decls : Declarations) (struct : StructDef) : Json :=
  let field (field : FieldDef) : Json :=
    .array [.string field.name, decls.typeJson field.type, field.span.locationJson]
  .object [("name", .string struct.name), ("span", struct.span.locationJson),
    ("fields", .list field struct.fields)]

def functionJson (decls : Declarations) (item : FunctionItem) : Json :=
  .object [("binding", item.binding.toJson), ("unit", .nat item.unit.index),
    ("item_index", .nat item.itemIndex), ("name", .string item.name),
    ("ty", decls.typeJson item.type), ("link_name", .optional .string item.linkName),
    ("extern", .bool item.isExternal), ("span", item.span.locationJson)]

def globalJson (decls : Declarations) (item : GlobalItem) : Json :=
  .object [("binding", item.binding.toJson), ("unit", .nat item.unit.index),
    ("name", .string item.name), ("ty", decls.typeJson item.type),
    ("init", .bool item.init.isSome), ("span", item.span.locationJson)]

end Declarations

/-- The JSON form of a table: an entry for each key, in the order of `position`. -/
def Table.rows {κ α : Type} (position : κ → Nat) (row : α → List Json) (table : Table κ α) : Json :=
  let entries := table.entries.mergeSort fun a b => position a.1 ≤ position b.1
  .list (fun (key, value) => .array (.nat (position key) :: row value)) entries

def ExprId.listJson (ids : List ExprId) : Json :=
  .list Json.nat ((ids.map (·.index)).mergeSort fun a b => a ≤ b)

def CheckedFunction.toJson (decls : Declarations) (function : CheckedFunction) : Json :=
  let locals := function.localTypes.entries.mergeSort fun a b => a.1.le b.1
  .object [
    ("binding", function.binding.toJson),
    ("item_index", .nat function.itemIndex),
    ("params", .list BindingId.toJson function.params),
    ("ret", decls.typeJson function.result),
    ("expr_types", .list decls.typeJson function.exprTypes.toList),
    ("refs", function.refs.rows (·.index) fun binding => [binding.toJson]),
    ("lets", function.lets.rows (·.index) fun binding => [binding.toJson]),
    ("local_types", .list (fun (id, type) => .array [id.toJson, decls.typeJson type]) locals),
    ("memory_resident", .list BindingId.toJson (function.memoryResident.mergeSort BindingId.le)),
    ("coercions", function.coercions.rows (·.index) fun type => [decls.typeJson type]),
    ("fields", function.fields.rows (·.index) fun field =>
      [.nat field.struct.index, .nat field.index, .bool field.throughPointer]),
    ("struct_literals", function.structLiterals.rows (·.index) fun literal =>
      [.nat literal.struct.index, .list .nat literal.positions]),
    ("diverging", ExprId.listJson function.diverging),
    ("infinite_loops", ExprId.listJson function.infiniteLoops)]

end SsaCompiler
