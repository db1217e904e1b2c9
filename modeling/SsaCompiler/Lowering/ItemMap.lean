import SsaCompiler.Declarations.Basic
import SsaCompiler.Ir.Module

/-!
# Items and types of the module being made

Where each declared item stands in the module, and what the types of the language become: pointers
and functions are plain pointers, and what has no value is `void`.
-/

namespace SsaCompiler

structure ItemMap where
  layouts : List LayoutId
  functions : Table BindingId FuncId
  globals : Table BindingId GlobalId
deriving Repr

namespace ItemMap

def empty : ItemMap := ⟨[], .empty, .empty⟩

def layout (items : ItemMap) (id : StructId) : Except Fault LayoutId :=
  match items.layouts[id.index]? with
  | some layout => .ok layout
  | none => .error (.missingLayout id.index)

def lowerType (items : ItemMap) : Ty → Except Fault IrType
  | .int bits => .ok (.int bits)
  | .float bits => .ok (.float bits)
  | .bool => .ok .bool
  | .unit => .ok .void
  | .ptr _ | .function .. => .ok .ptr
  | .aggregate id => do
    let layout ← items.layout id
    return .struct layout
  | .error => .error .errorType

def lowerSig (items : ItemMap) (params : List Ty) (result : Ty) (varargs : Bool) :
    Except Fault FunctionSig := do
  let params ← params.mapM items.lowerType
  let result ← items.lowerType result
  return ⟨params, result, varargs⟩

end ItemMap

/-- A float constant in the precision of its type. -/
def floatConstant (value : Binary64) : Ty → Binary64
  | .float 32 => value.toSingle
  | _ => value

structure DeclareError where
  error : ModuleError
  unit : UnitId
  span : FileSpan
deriving DecidableEq, Repr

def globalInit (type : Ty) : Option Literal → GlobalInit
  | none | some .unit => .zero
  | some (.int value _) => .const (.int value)
  | some (.float value _) => .const (.float (floatConstant value type))
  | some (.bool value) => .const (.bool value)
  | some (.cString text) => .cString text

namespace ItemMap

structure Declaring where
  builder : ModuleBuilder
  items : ItemMap
  errors : List DeclareError

def declareStructs (items : ItemMap) : List StructDef → ModuleBuilder → Except Fault ModuleBuilder
  | [], builder => .ok builder
  | struct :: rest, builder => do
    let fields ← struct.fields.mapM fun field => items.lowerType field.type
    match builder.declareStruct struct.name fields with
    | (.ok _, builder) => items.declareStructs rest builder
    | (.error _, _) => .error (.structRejected struct.name)

def declareGlobal (progress : Declaring) (item : GlobalItem) : Except Fault Declaring := do
  let type ← progress.items.lowerType item.type
  match progress.builder.declareGlobal item.name type (globalInit item.type item.init) with
  | (.ok id, builder) =>
    let items := { progress.items with globals := progress.items.globals.insert item.binding id }
    return { progress with builder := builder, items := items }
  | (.error error, builder) =>
    let errors := progress.errors ++ [⟨error, item.unit, item.span⟩]
    return { progress with builder := builder, errors := errors }

/-- Enters a function: an external one under its own name, unless it asks for another. -/
def enterFunction (builder : ModuleBuilder) (item : FunctionItem) (sig : FunctionSig) :
    Except Fault (ModuleResult FuncId) :=
  if item.isExternal then
    builder.declareExternal item.name sig (item.linkName.getD (Name.lastSegment item.name))
  else
    match item.linkName with
    | some symbol => .ok (builder.newFunctionWithSymbol item.name sig symbol)
    | none => .ok (builder.newFunction item.name sig)

def declareFunction (progress : Declaring) (item : FunctionItem) : Except Fault Declaring := do
  let sig ← progress.items.lowerSig item.params item.result item.varargs
  match ← enterFunction progress.builder item sig with
  | (.ok id, builder) =>
    let items :=
      { progress.items with functions := progress.items.functions.insert item.binding id }
    return { progress with builder := builder, items := items }
  | (.error error, builder) =>
    let errors := progress.errors ++ [⟨error, item.unit, item.span⟩]
    return { progress with builder := builder, errors := errors }

/-- Declares all items in a module: structs, then globals, then functions. -/
def declareAll {κ : Type} (decls : Declarations κ) (builder : ModuleBuilder) : Except Fault Declaring := do
  let base := builder.nextLayout.index
  let layouts := (List.range decls.structs.size).map fun offset => LayoutId.mk (base + offset)
  let items := { empty with layouts := layouts }
  let builder ← items.declareStructs decls.structs.toList builder
  let progress ← decls.globals.toList.foldlM declareGlobal ⟨builder, items, []⟩
  decls.functions.toList.foldlM declareFunction progress

end ItemMap

end SsaCompiler
