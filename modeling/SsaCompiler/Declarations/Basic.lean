import SsaCompiler.ModuleIndex
import SsaCompiler.Syntax.Unit
import SsaCompiler.Ty
import SsaCompiler.TypeError

/-!
# Declarations

The items of all units with their types resolved: what function bodies are checked against. Type
names are kept apart from the names of functions and globals.
-/

namespace SsaCompiler

structure FunctionItem where
  binding : BindingId
  unit : UnitId
  itemIndex : Nat
  name : String
  params : List Ty
  result : Ty
  varargs : Bool
  linkName : Option String
  isExternal : Bool
  span : FileSpan
deriving DecidableEq, Repr

namespace FunctionItem

def type (item : FunctionItem) : Ty := .function item.params item.result item.varargs

end FunctionItem

structure GlobalItem where
  binding : BindingId
  unit : UnitId
  name : String
  type : Ty
  init : Option Literal
  span : FileSpan
deriving DecidableEq, Repr

structure Declarations (κ : Type := String) where
  index : ModuleIndex Ty κ
  structs : Array StructDef
  functions : Array FunctionItem
  globals : Array GlobalItem
  types : Table κ Ty
  typeSpans : Table κ FileSpan
  /-- The errors found, each with the unit it was found in. -/
  errors : Array (UnitId × TypeError)
deriving DecidableEq, Repr

namespace Declarations

variable {κ : Type}

def empty : Declarations κ := ⟨.empty, #[], #[], #[], .empty, .empty, #[]⟩

def errorsOf (decls : Declarations κ) (unit : UnitId) : List TypeError :=
  decls.errors.toList.filterMap fun (found, error) => if found = unit then some error else none

def hasErrors (decls : Declarations κ) : Bool := !decls.errors.isEmpty

/-- The function declared at a position of a unit, unless it was rejected. -/
def functionAt? (decls : Declarations κ) (unit : UnitId) (itemIndex : Nat) : Option FunctionItem :=
  decls.functions.find? fun item => item.unit = unit && item.itemIndex = itemIndex

def function? (decls : Declarations κ) (binding : BindingId) : Option FunctionItem :=
  decls.functions.find? (·.binding = binding)

def struct? (decls : Declarations κ) (id : StructId) : Option StructDef := decls.structs[id.index]?

def describe (decls : Declarations κ) (type : Ty) : String :=
  type.render fun id => (decls.struct? id).map (·.name)

/-- The qualified form of a type name used inside a unit. -/
def qualify (unitName name : String) : String :=
  if Name.isQualified name then name else Name.path [unitName, name]

section

variable {m : Type → Type} [Monad m] [Names κ m]

/-- The type with a name, as seen from inside a unit. -/
def lookupType? [DecidableEq κ] (decls : Declarations κ) (unitName name : String) :
    m (Option Ty) := do
  match Ty.builtin? name with
  | some type => return some type
  | none =>
    let key ← Names.find? (qualify unitName name)
    return key.bind decls.types.get?

def unboundType (decls : Declarations κ) (unitName name : String) (span : FileSpan) :
    m TypeError := do
  let types ← Names.texts decls.types.keys
  return .ofSymbolError (.unbound name span (types.map (Name.relativeTo unitName)))

end

end Declarations

namespace TypeExpr

variable {m : Type → Type} [Monad m]

mutual
/-- The type that a type expression stands for, given what names stand for. -/
def typeWith (named : String → FileSpan → m Ty) : TypeExpr → m Ty
  | .named name span => named name span
  | .pointer pointee _ => do
    let pointee ← typeWith named pointee
    return .ptr pointee
  | .function params result varargs _ => do
    let params ← typesWith named params
    match result with
    | some result =>
      let result ← typeWith named result
      return .function params result varargs
    | none => return .function params .unit varargs

def typesWith (named : String → FileSpan → m Ty) : List TypeExpr → m (List Ty)
  | [] => return []
  | type :: rest => do
    let type ← typeWith named type
    let rest ← typesWith named rest
    return type :: rest
end

end TypeExpr

/-- The type of a type expression written inside a unit. -/
def Declarations.resolveType {κ : Type} {m : Type → Type} [Monad m] [Names κ m] [DecidableEq κ]
    (decls : Declarations κ) (unitName : String) (type : TypeExpr) : m (Except TypeError Ty) :=
  (type.typeWith (m := ExceptT TypeError m) fun name span => do
    match ← decls.lookupType? (m := m) unitName name with
    | some type => return type
    | none => throw (← decls.unboundType (m := m) unitName name span)).run

end SsaCompiler
