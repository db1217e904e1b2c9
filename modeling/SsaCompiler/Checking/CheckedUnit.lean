import SsaCompiler.Declarations.Basic
import SsaCompiler.Syntax.Expr

/-!
# Checked units

What checking a body finds out, by position of expression, statement or binding: types, what names
stand for, the conversions to insert, the expressions that control never leaves, and the locals that
need a place in memory.
-/

namespace SsaCompiler

structure FieldRef where
  struct : StructId
  index : Nat
  throughPointer : Bool
deriving DecidableEq, Repr

structure StructLiteralRef where
  struct : StructId
  /-- The position of the field of each initializer, in the order written. -/
  positions : List Nat
deriving DecidableEq, Repr

structure CheckedFunction where
  binding : BindingId
  /-- The position of its declaration among the items of the unit. -/
  itemIndex : Nat
  params : List BindingId
  result : Ty
  exprTypes : Array Ty
  refs : Table ExprId BindingId
  lets : Table StmtId BindingId
  localTypes : Table BindingId Ty
  /-- The parameters and locals kept in memory. -/
  memoryResident : List BindingId
  /-- The type that the value of an expression is converted to where it is used. -/
  coercions : Table ExprId Ty
  fields : Table ExprId FieldRef
  structLiterals : Table ExprId StructLiteralRef
  /-- The expressions that control never goes on after. -/
  diverging : List ExprId
  /-- The loops whose condition is the literal `true`. -/
  infiniteLoops : List ExprId
deriving Repr

namespace CheckedFunction

/-- A function about whose body of `exprCount` expressions nothing is known yet. -/
def start (item : FunctionItem) (exprCount : Nat) : CheckedFunction :=
  { binding := item.binding, itemIndex := item.itemIndex, params := [], result := item.result,
    exprTypes := .replicate exprCount .error, refs := .empty, lets := .empty,
    localTypes := .empty, memoryResident := [], coercions := .empty, fields := .empty,
    structLiterals := .empty, diverging := [], infiniteLoops := [] }

def typeOf (function : CheckedFunction) (expr : ExprId) : Ty :=
  function.exprTypes.getD expr.index .error

def setType (function : CheckedFunction) (expr : ExprId) (type : Ty) : CheckedFunction :=
  { function with exprTypes := function.exprTypes.setIfInBounds expr.index type }

def setDiverging (function : CheckedFunction) (expr : ExprId) : CheckedFunction :=
  { function with diverging := function.diverging.insert expr }

def keepInMemory (function : CheckedFunction) (binding : BindingId) : CheckedFunction :=
  { function with memoryResident := function.memoryResident.insert binding }

def diverges (function : CheckedFunction) (expr : ExprId) : Bool :=
  function.diverging.contains expr

def isMemoryResident (function : CheckedFunction) (binding : BindingId) : Bool :=
  function.memoryResident.contains binding

end CheckedFunction

structure CheckedUnit (κ : Type := String) where
  unit : UnitId
  functions : List CheckedFunction
  locals : List (Binding Ty κ)
deriving Repr

end SsaCompiler
