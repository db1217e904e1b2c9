/-!
# Types of the intermediate representation

Pointers are opaque and structs are named by their layout. The numbers of functions, globals, layouts,
values and blocks have no bound.
-/

namespace SsaCompiler

structure LayoutId where
  index : Nat
deriving DecidableEq, Repr, Inhabited

structure FuncId where
  index : Nat
deriving DecidableEq, Repr, Inhabited

structure GlobalId where
  index : Nat
deriving DecidableEq, Repr, Inhabited

structure ValueId where
  index : Nat
deriving DecidableEq, Repr, Inhabited

structure BlockId where
  index : Nat
deriving DecidableEq, Repr, Inhabited

inductive IrType where
  | int (bits : Nat)
  | float (bits : Nat)
  | bool
  | ptr
  | struct (layout : LayoutId)
  | void
deriving DecidableEq, Repr, Inhabited

namespace IrType

def describe : IrType → String
  | int bits => s!"Int({bits})"
  | float bits => s!"Float({bits})"
  | bool => "Bool"
  | ptr => "Ptr"
  | struct layout => s!"Struct(LayoutId({layout.index}))"
  | void => "Void"

end IrType

structure FunctionSig where
  params : List IrType
  /-- The result type, `void` for a function that gives back nothing. -/
  result : IrType
  varargs : Bool
deriving DecidableEq, Repr

end SsaCompiler
