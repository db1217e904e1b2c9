import SsaCompiler.Span

/-!
# Bindings

A binding is a declared name. Items are numbered through the module, locals through their unit, so
that units can be checked apart from each other and no two bindings share an identifier.
-/

namespace SsaCompiler

structure UnitId where
  index : Nat
deriving DecidableEq, Repr, Inhabited

/-- Numbers without a bound, as in `FileId`. -/
inductive BindingId where
  | item (index : Nat)
  | local (unit : UnitId) (index : Nat)
deriving DecidableEq, Repr, Inhabited

namespace BindingId

/-- The text `itemN` of an item, `uU.lN` of a local. -/
def render : BindingId → String
  | item index => s!"item{index}"
  | .local unit index => s!"u{unit.index}.l{index}"

/-- The order that reports list bindings in: items first, then locals by unit and number. -/
def le : BindingId → BindingId → Bool
  | item a, item b => a ≤ b
  | item _, .local _ _ => true
  | .local _ _, item _ => false
  | .local u a, .local v b => u.index < v.index || (u.index = v.index && a ≤ b)

end BindingId

inductive Storage where
  | local | parameter | global | function
deriving DecidableEq, Repr

namespace Storage

def name : Storage → String
  | .local => "Local" | parameter => "Parameter" | global => "Global" | function => "Function"

def ofName? (text : String) : Option Storage :=
  [Storage.local, parameter, global, function].find? (·.name = text)

def isItem : Storage → Bool
  | global | function => true
  | .local | parameter => false

end Storage

/-- A declared name with a payload `τ`, its type. Names are kept as keys `κ`. -/
structure Binding (τ : Type) (κ : Type := String) where
  id : BindingId
  unit : UnitId
  name : κ
  qualified : κ
  type : τ
  storage : Storage
  span : FileSpan
deriving DecidableEq, Repr

end SsaCompiler
