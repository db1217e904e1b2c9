import SsaCompiler.Span

/-!
# Types

Types are equal when they are built alike; structs when they are the same declaration. A narrower
number widens to a wider one of its kind, and nothing else converts. `error` is the type of what
already failed to check: it goes with everything, so one mistake is reported once.
-/

namespace SsaCompiler

/-- A number without a bound, as in `FileId`. -/
structure StructId where
  index : Nat
deriving DecidableEq, Repr, Inhabited

inductive Ty where
  | int (bits : Nat)
  | float (bits : Nat)
  | bool
  | unit
  | ptr (pointee : Ty)
  | function (params : List Ty) (result : Ty) (varargs : Bool)
  | aggregate (id : StructId)
  /-- The type of what failed to check. -/
  | error
deriving Repr, Inhabited

namespace Ty

mutual
def same : Ty → Ty → Bool
  | int a, int b => a = b
  | float a, float b => a = b
  | bool, bool => true
  | unit, unit => true
  | ptr a, ptr b => same a b
  | function params result varargs, function params' result' varargs' =>
    sameList params params' && same result result' && varargs = varargs'
  | aggregate a, aggregate b => a = b
  | error, error => true
  | _, _ => false

def sameList : List Ty → List Ty → Bool
  | [], [] => true
  | a :: as, b :: bs => same a b && sameList as bs
  | _, _ => false
end

mutual
theorem same_iff : ∀ {a b : Ty}, same a b = true ↔ a = b
  | int _, b | float _, b | bool, b | unit, b | aggregate _, b | error, b => by cases b <;> simp [same]
  | ptr a, b => by cases b <;> simp [same, same_iff]
  | function params result _, b => by
    cases b <;> simp [same, sameList_iff, same_iff, and_assoc]

theorem sameList_iff : ∀ {as bs : List Ty}, sameList as bs = true ↔ as = bs
  | [], bs => by cases bs <;> simp [sameList]
  | a :: as, bs => by cases bs <;> simp [sameList, same_iff, sameList_iff]
end

instance : DecidableEq Ty := fun _ _ => decidable_of_iff _ same_iff

def cString : Ty := ptr (int 8)

def builtin? : String → Option Ty
  | "i8" => some (int 8)
  | "i16" => some (int 16)
  | "i32" | "int" => some (int 32)
  | "i64" => some (int 64)
  | "f32" => some (float 32)
  | "f64" | "float" => some (float 64)
  | "bool" => some bool
  | "void" | "unit" => some unit
  | _ => none

def isInt : Ty → Bool
  | int _ => true
  | _ => false

def isFloat : Ty → Bool
  | float _ => true
  | _ => false

def isNumeric (type : Ty) : Bool := type.isInt || type.isFloat

def isError : Ty → Bool
  | error => true
  | _ => false

def isUnit : Ty → Bool
  | unit => true
  | _ => false

def isPtr : Ty → Bool
  | ptr _ => true
  | _ => false

def pointee? : Ty → Option Ty
  | ptr pointee => some pointee
  | _ => none

/-- Whether a type converts to a strictly wider one. -/
def widensTo : Ty → Ty → Bool
  | int a, int b => a < b
  | float a, float b => a < b
  | _, _ => false

/-- Whether a value of the first type may be used where the second is expected. -/
def assignableTo (source target : Ty) : Bool :=
  source.isError || target.isError || source = target || source.widensTo target

/-- The type that two operands are brought to, if one of them converts to the other. -/
def promote (a b : Ty) : Option Ty :=
  if a.isError || b.isError then some error
  else if a = b || b.widensTo a then some a
  else if a.widensTo b then some b
  else none

mutual
/-- The text of a type, with the names that `structName` gives to structs. -/
def render (structName : StructId → Option String) : Ty → String
  | int bits => s!"i{bits}"
  | float bits => s!"f{bits}"
  | bool => "bool"
  | unit => "unit"
  | ptr pointee => "*" ++ render structName pointee
  | function params result varargs =>
    let params := renderList structName params ++ (if varargs then ["..."] else [])
    "fn(" ++ ", ".intercalate params ++ ") -> " ++ render structName result
  | aggregate id => (structName id).getD s!"struct#{id.index}"
  | error => "\x7berror\x7d"

def renderList (structName : StructId → Option String) : List Ty → List String
  | [] => []
  | type :: rest => render structName type :: renderList structName rest
end

def text (type : Ty) : String := type.render fun _ => none

end Ty

structure FieldDef where
  name : String
  type : Ty
  span : FileSpan
deriving DecidableEq, Repr

structure StructDef where
  name : String
  fields : List FieldDef
  span : FileSpan
deriving DecidableEq, Repr

namespace StructDef

def field? (struct : StructDef) (name : String) : Option (Nat × FieldDef) := do
  let index ← struct.fields.findIdx? (·.name = name)
  let field ← struct.fields[index]?
  some (index, field)

end StructDef

end SsaCompiler
