import SsaCompiler.SymbolError

/-!
# Type errors

What can be wrong with the declarations or the bodies of a unit. Types stand in an error as the text
they are shown with.
-/

namespace SsaCompiler

inductive TypeError where
  /-- No visible declaration; near names are suggested. -/
  | unboundName (name : String) (span : FileSpan) (suggestions : List String)
  /-- Declared again; the earlier declaration is at `first`. -/
  | duplicate (name : String) (span first : FileSpan)
  | mismatch (expected found : String) (span : FileSpan)
  | arity (expected found : Nat) (span : FileSpan)
  | returnMismatch (expected found : String) (span : FileSpan)
  | unknownField (type field : String) (span : FileSpan)
  /-- Assigned to or borrowed, but not a place. -/
  | notAPlace (span : FileSpan)
  | outsideLoop (keyword : String) (span : FileSpan)
  | cyclic (name : String) (span : FileSpan)
deriving DecidableEq, Repr

inductive DiagnosticKind where
  | unboundName | duplicateDeclaration | typeMismatch | arityMismatch | returnTypeMismatch
  | unknownField | notAPlace | breakOutsideLoop | cyclicType | incompleteModule
deriving DecidableEq, Repr

namespace DiagnosticKind

def all : List DiagnosticKind :=
  [unboundName, duplicateDeclaration, typeMismatch, arityMismatch, returnTypeMismatch,
    unknownField, notAPlace, breakOutsideLoop, cyclicType, incompleteModule]

def name : DiagnosticKind → String
  | unboundName => "UnboundName"
  | duplicateDeclaration => "DuplicateDeclaration"
  | typeMismatch => "TypeMismatch"
  | arityMismatch => "ArityMismatch"
  | returnTypeMismatch => "ReturnTypeMismatch"
  | unknownField => "UnknownField"
  | notAPlace => "NotAPlace"
  | breakOutsideLoop => "BreakOutsideLoop"
  | cyclicType => "CyclicType"
  | incompleteModule => "IncompleteModule"

def code : DiagnosticKind → String
  | unboundName => "acorn::unbound_name"
  | duplicateDeclaration => "acorn::duplicate_declaration"
  | typeMismatch => "acorn::type_mismatch"
  | arityMismatch => "acorn::arity_mismatch"
  | returnTypeMismatch => "acorn::return_type_mismatch"
  | unknownField => "acorn::unknown_field"
  | notAPlace => "acorn::not_a_place"
  | breakOutsideLoop => "acorn::break_outside_loop"
  | cyclicType => "acorn::cyclic_type"
  | incompleteModule => "acorn::incomplete_module"

def ofName? (text : String) : Option DiagnosticKind := all.find? (·.name = text)

end DiagnosticKind

namespace TypeError

def kind : TypeError → DiagnosticKind
  | unboundName .. => .unboundName
  | duplicate .. => .duplicateDeclaration
  | mismatch .. => .typeMismatch
  | arity .. => .arityMismatch
  | returnMismatch .. => .returnTypeMismatch
  | unknownField .. => .unknownField
  | notAPlace .. => .notAPlace
  | outsideLoop .. => .breakOutsideLoop
  | cyclic .. => .cyclicType

def span : TypeError → FileSpan
  | unboundName _ span _ | duplicate _ span _ | mismatch _ _ span | arity _ _ span
  | returnMismatch _ _ span | unknownField _ _ span | notAPlace span | outsideLoop _ span
  | cyclic _ span => span

def message : TypeError → String
  | unboundName name _ _ => s!"cannot find `{name}` in this scope"
  | duplicate name _ _ => s!"`{name}` is declared more than once"
  | mismatch expected found _ => s!"mismatched types: expected {expected}, found {found}"
  | arity expected found _ =>
    s!"this function takes {expected} arguments but {found} were supplied"
  | returnMismatch expected found _ =>
    s!"function returns {expected} but this path yields {found}"
  | unknownField type field _ => s!"no field `{field}` on type {type}"
  | notAPlace _ => "expression is not a place"
  | outsideLoop keyword _ => s!"`{keyword}` outside of a loop"
  | cyclic name _ => s!"type `{name}` refers to itself"

/-- A hint that does not depend on the program. -/
def help? : TypeError → Option String
  | notAPlace _ =>
    some "only variables, fields of places and dereferences can be assigned or borrowed"
  | _ => none

def ofSymbolError : SymbolError → TypeError
  | .unboundName name span suggestions => unboundName name span suggestions
  | .duplicate name span first => duplicate name span first

end TypeError

end SsaCompiler
