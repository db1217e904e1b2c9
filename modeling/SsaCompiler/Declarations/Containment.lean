import SsaCompiler.Declarations.TypeNames

/-!
# Structs inside structs

A struct whose fields hold it by value, directly or through other structs, would have no end. Such a
cycle is reported once, at the struct of the cycle that is declared first.
-/

namespace SsaCompiler

namespace Declarations

variable {κ : Type}

/-- The structs that the fields of a struct hold by value. -/
def heldBy (decls : Declarations κ) (id : StructId) : List StructId :=
  match decls.struct? id with
  | none => []
  | some struct => struct.fields.filterMap fun field =>
    match field.type with
    | .aggregate inner => some inner
    | _ => none

/-- Adds what the structs of a list hold, `rounds` times. -/
def closeHeld (decls : Declarations κ) : Nat → List StructId → List StructId
  | 0, reached => reached
  | rounds + 1, reached =>
    let next := (reached.flatMap decls.heldBy).filter fun id => !reached.contains id
    decls.closeHeld rounds (reached ++ next.eraseDups)

/-- The structs held by a struct, directly or through others. A chain of different structs is no
longer than their number. -/
def reachable (decls : Declarations κ) (id : StructId) : List StructId :=
  decls.closeHeld decls.structs.size (decls.heldBy id).eraseDups

end Declarations

namespace Collect

variable {κ : Type} {m : Type → Type} [Monad m]

/-- Reports a struct that holds itself; gives the structs of its cycle. -/
def checkContainment (unit : UnitRef) (id : StructId) : CollectWith κ m (List StructId) := do
  let decls := (← get).decls
  let reached := decls.reachable id
  if reached.contains id then
    match decls.struct? id with
    | some struct => report unit.id (.cyclic struct.name struct.span)
    | none => return []
    return reached.filter fun member => (decls.reachable member).contains id
  else return []

/-- Checks structs in order, passing over those of cycles already reported. -/
def checkContainments : List (UnitRef × StructId) → List StructId → CollectWith κ m Unit
  | [], _ => return ()
  | (unit, id) :: rest, reported => do
    if reported.contains id then checkContainments rest reported
    else
      let members ← checkContainment unit id
      checkContainments rest (reported ++ members)

end Collect

end SsaCompiler
