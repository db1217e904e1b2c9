import SsaCompiler.Declarations.Containment
import SsaCompiler.LiteralType

/-!
# Collecting declarations

The items of all units are entered in this order: the names of structs and aliases, the aliases,
the fields of structs, and last the globals and functions. Errors are kept with their unit; an item
declared twice keeps its first declaration.
-/

namespace SsaCompiler

namespace Collect

structure DeclaredStruct where
  unit : UnitRef
  id : StructId
  decl : StructDecl

variable {κ : Type} {m n : Type → Type} [Monad m] [Names κ m] [DecidableEq κ]

def declareTypeNames (unit : UnitRef) : List Item → CollectWith κ m (List DeclaredStruct)
  | [] => return []
  | .struct decl :: rest => do
    match ← declareStruct unit decl with
    | some id =>
      let others ← declareTypeNames unit rest
      return ⟨unit, id, decl⟩ :: others
    | none => declareTypeNames unit rest
  | .typeAlias decl :: rest => do
    declareAlias unit decl
    declareTypeNames unit rest
  | _ :: rest => declareTypeNames unit rest

def checkInitializer (unit : UnitRef) (decl : GlobalDecl) (type : Ty) : CollectWith κ m Unit := do
  match decl.init with
  | none => return ()
  | some init =>
    match init.type decl.span with
    | .error error => report unit.id error
    | .ok found =>
      if found.assignableTo type then return ()
      else
        let decls := (← get).decls
        report unit.id (.mismatch (decls.describe type) (decls.describe found) decl.span)

def declareTypes (units : List (UnitRef × SourceUnit)) : CollectWith κ m Unit := do
  let structs ← units.mapM fun (unit, source) => declareTypeNames unit source.items
  let structs := structs.flatten
  let aliases := (← get).aliases.keys
  for key in aliases do
    let _ ← expand key
  for struct in structs do
    fillStruct struct.unit struct.id struct.decl
  checkContainments (structs.map fun struct => (struct.unit, struct.id)) []

/-- Steps that cannot fail among steps that can. -/
class Faultless (n : Type → Type) (m : outParam (Type → Type)) where
  run {α : Type} : m α → n α

instance : Faultless (Except Fault) Id := ⟨.ok⟩

variable [Monad n] [MonadLiftT (Except Fault) n] [Names κ n] [Faultless n m]

/-- Enters an item into the index; an item of that name before it is an error. -/
def declareItem (unit : UnitRef) (name : String) (type : Ty) (storage : Storage)
    (span : FileSpan) : CollectWith κ n (Option BindingId) := do
  let c ← get
  let (declared, index) ← c.decls.index.declareItem (m := n) unit.id name type storage span
  match declared with
  | .ok id =>
    set { c with decls := { c.decls with index := index } }
    return some id
  | .error error =>
    let errors := c.decls.errors.push (unit.id, .ofSymbolError error)
    set { c with decls := { c.decls with index := index, errors := errors } }
    return none

def lift {α : Type} (step : CollectWith κ m α) : CollectWith κ n α :=
  fun c => Faultless.run (step c)

def declareGlobal (unit : UnitRef) (decl : GlobalDecl) : CollectWith κ n Unit := do
  let type ← lift (lowerValueType unit decl.type)
  lift (checkInitializer unit decl type)
  match ← declareItem unit decl.name type .global decl.span with
  | none => return ()
  | some binding =>
    let item : GlobalItem :=
      { binding, unit := unit.id, name := Declarations.qualify unit.name decl.name, type,
        init := decl.init, span := decl.span }
    lift (modifyDecls fun decls => { decls with globals := decls.globals.push item })

def declareFunction (unit : UnitRef) (itemIndex : Nat) (decl : FunctionDecl) :
    CollectWith κ n Unit := do
  let params ← lift (decl.params.mapM fun param => lowerValueType unit param.type)
  let result ← lift (lowerResult unit decl.result)
  let varargs := decl.isVarargs
  match ← declareItem unit decl.name (.function params result varargs) .function decl.span with
  | none => return ()
  | some binding =>
    let item : FunctionItem :=
      { binding, unit := unit.id, itemIndex, name := Declarations.qualify unit.name decl.name,
        params, result, varargs, linkName := decl.linkName?, isExternal := decl.isExternal,
        span := decl.span }
    lift (modifyDecls fun decls => { decls with functions := decls.functions.push item })

def declareValues (unit : UnitRef) : List (Item × Nat) → CollectWith κ n Unit
  | [] => return ()
  | (.global decl, _) :: rest => do
    declareGlobal unit decl
    declareValues unit rest
  | (.function decl, itemIndex) :: rest => do
    declareFunction unit itemIndex decl
    declareValues unit rest
  | _ :: rest => declareValues unit rest

def run (units : List (UnitRef × SourceUnit)) : CollectWith κ n Unit := do
  lift (declareTypes units)
  for (unit, source) in units do
    declareValues unit source.items.zipIdx

end Collect

namespace Declarations

/-- The declarations of `units`, with names kept as keys; the first is unit zero. -/
def collectWith {κ : Type} {m n : Type → Type} [Monad m] [Monad n] [MonadLiftT (Except Fault) n]
    [Names κ m] [Names κ n] [DecidableEq κ] [Collect.Faultless n m] (units : List SourceUnit) :
    n (Declarations κ) := do
  let keys ← units.mapM fun unit => Names.intern unit.name
  let refs := units.zipIdx.map fun (unit, position) => ((⟨⟨position⟩, unit.name⟩ : UnitRef), unit)
  let index : ModuleIndex Ty κ := { ModuleIndex.empty with units := keys.toArray }
  let start : Collector κ := ⟨{ empty with index := index }, .empty, []⟩
  let ((), collected) ← (Collect.run refs).run start
  return collected.decls

def collect (units : List SourceUnit) : Except Fault Declarations := collectWith units

theorem collect_eq {units : List SourceUnit} : collect units = do
    let refs := units.zipIdx.map fun (unit, position) => ((⟨⟨position⟩, unit.name⟩ : UnitRef), unit)
    let index : ModuleIndex Ty := { ModuleIndex.empty with units := (units.map (·.name)).toArray }
    let ((), collected) ← (Collect.run refs).run ⟨{ empty with index := index }, .empty, []⟩
    return collected.decls := by
  have h : units.mapM (fun unit => (pure unit.name : Except Fault String)) = pure (units.map (·.name)) :=
    List.mapM_pure
  simp only [collect, collectWith, Names.intern, h, pure_bind]

end Declarations

end SsaCompiler
