import SsaCompiler.Lowering.Lower
import SsaCompiler.Proofs.Declarations.WellFormed
import SsaCompiler.Proofs.Ir.Typing

/-!
# Items in the module

What lowering may rely on about the module that it adds bodies to (`ItemMap.Realizes`): each struct
has its layout, each function and each global is declared with its type. Proper types then have a
counterpart in the module (`ItemMap.Realizes.lowerType`), which is `void` only for `unit`.

A `Setting` is all that stays fixed while a body is lowered.
-/

namespace SsaCompiler

namespace ItemMap

/-- The declared items stand in a module where a map of items says. -/
structure Realizes (decls : Declarations) (mod : IrModule) (items : ItemMap) : Prop where
  structs : ∀ {id : StructId} {struct : StructDef}, decls.struct? id = some struct → ∃ layout fields,
    items.layout id = .ok layout ∧ mod.fields? layout = some fields ∧
      List.Forall₂ (fun field type => items.lowerType field.type = .ok type) struct.fields fields
  functions : ∀ f ∈ decls.functions.toList, ∃ id function, items.functions.get? f.binding = some id ∧
    mod.functions[id.index]? = some function ∧
    items.lowerSig f.params f.result f.varargs = .ok function.sig
  globals : ∀ g ∈ decls.globals.toList, ∃ id global, items.globals.get? g.binding = some id ∧
    mod.globals[id.index]? = some global ∧ items.lowerType g.type = .ok global.type
  onlyFunctions : ∀ {binding : BindingId} {id : FuncId}, items.functions.get? binding = some id →
    ∃ f ∈ decls.functions.toList, f.binding = binding
  onlyGlobals : ∀ {binding : BindingId} {id : GlobalId}, items.globals.get? binding = some id →
    ∃ g ∈ decls.globals.toList, g.binding = binding

variable {decls : Declarations} {mod : IrModule} {items : ItemMap}

theorem eq_unit_of_lowerType {type : Ty} (h : items.lowerType type = .ok .void) : type = .unit := by
  cases type with
  | unit => rfl
  | aggregate id => simp only [lowerType, bind_eq_ok, pure_eq_ok, reduceCtorEq, and_false, exists_false] at h
  | _ => simp [lowerType] at h

namespace Realizes

theorem lowerType (h : items.Realizes decls mod) {type : Ty} (hp : type.Proper decls.structs.size) :
    ∃ lowered, items.lowerType type = .ok lowered := by
  cases type with
  | aggregate id =>
    have hs : decls.struct? id = some decls.structs[id.index] := Array.getElem?_eq_getElem hp
    obtain ⟨layout, fields, hl, -⟩ := h.structs hs
    exact ⟨.struct layout, by rw [ItemMap.lowerType, hl]; rfl⟩
  | error => exact absurd hp id
  | _ => exact ⟨_, rfl⟩

theorem lowerTypes (h : items.Realizes decls mod) {types : List Ty} (hp : Ty.AllProper decls.structs.size types) :
    ∃ lowered, types.mapM items.lowerType = .ok lowered := by
  induction types with
  | nil => exact ⟨[], rfl⟩
  | cons type rest ih =>
    obtain ⟨lowered, hl⟩ := h.lowerType hp.1
    obtain ⟨others, ho⟩ := ih hp.2
    exact ⟨lowered :: others, mapM_of_forall₂ (.cons hl (mapM_eq_ok ho))⟩

theorem lowerSig (h : items.Realizes decls mod) {params : List Ty} {result : Ty} {varargs : Bool}
    (hp : (Ty.function params result varargs).Proper decls.structs.size) : ∃ types type,
      params.mapM items.lowerType = .ok types ∧ items.lowerType result = .ok type ∧
      items.lowerSig params result varargs = .ok ⟨types, type, varargs⟩ := by
  obtain ⟨types, ht⟩ := h.lowerTypes hp.1
  obtain ⟨type, hr⟩ := h.lowerType hp.2
  exact ⟨types, type, ht, hr, by rw [ItemMap.lowerSig, ht, hr]; rfl⟩

end Realizes

end ItemMap

/-- What stays fixed while a body is lowered. -/
structure Setting where
  decls : Declarations
  unitName : String
  function : CheckedFunction
  items : ItemMap
  mod : IrModule
  sig : FunctionSig
  /-- Whether a call may pass an argument that has no value. -/
  passesUnit : Prop

namespace Setting

def typing (X : Setting) : TypingContext := ⟨X.decls, X.unitName, X.function⟩

def lowering (X : Setting) : LowerContext := ⟨X.items, X.function⟩

/-- The parts of a setting belong together. -/
structure Fits (units : List SourceUnit) (X : Setting) : Prop where
  wellFormed : X.decls.WellFormed units
  realized : X.items.Realizes X.decls X.mod
  properResult : X.function.result.Proper X.decls.structs.size
  result : X.items.lowerType X.function.result = .ok X.sig.result

end Setting

end SsaCompiler
