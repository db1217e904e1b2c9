import SsaCompiler.Proofs.Declarations.Types
import SsaCompiler.Proofs.Typing.Rules

/-!
# Well-formed declarations

What bodies may rely on about the items of a module (`Declarations.WellFormed`): every type is a
proper one, the index and the lists of functions and globals name the same items, and a function
stands where its unit declares it. Then a type written in a body is proper
(`WellFormed.resolveType`), and an item is found under its qualified name (`WellFormed.lookup?`).
-/

namespace SsaCompiler

open List

namespace Declarations

variable {structs : Nat}

/-- The declarations of `units` belong together. -/
structure WellFormed (units : List SourceUnit) (decls : Declarations) : Prop where
  unitNames : decls.index.units = (units.map (·.name)).toArray
  types : ∀ {key : String} {type : Ty}, decls.types.get? key = some type → type.Proper decls.structs.size
  fields : ∀ struct ∈ decls.structs.toList, ∀ field ∈ struct.fields,
    field.type.Proper decls.structs.size ∧ field.type ≠ .unit
  ids : ∀ {i : Nat} {item : Binding Ty}, decls.index.items[i]? = some item → item.id = .item i
  qualified : ∀ item ∈ decls.index.items.toList, ∃ unitName,
    decls.index.unitName item.unit = .ok unitName ∧ item.qualified = Name.path [unitName, item.name]
  distinct : (decls.index.items.toList.map (·.qualified)).Nodup
  kinds : ∀ item ∈ decls.index.items.toList,
    (item.storage = .global ∧ ∃ g ∈ decls.globals.toList, g.binding = item.id ∧ g.type = item.type) ∨
    (item.storage = .function ∧ ∃ f ∈ decls.functions.toList, f.binding = item.id ∧ f.type = item.type)
  globals : ∀ g ∈ decls.globals.toList, g.type.Proper decls.structs.size ∧ g.type ≠ .unit ∧
    ∃ item, decls.index.item? g.binding = some item ∧ item.storage = .global
  functions : ∀ f ∈ decls.functions.toList, f.type.Proper decls.structs.size ∧ .unit ∉ f.params ∧
    ∃ item, decls.index.item? f.binding = some item ∧ item.storage = .function
  declared : ∀ f ∈ decls.functions.toList, ∃ source decl, units[f.unit.index]? = some source ∧
    source.items[f.itemIndex]? = some (.function decl) ∧ f.params.length = decl.params.length ∧
    f.isExternal = decl.isExternal
  bindings : (decls.functions.toList.map (·.binding)).Nodup
  globalBindings : (decls.globals.toList.map (·.binding)).Nodup
  positions : (decls.functions.toList.map fun f => (f.unit, f.itemIndex)).Nodup

end Declarations

/-! ## Types written in bodies -/

theorem Ty.proper_builtin? {name : String} {type : Ty} (h : Ty.builtin? name = some type) : type.Proper structs := by
  unfold Ty.builtin? at h
  split at h <;> cases h <;> simp [Ty.Proper]

theorem Ty.proper_closed : Ty.Closed (Ty.Proper structs) where
  unit := trivial
  ptr hp := hp
  function hp hr := ⟨Ty.allProper_iff.mpr hp, hr⟩

namespace Declarations.WellFormed

variable {units : List SourceUnit} {decls : Declarations} {item : Binding Ty}

section

variable (h : decls.WellFormed units) {type : Ty}
include h

theorem resolveType {unitName : String} {expr : TypeExpr}
    (hr : decls.resolveType unitName expr = (.ok (.ok type) : Except Fault _)) : type.Proper decls.structs.size :=
  TypeExpr.type?_closed Ty.proper_closed (fun _ _ h => Ty.proper_builtin? h) (fun _ _ => h.types) (resolveType_eq_ok.mp hr)

theorem struct? {id : StructId} {struct : StructDef} (hs : decls.struct? id = some struct) {i : Nat} {field : FieldDef}
    (hf : struct.fields[i]? = some field) : field.type.Proper decls.structs.size ∧ field.type ≠ .unit :=
  h.fields struct (Array.mem_toList_iff.mpr (Array.mem_of_getElem? hs)) field (mem_of_getElem? hf)

/-! ## Items -/

theorem lookup? (hi : item ∈ decls.index.items.toList) : decls.index.lookup? item.qualified = some item := by
  unfold ModuleIndex.lookup?
  rw [← Array.find?_toList]
  have hd := h.distinct
  revert hi hd
  induction decls.index.items.toList with
  | nil => simp
  | cons first rest ih =>
    intro hi hd
    rw [map_cons, nodup_cons] at hd
    rcases mem_cons.mp hi with rfl | hi
    · simp
    · have hne : ¬ first.qualified = item.qualified := fun he => hd.1 (he ▸ mem_map_of_mem hi)
      rw [find?_cons_of_neg (by simpa using hne)]
      exact ih hi hd.2

theorem item?_id (hi : item ∈ decls.index.items.toList) : decls.index.item? item.id = some item := by
  obtain ⟨i, hi⟩ := mem_iff_getElem?.mp hi
  rw [Array.getElem?_toList] at hi
  rw [h.ids hi]
  exact hi

end

theorem mem_of_lookup? {name : String} (hl : decls.index.lookup? name = some item) : item ∈ decls.index.items.toList :=
  Array.mem_toList_iff.mpr (Array.mem_of_find?_eq_some hl)

theorem proper_item (h : decls.WellFormed units)
    (hi : item ∈ decls.index.items.toList) : item.type.Proper decls.structs.size := by
  rcases h.kinds item hi with ⟨-, g, hg, -, ht⟩ | ⟨-, f, hf, -, ht⟩
  · exact ht ▸ (h.globals g hg).1
  · exact ht ▸ (h.functions f hf).1

end Declarations.WellFormed

end SsaCompiler
