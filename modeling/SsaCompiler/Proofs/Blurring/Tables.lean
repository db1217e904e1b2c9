import SsaCompiler.Proofs.Symbols.Stack
import SsaCompiler.Proofs.Typing.Accepted

/-!
# Declarations with blurred types

A type is blurred if it is replaced by `error`. Declarations may be blurred in the types of globals, of
struct fields, and of the parameters and results of functions (`Declarations.Blurs`); a function then
keeps a function type, with `error` inside it (`Ty.BlursCall`). Names are found in symbol tables over
both declarations alike, and their bindings differ in types only (`SymbolTable.Blurs.resolve`).
-/

namespace SsaCompiler

open SymbolTable List
open SymbolTable (forUnit item? mk visible?)

/-! ## Types -/

namespace Ty

def Blurs (type type' : Ty) : Prop := type' = type ∨ type' = .error

/-- The type of what is called is kept or blurred, or it is that of a function and the types in it
are. -/
inductive BlursCall : Ty → Ty → Prop
  | whole {type type' : Ty} (blurs : type.Blurs type') : BlursCall type type'
  | signature {params params' : List Ty} {result result' : Ty} (varargs : Bool)
      (params_blur : Forall₂ Blurs params params') (result_blurs : result.Blurs result') :
      BlursCall (.function params result varargs) (.function params' result' varargs)

variable {type type' left left' right right' common : Ty}

@[simp] theorem Blurs.refl (type : Ty) : type.Blurs type := .inl rfl

@[simp] theorem Blurs.error : type.Blurs .error := .inr rfl

theorem Blurs.assignableTo (hl : left.Blurs left') (hr : right.Blurs right') (h : left.assignableTo right = true) :
    left'.assignableTo right' = true := by
  rcases hl with rfl | rfl
  · rcases hr with rfl | rfl
    · exact h
    · simp [Ty.assignableTo, isError]
  · simp [Ty.assignableTo, isError]

theorem Blurs.promote (hl : left.Blurs left') (hr : right.Blurs right') (h : Ty.promote left right = some common) :
    ∃ common', Ty.promote left' right' = some common' ∧ common.Blurs common' := by
  rcases hl with rfl | rfl
  · rcases hr with rfl | rfl
    · exact ⟨common, h, .refl _⟩
    · exact ⟨.error, by simp [Ty.promote, isError], .error⟩
  · exact ⟨.error, by simp [Ty.promote, isError], .error⟩

end Ty

variable {b b' : Binding Ty} {types : Ty → Ty → Prop} {tree : ScopeTree}

/-! ## Declarations -/

/-- Bindings that are the same but for related types. -/
structure Binding.Like (types : Ty → Ty → Prop) (b b' : Binding Ty) : Prop where
  same : b' = { b with type := b'.type }
  type : types b.type b'.type

/-- A field is the same, its type kept or blurred. -/
structure FieldDef.Blurs (field field' : FieldDef) : Prop where
  same : field' = { field with type := field'.type }
  type : field.type.Blurs field'.type

/-- A struct is the same, the types of its fields kept or blurred. -/
structure StructDef.Blurs (struct struct' : StructDef) : Prop where
  same : struct' = { struct with fields := struct'.fields }
  fields : Forall₂ FieldDef.Blurs struct.fields struct'.fields

/-- A function is the same, the types of its parameters and its result kept or blurred. -/
structure FunctionItem.Blurs (item item' : FunctionItem) : Prop where
  same : item' = { item with params := item'.params, result := item'.result }
  params : Forall₂ Ty.Blurs item.params item'.params
  result : item.result.Blurs item'.result

/-- Declarations are the same, with some types blurred. -/
structure Declarations.Blurs (decls decls' : Declarations) : Prop where
  units : decls'.index.units = decls.index.units
  items : Forall₂ (Binding.Like Ty.BlursCall) decls.index.items.toList decls'.index.items.toList
  structs : Forall₂ StructDef.Blurs decls.structs.toList decls'.structs.toList
  functions : Forall₂ FunctionItem.Blurs decls.functions.toList decls'.functions.toList
  types : decls'.types = decls.types

theorem Binding.Like.qualified (h : b.Like types b') : b'.qualified = b.qualified := by rw [h.same]

theorem Binding.Like.storage (h : b.Like types b') : b'.storage = b.storage := by rw [h.same]

theorem ModuleIndex.lookup?_like {index index' : ModuleIndex Ty}
    (h : Forall₂ (Binding.Like types) index.items.toList index'.items.toList) (name : String) :
    Option.Rel (Binding.Like types) (index.lookup? name) (index'.lookup? name) := by
  rw [lookup?, lookup?, ← Array.find?_toList, ← Array.find?_toList]
  exact forall₂_find? h fun b b' hb => by rw [hb.qualified]

namespace Declarations.Blurs

variable {decls decls' : Declarations}

theorem struct? (h : decls.Blurs decls') (id : StructId) :
    Option.Rel StructDef.Blurs (decls.struct? id) (decls'.struct? id) := by
  have hrel := forall₂_getElem? h.structs id.index
  rwa [Array.getElem?_toList, Array.getElem?_toList] at hrel

theorem functionAt? (h : decls.Blurs decls') (unit : UnitId) (itemIndex : Nat) :
    Option.Rel FunctionItem.Blurs (decls.functionAt? unit itemIndex) (decls'.functionAt? unit itemIndex) := by
  rw [Declarations.functionAt?, Declarations.functionAt?, ← Array.find?_toList, ← Array.find?_toList]
  exact forall₂_find? h.functions fun f f' hf => by rw [hf.same]

theorem resolveType (h : decls.Blurs decls') {unitName : String} {type : TypeExpr} :
    decls'.resolveType unitName type = (decls.resolveType unitName type : Except Fault _) := by
  unfold Declarations.resolveType Declarations.lookupType? Declarations.unboundType
  rw [h.types]

end Declarations.Blurs

theorem StructDef.Blurs.field? {struct struct' : StructDef} (h : struct.Blurs struct') (name : String) :
    Option.Rel (fun p p' => p'.1 = p.1 ∧ p.2.Blurs p'.2) (struct.field? name) (struct'.field? name) := by
  have hindex : struct'.fields.findIdx? (·.name = name) = struct.fields.findIdx? (·.name = name) :=
    (forall₂_findIdx? h.fields fun f f' hf => by rw [hf.same]).symm
  unfold StructDef.field?
  rw [hindex]
  cases struct.fields.findIdx? (·.name = name) with
  | none => exact .none
  | some index =>
    have hrel := forall₂_getElem? h.fields index
    simp only [Option.bind_eq_bind, Option.bind_some]
    generalize struct.fields[index]? = field, struct'.fields[index]? = field' at hrel ⊢
    cases hrel with
    | none => exact .none
    | some hf => exact .some ⟨rfl, hf⟩

/-! ## Symbol tables -/

/-- A symbol table is the same, with some types blurred. Of names that are `valued`, those that stand
for items have the types of these kept or blurred as a whole. -/
structure SymbolTable.Blurs (valued : String → Prop) (t t' : SymbolTable Ty) : Prop where
  units : t'.index.units = t.index.units
  items : Forall₂ (Binding.Like Ty.BlursCall) t.index.items.toList t'.index.items.toList
  unit : t'.unit = t.unit
  tree : t'.tree = t.tree
  current : t'.current = t.current
  locals : Forall₂ (Binding.Like Ty.Blurs) t.locals.toList t'.locals.toList
  entries : ∀ scope ∈ t.tree.scopes.toList, ∀ {name : String} {entry : ScopeEntry} {i : Nat} {item item' : Binding Ty},
    scope.entries.get? name = some entry → entry.binding = .item i → Name.isQualified name = false → valued name →
    t.index.items[i]? = some item → t'.index.items[i]? = some item' → item.type.Blurs item'.type
  qualified : ∀ {name : String} {item item' : Binding Ty}, Name.isQualified name = true → valued name →
    t.index.lookup? name = some item → t'.index.lookup? name = some item' → item.type.Blurs item'.type

theorem ScopeTree.mem_of_findUp {β : Type} {found : Scope → Option β} {fuel : Nat}
    {id : Option ScopeId} {answer : β} (h : tree.findUp found fuel id = .ok (some answer)) :
    ∃ scope ∈ tree.scopes.toList, found scope = some answer := by
  induction fuel generalizing id with
  | zero => cases id <;> cases h
  | succ fuel ih =>
    cases id with
    | none => cases h
    | some id =>
      obtain ⟨scope, hscope, h⟩ := bind_eq_ok.mp h
      cases hfound : found scope with
      | some a =>
        rw [hfound] at h
        cases h
        refine ⟨scope, ?_, hfound⟩
        unfold ScopeTree.scope at hscope
        split at hscope <;> cases hscope
        exact Array.mem_toList_iff.mpr (Array.mem_of_getElem? (by assumption))
      | none =>
        rw [hfound] at h
        exact ih h

namespace SymbolTable.Blurs

variable {valued : String → Prop} {t t' : SymbolTable Ty}

variable (h : t.Blurs valued t') {span : FileSpan} {name : String}
include h

theorem binding? (id : BindingId) : Option.Rel (Binding.Like Ty.BlursCall) (t.binding? id) (t'.binding? id) := by
  cases id with
  | item i =>
    have hrel := forall₂_getElem? h.items i
    rwa [Array.getElem?_toList, Array.getElem?_toList] at hrel
  | «local» unit i =>
    simp only [SymbolTable.binding?, h.unit]
    split
    · have hrel := forall₂_getElem? h.locals i
      rw [Array.getElem?_toList, Array.getElem?_toList] at hrel
      exact optionRel_imp hrel fun _ _ hb => ⟨hb.same, .whole hb.type⟩
    · exact .none

/-- A name stands for the same binding; one that is valued has its type kept or blurred as a whole. -/
theorem resolve {binding : Binding Ty} (hr : t.resolve name span = (.ok (.ok binding) : Except Fault _)) : ∃ binding',
      t'.resolve name span = (.ok (.ok binding') : Except Fault _) ∧ binding.Like Ty.BlursCall binding' ∧
      (valued name → binding.type.Blurs binding'.type) := by
  unfold SymbolTable.resolve item? visible?
  rcases Check.found_of_resolve hr with ⟨hqual, hfound⟩ | ⟨hqual, entry, hentry, hrecord⟩
  · have hrel := ModuleIndex.lookup?_like h.items name
    rw [hfound] at hrel
    cases hfound' : t'.index.lookup? name with
    | none =>
      rw [hfound'] at hrel
      cases hrel
    | some binding' =>
      rw [hfound'] at hrel
      cases hrel with
      | some hlike =>
        refine ⟨binding', ?_, hlike, fun hv => h.qualified hqual hv hfound hfound'⟩
        simp only [hqual, Names.find?, pure_bind, Option.bind_some, hfound']
        rfl
  · have hrel := h.binding? entry.binding
    rw [hrecord] at hrel
    cases hrecord' : t'.binding? entry.binding with
    | none =>
      rw [hrecord'] at hrel
      cases hrel
    | some binding' =>
      rw [hrecord'] at hrel
      cases hrel with
      | some hlike =>
        refine ⟨binding', ?_, hlike, fun hv => ?_⟩
        · simp only [hqual, Bool.false_eq_true, if_false, Names.find?, pure_bind, bind_eq_ok]
          refine ⟨some binding', ⟨some entry, ?_, congrArg Except.ok hrecord'⟩, rfl⟩
          rw [h.tree, h.current]
          exact hentry
        · cases hid : entry.binding with
          | item i =>
            obtain ⟨scope, hscope, hget⟩ := ScopeTree.mem_of_findUp hentry
            rw [hid] at hrecord hrecord'
            exact h.entries scope hscope hget hid hqual hv hrecord hrecord'
          | «local» unit i =>
            have hlocal := forall₂_getElem? h.locals i
            rw [Array.getElem?_toList, Array.getElem?_toList] at hlocal
            rw [hid, SymbolTable.binding?] at hrecord hrecord'
            rw [h.unit] at hrecord'
            split at hrecord
            · rename_i hunit
              rw [if_pos hunit] at hrecord'
              rw [hrecord, hrecord'] at hlocal
              cases hlocal with
              | some hlocal => exact hlocal.type
            · cases hrecord

theorem enterOwned {kind : ScopeKind} {owner : Option String} :
    (t.enterOwned kind owner).Blurs valued (t'.enterOwned kind owner) where
  units := h.units
  items := h.items
  unit := h.unit
  tree := by simp only [SymbolTable.enterOwned, h.tree, h.current]
  current := by simp only [SymbolTable.enterOwned, h.tree, h.current]
  locals := h.locals
  entries scope hscope name entry i item item' he := by
    simp only [SymbolTable.enterOwned, ScopeTree.addChild, Array.toList_push, mem_append, mem_singleton] at hscope
    rcases hscope with hscope | rfl
    · exact h.entries scope hscope he
    · cases he
  qualified := h.qualified

theorem exit {outer : SymbolTable Ty} (he : t.exit = .ok outer) :
    ∃ outer', t'.exit = .ok outer' ∧ outer.Blurs valued outer' := by
  obtain ⟨scope, hscope, he⟩ := bind_eq_ok.mp he
  split at he <;> cases he
  rename_i parent hparent
  refine ⟨{ t' with current := parent }, bind_eq_ok.mpr ⟨scope, by rw [h.tree, h.current, hscope], ?_⟩,
    { h with current := rfl }⟩
  rw [hparent]
  rfl

theorem declare {type type' : Ty} {storage : Storage}
    {binding : BindingId} {t1 : SymbolTable Ty} (ht : type.Blurs type')
    (hd : t.declare name type storage span = (.ok (.ok binding, t1) : Except Fault _)) : ∃ t1',
      t'.declare name type' storage span = (.ok (.ok binding, t1') : Except Fault _) ∧ t1.Blurs valued t1' := by
  obtain ⟨rfl, tree, unitName, owner, hdefine, hunit, howner, rfl⟩ := declare_eq_ok.mp hd
  have hsize : t'.locals.size = t.locals.size := by
    rw [← Array.length_toList, ← Array.length_toList, h.locals.length_eq]
  have hunit' : t'.index.unitName t'.unit = .ok unitName := by
    rw [← hunit, ModuleIndex.unitName, ModuleIndex.unitName, h.units, h.unit]
  refine ⟨_, declare_eq_ok.mpr ⟨by rw [h.unit, hsize], tree, unitName, owner, ?_, hunit', ?_, rfl⟩, ?_⟩
  · rw [h.tree, h.current, hdefine]
  · rw [h.current, howner]
  · refine { h with tree := rfl, locals := ?_, entries := ?_ }
    · rw [Array.toList_push, Array.toList_push]
      exact rel_append h.locals (.cons ⟨by rw [h.unit], ht⟩ .nil)
    · intro scope hscope other entry i item item' he hi hq hv hitem hitem'
      obtain ⟨before, hbefore, -, rfl⟩ := ScopeTree.define_eq_ok.mp hdefine
      rw [Array.toList_setIfInBounds] at hscope
      rcases mem_or_eq_of_mem_set hscope with hscope | rfl
      · exact h.entries scope hscope he hi hq hv hitem hitem'
      · rw [Table.get?_insert] at he
        split at he
        · cases Option.some.inj he
          cases hi
        · exact h.entries before (Array.mem_toList_iff.mpr (Array.mem_of_getElem? hbefore)) he hi hq hv hitem hitem'

end SymbolTable.Blurs

/-! ## The table of a unit -/

theorem SymbolTable.defineItems_like {items items' : List (Binding Ty)}
    (h : Forall₂ (Binding.Like types) items items') : defineItems items' tree = defineItems items tree := by
  induction h generalizing tree with
  | nil => rfl
  | cons hb _ ih =>
    rw [hb.same, defineItems, defineItems]
    simp only [ih]

theorem SymbolTable.size_defineItems {items : List (Binding Ty)} {tree' : ScopeTree}
    (h : defineItems items tree = .ok tree') : tree'.scopes.size = tree.scopes.size := by
  induction items generalizing tree with
  | nil =>
    cases h
    rfl
  | cons item rest ih =>
    obtain ⟨⟨defined, next⟩, hdefine, h⟩ := bind_eq_ok.mp h
    cases defined with
    | error existing => cases h
    | ok done =>
      obtain ⟨scope, -, -, rfl⟩ := ScopeTree.define_eq_ok.mp hdefine
      simpa using ih h

/-- Each name that is `valued` stands, in the scope of a unit, for something whose type is kept or
blurred as a whole. -/
def Declarations.KeepsValues (decls decls' : Declarations) (unit : UnitId) (valued : String → Prop) : Prop :=
  ∀ ⦃t t' : SymbolTable Ty⦄, forUnit decls.index unit = .ok t →
    forUnit decls'.index unit = .ok t' → ∀ ⦃name : String⦄, valued name →
    ∀ ⦃span : FileSpan⦄ ⦃b b' : Binding Ty⦄, t.resolve name span = (.ok (.ok b) : Except Fault _) →
      t'.resolve name span = (.ok (.ok b') : Except Fault _) → b.type.Blurs b'.type

theorem SymbolTable.forUnit_blurs {decls decls' : Declarations} (h : decls.Blurs decls') {unit : UnitId}
    {valued : String → Prop} (hk : decls.KeepsValues decls' unit valued) {t : SymbolTable Ty}
    (ht : forUnit decls.index unit = .ok t) : ∃ t', forUnit decls'.index unit = .ok t' ∧ t.Blurs valued t' := by
  have hunit := ht
  obtain ⟨tree, htree, ht⟩ := bind_eq_ok.mp ht
  cases ht
  have hitems : Forall₂ (Binding.Like Ty.BlursCall) (decls.index.unitItems unit) (decls'.index.unitItems unit) :=
    forall₂_filter h.items fun b b' hb => by rw [hb.same]
  have ht' : forUnit decls'.index unit = .ok ⟨decls'.index, unit, tree, ScopeTree.root, #[]⟩ :=
    bind_eq_ok.mpr ⟨tree, (defineItems_like hitems).trans htree, rfl⟩
  refine ⟨_, ht', h.units, h.items, rfl, rfl, rfl, .nil, ?_, ?_⟩
  · -- The only scope is that of the unit, so that a name declared in it is found from there.
    intro scope hscope name entry i item item' he hi hq hv hitem hitem'
    have hsize : tree.scopes.size = 1 := size_defineItems htree
    obtain ⟨j, hj, hscope⟩ := Array.mem_iff_getElem.mp (Array.mem_toList_iff.mp hscope)
    have hj : j < tree.scopes.size := hj
    obtain rfl : j = 0 := by omega
    have hroot : tree.scopes[0]? = some scope := Array.getElem?_eq_some_iff.mpr ⟨hj, hscope⟩
    have hlookup : tree.lookup ScopeTree.root name = .ok (some entry) := by
      simp [ScopeTree.lookup, ScopeTree.chainBound, ScopeTree.findUp, ScopeTree.scope, ScopeTree.root, hroot, he,
        bind, Except.bind]
    have hfound : ∀ {index : ModuleIndex Ty} {b : Binding Ty}, index.items[i]? = some b →
        (mk index unit tree ScopeTree.root #[]).resolve name item.span = (.ok (.ok b) : Except Fault _) := by
      intro index b hb
      simp only [resolve, visible?, hq, Bool.false_eq_true, if_false, Names.find?, pure_bind, bind_eq_ok]
      exact ⟨some b, ⟨some entry, hlookup, congrArg Except.ok (by rw [Option.bind_some, hi]; exact hb)⟩, rfl⟩
    exact hk hunit ht' hv (hfound hitem) (hfound hitem')
  · intro name item item' hq hv hitem hitem'
    have hfound : ∀ {index : ModuleIndex Ty} {b : Binding Ty}, index.lookup? name = some b →
        (mk index unit tree ScopeTree.root #[]).resolve name item.span = (.ok (.ok b) : Except Fault _) := by
      intro index b hb
      simp only [resolve, item?, hq, Names.find?, pure_bind, Option.bind_some, hb]
      rfl
    exact hk hunit ht' hv (hfound hitem) (hfound hitem')

end SsaCompiler
