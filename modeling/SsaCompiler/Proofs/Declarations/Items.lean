import SsaCompiler.Proofs.Declarations.Collected
import SsaCompiler.Proofs.Declarations.WellFormed

/-!
# Collected declarations are in order

Whatever errors a collection has, its types speak of structs that were declared
(`Declarations.collect_bounded`) and its errors belong to its units (`Declarations.collect_errors`). If it
has none, the declarations are well formed and the functions are those of the units, in the order in which
they are written (`Declarations.collect_ok`).
-/

namespace SsaCompiler

open List WrittenFunction

/-- An item is that of a function that is written in a unit. -/
structure FunctionItem.Declares (item : FunctionItem) (written : WrittenFunction) : Prop where
  unit : item.unit = written.unit.id
  itemIndex : item.itemIndex = written.itemIndex
  name : item.name = Declarations.qualify written.unit.name written.decl.name
  arity : item.params.length = written.decl.params.length
  varargs : item.varargs = written.decl.isVarargs
  linkName : item.linkName = written.decl.linkName?
  isExternal : item.isExternal = written.decl.isExternal
  span : item.span = written.decl.span

/-- The functions among the items of a unit, in order. -/
def UnitRef.written (unit : UnitRef) (items : List (Item × Nat)) : List WrittenFunction :=
  items.filterMap fun
    | (.function decl, index) => some ⟨unit, index, decl⟩
    | _ => none

def writtenFunctions (units : List (UnitRef × SourceUnit)) : List WrittenFunction :=
  units.flatMap fun (unit, source) => unit.written source.items.zipIdx

theorem UnitRef.flatMap_written (unit : UnitRef) (items : List (Item × Nat)) :
    (items.flatMap fun item => unit.written [item]) = unit.written items := by
  induction items with
  | nil => rfl
  | cons item rest ih =>
    obtain ⟨item, index⟩ := item
    rw [flatMap_cons, ih]
    cases item <;> rfl

variable {w : WrittenFunction} {units : List SourceUnit}

theorem UnitRef.mem_written {unit : UnitRef} {items : List (Item × Nat)} :
    w ∈ unit.written items ↔ w.unit = unit ∧ (.function w.decl, w.itemIndex) ∈ items := by
  unfold UnitRef.written
  rw [mem_filterMap]
  constructor
  · rintro ⟨⟨item, index'⟩, hm, he⟩
    cases item <;> cases he
    exact ⟨rfl, hm⟩
  · rintro ⟨rfl, hm⟩
    exact ⟨_, hm, rfl⟩

theorem mem_writtenFunctions : w ∈ writtenFunctions (unitRefs units) ↔ ∃ source, units[w.unit.id.index]? = some source ∧
      w.unit.name = source.name ∧ source.items[w.itemIndex]? = some (.function w.decl) := by
  simp only [writtenFunctions, mem_flatMap, Prod.exists, UnitRef.mem_written, mem_unitRefs,
    mk_mem_zipIdx_iff_getElem?]
  constructor
  · rintro ⟨unit, source, ⟨hs, hn⟩, rfl, hi⟩
    exact ⟨source, hs, hn, hi⟩
  · rintro ⟨source, hs, hn, hi⟩
    exact ⟨w.unit, source, ⟨hs, hn⟩, rfl, hi⟩

theorem UnitRef.written_sublist (unit : UnitRef) (items : List (Item × Nat)) :
    ((unit.written items).map (·.itemIndex)).Sublist (items.map (·.2)) := by
  induction items with
  | nil => exact List.Sublist.slnil
  | cons item rest ih =>
    obtain ⟨item, index⟩ := item
    cases item with
    | function decl => exact ih.cons_cons index
    | global | struct | typeAlias => exact ih.cons index

theorem nodup_writtenFunctions : ((writtenFunctions (unitRefs units)).map fun w => (w.unit.id, w.itemIndex)).Nodup := by
  unfold writtenFunctions
  rw [map_flatMap, nodup_flatMap]
  constructor
  · rintro ⟨unit, source⟩ -
    have hindex : ((unit.written source.items.zipIdx).map (·.itemIndex)).Nodup := by
      refine (unit.written_sublist _).nodup ?_
      rw [zipIdx_map_snd]
      exact nodup_range'
    refine Nodup.of_map Prod.snd ?_
    rw [map_map]
    exact hindex
  · have hids : ((unitRefs units).map (·.1.id)).Nodup := by
      have he : (unitRefs units).map (·.1.id) = (units.zipIdx.map (·.2)).map UnitId.mk := by
        rw [unitRefs, map_map, map_map]
        rfl
      rw [he, zipIdx_map_snd]
      exact Nodup.map (fun a b hab => congrArg UnitId.index hab) nodup_range'
    refine (pairwise_map.mp hids).imp fun {a b} hne => ?_
    intro x hx hx'
    obtain ⟨w, hw, rfl⟩ := mem_map.mp hx
    obtain ⟨w', hw', he⟩ := mem_map.mp hx'
    have hu := (UnitRef.mem_written.mp hw).1
    have hu' := (UnitRef.mem_written.mp hw').1
    have he : w'.unit.id = w.unit.id := congrArg Prod.fst he
    rw [hu, hu'] at he
    exact hne he.symm

/-! ## Functions in order -/

namespace Values

variable {types : String → Option Ty} {values : Values} {names : Array String} {good value : Ty → Prop}
variable {written : List (UnitRef × Item × Nat)}
variable {entries : List (BindingId × Ty)} {item : Binding Ty} {storage : Storage} {structs : Nat}

/-- Functions that are all entered without an error are those that are written, in order. -/
theorem functions_of_allDeclared (h : values.AllDeclared types written) :
    ∃ functions, (values.enterAll types written).functions.toList = values.functions.toList ++ functions ∧
      Forall₂ (fun f w => ∃ binding, f = w.item types binding) functions
        (written.flatMap fun item => item.1.written [item.2]) := by
  induction written generalizing values with
  | nil => exact ⟨[], by simp [enterAll], .nil⟩
  | cons item rest ih =>
    obtain ⟨unit, item, index⟩ := item
    obtain ⟨hitem, hrest⟩ := h
    obtain ⟨functions, heq, hall⟩ := ih hrest
    cases item with
    | function decl =>
      refine ⟨item types ⟨unit, index, decl⟩ (.item values.items.size) :: functions, heq.trans ?_,
        .cons ⟨_, rfl⟩ hall⟩
      have hfree : ¬ values.Taken unit decl.name := hitem.2
      simp [Values.enter, hfree]
    | global decl =>
      refine ⟨functions, heq.trans ?_, hall⟩
      have hfree : ¬ values.Taken unit decl.name := hitem.2
      simp [Values.enter, hfree]
    | struct | typeAlias => exact ⟨functions, heq, hall⟩

theorem Ok.enterAll (h : Ok names good value values)
    (hunits : ∀ item ∈ written, names[item.1.id.index]? = some item.1.name)
    (ht : ∀ item ∈ written, Typed types good value item.1 item.2) : Ok names good value (values.enterAll types written) := by
  induction written generalizing values with
  | nil => exact h
  | cons item rest ih =>
    rw [forall_mem_cons] at hunits ht
    exact ih (h.enter hunits.1 ht.1) hunits.2 ht.2

theorem proper_valueType? (htypes : ∀ key type, types key = some type → type.Proper structs)
    {unitName : String} {expr : TypeExpr} (hsome : (expr.valueType? unitName types).isSome = true) :
    ((expr.valueType? unitName types).getD .error).Proper structs ∧ (expr.valueType? unitName types).getD .error ≠ .unit := by
  obtain ⟨type, ht⟩ := Option.isSome_iff_exists.mp hsome
  obtain ⟨hfound, hunit⟩ := Option.filter_eq_some_iff.mp ht
  rw [ht]
  refine ⟨TypeExpr.type?_closed Ty.proper_closed (fun _ _ h => Ty.proper_builtin? h) htypes hfound, ?_⟩
  rintro rfl
  cases hunit

theorem typed_of_allDeclared (h : values.AllDeclared types written)
    (htypes : ∀ key type, types key = some type → type.Proper structs) :
    ∀ item ∈ written, Typed types (·.Proper structs) (· ≠ .unit) item.1 item.2 := by
  induction written generalizing values with
  | nil => simp
  | cons item rest ih =>
    obtain ⟨unit, item, index⟩ := item
    refine forall_mem_cons.mpr ⟨?_, ih h.2⟩
    cases item with
    | global decl => exact proper_valueType? htypes h.1.1
    | function decl =>
      have hparams : ∀ param ∈ params types ⟨unit, index, decl⟩, param.Proper structs ∧ param ≠ .unit := by
        intro type ht
        obtain ⟨param, hp, rfl⟩ := mem_map.mp ht
        exact proper_valueType? htypes (h.1.1.1 param hp)
      refine ⟨⟨Ty.allProper_iff.mpr fun type ht => (hparams type ht).1, ?_⟩, fun type ht => (hparams type ht).2⟩
      show (result types ⟨unit, index, decl⟩).Proper structs
      have hresult := h.1.1.2
      unfold result
      cases hr : decl.result with
      | none => trivial
      | some type =>
        obtain ⟨found, hfound⟩ := Option.isSome_iff_exists.mp (hresult type hr)
        simp only [Option.map_some, hfound]
        exact TypeExpr.type?_closed Ty.proper_closed (fun _ _ h => Ty.proper_builtin? h) htypes hfound
    | struct | typeAlias => trivial

section

variable (htypes : ∀ key type, types key = some type → type.Over structs)
include htypes

theorem over_type? (unitName : String) (expr : TypeExpr) : ((expr.type? unitName types).getD .error).Over structs := by
  cases h : expr.type? unitName types with
  | none => trivial
  | some type => exact TypeExpr.type?_closed Ty.over_closed (fun _ _ h => Ty.over_builtin? h) htypes h

theorem over_valueType?
    {unitName : String} {expr : TypeExpr} : ((expr.valueType? unitName types).getD .error).Over structs := by
  cases h : expr.valueType? unitName types with
  | none => trivial
  | some type =>
    have hover := over_type? htypes unitName expr
    rwa [(Option.filter_eq_some_iff.mp h).1] at hover

theorem typed_over {unit : UnitRef} {item : Item × Nat} : Typed types (·.Over structs) (fun _ => True) unit item := by
  obtain ⟨item, index⟩ := item
  cases item with
  | global decl => exact ⟨over_valueType? htypes, trivial⟩
  | function decl =>
    refine ⟨⟨Ty.allOver_iff.mpr fun type ht => ?_, ?_⟩, fun _ _ => trivial⟩
    · obtain ⟨param, -, rfl⟩ := mem_map.mp ht
      exact over_valueType? htypes
    · show (result types ⟨unit, index, decl⟩).Over structs
      unfold result
      cases decl.result with
      | none => trivial
      | some type => exact over_type? htypes _ _
  | struct | typeAlias => trivial

end

/-! ## Items and what they stand for -/

variable (h : Ok names good value values)
include h

theorem Ok.item?_id (hi : item ∈ values.items.toList) : (values.index names).item? item.id = some item := by
  obtain ⟨i, hi⟩ := mem_iff_getElem?.mp hi
  rw [Array.getElem?_toList] at hi
  rw [h.sound.ids hi]
  exact hi

theorem Ok.item_of_mem
    (heq : entries = (values.items.toList.filter (·.storage = storage)).map fun item => (item.id, item.type))
    {entry : BindingId × Ty} (he : entry ∈ entries) :
    ∃ item, (values.index names).item? entry.1 = some item ∧ item.storage = storage := by
  rw [heq] at he
  obtain ⟨item, hi, rfl⟩ := mem_map.mp he
  obtain ⟨hi, hs⟩ := mem_filter.mp hi
  exact ⟨item, h.item?_id hi, of_decide_eq_true hs⟩

theorem Ok.nodup_ids
    (heq : entries = (values.items.toList.filter (·.storage = storage)).map fun item => (item.id, item.type)) :
    (entries.map (·.1)).Nodup := by
  have hids : (values.items.toList.map (·.id)).Nodup := by
    rw [nodup_iff_injective_get]
    intro a b hab
    simp only [get_eq_getElem, getElem_map, Array.getElem_toList] at hab
    have hid : ∀ {i : Nat} (hi : i < values.items.size), values.items[i].id = .item i :=
      fun hi => h.sound.ids (Array.getElem?_eq_some_iff.mpr ⟨hi, rfl⟩)
    rw [hid, hid] at hab
    exact Fin.ext (BindingId.item.inj hab)
  rw [heq, map_map]
  exact hids.sublist (filter_sublist.map _)

theorem Ok.mem_of_item (hi : item ∈ values.items.toList) :
    (item.storage = .global ∧ ∃ g ∈ values.globals.toList, g.binding = item.id ∧ g.type = item.type) ∨
    (item.storage = .function ∧ ∃ f ∈ values.functions.toList, f.binding = item.id ∧ f.type = item.type) := by
  have hmem : ∀ storage, item.storage = storage → (item.id, item.type) ∈
      (values.items.toList.filter (·.storage = storage)).map fun item => (item.id, item.type) :=
    fun storage hs => mem_map_of_mem (mem_filter.mpr ⟨hi, by simpa using hs⟩)
  rcases h.storages item hi with hs | hs
  · have hg := hmem _ hs
    rw [← h.globals] at hg
    obtain ⟨g, hg, he⟩ := mem_map.mp hg
    exact .inl ⟨hs, g, hg, congrArg Prod.fst he, congrArg Prod.snd he⟩
  · have hf := hmem _ hs
    rw [← h.functions] at hf
    obtain ⟨f, hf, he⟩ := mem_map.mp hf
    exact .inr ⟨hs, f, hf, congrArg Prod.fst he, congrArg Prod.snd he⟩

end Values

/-! ## Collected declarations -/

namespace Declarations

open Collect (DeclaredStruct)

variable {units : List SourceUnit} {base : Collector} {structs : List DeclaredStruct} {decls : Declarations}
variable {key : String} {type : Ty}

theorem mem_writtenItems {item : UnitRef × Item × Nat} (h : item ∈ writtenItems (unitRefs units)) :
    ∃ source, (item.1, source) ∈ unitRefs units ∧ item.2 ∈ source.items.zipIdx := by
  obtain ⟨⟨unit, source⟩, hu, hi⟩ := mem_flatMap.mp h
  obtain ⟨found, hf, rfl⟩ := mem_map.mp hi
  exact ⟨source, hu, hf⟩

theorem written_eq : ((writtenItems (unitRefs units)).flatMap fun item => item.1.written [item.2]) =
    writtenFunctions (unitRefs units) := by
  unfold writtenItems writtenFunctions
  rw [flatMap_assoc]
  refine flatMap_congr fun unit _ => ?_
  rw [flatMap_map]
  exact unit.1.flatMap_written _

theorem Collected.ok (h : Collected units base structs decls) {good value : Ty → Prop}
    (ht : ∀ item ∈ writtenItems (unitRefs units), Values.Typed decls.types.get? good value item.1 item.2) :
    Values.Ok (units.map (·.name)).toArray good value ⟨decls.index.items, decls.functions, decls.globals⟩ := by
  rw [h.functions, h.globals, h.index]
  refine Values.Ok.empty.enterAll (fun item hi => ?_) ht
  obtain ⟨source, hu, -⟩ := mem_writtenItems hi
  exact unitName_start hu

theorem Collected.size (h : Collected units base structs decls) : decls.structs.size = structs.length := by
  rw [← Array.length_toList, h.filled, length_map]

theorem Collected.bounded (h : Collected units base structs decls) :
    decls.Bounded (units.map (·.name)).toArray decls.structs.size := by
  have hover := h.typesOver
  rw [← h.size] at hover
  have hok := h.ok fun item _ => Values.typed_over hover
  have hindex : decls.index =
      Values.index (units.map (·.name)).toArray ⟨decls.index.items, decls.functions, decls.globals⟩ := by
    rw [h.index]
    rfl
  refine ⟨by rw [h.index]; rfl, rfl, hindex ▸ hok.sound, hover _ _, fun struct hs field hf => ?_, fun item hi => ?_,
    fun f hf => (hok.functionTypes f hf).1⟩
  · rw [h.filled] at hs
    obtain ⟨declared, -, rfl⟩ := mem_map.mp hs
    obtain ⟨decl, -, rfl⟩ := Collect.DeclaredStruct.mem_filled hf
    exact Values.over_valueType? hover
  · rcases hok.mem_of_item hi with ⟨-, g, hg, -, ht⟩ | ⟨-, f, hf, -, ht⟩
    · exact ht ▸ (hok.globalTypes g hg).1
    · exact ht ▸ (hok.functionTypes f hf).1

/-- Units of any kind have declarations. -/
theorem collect_bounded : ∃ decls, collect units = .ok decls ∧
    decls.Bounded (units.map (·.name)).toArray decls.structs.size := by
  obtain ⟨base, structs, decls, hcollect, h⟩ := exists_collected units
  exact ⟨decls, hcollect, h.bounded⟩

theorem collected (h : collect units = .ok decls) : ∃ base structs, Collected units base structs decls := by
  obtain ⟨base, structs, found, hcollect, hfound⟩ := exists_collected units
  cases h.symm.trans hcollect
  exact ⟨base, structs, hfound⟩

theorem Collected.types_of_denotes (h : Collected units base structs decls)
    (hd : base.Denotes key type) : decls.types.get? key = some type := by
  have hsome : (decls.types.get? key).isSome = true := by
    obtain ⟨depth, hd⟩ := hd
    rcases Option.or_eq_some_iff.mp (Collector.opened_succ hd) with hd | ⟨-, hd⟩
    · rw [h.before key type hd]
      rfl
    · obtain ⟨found, hfound, -⟩ := Option.bind_eq_some_iff.mp hd
      exact h.settled key (Table.contains_eq_true_iff.mpr ⟨found, hfound⟩)
  obtain ⟨found, hfound⟩ := Option.isSome_iff_exists.mp hsome
  rw [hfound, h.sound key found type hfound hd]

theorem collect_errors (h : collect units = .ok decls) : ∀ e ∈ decls.errors.toList, e.1.index < units.length := by
  obtain ⟨base, structs, h⟩ := collected h
  obtain ⟨aliases, fields, values, herrors⟩ := h.errors
  have hitem : ∀ {item : UnitRef × Item}, item ∈ itemsOf (unitRefs units) → item.1.id.index < units.length := by
    intro item hi
    obtain ⟨u, hu, hunit, -⟩ := mem_itemsOf hi
    exact hunit ▸ index_lt hu
  intro e he
  have hothers := herrors.others
  rw [forall_mem_append] at hothers
  rw [herrors.all] at he
  simp only [mem_append] at he
  rcases he with (((he | he) | he) | he) | he
  · obtain ⟨⟨item, hi, hu⟩, -⟩ := h.naming.errors e he
    exact hu ▸ hitem hi
  · obtain ⟨key, found, hfound, hu, -⟩ := herrors.ofAliases e he
    exact hu ▸ hitem (mem_of_firstOf ((h.naming.aliases key found).mp hfound))
  · exact (hothers.1 e he).1
  · obtain ⟨_, hs, hu⟩ := mem_cycleErrors he
    obtain ⟨struct, hstruct, rfl⟩ := mem_map.mp hs
    exact hu ▸ hitem (mem_of_firstOf (h.naming.declared struct hstruct))
  · exact (hothers.2 e he).1

/-- Without errors each phase has found all types. -/
theorem Collected.clean (h : Collected units base structs decls) (hc : decls.hasErrors = false) :
    decls.Errors units base structs [] [] [] := by
  obtain ⟨aliases, fields, values, herrors⟩ := h.errors
  have hnil : decls.errors.toList = [] := by simpa [hasErrors] using hc
  have hall := herrors.all
  rw [hnil] at hall
  simp only [nil_eq, append_eq_nil_iff] at hall
  obtain ⟨⟨⟨⟨-, rfl⟩, rfl⟩, -⟩, rfl⟩ := hall
  exact herrors

theorem Collected.proper (h : Collected units base structs decls) (hd : base.Denotes key type) :
    type.Proper structs.length := by
  obtain ⟨depth, hd⟩ := hd
  have hbase : ∀ key type, base.decls.types.get? key = some type → type.Proper structs.length := by
    intro key type ht
    obtain ⟨struct, hs, -, rfl⟩ := (h.naming.types key type).mp ht
    obtain ⟨i, hi⟩ := mem_iff_getElem?.mp hs
    rw [h.naming.ids i struct hi]
    exact (List.getElem?_eq_some_iff.mp hi).1
  induction depth generalizing key type with
  | zero => exact hbase key type hd
  | succ depth ih =>
    rcases Option.or_eq_some_iff.mp hd with hd | ⟨-, hd⟩
    · exact hbase key type hd
    · obtain ⟨found, -, hd⟩ := Option.bind_eq_some_iff.mp hd
      exact TypeExpr.type?_closed Ty.proper_closed (fun _ _ h => Ty.proper_builtin? h) (fun _ _ => ih) hd

theorem Collected.nodup_names (h : Collected units base structs decls) : (decls.structs.toList.map (·.name)).Nodup := by
  rw [h.filled, map_map, nodup_iff_getElem?_ne_getElem?]
  intro i j hij hj he
  rw [length_map] at hj
  obtain ⟨hi, hj⟩ : i < structs.length ∧ j < structs.length := ⟨by omega, hj⟩
  simp only [getElem?_map, getElem?_eq_getElem hi, getElem?_eq_getElem hj, Option.map_some, Option.some.injEq] at he
  have htype := fun (k : Nat) (hk : k < structs.length) =>
    (h.naming.types structs[k].key _).mpr ⟨structs[k], getElem_mem hk, rfl, rfl⟩
  have hkey : structs[i].key = structs[j].key := he
  have hboth := (htype i hi).symm.trans (hkey ▸ htype j hj)
  rw [h.naming.ids i _ (getElem?_eq_getElem hi), h.naming.ids j _ (getElem?_eq_getElem hj)] at hboth
  simp at hboth
  omega

theorem Collected.nodup_fields (h : Collected units base structs decls) :
    ∀ struct ∈ decls.structs.toList, (struct.fields.map (·.name)).Nodup := by
  rw [h.filled]
  exact forall_mem_map.mpr fun struct _ => struct.nodup_filled

/-- Declarations that are collected without an error are well formed. Their functions are those of the
units, in order, and their structs have different names. -/
theorem collect_ok (h : collect units = .ok decls) (hc : decls.hasErrors = false) : decls.WellFormed units ∧
      Forall₂ FunctionItem.Declares decls.functions.toList (writtenFunctions (unitRefs units)) ∧
      (decls.structs.toList.map (·.name)).Nodup := by
  obtain ⟨base, structs, h⟩ := collected h
  have herrors := h.clean hc
  have htypes : ∀ key type, decls.types.get? key = some type → type.Proper decls.structs.size :=
    fun key type ht => h.size ▸ h.proper (herrors.denotes rfl key type ht)
  have hok := h.ok (Values.typed_of_allDeclared (herrors.declared rfl) htypes)
  have hindex : decls.index =
      Values.index (units.map (·.name)).toArray ⟨decls.index.items, decls.functions, decls.globals⟩ := by
    rw [h.index]
    rfl
  have hdeclared : Forall₂ FunctionItem.Declares decls.functions.toList (writtenFunctions (unitRefs units)) := by
    obtain ⟨functions, heq, hall⟩ := Values.functions_of_allDeclared (herrors.declared rfl)
    rw [h.functions]
    refine heq.symm ▸ (written_eq ▸ hall).imp ?_
    rintro _ w ⟨binding, rfl⟩
    exact ⟨rfl, rfl, rfl, length_map .., rfl, rfl, rfl, rfl⟩
  refine ⟨?_, hdeclared, h.nodup_names⟩
  exact {
    unitNames := by rw [h.index]; rfl
    types := htypes _ _
    fields := fun struct hs field hf => by
      rw [h.filled] at hs
      obtain ⟨declared, hd, rfl⟩ := mem_map.mp hs
      obtain ⟨decl, hdecl, rfl⟩ := Collect.DeclaredStruct.mem_filled hf
      exact Values.proper_valueType? htypes ((herrors.exact rfl declared hd).1 decl hdecl)
    ids := hindex ▸ hok.sound.ids
    qualified := hindex ▸ hok.sound.qualified
    distinct := hindex ▸ hok.sound.distinct
    kinds := fun item hi => hok.mem_of_item hi
    globals := fun g hg => by
      obtain ⟨hp, hu⟩ := hok.globalTypes g hg
      exact ⟨hp, hu, hindex ▸ hok.item_of_mem hok.globals (mem_map_of_mem hg)⟩
    functions := fun f hf => by
      obtain ⟨hp, hu⟩ := hok.functionTypes f hf
      exact ⟨hp, fun hm => hu _ hm rfl, hindex ▸ hok.item_of_mem hok.functions (mem_map_of_mem hf)⟩
    declared := fun f hf => by
      obtain ⟨w, hw, hd⟩ := forall₂_exists_right hdeclared hf
      obtain ⟨source, hs, -, hi⟩ := mem_writtenFunctions.mp hw
      exact ⟨source, w.decl, hd.unit ▸ hs, hd.itemIndex ▸ hi, hd.arity, hd.isExternal⟩
    bindings := by
      have hn := hok.nodup_ids hok.functions
      rw [map_map] at hn
      exact hn
    globalBindings := by
      have hn := hok.nodup_ids hok.globals
      rw [map_map] at hn
      exact hn
    positions := by
      have he : decls.functions.toList.map (fun f => (f.unit, f.itemIndex)) =
          (writtenFunctions (unitRefs units)).map fun w => (w.unit.id, w.itemIndex) := by
        rw [← List.forall₂_eq_eq_eq, List.forall₂_map_left_iff, List.forall₂_map_right_iff]
        exact hdeclared.imp fun f w hd => by rw [hd.unit, hd.itemIndex]
      rw [he]
      exact nodup_writtenFunctions }

end Declarations

end SsaCompiler
