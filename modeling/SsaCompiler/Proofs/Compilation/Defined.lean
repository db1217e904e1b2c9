import SsaCompiler.Compilation
import SsaCompiler.Proofs.Compilation.Accepted

/-!
# Giving functions their bodies

`ModuleBuilder.Defines` says which of the declared functions have a body so far; nothing else differs
from the module in which they were declared. Each unit adds the functions with a body that it declares
(`SourceUnit.definedItems`), and no two of them share an entry, so no body is refused. After the last
unit the module is complete: an accepted program is compiled to a module, unless a value is asked for
where there is none (`compile_of_accepted`).
-/

namespace SsaCompiler

open List
open Compilation (addUnits define)

variable {units : List SourceUnit} {decls : Declarations} {unit : UnitId} {source : SourceUnit}
variable {bodies : List (FuncId × FunctionBody)} {checked : CheckedUnit} {g : FunctionItem}

/-! ## The functions of a unit -/

/-- The functions with a body that a unit declares, in order. -/
def SourceUnit.definedItems (source : SourceUnit) (decls : Declarations) (unit : UnitId) :
    List FunctionItem :=
  source.functions.filterMap fun f => if f.2.body.isSome then decls.functionAt? unit f.1 else none

theorem Declarations.WellFormed.functionAt? (hw : decls.WellFormed units)
    (hg : g ∈ decls.functions.toList) : decls.functionAt? g.unit g.itemIndex = some g := by
  obtain ⟨f, hf⟩ : ∃ f, decls.functionAt? g.unit g.itemIndex = some f := by
    rw [← Option.isSome_iff_exists, Declarations.functionAt?, Array.find?_isSome]
    exact ⟨g, Array.mem_toList_iff.mp hg, by simp⟩
  obtain ⟨hmem, hunit, hindex⟩ := Check.functionAt?_ok hf
  rw [hf, inj_on_of_nodup_map hw.positions hmem hg (Prod.ext hunit hindex)]

theorem SourceUnit.mem_definedItems (hw : decls.WellFormed units) (hsource : units[unit.index]? = some source) :
    g ∈ source.definedItems decls unit ↔ g ∈ decls.functions.toList ∧ g.unit = unit ∧ g.isExternal = false := by
  unfold definedItems
  rw [mem_filterMap]
  constructor
  · rintro ⟨⟨index, decl⟩, hm, hg⟩
    split at hg <;> [skip; cases hg]
    rename_i hbody
    obtain ⟨hmem, hunit, hindex⟩ := Check.functionAt?_ok hg
    obtain ⟨source', decl', hs, hd, -, hx⟩ := hw.declared g hmem
    rw [hunit, hsource] at hs
    cases hs
    rw [hindex, SourceUnit.mem_functions.mp hm] at hd
    cases hd
    refine ⟨hmem, hunit, ?_⟩
    rw [hx, FunctionDecl.isExternal]
    simpa using hbody
  · rintro ⟨hmem, rfl, hx⟩
    obtain ⟨source', decl, hs, hd, -, hdecl⟩ := hw.declared g hmem
    rw [hsource] at hs
    cases hs
    refine ⟨(g.itemIndex, decl), SourceUnit.mem_functions.mpr hd, ?_⟩
    have hbody : decl.body.isSome = true := by
      rw [hx, FunctionDecl.isExternal] at hdecl
      simpa using hdecl.symm
    rw [if_pos hbody]
    exact hw.functionAt? hmem

theorem SourceUnit.nodup_definedItems (source : SourceUnit) (decls : Declarations) (unit : UnitId) :
    (source.definedItems decls unit).Nodup := by
  have hindex : ∀ fs : List (Nat × FunctionDecl), ((fs.filterMap fun f =>
      if f.2.body.isSome then decls.functionAt? unit f.1 else none).map (·.itemIndex)).Sublist (fs.map (·.1)) := by
    intro fs
    induction fs with
    | nil => exact List.Sublist.slnil
    | cons f rest ih =>
      rw [filterMap_cons]
      split
      · exact ih.cons f.1
      · rename_i g hg
        split at hg <;> [skip; cases hg]
        rw [map_cons, (Check.functionAt?_ok hg).2.2]
        exact ih.cons_cons f.1
  have hfunctions : (source.functions.map (·.1)).Sublist (source.items.zipIdx.map (·.2)) := by
    unfold SourceUnit.functions
    induction source.items.zipIdx with
    | nil => exact List.Sublist.slnil
    | cons item rest ih =>
      obtain ⟨item, index⟩ := item
      cases item with
      | function decl => exact ih.cons_cons index
      | global | struct | typeAlias => exact ih.cons index
  refine Nodup.of_map (·.itemIndex) (((hindex _).trans hfunctions).nodup ?_)
  rw [zipIdx_map_snd]
  exact nodup_range'

/-! ## Which functions are checked -/

/-- A record is made for each function with a body, whether or not there are mistakes. -/
theorem checkFunctions_functions {unitName : String} {fs : List (Nat × FunctionDecl)}
    {symbols symbols' : SymbolTable Ty} {errors : List TypeError} {functions : List CheckedFunction}
    (h : checkFunctions decls unit unitName fs symbols = (.ok (errors, functions, symbols') : Except Fault _)) :
    Forall₂ (fun F (g : FunctionItem) => F.binding = g.binding ∧ F.itemIndex = g.itemIndex) functions
      (fs.filterMap fun f => if f.2.body.isSome then decls.functionAt? unit f.1 else none) := by
  induction fs generalizing symbols errors functions with
  | nil =>
    cases h
    exact .nil
  | cons f rest ih =>
    obtain ⟨itemIndex, decl⟩ := f
    rw [checkFunctions] at h
    split at h
    · rename_i body item hbody hitem
      simp only [bind_eq_ok] at h
      obtain ⟨root, hroot, ⟨_, s⟩, hcheck, ⟨errors1, others, symbols1⟩, hrest, h⟩ := h
      obtain ⟨rfl, rfl, rfl⟩ := h
      rw [filterMap_cons]
      simp only [hbody, hitem]
      exact .cons (Prod.ext_iff.mp ((Check.cumulative _).function (fun _ _ => trivial) decl root |>.owner hcheck)) (ih hrest)
    · rename_i hnone
      have hdropped : (if decl.body.isSome then decls.functionAt? unit itemIndex else none) = none := by
        split
        · rename_i hbody
          obtain ⟨body, hbody⟩ := Option.isSome_iff_exists.mp hbody
          cases hitem : decls.functionAt? unit itemIndex with
          | none => rfl
          | some item => exact absurd hitem (hnone body item hbody)
        · rfl
      rw [filterMap_cons]
      simp only [hdropped]
      exact ih h

/-- What a check of a unit gives: its errors, or a record for each function with a body. -/
theorem checkUnit_functions (h : checkUnit decls unit source = .ok (.ok checked)) :
    Forall₂ (fun F (g : FunctionItem) => F.binding = g.binding ∧ F.itemIndex = g.itemIndex)
      checked.functions (source.definedItems decls unit) := by
  simp only [checkUnit_eq, bind_eq_ok] at h
  obtain ⟨symbols, -, unitName, -, ⟨errors, functions, symbols'⟩, hfunctions, h⟩ := h
  split at h <;> cases h
  exact checkFunctions_functions hfunctions

/-! ## Bodies -/

def IrFunction.declaration (function : IrFunction) : IrFunction := { function with body := none }

/-- Of the functions declared in a module those of `D` have a body, and nothing else was changed. -/
structure ModuleBuilder.Defines (base : IrModule) (items : ItemMap) (D : Set FunctionItem)
    (builder : ModuleBuilder) : Prop where
  name : builder.mod.name = base.name
  structs : builder.mod.structs = base.structs
  globals : builder.mod.globals = base.globals
  functions : builder.mod.functions.map IrFunction.declaration = base.functions
  defined : ∀ {i : Nat} {function : IrFunction}, builder.mod.functions[i]? = some function →
    (function.body.isSome = true ↔ ∃ g ∈ D, items.functions.get? g.binding = some ⟨i⟩)

namespace ModuleBuilder

variable {base : IrModule} {items : ItemMap} {D : Set FunctionItem} {builder : ModuleBuilder}

theorem Defines.define (h : builder.Defines base items D) {id : FuncId}
    {declared : IrFunction} (hget : items.functions.get? g.binding = some id)
    (hat : base.functions[id.index]? = some declared) (hx : declared.isExternal = false)
    (hnew : ∀ g' ∈ D, items.functions.get? g'.binding ≠ some id) (body : FunctionBody) :
    ∃ builder', builder.define id body = .ok (.ok (), builder') ∧ builder'.Defines base items (D ∪ {g}) := by
  rw [← h.functions, Array.getElem?_map, Option.map_eq_some_iff] at hat
  obtain ⟨function, hat, rfl⟩ := hat
  have hx : function.isExternal = false := hx
  have hlt : id.index < builder.mod.functions.size := lt_of_getElem? hat
  have hnone : function.body.isSome = false := by
    rw [Bool.eq_false_iff]
    intro hsome
    obtain ⟨g', hg', hget'⟩ := (h.defined hat).mp hsome
    exact hnew g' hg' hget'
  have hok : builder.define id body = .ok (.ok (), _) :=
    define_eq_ok.mpr ⟨function, hat, hx, by simpa using hnone, rfl⟩
  refine ⟨_, hok, h.name, h.structs, h.globals, ?_, ?_⟩
  · rw [← h.functions, ← Array.toList_inj, Array.toList_map, Array.toList_map]
    exact IrModule.map_setBody hat IrFunction.declaration rfl
  · intro i found hfound
    simp only [Array.getElem?_setIfInBounds] at hfound
    split at hfound
    · rename_i hi
      subst hi
      cases hfound
      exact ⟨fun _ => ⟨g, .inr rfl, hget⟩, fun _ => rfl⟩
    · rename_i hi
      rw [h.defined hfound]
      constructor
      · rintro ⟨g', hg', hget'⟩
        exact ⟨g', .inl hg', hget'⟩
      · rintro ⟨g', hg' | hg', hget'⟩
        · exact ⟨g', hg', hget'⟩
        · have hg' : g' = g := hg'
          subst hg'
          rw [hget] at hget'
          exact absurd (congrArg FuncId.index (Option.some.inj hget')) hi

theorem Defines.missing (h : builder.Defines base items D)
    (hall : ∀ i function, base.functions[i]? = some function → function.isExternal = false →
      ∃ g ∈ D, items.functions.get? g.binding = some ⟨i⟩) : builder.mod.missing = [] := by
  unfold IrModule.missing
  rw [map_eq_nil_iff, filter_eq_nil_iff]
  intro function hf
  obtain ⟨i, hi⟩ := mem_iff_getElem?.mp hf
  rw [Array.getElem?_toList] at hi
  have hbase : base.functions[i]? = some function.declaration := by
    rw [← h.functions, Array.getElem?_map, hi]
    rfl
  simp only [Bool.and_eq_true, Bool.not_eq_true', Option.isNone_iff_eq_none, not_and]
  intro hx hnone
  have hsome := (h.defined hi).mpr (hall i _ hbase hx)
  rw [hnone] at hsome
  cases hsome

end ModuleBuilder

/-! ## Units -/

variable {moduleName : String} {declaring : ItemMap.Declaring} {D : Set FunctionItem}
  {builder : ModuleBuilder} {items : ItemMap}

theorem Declared.defines (h : Declared moduleName units decls declaring) :
    declaring.builder.Defines declaring.builder.mod declaring.items ∅ := by
  obtain ⟨-, hok⟩ := ItemMap.declareAll_ok h.wellFormed h.declared h.apart
  have hbody : ∀ f ∈ declaring.builder.mod.functions.toList, f.body = none := by
    obtain ⟨entries, hentries, hfunctions⟩ := hok.entries
    intro f hf
    rw [hfunctions] at hf
    obtain ⟨item, -, hentry⟩ := forall₂_exists_left hentries (IrFunction.mem_of_mem_withoutRepeats hf)
    exact hentry.body
  refine ⟨rfl, rfl, rfl, ?_, fun {i function} hi => ?_⟩
  · refine Array.ext_getElem? fun i => ?_
    rw [Array.getElem?_map]
    cases hi : declaring.builder.mod.functions[i]? with
    | none => rfl
    | some f =>
      have hnone := hbody f (Array.mem_toList_iff.mpr (Array.mem_of_getElem? hi))
      obtain ⟨name, symbol, sig, isExternal, body⟩ := f
      cases hnone
      rfl
  · rw [hbody function (Array.mem_toList_iff.mpr (Array.mem_of_getElem? hi))]
    simp

theorem Declared.define (h : Declared moduleName units decls declaring)
    (hb : builder.Defines declaring.builder.mod declaring.items D) {gs : List FunctionItem}
    (hids : Forall₂ (fun g p => declaring.items.functions.get? g.binding = some p.1) gs bodies)
    (hgs : ∀ g ∈ gs, g ∈ decls.functions.toList ∧ g.isExternal = false) (hnodup : gs.Nodup)
    (hD : ∀ g ∈ D, g ∈ decls.functions.toList ∧ g ∉ gs) : ∃ builder', define bodies builder = .ok builder' ∧
      builder'.Defines declaring.builder.mod declaring.items (D ∪ {g | g ∈ gs}) := by
  obtain ⟨-, hok⟩ := ItemMap.declareAll_ok h.wellFormed h.declared h.apart
  induction hids generalizing builder D with
  | nil => exact ⟨builder, rfl, by simpa using hb⟩
  | @cons g p gs bodies hget hids ih =>
    obtain ⟨id, body⟩ := p
    obtain ⟨hmem, hx⟩ := hgs g (.head _)
    obtain ⟨id', declared, hget', hat, hext, -⟩ := hok.functions g hmem
    obtain rfl : id' = id := by
      rw [hget] at hget'
      exact (Option.some.inj hget').symm
    have hnew : ∀ g' ∈ D, declaring.items.functions.get? g'.binding ≠ some id' := by
      intro g' hg' he
      obtain rfl := hok.apart g hmem g' (hD g' hg').1 hx (hget.trans he.symm)
      exact (hD g hg').2 (.head _)
    obtain ⟨builder1, hdefine, hb1⟩ := hb.define hget hat (hext.trans hx) hnew body
    rw [nodup_cons] at hnodup
    have hD1 : ∀ g' ∈ D ∪ {g}, g' ∈ decls.functions.toList ∧ g' ∉ gs := by
      rintro g' (hg' | rfl)
      · exact ⟨(hD g' hg').1, fun hm => (hD g' hg').2 (.tail _ hm)⟩
      · exact ⟨hmem, hnodup.1⟩
    obtain ⟨builder', hrest, hb'⟩ := ih hb1 (fun g hg => hgs g (.tail _ hg)) hnodup.2 hD1
    refine ⟨builder', ?_, ?_⟩
    · simp only [define, hdefine]
      exact hrest
    · have he : D ∪ {g} ∪ {g | g ∈ gs} = D ∪ {g' | g' ∈ g :: gs} := by
        ext g'
        simp only [Set.mem_union, Set.mem_singleton_iff, Set.mem_ofPred_eq, mem_cons, or_assoc]
      exact he ▸ hb'

theorem CheckedUnit.lower_ids (hcheck : checkUnit decls unit source = .ok (.ok checked))
    (hl : checked.lower decls items source = .ok bodies) :
    Forall₂ (fun g p => items.functions.get? g.binding = some p.1) (source.definedItems decls unit) bodies := by
  refine (forall₂_comp (checkUnit_functions hcheck).flip (mapM_eq_ok hl)).imp ?_
  rintro g ⟨id, body⟩ ⟨F, ⟨hbinding, -⟩, hlower⟩
  obtain ⟨_, _, _, _, hget, -⟩ := lowerFunction_eq_ok.mp hlower
  rw [← hbinding, hget]

/-- The functions with a body of some of the units. -/
def Declarations.definedIn (decls : Declarations) (positions : List Nat) : Set FunctionItem :=
  {g | g ∈ decls.functions.toList ∧ g.isExternal = false ∧ g.unit.index ∈ positions}

/-- The work on a unit that is accepted is to lower its functions. -/
theorem Compilation.checkAndLower_eq (hcheck : checkUnit decls unit source = .ok (.ok checked)) :
    (Compilation.checkAndLower ⟨decls, some items, builder⟩ unit source : Except Fault _) = do
      let bodies ← checked.lower decls items source
      return ([], bodies) := by
  have hcheck : checkUnitWith decls unit source = (.ok (.ok checked) : Except Fault _) := hcheck
  simp only [Compilation.checkAndLower, hcheck]
  rfl

section

variable (h : Declared moduleName units decls declaring) {before : List Nat}
include h

theorem Declared.addUnit
    (hsource : units[unit.index]? = some source) (hcheck : checkUnit decls unit source = .ok (.ok checked))
    (hb : builder.Defines declaring.builder.mod declaring.items (decls.definedIn before))
    (hbefore : unit.index ∉ before) (hl : checked.lower decls declaring.items source = .ok bodies) :
    ∃ builder', Compilation.addUnit ⟨decls, some declaring.items, builder⟩ unit source =
        .ok ([], ⟨decls, some declaring.items, builder'⟩) ∧
      builder'.Defines declaring.builder.mod declaring.items (decls.definedIn (before ++ [unit.index])) := by
  have hitems : ∀ g, g ∈ source.definedItems decls unit ↔
      g ∈ decls.functions.toList ∧ g.unit = unit ∧ g.isExternal = false := fun g =>
    SourceUnit.mem_definedItems h.wellFormed hsource
  obtain ⟨builder', hdefine, hb'⟩ := h.define hb (CheckedUnit.lower_ids hcheck hl)
    (fun g hg => ⟨((hitems g).mp hg).1, ((hitems g).mp hg).2.2⟩)
    (source.nodup_definedItems decls unit)
    (fun g ⟨hmem, _, hu⟩ => ⟨hmem, fun hg => hbefore (((hitems g).mp hg).2.1 ▸ hu)⟩)
  refine ⟨builder', ?_, ?_⟩
  · simp only [Compilation.addUnit, Compilation.checkAndLower_eq hcheck, hl, hdefine, bind, Except.bind, pure,
      Except.pure]
  · have he : decls.definedIn before ∪ {g | g ∈ source.definedItems decls unit} =
        decls.definedIn (before ++ [unit.index]) := by
      ext g
      simp only [Declarations.definedIn, hitems, mem_append, mem_singleton]
      constructor
      · rintro (⟨hm, hx, hu⟩ | ⟨hm, rfl, hx⟩)
        · exact ⟨hm, hx, .inl hu⟩
        · exact ⟨hm, hx, .inr rfl⟩
      · rintro ⟨hm, hx, hu | hu⟩
        · exact .inl ⟨hm, hx, hu⟩
        · exact .inr ⟨hm, congrArg UnitId.mk hu, hx⟩
    exact he ▸ hb'

theorem Declared.finish
    (hb : builder.Defines declaring.builder.mod declaring.items (decls.definedIn (range units.length))) :
    builder.finish = .ok builder.mod := by
  obtain ⟨-, hok⟩ := ItemMap.declareAll_ok h.wellFormed h.declared h.apart
  have hmissing : builder.mod.missing = [] := by
    refine hb.missing fun i function hi hx => ?_
    obtain ⟨g, hg, hget⟩ := hok.covered i (lt_of_getElem? hi)
    obtain ⟨id, found, hget', hat, hext, -⟩ := hok.functions g hg
    rw [hget] at hget'
    cases hget'
    rw [hi] at hat
    cases hat
    obtain ⟨source, decl, hs, -⟩ := h.wellFormed.declared g hg
    refine ⟨g, ⟨hg, hext ▸ hx, ?_⟩, hget⟩
    rw [mem_range]
    exact (List.getElem?_eq_some_iff.mp hs).1
  unfold ModuleBuilder.finish
  rw [hmissing]

theorem Declared.definesNone :
    declaring.builder.Defines declaring.builder.mod declaring.items (decls.definedIn []) := by
  have hempty : decls.definedIn [] = ∅ := by simp [Declarations.definedIn]
  exact hempty ▸ h.defines

theorem Declared.addUnits_cases {sources : List (SourceUnit × Nat)}
    (haccepted : ∀ p ∈ sources, ∃ checked, AcceptedUnit units decls ⟨p.2⟩ p.1 checked)
    (hb : builder.Defines declaring.builder.mod declaring.items (decls.definedIn before))
    (hpositions : (before ++ sources.map (·.2)).Nodup) :
    addUnits sources ⟨decls, some declaring.items, builder⟩ = .error .unitAsValue ∨
      ∃ builder', addUnits sources ⟨decls, some declaring.items, builder⟩ =
          .ok ([], ⟨decls, some declaring.items, builder'⟩) ∧
        builder'.Defines declaring.builder.mod declaring.items (decls.definedIn (before ++ sources.map (·.2))) := by
  induction sources generalizing builder before with
  | nil => exact .inr ⟨builder, rfl, by simpa using hb⟩
  | cons p rest ih =>
    obtain ⟨source, index⟩ := p
    obtain ⟨checked, hu⟩ := haccepted _ (.head _)
    rcases hu.lower_cases h with hlower | ⟨bodies, hlower⟩
    · refine .inl ?_
      simp only [addUnits, Compilation.addUnit, Compilation.checkAndLower_eq hu.checked, hlower, bind, Except.bind]
    · have hbefore : index ∉ before := fun hm =>
        (nodup_append.mp hpositions).2.2 _ hm _ (.head _) rfl
      obtain ⟨builder1, hadd, hb1⟩ := h.addUnit hu.found hu.checked hb hbefore hlower
      have hrest := ih (fun p hp => haccepted p (.tail _ hp)) hb1 (by simpa using hpositions)
      simp only [addUnits, hadd, bind, Except.bind]
      rcases hrest with hrest | ⟨builder', hrest, hb'⟩
      · exact .inl (by rw [hrest])
      · refine .inr ⟨builder', by rw [hrest]; rfl, ?_⟩
        simpa using hb'

end

theorem zipIdx_positions : units.zipIdx.map (·.2) = range units.length := by rw [zipIdx_map_snd, range_eq_range']

theorem Declared.start (h : Declared moduleName units decls declaring) :
    Compilation.start moduleName units = .ok (⟨decls, some declaring.items, declaring.builder⟩, []) := by
  simp only [Compilation.start, Compilation.declareItems, h.collected, h.clean, h.declared, h.apart, bind, Except.bind]
  rfl

/-- A program whose items are collected and declared without a mistake, and whose units are checked
without one, is compiled to a module. The only fault that may stop this is that a value is asked for
where there is none: no assumption that lowering, giving functions their bodies and finishing the
module make about checked units is ever broken. -/
theorem compile_of_accepted (h : Declared moduleName units decls declaring)
    (hunits : ∀ i source, units[i]? = some source →
      ∃ checked, AcceptedUnit units decls ⟨i⟩ source checked) :
    compile moduleName units = .error .unitAsValue ∨
      ∃ module, compile moduleName units = .ok (.ok module) := by
  have haccepted : ∀ p ∈ units.zipIdx, ∃ checked, AcceptedUnit units decls ⟨p.2⟩ p.1 checked := fun p hp =>
    hunits p.2 p.1 (List.mk_mem_zipIdx_iff_getElem?.mp hp)
  have hrun := h.addUnits_cases haccepted h.definesNone (by rw [zipIdx_positions]; exact List.nodup_range)
  simp only [compile, h.start, bind, Except.bind]
  rcases hrun with hrun | ⟨builder, hrun, hb⟩
  · exact .inl (by rw [hrun])
  · rw [zipIdx_positions] at hb
    refine .inr ⟨builder.mod, ?_⟩
    simp only [hrun, Compilation.finish, h.finish hb]
    rfl

theorem compile_of_accepted_countdown : compile "m" [Countdown.program] = .error .unitAsValue ∨
    ∃ module, compile "m" [Countdown.program] = .ok (.ok module) := by
  obtain ⟨decls, declaring, checked, F, id, body, hd, hu, -⟩ := Countdown.accepted
  refine compile_of_accepted hd fun i source hs => ?_
  cases i with
  | zero =>
    cases hs
    exact ⟨checked, hu⟩
  | succ i => cases hs

end SsaCompiler
