import SsaCompiler.Proofs.Extending.Collecting
import SsaCompiler.Proofs.Lowering.Declaring
import SsaCompiler.Proofs.Lowering.Lockstep

/-!
# Declaring the items of further units

The items of further units are declared behind those of the first units, group by group: layouts,
globals and functions. So each item of the first units gets the entry that it gets without the others,
under the same number (`ItemMap.declareAll_partOf`). The numbers agree because both runs declare the
same items first, and an external function shares the entry of an earlier one in both or in neither.
-/

namespace SsaCompiler

open List

/-- Corresponding elements that a list determines start what they are for a longer list. -/
theorem prefix_of_forall₂ {α β : Type} {R R' : α → β → Prop} {xs xs' : List α} {ys ys' : List β} (hp : xs <+: xs')
    (hd : ∀ {x y y'}, R x y → R' x y' → y = y') (h : Forall₂ R xs ys) (h' : Forall₂ R' xs' ys') : ys <+: ys' := by
  induction h generalizing xs' ys' with
  | nil => exact nil_prefix
  | @cons x y xs ys hxy _ ih =>
    obtain ⟨rest, rfl⟩ := hp
    cases h' with
    | cons hxy' h' =>
      rw [hd hxy hxy']
      exact prefix_cons_inj _ |>.mpr (ih (prefix_append xs rest) h')

namespace LinkSymbol

variable {structName structName' : LayoutId → Option String}

theorem typeText_congr {type : IrType} (h : ∀ layout, type = .struct layout → structName layout = structName' layout) :
    typeText structName type = typeText structName' type := by
  cases type with
  | struct layout => simp [typeText, h layout rfl]
  | _ => rfl

theorem ofFunction_congr {name : String} {sig : FunctionSig}
    (h : ∀ layout, .struct layout ∈ sig.result :: sig.params → structName layout = structName' layout) :
    ofFunction structName name sig = ofFunction structName' name sig := by
  have hresult : typeText structName sig.result = typeText structName' sig.result :=
    typeText_congr fun layout hl => h layout (hl ▸ (.head _))
  have hparams : sig.params.map (typeText structName) = sig.params.map (typeText structName') :=
    map_congr_left fun type ht => typeText_congr fun layout hl => h layout (hl ▸ mem_cons_of_mem _ ht)
  simp only [ofFunction, hresult, hparams]

end LinkSymbol

namespace ItemMap

variable {builder0 builder builder' : ModuleBuilder} {structs structs' : List StructDef} {items items' : ItemMap}
  {sig : FunctionSig}

/-! ## Types -/

theorem mem_layouts_of_lowerSig {params : List Ty} {result : Ty} {varargs : Bool}
    (h : items.lowerSig params result varargs = .ok sig) {layout : LayoutId}
    (hl : .struct layout ∈ sig.result :: sig.params) : layout ∈ items.layouts := by
  have hof : ∀ {type : Ty}, items.lowerType type = .ok (.struct layout) → layout ∈ items.layouts := by
    intro type ht
    cases type with
    | aggregate id =>
      simp only [lowerType, bind_eq_ok, pure_eq_ok, IrType.struct.injEq, ItemMap.layout] at ht
      obtain ⟨_, ht, rfl⟩ := ht
      split at ht <;> cases ht
      exact mem_of_getElem? ‹_›
    | _ => simp [lowerType] at ht
  simp only [lowerSig, bind_eq_ok, pure_eq_ok] at h
  obtain ⟨types, hparams, type, hresult, rfl⟩ := h
  rcases mem_cons.mp hl with rfl | hl
  · exact hof hresult
  · obtain ⟨type, -, ht⟩ := forall₂_exists_left (mapM_eq_ok hparams) hl
    exact hof ht

/-! ## Entries -/

namespace Declaring

/-- All that is declared is declared under the same number among other items. -/
structure PartOf (p p' : Declaring) : Prop where
  indexed : p.builder.Indexed ∧ p'.builder.Indexed
  layouts : p.items.layouts <+: p'.items.layouts
  known : ∀ layout ∈ p.items.layouts, layout.index < p.builder.mod.structs.size
  structs : p.builder.mod.structs.toList <+: p'.builder.mod.structs.toList
  globals : p.builder.mod.globals.toList <+: p'.builder.mod.globals.toList
  functions : p.builder.mod.functions.toList <+: p'.builder.mod.functions.toList
  globalIds : ∀ {binding : BindingId} {id : GlobalId}, p.items.globals.get? binding = some id →
    p'.items.globals.get? binding = some id
  functionIds : ∀ {binding : BindingId} {id : FuncId}, p.items.functions.get? binding = some id →
    p'.items.functions.get? binding = some id

variable {p p' q q' : Declaring}

variable (h : p.PartOf p') {f : FunctionItem} {g : GlobalItem}
include h

theorem PartOf.symbol (hs : p.items.lowerSig f.params f.result f.varargs = .ok sig) :
    f.symbol p'.builder sig = f.symbol p.builder sig := by
  have hnames : p'.builder.symbolOf f.name sig = p.builder.symbolOf f.name sig := by
    unfold ModuleBuilder.symbolOf
    split
    · rfl
    · refine LinkSymbol.ofFunction_congr fun layout hl => ?_
      have hlt := h.known layout (mem_layouts_of_lowerSig hs hl)
      have hfound : p.builder.mod.structs.toList[layout.index]? = some p.builder.mod.structs[layout.index] := by simp
      rw [← Array.getElem?_toList, ← Array.getElem?_toList, getElem?_of_isPrefix h.structs hfound, hfound]
  simp only [FunctionItem.symbol, hnames]

theorem PartOf.entry {function function' : IrFunction} (hf : f.Entry p.items p.builder function)
    (hf' : f.Entry p'.items p'.builder function') : function = function' := by
  have hsig : function'.sig = function.sig :=
    Except.ok.inj (hf'.sig.symm.trans (lowerSig_of_isPrefix h.layouts hf.sig))
  have hsymbol : function'.symbol = function.symbol := by rw [hf.symbol, hf'.symbol, hsig, h.symbol hf.sig]
  cases function with
  | mk =>
    cases function' with
    | mk =>
      simp only [IrFunction.mk.injEq]
      exact ⟨hf.name.trans hf'.name.symm, hsymbol.symm, hsig.symm, hf.isExternal.trans hf'.isExternal.symm,
        hf.body.trans hf'.body.symm⟩

theorem PartOf.global (hsame : p'.builder.mod.globals = p.builder.mod.globals)
    (hg : declareGlobal p g = .ok q) (he : q.errors = []) (hg' : declareGlobal p' g = .ok q') (he' : q'.errors = []) :
    q.PartOf q' ∧ q'.builder.mod.globals = q.builder.mod.globals := by
  obtain ⟨-, type, ht, hitems, hmod, hindexed⟩ := declareGlobal_ok hg he
  obtain ⟨-, type', ht', hitems', hmod', hindexed'⟩ := declareGlobal_ok hg' he'
  obtain rfl : type = type' := Except.ok.inj ((lowerType_of_isPrefix h.layouts ht).symm.trans ht')
  have hpushed : q'.builder.mod.globals = q.builder.mod.globals := by rw [hmod, hmod', hsame]
  refine ⟨?_, hpushed⟩
  exact {
    indexed := h.indexed.imp hindexed hindexed'
    layouts := by rw [hitems, hitems']; exact h.layouts
    known := by rw [hitems, hmod]; exact h.known
    structs := by rw [hmod, hmod']; exact h.structs
    globals := hpushed ▸ prefix_rfl
    functions := by rw [hmod, hmod']; exact h.functions
    globalIds := fun {binding id} hget => by
      rw [hitems] at hget
      rw [hitems', hsame]
      rw [Table.get?_insert] at hget ⊢
      split
      · rwa [if_pos ‹_›] at hget
      · rw [if_neg ‹_›] at hget
        exact h.globalIds hget
    functionIds := by rw [hitems, hitems']; exact h.functionIds }

theorem PartOf.furtherGlobal (hn : p.items.globals.get? g.binding = none)
    (hg : declareGlobal p' g = .ok q') (he : q'.errors = []) : p.PartOf q' := by
  obtain ⟨-, type, ht, hitems, hmod, hindexed⟩ := declareGlobal_ok hg he
  exact {
    indexed := h.indexed.imp_right hindexed
    layouts := by rw [hitems]; exact h.layouts
    known := h.known
    structs := by rw [hmod]; exact h.structs
    globals := by rw [hmod]; exact prefix_push h.globals
    functions := by rw [hmod]; exact h.functions
    globalIds := fun {binding id} hget => by
      rw [hitems, Table.get?_insert_of_ne]
      · exact h.globalIds hget
      · rintro rfl
        rw [hn] at hget
        cases hget
    functionIds := by rw [hitems]; exact h.functionIds }

theorem PartOf.function (hsame : p'.builder.mod.functions = p.builder.mod.functions)
    (hf : declareFunction p f = .ok q) (he : q.errors = []) (hf' : declareFunction p' f = .ok q')
    (he' : q'.errors = []) : q.PartOf q' ∧ q'.builder.mod.functions = q.builder.mod.functions := by
  obtain ⟨-, id, function, hitems, hentry, hindexed, hcase⟩ := declareFunction_ok hf he
  obtain ⟨-, id', function', hitems', hentry', hindexed', hcase'⟩ := declareFunction_ok hf' he'
  obtain rfl := h.entry hentry hentry'
  have hshared : p'.builder.externals.get? function.symbol = p.builder.externals.get? function.symbol :=
    h.indexed.1.externals_congr h.indexed.2 hsame
  -- The two runs agree on whether an earlier entry is shared, so on the number and on the rest.
  obtain ⟨rfl, hkept, hkept', hfunctions⟩ : id = id' ∧
      q.builder.mod = { p.builder.mod with functions := q.builder.mod.functions } ∧
      q'.builder.mod = { p'.builder.mod with functions := q'.builder.mod.functions } ∧
      q'.builder.mod.functions = q.builder.mod.functions := by
    rcases hcase with ⟨hnone, hid, hmod⟩ | ⟨hext, hmod, hsome, -⟩ <;>
      rcases hcase' with ⟨hnone', hid', hmod'⟩ | ⟨hext', hmod', hsome', -⟩
    · refine ⟨?_, by rw [hmod], by rw [hmod'], by rw [hmod, hmod', hsame]⟩
      cases id
      cases id'
      simp_all
    · rw [hshared, hnone hext'] at hsome'
      cases hsome'
    · rw [hshared, hsome] at hnone'
      cases hnone' hext
    · rw [hshared, hsome] at hsome'
      cases hsome'
      exact ⟨rfl, by rw [hmod], by rw [hmod'], by rw [hmod, hmod', hsame]⟩
  refine ⟨?_, hfunctions⟩
  exact {
    indexed := h.indexed.imp hindexed hindexed'
    layouts := by rw [hitems, hitems']; exact h.layouts
    known := by rw [hitems, hkept]; exact h.known
    structs := by rw [hkept, hkept']; exact h.structs
    globals := by rw [hkept, hkept']; exact h.globals
    functions := hfunctions ▸ prefix_rfl
    globalIds := by rw [hitems, hitems']; exact h.globalIds
    functionIds := fun {binding id} hget => by
      rw [hitems] at hget
      rw [hitems']
      rw [Table.get?_insert] at hget ⊢
      split
      · rwa [if_pos ‹_›] at hget
      · rw [if_neg ‹_›] at hget
        exact h.functionIds hget }

theorem PartOf.furtherFunction (hn : p.items.functions.get? f.binding = none)
    (hf : declareFunction p' f = .ok q') (he : q'.errors = []) : p.PartOf q' := by
  obtain ⟨-, id, function, hitems, -, hindexed, hcase⟩ := declareFunction_ok hf he
  obtain ⟨hkept, hfunctions⟩ : q'.builder.mod = { p'.builder.mod with functions := q'.builder.mod.functions } ∧
      p.builder.mod.functions.toList <+: q'.builder.mod.functions.toList := by
    rcases hcase with ⟨-, -, hmod⟩ | ⟨-, hmod, -⟩
    · exact ⟨by rw [hmod], by rw [hmod]; exact prefix_push h.functions⟩
    · exact ⟨by rw [hmod], by rw [hmod]; exact h.functions⟩
  exact {
    indexed := h.indexed.imp_right hindexed
    layouts := by rw [hitems]; exact h.layouts
    known := h.known
    structs := by rw [hkept]; exact h.structs
    globals := by rw [hkept]; exact h.globals
    functions := hfunctions
    globalIds := by rw [hitems]; exact h.globalIds
    functionIds := fun {binding id} hget => by
      rw [hitems, Table.get?_insert_of_ne]
      · exact h.functionIds hget
      · rintro rfl
        rw [hn] at hget
        cases hget }

end Declaring

/-! ## All items -/

section

variable {α : Type} {step : Declaring → α → Except Fault Declaring} {xs : List α} {p p' q q' : Declaring}
  (herrors : ∀ p p' x, step p x = .ok p' → p'.errors = [] → p.errors = [])

include herrors

/-- Two modules in which the same items are declared keep a relation that each item keeps. -/
theorem declareEach_both (rel : Declaring → Declaring → Prop)
    (hstep : ∀ {p p' q q' x}, rel p p' → step p x = .ok q → q.errors = [] → step p' x = .ok q' → q'.errors = [] →
      rel q q') (h : rel p p') (hf : xs.foldlM step p = .ok q) (he : q.errors = []) (hf' : xs.foldlM step p' = .ok q')
    (he' : q'.errors = []) : rel q q' := by
  induction xs generalizing p p' with
  | nil =>
    cases hf
    cases hf'
    exact h
  | cons x rest ih =>
    rw [foldlM_cons, bind_eq_ok] at hf hf'
    obtain ⟨p1, hx, hrest⟩ := hf
    obtain ⟨p1', hx', hrest'⟩ := hf'
    exact ih (hstep h hx (errors_of_declareEach herrors hrest he) hx' (errors_of_declareEach herrors hrest' he'))
      hrest hrest'

theorem declareEach_keeps (inv : Declaring → Prop)
    (hstep : ∀ {p q x}, x ∈ xs → inv p → step p x = .ok q → q.errors = [] → inv q)
    (h : inv p) (hf : xs.foldlM step p = .ok q) (he : q.errors = []) : inv q := by
  induction xs generalizing p with
  | nil =>
    cases hf
    exact h
  | cons x rest ih =>
    rw [foldlM_cons, bind_eq_ok] at hf
    obtain ⟨p1, hx, hrest⟩ := hf
    exact ih (fun hm => hstep (.tail _ hm))
      (hstep (.head _) h hx (errors_of_declareEach herrors hrest he)) hrest

end

theorem ne_of_mem_append {α : Type} {key : α → BindingId} {xs ys : List α} (h : ((xs ++ ys).map key).Nodup)
    {x y : α} (hx : x ∈ xs) (hy : y ∈ ys) : key x ≠ key y := by
  rw [map_append, nodup_append] at h
  exact h.2.2 _ (mem_map_of_mem hx) _ (mem_map_of_mem hy)

theorem declareGlobals_functions {p q : Declaring} {gs : List GlobalItem} (h : gs.foldlM declareGlobal p = .ok q)
    (he : q.errors = []) : q.builder.mod.functions = p.builder.mod.functions :=
  declareEach_keeps declareGlobal_errors (fun q => q.builder.mod.functions = p.builder.mod.functions)
    (fun _ hinv hx he => by
      obtain ⟨-, type, -, -, hmod, -⟩ := declareGlobal_ok hx he
      rw [hmod]
      exact hinv) rfl h he

theorem declareFunctions_globals {p q : Declaring} {fs : List FunctionItem} (h : fs.foldlM declareFunction p = .ok q)
    (he : q.errors = []) : q.items.globals = p.items.globals :=
  declareEach_keeps declareFunction_errors (fun q => q.items.globals = p.items.globals) (fun _ hinv hx he => by
      obtain ⟨-, id, function, hitems, -⟩ := declareFunction_ok hx he
      rw [hitems]
      exact hinv) rfl h he

theorem declareStructs_partOf (hp : structs <+: structs') (hl : items.layouts <+: items'.layouts)
    (h : items.declareStructs structs builder0 = .ok builder)
    (h' : items'.declareStructs structs' builder0 = .ok builder') :
    builder.mod.structs.toList <+: builder'.mod.structs.toList := by
  obtain ⟨layouts, hmod, -, -, -, hall⟩ := declareStructs_ok h
  obtain ⟨layouts', hmod', -, -, -, hall'⟩ := declareStructs_ok h'
  have hlayouts : layouts <+: layouts' := prefix_of_forall₂ hp (fun {struct layout layout'} hs hs' => by
    have hfields := mapM_of_forall₂ (hs.2.imp fun _ _ => lowerType_of_isPrefix hl)
    rw [mapM_of_forall₂ hs'.2, Except.ok.injEq] at hfields
    rw [StructLayout.mk.injEq]
    exact ⟨hs.1.trans hs'.1.symm, hfields.symm⟩) hall hall'
  rw [hmod, hmod']
  simpa using hlayouts

theorem declareStructs_start (hp : structs <+: structs') (hi0 : builder0.Indexed)
    (hi : items = { empty with
      layouts := (List.range structs.length).map fun offset => ⟨builder0.nextLayout.index + offset⟩ })
    (hi' : items' = { empty with
      layouts := (List.range structs'.length).map fun offset => ⟨builder0.nextLayout.index + offset⟩ })
    (h : items.declareStructs structs builder0 = .ok builder)
    (h' : items'.declareStructs structs' builder0 = .ok builder') :
    Declaring.PartOf ⟨builder, items, []⟩ ⟨builder', items', []⟩ ∧
      builder'.mod.globals = builder.mod.globals ∧ builder'.mod.functions = builder.mod.functions := by
  obtain ⟨count, hcount⟩ := Nat.exists_eq_add_of_le hp.length_le
  have hlayouts : items.layouts <+: items'.layouts := by
    rw [hi, hi', hcount, range_add]
    exact List.IsPrefix.map _ (prefix_append ..)
  have hstructs := declareStructs_partOf hp hlayouts h h'
  obtain ⟨layouts, hmod, -, -, hindexed, hall⟩ := declareStructs_ok h
  obtain ⟨layouts', hmod', -, -, hindexed', -⟩ := declareStructs_ok h'
  have hglobals : builder'.mod.globals = builder.mod.globals := by rw [hmod, hmod']
  have hfunctions : builder'.mod.functions = builder.mod.functions := by rw [hmod, hmod']
  refine ⟨?_, hglobals, hfunctions⟩
  exact {
    indexed := ⟨hindexed hi0, hindexed' hi0⟩
    layouts := hlayouts
    known := by
      rw [hi, hmod]
      simp only [mem_map, mem_range, Array.size_append, size_toArray, ← hall.length_eq]
      rintro _ ⟨offset, ho, rfl⟩
      exact Nat.add_lt_add_left ho _
    structs := hstructs
    globals := hglobals ▸ prefix_rfl
    functions := hfunctions ▸ prefix_rfl
    globalIds := by simp [hi, empty]
    functionIds := by simp [hi, empty] }

/-- The items of the first units have the same entries, under the same numbers, in a module with the
items of further units. -/
theorem declareAll_partOf {decls decls' : Declarations} {units units' : List SourceUnit} (hp : decls.PartOf decls')
    (hw : decls.WellFormed units) (hw' : decls'.WellFormed units') {name : String} {p p' : Declaring}
    (h : declareAll decls (.new name) = .ok p) (he : p.errors = [])
    (h' : declareAll decls' (.new name) = .ok p') (he' : p'.errors = []) : p.PartOf p' := by
  have hok := (declareAll_ok hw h he).2
  simp only [declareAll, bind_eq_ok] at h h'
  obtain ⟨builder, hstructs, p1, hglobals, hfunctions⟩ := h
  obtain ⟨builder', hstructs', p1', hglobals', hfunctions'⟩ := h'
  obtain ⟨hstart, hsameGlobals, hsame⟩ := declareStructs_start hp.structs .new (by simp) (by simp) hstructs hstructs'
  have he1 := errors_of_declareEach declareFunction_errors hfunctions he
  have he1' := errors_of_declareEach declareFunction_errors hfunctions' he'
  have hsame1 : p1'.builder.mod.functions = p1.builder.mod.functions := by
    rw [declareGlobals_functions hglobals he1, declareGlobals_functions hglobals' he1', hsame]
  obtain ⟨moreGlobals, hmoreGlobals⟩ := hp.globals
  obtain ⟨moreFunctions, hmoreFunctions⟩ := hp.functions
  rw [← hmoreGlobals, foldlM_append, bind_eq_ok] at hglobals'
  obtain ⟨q, hglobals', hfurther⟩ := hglobals'
  have hq := errors_of_declareEach declareGlobal_errors hfurther he1'
  -- Both declare the globals of the first units, and then one of them declares further ones.
  have hboth := declareEach_both declareGlobal_errors
    (fun p p' => p.PartOf p' ∧ p'.builder.mod.globals = p.builder.mod.globals)
    (fun hrel hx he hx' he' => hrel.1.global hrel.2 hx he hx' he') ⟨hstart, hsameGlobals⟩ hglobals he1 hglobals' hq
  have hone : p1.PartOf p1' := declareEach_keeps declareGlobal_errors p1.PartOf (fun hm hrel hx hx' => by
    refine hrel.furtherGlobal (Option.eq_none_iff_forall_ne_some.mpr fun id hid => ?_) hx hx'
    rw [← declareFunctions_globals hfunctions he] at hid
    obtain ⟨g', hg', hb⟩ := hok.onlyGlobals hid
    exact ne_of_mem_append (hmoreGlobals ▸ hw'.globalBindings) hg' hm hb) hboth.1 hfurther he1'
  -- The same for functions.
  rw [← hmoreFunctions, foldlM_append, bind_eq_ok] at hfunctions'
  obtain ⟨q', hfunctions', hfurther'⟩ := hfunctions'
  have hq' := errors_of_declareEach declareFunction_errors hfurther' he'
  have hboth' := declareEach_both declareFunction_errors
    (fun p p' => p.PartOf p' ∧ p'.builder.mod.functions = p.builder.mod.functions)
    (fun hrel hx he hx' he' => hrel.1.function hrel.2 hx he hx' he') ⟨hone, hsame1⟩ hfunctions he hfunctions' hq'
  exact declareEach_keeps declareFunction_errors p.PartOf (fun hm hrel hx hx' => by
    refine hrel.furtherFunction (Option.eq_none_iff_forall_ne_some.mpr fun id hid => ?_) hx hx'
    obtain ⟨f', hf', hb⟩ := hok.onlyFunctions hid
    exact ne_of_mem_append (hmoreFunctions ▸ hw'.bindings) hf' hm hb) hboth'.1 hfurther' he'

end ItemMap

end SsaCompiler
