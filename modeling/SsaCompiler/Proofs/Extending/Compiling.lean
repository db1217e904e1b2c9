import SsaCompiler.Proofs.Compilation.Complete
import SsaCompiler.Proofs.Extending.Checking
import SsaCompiler.Proofs.Extending.Lowering

/-!
# Compiling further units

Further units do not disturb the first ones. The layouts, globals and functions of a module, with
their bodies, start the lists of any module that is compiled from the same units followed by others
(`compile_append`). The first units are collected, declared, checked and lowered in the same way, and
later units cannot give bodies to their functions: a function that is not external has one already.
-/

namespace SsaCompiler

open List

variable {moduleName : String} {units units' : List SourceUnit} {decls decls' : Declarations}
  {declaring declaring' : ItemMap.Declaring}
variable {sources : List (SourceUnit × Nat)} {binding : BindingId} {F : CheckedFunction} {item : Binding Ty}
variable {mod : IrModule} {compilation : Compilation}

/-! ## Items -/

theorem Declarations.WellFormed.sound (h : decls.WellFormed units) : decls.index.Sound :=
  ⟨h.ids, h.qualified, h.distinct⟩

theorem Collected.errorsOf_eq_nil (h : Collected units decls) {unit : UnitId} : decls.errorsOf unit = [] := by
  have hnone : decls.errors = #[] := by simpa [Declarations.hasErrors] using h.clean
  simp [Declarations.errorsOf, hnone]

theorem Declarations.PartOf.function? (hp : decls.PartOf decls') {f : FunctionItem}
    (h : decls.function? binding = some f) : decls'.function? binding = some f := by
  obtain ⟨more, hmore⟩ := hp.functions
  unfold Declarations.function? at h ⊢
  rw [← Array.find?_toList] at h ⊢
  rw [← hmore, find?_append, h]
  rfl

/-- An item that a function of the first units refers to is one of theirs. -/
theorem Declarations.PartOf.item_of_ref (hp : decls.PartOf decls') (hF : F.RefersTo decls.index) {id : ExprId}
    (hr : F.refs.get? id = some binding) (hi : decls'.index.item? binding = some item) :
    decls.index.item? binding = some item := by
  cases binding with
  | «local» => cases hi
  | item position => rwa [← Check.item?_of_isPrefix hp.items (hF hr)]

theorem Declarations.WellFormed.declared_of_item (h : decls.WellFormed units)
    (hi : decls.index.item? binding = some item) :
    (item.storage = .global ∧ ∃ g ∈ decls.globals.toList, g.binding = binding) ∨
      item.storage = .function ∧ ∃ f ∈ decls.functions.toList, f.binding = binding := by
  cases binding with
  | «local» => cases hi
  | item position =>
    have hid := h.ids hi
    rcases h.kinds item (Array.mem_toList_iff.mpr (Array.mem_of_getElem? hi)) with
      ⟨hs, g, hg, hb, -⟩ | ⟨hs, f, hf, hb, -⟩
    · exact .inl ⟨hs, g, hg, hb.trans hid⟩
    · exact .inr ⟨hs, f, hf, hb.trans hid⟩

theorem option_eq_of_imp {α : Type} {a b : Option α} (h : ∀ x, a = some x → b = some x)
    (hs : b.isSome = true → a.isSome = true) : b = a := by
  cases ha : a with
  | some x => exact h x ha
  | none =>
    rw [ha] at hs
    simpa using hs

/-- The items of the first units stand at the same places for a function that refers to them only. -/
theorem Declared.agrees (h : Declared moduleName units decls declaring)
    (h' : Declared moduleName units' decls' declaring') (hp : decls.PartOf decls') (hd : declaring.PartOf declaring')
    (hF : F.RefersTo decls.index) : declaring.items.Agrees declaring'.items F where
  layouts := hd.layouts
  functions {id binding} hr := by
    refine option_eq_of_imp (fun _ => hd.functionIds) fun hs => ?_
    obtain ⟨_, hget⟩ := Option.isSome_iff_exists.mp hs
    obtain ⟨f, hf, rfl⟩ := h'.realizes.onlyFunctions hget
    obtain ⟨-, -, item, hitem, hstorage⟩ := h'.wellFormed.functions f hf
    rcases h.wellFormed.declared_of_item (hp.item_of_ref hF hr hitem) with ⟨hglobal, -⟩ | ⟨-, f0, hf0, hb⟩
    · rw [hstorage] at hglobal
      cases hglobal
    · obtain ⟨id0, _, hget0, -⟩ := h.realizes.functions f0 hf0
      rw [← hb, hget0]
      rfl
  globals {id binding} hr := by
    refine option_eq_of_imp (fun _ => hd.globalIds) fun hs => ?_
    obtain ⟨_, hget⟩ := Option.isSome_iff_exists.mp hs
    obtain ⟨g, hg, rfl⟩ := h'.realizes.onlyGlobals hget
    obtain ⟨-, -, item, hitem, hstorage⟩ := h'.wellFormed.globals g hg
    rcases h.wellFormed.declared_of_item (hp.item_of_ref hF hr hitem) with ⟨-, g0, hg0, hb⟩ | ⟨hfunction, -⟩
    · obtain ⟨id0, _, hget0, -⟩ := h.realizes.globals g0 hg0
      rw [← hb, hget0]
      rfl
    · rw [hstorage] at hfunction
      cases hfunction

/-! ## Bodies -/

theorem Declared.lower_partOf (h : Declared moduleName units decls declaring)
    (h' : Declared moduleName units' decls' declaring') (hp : decls.PartOf decls') (hd : declaring.PartOf declaring')
    {checked : CheckedUnit} {source : SourceUnit} (hF : ∀ F ∈ checked.functions, F.RefersTo decls.index)
    {bodies : List (FuncId × FunctionBody)} (hl : checked.lower decls declaring.items source = .ok bodies) :
    checked.lower decls' declaring'.items source = .ok bodies := by
  have hall := (List.forall₂_and_left checked.functions bodies).mpr ⟨fun _ hm => hm, mapM_eq_ok hl⟩
  refine mapM_of_forall₂ (hall.imp ?_)
  rintro F lowered ⟨hmem, hlower⟩
  have hagrees := h.agrees h' hp hd (hF F hmem)
  obtain ⟨body, item, sig, root, hid, hbody, hitem, hsig, hroot, hlower⟩ := CheckedUnit.lowerFunction_eq_ok.mp hlower
  exact CheckedUnit.lowerFunction_eq_ok.mpr ⟨body, item, sig, root, hd.functionIds hid, hbody, hp.function? hitem,
    ItemMap.lowerSig_of_isPrefix hd.layouts hsig, hroot, CheckedFunction.lower_of_agrees hagrees hlower⟩

/-- The lists of a module start those of another. -/
structure IrModule.PartOf (mod mod' : IrModule) : Prop where
  structs : mod.structs.toList <+: mod'.structs.toList
  globals : mod.globals.toList <+: mod'.globals.toList
  functions : mod.functions.toList <+: mod'.functions.toList

namespace ModuleBuilder

variable {builder builder' after after' : ModuleBuilder} {id : FuncId} {body : FunctionBody}

theorem define_partOf (hp : builder.mod.PartOf builder'.mod) (h : builder.define id body = .ok (.ok (), after)) :
    ∃ after', builder'.define id body = .ok (.ok (), after') ∧ after.mod.PartOf after'.mod := by
  obtain ⟨function, hf, hx, hb, rfl⟩ := define_eq_ok.mp h
  have hf' : builder'.mod.functions[id.index]? = some function := by
    rw [← Array.getElem?_toList] at hf ⊢
    exact getElem?_of_isPrefix hp.functions hf
  refine ⟨_, define_eq_ok.mpr ⟨function, hf', hx, hb, rfl⟩, hp.structs, hp.globals, ?_⟩
  obtain ⟨more, hmore⟩ := hp.functions
  have hlt : id.index < builder.mod.functions.toList.length := by simpa using (lt_of_getElem? hf)
  rw [Array.toList_setIfInBounds, Array.toList_setIfInBounds, ← hmore, set_append_left _ _ hlt]
  exact prefix_append ..

/-- A further body is not that of a function of a module in which none is missing. -/
theorem define_further (hp : mod.PartOf builder.mod) (hm : mod.missing = [])
    (h : builder.define id body = .ok (.ok (), after)) : mod.PartOf after.mod := by
  obtain ⟨function, hf, hx, hb, rfl⟩ := define_eq_ok.mp h
  refine ⟨hp.structs, hp.globals, ?_⟩
  obtain ⟨more, hmore⟩ := hp.functions
  have hle : mod.functions.toList.length ≤ id.index := by
    rw [← Nat.not_lt]
    intro hlt
    rw [← Array.getElem?_toList, ← hmore, getElem?_append_left hlt] at hf
    rw [IrModule.missing, map_eq_nil_iff, filter_eq_nil_iff] at hm
    exact hm function (mem_of_getElem? hf) (by simp [hx, hb])
  rw [Array.toList_setIfInBounds, ← hmore, set_append_right _ _ hle]
  exact prefix_append ..

end ModuleBuilder

namespace Compilation

variable {builder builder' after after' : ModuleBuilder} {bodies : List (FuncId × FunctionBody)}
variable {compilation compilation' : Compilation}

theorem define_cons {id : FuncId} {body : FunctionBody} : define ((id, body) :: bodies) builder = .ok after ↔
    ∃ next, builder.define id body = .ok (.ok (), next) ∧ define bodies next = .ok after := by
  rw [define, bind_eq_ok]
  constructor
  · rintro ⟨result, hresult, h⟩
    split at h
    · exact ⟨_, hresult, h⟩
    all_goals cases h
  · rintro ⟨next, hnext, h⟩
    exact ⟨_, hnext, h⟩

theorem define_partOf (hp : builder.mod.PartOf builder'.mod) (h : define bodies builder = .ok after) :
    ∃ after', define bodies builder' = .ok after' ∧ after.mod.PartOf after'.mod := by
  induction bodies generalizing builder builder' with
  | nil =>
    cases h
    exact ⟨builder', rfl, hp⟩
  | cons p rest ih =>
    obtain ⟨next, hnext, h⟩ := define_cons.mp h
    obtain ⟨next', hnext', hp⟩ := ModuleBuilder.define_partOf hp hnext
    obtain ⟨after', hafter', hp⟩ := ih hp h
    exact ⟨after', define_cons.mpr ⟨next', hnext', hafter'⟩, hp⟩

theorem define_further (hp : mod.PartOf builder.mod) (hm : mod.missing = []) (h : define bodies builder = .ok after) :
    mod.PartOf after.mod := by
  induction bodies generalizing builder with
  | nil =>
    cases h
    exact hp
  | cons p rest ih =>
    obtain ⟨next, hnext, h⟩ := define_cons.mp h
    exact ih (ModuleBuilder.define_further hp hm hnext) h

/-! ## Units -/

theorem addUnits_cons {source : SourceUnit} {index : Nat} {rest : List (SourceUnit × Nat)}
    (h : addUnits ((source, index) :: rest) compilation = .ok ([], compilation')) : ∃ next,
      compilation.addUnit ⟨index⟩ source = .ok ([], next) ∧ addUnits rest next = .ok ([], compilation') := by
  simp only [addUnits, bind_eq_ok, pure_eq_ok, Prod.mk.injEq, append_eq_nil_iff] at h
  obtain ⟨⟨found, next⟩, hadd, ⟨others, last⟩, hrest, ⟨rfl, rfl⟩, rfl⟩ := h
  exact ⟨next, hadd, hrest⟩

theorem addUnits_append {more : List (SourceUnit × Nat)}
    (h : addUnits (sources ++ more) compilation = .ok ([], compilation')) : ∃ next,
      addUnits sources compilation = .ok ([], next) ∧ addUnits more next = .ok ([], compilation') := by
  induction sources generalizing compilation with
  | nil => exact ⟨compilation, rfl, h⟩
  | cons p rest ih =>
    obtain ⟨next, hadd, h⟩ := addUnits_cons h
    obtain ⟨last, hrest, hmore⟩ := ih h
    refine ⟨last, ?_, hmore⟩
    simp only [addUnits, hadd, hrest, bind, Except.bind]
    rfl

end Compilation

/-- The first units are compiled in the same way among others. -/
theorem Declared.addUnits_partOf (h : Declared moduleName units decls declaring)
    (h' : Declared moduleName units' decls' declaring') (hp : decls.PartOf decls') (hd : declaring.PartOf declaring')
    (hs : ∀ p ∈ sources, p.2 < units.length) {builder builder' : ModuleBuilder}
    (hb : builder.mod.PartOf builder'.mod) {compilation' : Compilation}
    (hrun : Compilation.addUnits sources ⟨decls, some declaring.items, builder⟩ = .ok ([], compilation))
    (hrun' : Compilation.addUnits sources ⟨decls', some declaring'.items, builder'⟩ = .ok ([], compilation')) :
    compilation'.decls = decls' ∧ compilation'.items = some declaring'.items ∧
      compilation.builder.mod.PartOf compilation'.builder.mod := by
  induction sources generalizing builder builder' with
  | nil =>
    cases hrun
    cases hrun'
    exact ⟨rfl, rfl, hb⟩
  | cons p rest ih =>
    obtain ⟨source, index⟩ := p
    obtain ⟨next, hadd, hrun⟩ := Compilation.addUnits_cons hrun
    obtain ⟨next', hadd', hrun'⟩ := Compilation.addUnits_cons hrun'
    obtain ⟨checked, bodies, after, hcheck, hlower, hdefine, rfl⟩ := Compilation.addUnit_accepted hadd
    obtain ⟨checked', bodies', after', hcheck', hlower', hdefine', rfl⟩ := Compilation.addUnit_accepted hadd'
    have hindex : index < decls.index.units.size := by
      rw [h.wellFormed.unitNames]
      simpa using hs _ (.head _)
    obtain ⟨hchecked, hrefers⟩ := checkUnit_partOf hp h.wellFormed.sound hindex h'.toCollected.errorsOf_eq_nil hcheck
    obtain rfl : checked = checked' := Except.ok.inj (Except.ok.inj (hchecked.symm.trans hcheck'))
    obtain rfl : bodies = bodies' := Except.ok.inj ((h.lower_partOf h' hp hd hrefers hlower).symm.trans hlower')
    obtain ⟨found, hfound, hb⟩ := Compilation.define_partOf hb hdefine
    obtain rfl : found = after' := Except.ok.inj (hfound.symm.trans hdefine')
    exact ih (fun p hp => hs p (.tail _ hp)) hb hrun hrun'

/-- Further units leave a module in which no body is missing. -/
theorem Compilation.addUnits_further (hm : mod.missing = []) {items : ItemMap} {builder : ModuleBuilder}
    (hb : mod.PartOf builder.mod) (hrun : addUnits sources ⟨decls, some items, builder⟩ = .ok ([], compilation)) :
    mod.PartOf compilation.builder.mod := by
  induction sources generalizing builder with
  | nil =>
    cases hrun
    exact hb
  | cons p rest ih =>
    obtain ⟨next, hadd, hrun⟩ := addUnits_cons hrun
    obtain ⟨checked, bodies, after, -, -, hdefine, rfl⟩ := addUnit_accepted hadd
    exact ih (define_further hb hm hdefine) hrun

/-- A compilation that gives a module has declared all items, added the bodies of all units without a
report and found none missing. -/
theorem compile_eq_ok (h : compile moduleName units = .ok (.ok mod)) :
    ∃ decls declaring compilation, Declared moduleName units decls declaring ∧
      Compilation.addUnits units.zipIdx ⟨decls, some declaring.items, declaring.builder⟩ = .ok ([], compilation) ∧
      compilation.builder.mod = mod ∧ mod.missing = [] := by
  simp only [compile, bind_eq_ok] at h
  obtain ⟨⟨compilation, clashes⟩, hstart, ⟨diagnostics, compilation'⟩, hunits, h⟩ := h
  split at h
  · rename_i hnone
    obtain ⟨rfl, rfl⟩ := append_eq_nil_iff.mp hnone
    obtain ⟨hcollect, -, ⟨-, herrors | hne⟩ | ⟨-, declaring, hd, hsome, hbuilder⟩⟩ := Compilation.start_clashes hstart
    · obtain ⟨reports, hreports, hflat⟩ := Compilation.addUnits_reports hunits
      obtain ⟨report, hr, hne⟩ := exists_report_ne_nil hcollect herrors (hreports.imp fun _ _ h => h.1)
      exact absurd (flatten_eq_nil_iff.mp hflat.symm report hr) hne
    · exact absurd rfl hne
    · refine ⟨compilation.decls, declaring, compilation', hd, by rw [← hsome, ← hbuilder]; exact hunits, ?_⟩
      cases hmissing : compilation'.builder.mod.missing with
      | nil =>
        simp only [Compilation.finish, ModuleBuilder.finish, hmissing] at h
        cases h
        exact ⟨rfl, hmissing⟩
      | cons name rest =>
        simp only [Compilation.finish, ModuleBuilder.finish, hmissing] at h
        cases h
  · cases h

/-- The layouts, globals and functions of a module, with their bodies, start those of a module that is
compiled from the same units and others behind them. -/
theorem compile_append {more : List SourceUnit} {mod mod' : IrModule}
    (h : compile moduleName units = .ok (.ok mod)) (h' : compile moduleName (units ++ more) = .ok (.ok mod')) :
    mod.structs.toList <+: mod'.structs.toList ∧ mod.globals.toList <+: mod'.globals.toList ∧
      mod.functions.toList <+: mod'.functions.toList := by
  obtain ⟨decls, declaring, compilation, hd, hrun, rfl, hmissing⟩ := compile_eq_ok h
  obtain ⟨decls', declaring', compilation', hd', hrun', rfl, -⟩ := compile_eq_ok h'
  have hp := Declarations.collect_partOf hd.collected hd.clean hd'.collected
  have hdeclaring := ItemMap.declareAll_partOf hp hd.wellFormed hd'.wellFormed hd.declared hd.apart hd'.declared hd'.apart
  rw [List.zipIdx_append] at hrun'
  obtain ⟨⟨_, _, builder⟩, hfirst, hfurther⟩ := Compilation.addUnits_append hrun'
  have hstart : declaring.builder.mod.PartOf declaring'.builder.mod :=
    ⟨hdeclaring.structs, hdeclaring.globals, hdeclaring.functions⟩
  obtain ⟨rfl, rfl, hpart⟩ := hd.addUnits_partOf hd' hp hdeclaring
    (fun p hp => (List.getElem?_eq_some_iff.mp (List.mk_mem_zipIdx_iff_getElem?.mp hp)).1) hstart hrun hfirst
  have hall := Compilation.addUnits_further hmissing hpart hfurther
  exact ⟨hall.structs, hall.globals, hall.functions⟩

/-- A second unit with a loop of its own, which shares the external function. -/
theorem compile_append_countdown : ∃ mod mod',
    compile "m" [Countdown.program] = .ok (.ok mod) ∧
    compile "m" ([Countdown.program] ++ [{ Countdown.program with name := "n" }]) = .ok (.ok mod') ∧
    mod'.functions.size = 3 ∧ mod.functions.toList <+: mod'.functions.toList := by
  have hfirst : ((compile "m" [Countdown.program]).toOption.any fun result =>
      result.toOption.any fun _ => true) = true := by decide +kernel
  have hboth : ((compile "m" ([Countdown.program] ++ [{ Countdown.program with name := "n" }])).toOption.any
      fun result => result.toOption.any fun mod => decide (mod.functions.size = 3)) = true := by decide +kernel
  obtain ⟨result, hcompile, hfirst⟩ := exists_ok hfirst
  obtain ⟨mod, rfl, -⟩ := exists_ok hfirst
  obtain ⟨result, hcompile', hboth⟩ := exists_ok hboth
  obtain ⟨mod', rfl, hsize⟩ := exists_ok hboth
  exact ⟨mod, mod', hcompile, hcompile', of_decide_eq_true hsize, (compile_append hcompile hcompile').2.2⟩

end SsaCompiler
