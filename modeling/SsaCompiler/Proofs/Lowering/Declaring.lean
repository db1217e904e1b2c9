import Mathlib.Data.List.Induction
import SsaCompiler.Proofs.Ir.Modules
import SsaCompiler.Proofs.Lowering.Items

/-!
# Declaring the items of a module

What is in a module after all items were declared without a clash. The functions of the module are
one entry for each declared function, in order, except that an external function whose symbol and
signature an earlier one has shares the entry of that one (`ItemMap.Declaring.Ok`). Then the map of
items says where the items stand (`ItemMap.declareAll_ok`).
-/

namespace SsaCompiler

open List
open ModuleBuilder (new)

/-! ## Entries of functions -/

namespace IrFunction

/-- An external function is declared again, with its symbol and its signature. -/
def repeats (function : IrFunction) (before : List IrFunction) : Bool :=
  function.isExternal && before.any fun f =>
    f.isExternal && f.symbol = function.symbol && f.sig = function.sig

/-- Functions without those that are declared again. -/
def withoutRepeats (functions : List IrFunction) : List IrFunction :=
  functions.foldl (fun kept function => if function.repeats kept then kept else kept ++ [function]) []

variable {functions : List IrFunction} {function : IrFunction}

theorem withoutRepeats_append : withoutRepeats (functions ++ [function]) =
      if function.repeats (withoutRepeats functions) then withoutRepeats functions
      else withoutRepeats functions ++ [function] := by
  unfold withoutRepeats
  rw [foldl_append]
  rfl

theorem mem_of_mem_withoutRepeats (h : function ∈ withoutRepeats functions) : function ∈ functions := by
  induction functions using List.reverseRecOn with
  | nil => exact h
  | append_singleton functions last ih =>
    rw [withoutRepeats_append] at h
    split at h
    · exact mem_append_left _ (ih h)
    · rcases mem_append.mp h with h | h
      · exact mem_append_left _ (ih h)
      · exact mem_append_right _ h

end IrFunction

/-- The link symbol of a function of a signature: the one it asks for, else that of its name. -/
def FunctionItem.symbol (item : FunctionItem) (builder : ModuleBuilder) (sig : FunctionSig) : String :=
  if item.isExternal then item.linkName.getD (Name.lastSegment item.name)
  else item.linkName.getD (builder.symbolOf item.name sig)

/-- The entry of a declared function, still without a body. -/
structure FunctionItem.Entry (item : FunctionItem) (items : ItemMap) (builder : ModuleBuilder)
    (function : IrFunction) : Prop where
  name : function.name = item.name
  sig : items.lowerSig item.params item.result item.varargs = .ok function.sig
  symbol : function.symbol = item.symbol builder function.sig
  isExternal : function.isExternal = item.isExternal
  body : function.body = none

namespace ItemMap

variable {items items' : ItemMap}
variable {f : FunctionItem} {α : Type}
variable {step : Declaring → α → Except Fault Declaring} {builder builder' : ModuleBuilder} {function : IrFunction}

theorem lowerType_congr (h : items.layouts = items'.layouts) (type : Ty) :
    items.lowerType type = items'.lowerType type := by cases type <;> simp [lowerType, layout, h]

theorem lowerSig_congr (h : items.layouts = items'.layouts) {params : List Ty} {result : Ty} {varargs : Bool} :
    items.lowerSig params result varargs = items'.lowerSig params result varargs := by
  have he : items.lowerType = items'.lowerType := funext (lowerType_congr h)
  simp [lowerSig, he]

/-! ## Structs -/

theorem declareStructs_ok {structs : List StructDef} (h : items.declareStructs structs builder = .ok builder') :
    ∃ layouts : List StructLayout,
      builder'.mod = { builder.mod with structs := builder.mod.structs ++ layouts.toArray } ∧
      builder'.names = builder.names ∧ builder'.symbols = builder.symbols ∧ (builder.Indexed → builder'.Indexed) ∧
      Forall₂ (fun struct layout => layout.name = struct.name ∧
        Forall₂ (fun field type => items.lowerType field.type = .ok type) struct.fields layout.fields)
        structs layouts := by
  induction structs generalizing builder with
  | nil =>
    cases h
    exact ⟨[], by simp, rfl, rfl, id, .nil⟩
  | cons struct rest ih =>
    simp only [declareStructs, bind_eq_ok] at h
    obtain ⟨fields, hf, h⟩ := h
    have ha := builder.attempt_declareStruct struct.name fields
    generalize builder.declareStruct struct.name fields = result at ha h
    cases ha with
    | made hfree =>
      obtain ⟨layouts, hmod, hnames, hsymbols, hindexed, hl⟩ := ih h
      refine ⟨⟨struct.name, fields⟩ :: layouts, ?_, hnames, hsymbols, fun hi => hindexed (hi.withStruct hfree),
        .cons ⟨rfl, mapM_eq_ok hf⟩ hl⟩
      rw [hmod]
      simp [ModuleBuilder.withStruct]
    | refused => cases h

/-! ## Globals and functions -/

/-- Some globals and functions are declared. -/
structure Declaring.Ok (layouts : List LayoutId) (structs : Array StructLayout) (gs : List GlobalItem)
    (fs : List FunctionItem) (p : Declaring) : Prop where
  layouts : p.items.layouts = layouts
  structs : p.builder.mod.structs = structs
  indexed : p.builder.Indexed
  entries : ∃ entries, Forall₂ (fun f function => f.Entry p.items p.builder function) fs entries ∧
    p.builder.mod.functions.toList = IrFunction.withoutRepeats entries
  functions : ∀ f ∈ fs, ∃ id function, p.items.functions.get? f.binding = some id ∧
    p.builder.mod.functions[id.index]? = some function ∧ function.isExternal = f.isExternal ∧
    p.items.lowerSig f.params f.result f.varargs = .ok function.sig
  globals : ∀ g ∈ gs, ∃ id global, p.items.globals.get? g.binding = some id ∧
    p.builder.mod.globals[id.index]? = some global ∧ p.items.lowerType g.type = .ok global.type
  onlyFunctions : ∀ {binding : BindingId} {id : FuncId}, p.items.functions.get? binding = some id →
    ∃ f ∈ fs, f.binding = binding
  onlyGlobals : ∀ {binding : BindingId} {id : GlobalId}, p.items.globals.get? binding = some id →
    ∃ g ∈ gs, g.binding = binding
  apart : ∀ f ∈ fs, ∀ f' ∈ fs, f.isExternal = false → p.items.functions.get? f.binding =
    p.items.functions.get? f'.binding → f = f'
  covered : ∀ i < p.builder.mod.functions.size, ∃ f ∈ fs, p.items.functions.get? f.binding = some ⟨i⟩

variable {layouts : List LayoutId} {structs : Array StructLayout} {gs : List GlobalItem} {fs : List FunctionItem}
  {p p' : Declaring} {g : GlobalItem} {xs : List α}

theorem entry_congr (hl : p.items.layouts = p'.items.layouts) (hs : p.builder.mod.structs = p'.builder.mod.structs)
    (h : f.Entry p.items p.builder function) : f.Entry p'.items p'.builder function :=
  ⟨h.name, (lowerSig_congr hl ..).symm.trans h.sig, h.symbol.trans
    (by simp [FunctionItem.symbol, ModuleBuilder.symbolOf, hs]), h.isExternal, h.body⟩

theorem declareGlobal_ok (h : declareGlobal p g = .ok p') (he : p'.errors = []) :
    p.errors = [] ∧ ∃ type, p.items.lowerType g.type = .ok type ∧
      p'.items = { p.items with globals := p.items.globals.insert g.binding ⟨p.builder.mod.globals.size⟩ } ∧
      p'.builder.mod = { p.builder.mod with
        globals := p.builder.mod.globals.push ⟨g.name, LinkSymbol.ofText g.name, type, globalInit g.type g.init⟩ } ∧
      (p.builder.Indexed → p'.builder.Indexed) := by
  simp only [declareGlobal, bind_eq_ok] at h
  obtain ⟨type, ht, h⟩ := h
  have ha := p.builder.attempt_declareGlobal g.name type (globalInit g.type g.init)
  generalize p.builder.declareGlobal g.name type (globalInit g.type g.init) = result at ha h
  cases ha with
  | made hfree =>
    cases h
    exact ⟨he, type, ht, rfl, rfl, fun hi => hi.withGlobal hfree.1 hfree.2⟩
  | refused =>
    cases h
    simp at he

/-- What comes of declaring a function in the module. -/
theorem declareFunction_cases (h : declareFunction p f = .ok p') : ∃ sig,
    p.items.lowerSig f.params f.result f.varargs = .ok sig ∧
    ((∃ error, p' = { p with errors := p.errors ++ [⟨.duplicate error, f.unit, f.span⟩] }) ∨
      p'.errors = p.errors ∧ ∃ id, p'.items = { p.items with functions := p.items.functions.insert f.binding id } ∧
        if f.isExternal then p.builder.ExternalAttempt f.name sig (f.symbol p.builder sig) (.ok id, p'.builder)
        else (f.name ∉ p.builder.names ∧ f.symbol p.builder sig ∉ p.builder.symbols) ∧
          id = ⟨p.builder.mod.functions.size⟩ ∧
          p'.builder = p.builder.withFunction ⟨f.name, f.symbol p.builder sig, sig, false, none⟩) := by
  simp only [declareFunction, bind_eq_ok] at h
  obtain ⟨sig, hsig, result, hresult, h⟩ := h
  refine ⟨sig, hsig, ?_⟩
  cases hx : f.isExternal with
  | true =>
    simp only [enterFunction, hx, if_true] at hresult
    have ha := ModuleBuilder.attempt_declareExternal hresult
    rw [show f.symbol p.builder sig = f.linkName.getD (Name.lastSegment f.name) by simp [FunctionItem.symbol, hx]]
    obtain ⟨_ | id, builder⟩ := result
    · cases ha
      cases h
      exact .inl ⟨_, rfl⟩
    · cases h
      exact .inr ⟨rfl, id, rfl, ha⟩
  | false =>
    have hadd : p.builder.addFunction f.name (f.symbol p.builder sig) sig false = result := by
      cases hlink : f.linkName <;> simpa [enterFunction, ModuleBuilder.newFunction,
        ModuleBuilder.newFunctionWithSymbol, hx, hlink, FunctionItem.symbol] using hresult
    have ha := p.builder.attempt_addFunction f.name (f.symbol p.builder sig) sig false
    rw [hadd] at ha
    cases ha with
    | made hfree =>
      cases h
      exact .inr ⟨rfl, _, rfl, hfree, rfl, rfl⟩
    | refused =>
      cases h
      exact .inl ⟨_, rfl⟩

/-- A function is declared, with an entry of its own or with that of an earlier one, or it is an
error. -/
theorem declareFunction_ok (h : declareFunction p f = .ok p') (he : p'.errors = []) :
    p.errors = [] ∧ ∃ id function, p'.items = { p.items with functions := p.items.functions.insert f.binding id } ∧
      f.Entry p.items p.builder function ∧ (p.builder.Indexed → p'.builder.Indexed) ∧
      ((f.isExternal = true → p.builder.externals.get? function.symbol = none) ∧
          id.index = p.builder.mod.functions.size ∧
          p'.builder.mod = { p.builder.mod with functions := p.builder.mod.functions.push function } ∨
        f.isExternal = true ∧ p'.builder.mod = p.builder.mod ∧ p.builder.externals.get? function.symbol = some id ∧
          ∃ shared, p.builder.mod.functions[id.index]? = some shared ∧ shared.sig = function.sig) := by
  obtain ⟨sig, hsig, ⟨error, rfl⟩ | ⟨herrors, id, hitems, hcase⟩⟩ := declareFunction_cases h
  · simp at he
  refine ⟨herrors ▸ he, id, ⟨f.name, f.symbol p.builder sig, sig, f.isExternal, none⟩, hitems,
    ⟨rfl, hsig, rfl, rfl, rfl⟩, ?_⟩
  split at hcase
  · rename_i hx
    rw [hx]
    generalize p'.builder = after at hcase
    cases hcase with
    | new unknown hfree => exact ⟨fun hi => hi.withFunction hfree.1 hfree.2, .inl ⟨fun _ => unknown, rfl, rfl⟩⟩
    | shared known found same => exact ⟨fun hi => hi.withName, .inr ⟨rfl, rfl, known, _, found, same⟩⟩
  · rename_i hx
    obtain ⟨hfree, rfl, hbuilder⟩ := hcase
    rw [hbuilder, Bool.eq_false_iff.mpr hx]
    exact ⟨fun hi => hi.withFunction hfree.1 hfree.2, .inl ⟨by simp, rfl, rfl⟩⟩

theorem Declaring.Ok.withGlobal (h : p.Ok layouts structs gs fs) (hg : declareGlobal p g = .ok p')
    (he : p'.errors = []) (hn : ∀ g' ∈ gs, g'.binding ≠ g.binding) : p'.Ok layouts structs (gs ++ [g]) fs := by
  obtain ⟨-, type, ht, hitems, hmod, hindexed⟩ := declareGlobal_ok hg he
  have hlayouts : p.items.layouts = p'.items.layouts := by rw [hitems]
  have hstructs : p.builder.mod.structs = p'.builder.mod.structs := by rw [hmod]
  have hfunctions : p'.builder.mod.functions = p.builder.mod.functions := by rw [hmod]
  have hmap : p'.items.functions = p.items.functions := by rw [hitems]
  have hglobals : p'.items.globals = p.items.globals.insert g.binding ⟨p.builder.mod.globals.size⟩ := by rw [hitems]
  have hpushed : p'.builder.mod.globals = p.builder.mod.globals.push
    ⟨g.name, LinkSymbol.ofText g.name, type, globalInit g.type g.init⟩ := by rw [hmod]
  exact {
    layouts := hlayouts ▸ h.layouts
    structs := hstructs ▸ h.structs
    indexed := hindexed h.indexed
    entries := by
      obtain ⟨entries, hall, hlist⟩ := h.entries
      exact ⟨entries, hall.imp fun _ _ => entry_congr hlayouts hstructs, by rw [hfunctions]; exact hlist⟩
    functions := fun f hf => by
      rw [hmap, hfunctions, ← lowerSig_congr hlayouts]
      exact h.functions f hf
    globals := fun g' hg' => by
      rw [hglobals, hpushed, ← lowerType_congr hlayouts]
      rcases mem_append.mp hg' with hg' | hg'
      · obtain ⟨id', global', hget, hat, htype⟩ := h.globals g' hg'
        refine ⟨id', global', ?_, ?_, htype⟩
        · rw [Table.get?_insert_of_ne _ (hn g' hg')]
          exact hget
        · rw [Array.getElem?_push, if_neg (Nat.ne_of_lt (lt_of_getElem? hat))]
          exact hat
      · obtain rfl := mem_singleton.mp hg'
        exact ⟨_, _, Table.get?_insert_self .., Array.getElem?_push_size, ht⟩
    onlyFunctions := fun {binding id'} hget => by
      rw [hmap] at hget
      exact h.onlyFunctions hget
    onlyGlobals := fun {binding id'} hget => by
      rw [hglobals, Table.get?_insert] at hget
      split at hget
      · rename_i hb
        exact ⟨g, by simp, hb.symm⟩
      · obtain ⟨g', hg', hb⟩ := h.onlyGlobals hget
        exact ⟨g', mem_append_left _ hg', hb⟩
    apart := by
      rw [hmap]
      exact h.apart
    covered := by
      rw [hmap, hfunctions]
      exact h.covered }

theorem Declaring.Ok.entries_push (h : p.Ok layouts structs gs fs) (hentry : f.Entry p.items p.builder function)
    {functions : List IrFunction}
    (hfunctions : functions = if function.repeats p.builder.mod.functions.toList then
      p.builder.mod.functions.toList else p.builder.mod.functions.toList ++ [function]) :
    ∃ entries, Forall₂ (fun f function => f.Entry p.items p.builder function) (fs ++ [f]) entries ∧
      functions = IrFunction.withoutRepeats entries := by
  obtain ⟨entries, hall, hlist⟩ := h.entries
  refine ⟨entries ++ [function], rel_append hall (.cons hentry .nil), ?_⟩
  rw [IrFunction.withoutRepeats_append, ← hlist]
  exact hfunctions

/-- The module keeps what it has and has an entry for one more function, which is its own if it has a
body. -/
structure Declaring.Adds (p p' : Declaring) (fs : List FunctionItem) (f : FunctionItem) (id : FuncId)
    (function : IrFunction) : Prop where
  structs : p'.builder.mod.structs = p.builder.mod.structs
  globals : p'.builder.mod.globals = p.builder.mod.globals
  indexed : p'.builder.Indexed
  kept : ∀ (i : Nat) (old : IrFunction), p.builder.mod.functions[i]? = some old →
    p'.builder.mod.functions[i]? = some old
  found : ∃ found, p'.builder.mod.functions[id.index]? = some found ∧ found.isExternal = f.isExternal ∧
    found.sig = function.sig
  list : p'.builder.mod.functions.toList = if function.repeats p.builder.mod.functions.toList then
    p.builder.mod.functions.toList else p.builder.mod.functions.toList ++ [function]
  fresh : ∀ f' ∈ fs, f.isExternal = false ∨ f'.isExternal = false → p.items.functions.get? f'.binding ≠ some id
  new : ∀ i < p'.builder.mod.functions.size, i < p.builder.mod.functions.size ∨ id.index = i

theorem Declaring.Ok.adds (h : p.Ok layouts structs gs fs)
    (hf : declareFunction p f = .ok p') (he : p'.errors = []) : ∃ id function,
      p'.items = { p.items with functions := p.items.functions.insert f.binding id } ∧
      f.Entry p.items p.builder function ∧ p.Adds p' fs f id function := by
  obtain ⟨-, id, function, hitems, hentry, hindexed, hcase⟩ := declareFunction_ok hf he
  refine ⟨id, function, hitems, hentry, ?_⟩
  rcases hcase with ⟨hnone, hid, hmod⟩ | ⟨hext, hmod, hknown, shared, hget, hsig⟩
  · have hfunctions : p'.builder.mod.functions = p.builder.mod.functions.push function := by rw [hmod]
    have hrepeats : function.repeats p.builder.mod.functions.toList = false := by
      rw [Bool.eq_false_iff]
      intro hr
      simp only [IrFunction.repeats, Bool.and_eq_true, any_eq_true, decide_eq_true_eq] at hr
      obtain ⟨hx, earlier, hm, ⟨hex, hes⟩, -⟩ := hr
      exact h.indexed.not_external (hnone (hentry.isExternal ▸ hx)) hm ⟨hex, hes⟩
    refine ⟨by rw [hmod], by rw [hmod], hindexed h.indexed, fun i old hi => ?_,
      ⟨function, ?_, hentry.isExternal, rfl⟩, ?_, ?_, ?_⟩
    · rw [hfunctions, Array.getElem?_push, if_neg (Nat.ne_of_lt (lt_of_getElem? hi))]
      exact hi
    · rw [hfunctions, hid]
      exact Array.getElem?_push_size
    · simp [hfunctions, hrepeats]
    · intro f' hf' _ hget
      obtain ⟨id', function', hget', hat, -⟩ := h.functions f' hf'
      rw [hget] at hget'
      cases hget'
      exact Nat.ne_of_lt (lt_of_getElem? hat) hid
    · intro i hi
      rw [hfunctions, Array.size_push] at hi
      omega
  · obtain ⟨_, hfound, hsext, hsym⟩ := h.indexed.function_of_externals hknown
    cases hget.symm.trans hfound
    have hrepeats : function.repeats p.builder.mod.functions.toList = true := by
      simp only [IrFunction.repeats, Bool.and_eq_true, any_eq_true, decide_eq_true_eq]
      exact ⟨hentry.isExternal.trans hext, shared, Array.mem_toList_iff.mpr (Array.mem_of_getElem? hget),
        ⟨hsext, hsym⟩, hsig⟩
    refine ⟨by rw [hmod], by rw [hmod], hindexed h.indexed, fun i old hi => by rw [hmod]; exact hi,
      ⟨shared, by rw [hmod]; exact hget, hsext.trans hext.symm, hsig⟩, by simp [hmod, hrepeats], ?_,
      fun i hi => .inl (by rw [hmod] at hi; exact hi)⟩
    intro f' hf' hno hf'get
    obtain ⟨id', function', hget', hat, hx, -⟩ := h.functions f' hf'
    rw [hf'get] at hget'
    cases hget'
    rw [hget] at hat
    cases hat
    rw [hext, ← hx, hsext] at hno
    simp at hno

theorem Declaring.Ok.withFunction (h : p.Ok layouts structs gs fs) (hf : declareFunction p f = .ok p')
    (he : p'.errors = []) (hn : ∀ f' ∈ fs, f'.binding ≠ f.binding) : p'.Ok layouts structs gs (fs ++ [f]) := by
  obtain ⟨id, function, hitems, hentry, hadds⟩ := h.adds hf he
  have hlayouts : p.items.layouts = p'.items.layouts := by rw [hitems]
  have hglobals : p'.items.globals = p.items.globals := by rw [hitems]
  have hmap : p'.items.functions = p.items.functions.insert f.binding id := by rw [hitems]
  have hother : ∀ f' ∈ fs, p'.items.functions.get? f'.binding = p.items.functions.get? f'.binding := fun f' hf' => by
    rw [hmap, Table.get?_insert_of_ne _ (hn f' hf')]
  have hself : p'.items.functions.get? f.binding = some id := by
    rw [hmap]
    exact Table.get?_insert_self ..
  exact {
    layouts := hlayouts ▸ h.layouts
    structs := hadds.structs.trans h.structs
    indexed := hadds.indexed
    entries := by
      obtain ⟨entries, hall, he⟩ := h.entries_push hentry hadds.list
      exact ⟨entries, hall.imp fun _ _ => entry_congr hlayouts hadds.structs.symm, he⟩
    functions := fun f' hf' => by
      rw [← lowerSig_congr hlayouts]
      rcases mem_append.mp hf' with hf' | hf'
      · obtain ⟨id', function', hget, hat, hx, hsig⟩ := h.functions f' hf'
        exact ⟨id', function', (hother f' hf').trans hget, hadds.kept _ _ hat, hx, hsig⟩
      · obtain rfl := mem_singleton.mp hf'
        obtain ⟨found, hfound, hx, hsig⟩ := hadds.found
        exact ⟨id, found, hself, hfound, hx, hsig ▸ hentry.sig⟩
    globals := fun g hg => by
      rw [hglobals, hadds.globals, ← lowerType_congr hlayouts]
      exact h.globals g hg
    onlyFunctions := fun {binding id'} hget => by
      rw [hmap, Table.get?_insert] at hget
      split at hget
      · rename_i hb
        exact ⟨f, by simp, hb.symm⟩
      · obtain ⟨f', hf', hb⟩ := h.onlyFunctions hget
        exact ⟨f', mem_append_left _ hf', hb⟩
    onlyGlobals := fun {binding id'} hget => by
      rw [hglobals] at hget
      exact h.onlyGlobals hget
    apart := fun f1 hf1 f2 hf2 hx heq => by
      rcases mem_append.mp hf1 with hm1 | hm1 <;> rcases mem_append.mp hf2 with hm2 | hm2
      · rw [hother f1 hm1, hother f2 hm2] at heq
        exact h.apart f1 hm1 f2 hm2 hx heq
      · obtain rfl := mem_singleton.mp hm2
        rw [hself, hother f1 hm1] at heq
        exact absurd heq (hadds.fresh f1 hm1 (.inr hx))
      · obtain rfl := mem_singleton.mp hm1
        rw [hself, hother f2 hm2] at heq
        exact absurd heq.symm (hadds.fresh f2 hm2 (.inl hx))
      · exact (mem_singleton.mp hm1).trans (mem_singleton.mp hm2).symm
    covered := fun i hi => by
      rcases hadds.new i hi with hi | hi
      · obtain ⟨f', hf', hget⟩ := h.covered i hi
        exact ⟨f', mem_append_left _ hf', (hother f' hf').trans hget⟩
      · exact ⟨f, by simp, hi ▸ hself⟩ }

theorem ne_of_nodup_append {key : α → BindingId} {before rest : List α} {x : α}
    (h : ((before ++ x :: rest).map key).Nodup) : ∀ y ∈ before, key y ≠ key x := by
  intro y hy he
  rw [map_append, nodup_append] at h
  exact h.2.2 _ (mem_map_of_mem hy) _ (mem_map_of_mem (.head _)) he

theorem declareGlobal_errors (p p' : Declaring) (g : GlobalItem) (h : declareGlobal p g = .ok p')
    (he : p'.errors = []) : p.errors = [] :=
  (declareGlobal_ok h he).1

theorem declareFunction_errors (p p' : Declaring) (f : FunctionItem) (h : declareFunction p f = .ok p')
    (he : p'.errors = []) : p.errors = [] :=
  (declareFunction_ok h he).1

theorem errors_of_declareEach (herrors : ∀ p p' x, step p x = .ok p' → p'.errors = [] → p.errors = [])
    (hf : xs.foldlM step p = .ok p') (he : p'.errors = []) : p.errors = [] := by
  induction xs generalizing p with
  | nil =>
    cases hf
    exact he
  | cons x rest ih =>
    rw [foldlM_cons, bind_eq_ok] at hf
    obtain ⟨p1, hx, hrest⟩ := hf
    exact herrors _ _ _ hx (ih hrest)

/-- Declaring one item after another without a clash keeps what each one keeps. -/
theorem declareEach_ok (key : α → BindingId) (Inv : List α → Declaring → Prop)
    (herrors : ∀ p p' x, step p x = .ok p' → p'.errors = [] → p.errors = [])
    (hstep : ∀ {p p' x before}, Inv before p → step p x = .ok p' → p'.errors = [] →
      (∀ y ∈ before, key y ≠ key x) → Inv (before ++ [x]) p')
    (h : Inv [] p) (hf : xs.foldlM step p = .ok p') (he : p'.errors = []) (hn : (xs.map key).Nodup) : Inv xs p' := by
  refine foldlM_keeps (fun before p => p.errors = [] → (before.map key).Nodup → Inv before p) ?_
    (fun _ _ => h) hf he hn
  intro before x p p' hinv hx he hn
  have hbefore : (before.map key).Nodup := by
    rw [map_append] at hn
    exact hn.of_append_left
  exact hstep (hinv (herrors _ _ _ hx he) hbefore) hx he (ne_of_nodup_append hn)

/-- After all items were declared without a clash, the map of items says where they stand in the
module. -/
theorem declareAll_ok {units : List SourceUnit} {decls : Declarations} {name : String} (hw : decls.WellFormed units)
    (h : declareAll decls (.new name) = .ok p) (he : p.errors = []) : p.items.Realizes decls p.builder.mod ∧
      p.Ok p.items.layouts p.builder.mod.structs decls.globals.toList decls.functions.toList := by
  simp only [declareAll, bind_eq_ok] at h
  obtain ⟨builder, hstructs, p1, hglobals, hfunctions⟩ := h
  obtain ⟨layouts, hmod, -, -, hindexed, hall⟩ := declareStructs_ok hstructs
  have hstart : ∀ items : ItemMap, items.functions = .empty → items.globals = .empty →
      Declaring.Ok items.layouts builder.mod.structs [] [] ⟨builder, items, []⟩ := by
    intro items hf hg
    refine ⟨rfl, rfl, hindexed .new, ⟨[], .nil, ?_⟩, by simp, by simp, ?_, ?_, by simp, ?_⟩
    · simp [hmod, new, IrFunction.withoutRepeats]
    · simp [hf]
    · simp [hg]
    · simp [hmod, new]
  have he1 := errors_of_declareEach declareFunction_errors hfunctions he
  have hok1 := declareEach_ok GlobalItem.binding (fun gs p => Declaring.Ok _ builder.mod.structs gs [] p)
    declareGlobal_errors (fun hok hx he hn => hok.withGlobal hx he hn)
    (hstart _ rfl rfl) hglobals he1 hw.globalBindings
  have hok := declareEach_ok FunctionItem.binding
    (fun fs p => Declaring.Ok _ builder.mod.structs decls.globals.toList fs p)
    declareFunction_errors (fun hok hx he hn => hok.withFunction hx he hn)
    hok1 hfunctions he hw.bindings
  have hbuilt : p.builder.mod.structs = layouts.toArray := by
    rw [hok.structs, hmod]
    simp [new]
  refine ⟨?_, hok.layouts ▸ hok.structs ▸ hok⟩
  exact {
    structs := fun {id struct} hs => by
      have hs : decls.structs.toList[id.index]? = some struct := Array.getElem?_toList ▸ hs
      obtain ⟨hi, rfl⟩ := List.getElem?_eq_some_iff.mp hs
      have hi' : id.index < layouts.length := hall.length_eq ▸ hi
      obtain ⟨-, hfields⟩ := hall.get hi hi'
      refine ⟨⟨id.index⟩, layouts[id.index].fields, ?_, ?_, ?_⟩
      · have hsize : id.index < decls.structs.size := by simpa using hi
        rw [layout, hok.layouts]
        simp [ModuleBuilder.nextLayout, new, hsize]
      · rw [IrModule.fields?, hbuilt]
        simp [hi']
      · refine Forall₂.imp (fun field type ht => ?_) hfields
        exact (lowerType_congr hok.layouts field.type).trans ht
    functions := fun f hf => by
      obtain ⟨id, function, hget, hat, -, hsig⟩ := hok.functions f hf
      exact ⟨id, function, hget, hat, hsig⟩
    globals := hok.globals
    onlyFunctions := hok.onlyFunctions
    onlyGlobals := hok.onlyGlobals }

end ItemMap

end SsaCompiler
