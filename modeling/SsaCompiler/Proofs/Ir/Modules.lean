import Mathlib.Data.List.Nodup
import SsaCompiler.Ir.Module
import SsaCompiler.Proofs.Steps
import SsaCompiler.Proofs.Table

/-!
# Building modules

Calls of a module builder one after another (`ModuleBuilder.Run`), each with what it answered. What a
call can do is said once (`ModuleBuilder.Step`, `step_of_call`); what holds of the builder after every
run follows from that. The sets that a builder keeps are those of its module
(`ModuleBuilder.Indexed`), and the module is what the answered calls made of it
(`ModuleBuilder.Consistent`). Names, link symbols and struct names stay apart, only external functions
of one symbol and one signature share an entry, a call that is refused changes nothing, and a module
can be finished exactly if every function that was reserved has been given its body
(`ModuleBuilder.run_sound`).
-/

namespace SsaCompiler

open List

namespace ModuleBuilder

variable {builder builder' : ModuleBuilder} {α : Type}
variable {name symbol : String} {sig : FunctionSig} {isExternal : Bool}

/-! ## Declarations -/

def withStruct (builder : ModuleBuilder) (layout : StructLayout) : ModuleBuilder :=
  { builder with
    mod := { builder.mod with structs := builder.mod.structs.push layout }
    structNames := layout.name :: builder.structNames }

/-- A builder with one more function, whose name and symbol are taken from now on. -/
def withFunction (builder : ModuleBuilder) (function : IrFunction) : ModuleBuilder :=
  { builder with
    mod := { builder.mod with functions := builder.mod.functions.push function }
    names := function.name :: builder.names
    symbols := function.symbol :: builder.symbols
    externals := if function.isExternal then
      builder.externals.insert function.symbol ⟨builder.mod.functions.size⟩ else builder.externals }

/-- A builder with one more global, whose name and symbol are taken from now on. -/
def withGlobal (builder : ModuleBuilder) (global : IrGlobal) : ModuleBuilder :=
  { builder with
    mod := { builder.mod with globals := builder.mod.globals.push global }
    names := global.name :: builder.names
    symbols := global.symbol :: builder.symbols }

/-- What comes of a declaration: it is made, or refused because something is taken, and then nothing is
changed. -/
inductive Attempt (builder : ModuleBuilder) (free : Prop) (answer : α) (after : ModuleBuilder) : ModuleResult α → Prop
  | made (h : free) : Attempt builder free answer after (.ok answer, after)
  | refused (h : ¬ free) (taken : String) : Attempt builder free answer after (.error (.duplicate taken), builder)

theorem attempt_claim (name symbol : String) : builder.Attempt (name ∉ builder.names ∧ symbol ∉ builder.symbols) ()
    { builder with names := name :: builder.names, symbols := symbol :: builder.symbols }
    (builder.claim name symbol) := by
  unfold claim
  split
  · exact .refused (by simp_all) name
  · split
    · exact .refused (by simp_all) symbol
    · exact .made ⟨by simp_all, by simp_all⟩

theorem attempt_declareStruct (name : String) (fields : List IrType) : builder.Attempt (name ∉ builder.structNames)
    builder.nextLayout (builder.withStruct ⟨name, fields⟩) (builder.declareStruct name fields) := by
  unfold declareStruct insertText
  by_cases hname : name ∈ builder.structNames
  · rw [if_pos (by simpa using hname)]
    exact .refused (not_not_intro hname) name
  · rw [if_neg (by simpa using hname)]
    exact .made hname

theorem attempt_declareGlobal (name : String) (type : IrType) (init : GlobalInit) :
    builder.Attempt (name ∉ builder.names ∧ LinkSymbol.ofText name ∉ builder.symbols) ⟨builder.mod.globals.size⟩
      (builder.withGlobal ⟨name, LinkSymbol.ofText name, type, init⟩) (builder.declareGlobal name type init) := by
  have h := builder.attempt_claim name (LinkSymbol.ofText name)
  simp only [declareGlobal]
  generalize builder.claim name (LinkSymbol.ofText name) = result at h ⊢
  cases h with
  | made h => exact .made h
  | refused h taken => exact .refused h taken

theorem attempt_addFunction (name symbol : String) (sig : FunctionSig) (isExternal : Bool) :
    builder.Attempt (name ∉ builder.names ∧ symbol ∉ builder.symbols) ⟨builder.mod.functions.size⟩
      { builder.withFunction ⟨name, symbol, sig, isExternal, none⟩ with externals := builder.externals }
      (builder.addFunction name symbol sig isExternal) := by
  have h := builder.attempt_claim name symbol
  unfold addFunction
  generalize builder.claim name symbol = result at h ⊢
  cases h with
  | made h => exact .made h
  | refused h taken => exact .refused h taken

/-- What comes of declaring an external function: it is entered, or shares what is entered under its
symbol, or is refused. -/
inductive ExternalAttempt (builder : ModuleBuilder) (name : String) (sig : FunctionSig) (symbol : String) :
    ModuleResult FuncId → Prop
  | new (unknown : builder.externals.get? symbol = none) (h : name ∉ builder.names ∧ symbol ∉ builder.symbols) :
      ExternalAttempt builder name sig symbol
        (.ok ⟨builder.mod.functions.size⟩, builder.withFunction ⟨name, symbol, sig, true, none⟩)
  | shared {id : FuncId} {function : IrFunction} (known : builder.externals.get? symbol = some id)
      (found : builder.mod.functions[id.index]? = some function) (same : function.sig = sig)
      (free : name ∉ builder.names) :
      ExternalAttempt builder name sig symbol (.ok id, { builder with names := name :: builder.names })
  | refused (taken : String) : ExternalAttempt builder name sig symbol (.error (.duplicate taken), builder)

theorem attempt_declareExternal {result : ModuleResult FuncId}
    (h : builder.declareExternal name sig symbol = .ok result) : builder.ExternalAttempt name sig symbol result := by
  unfold declareExternal at h
  split at h
  · rename_i id hknown
    obtain ⟨function, hfound, h⟩ := bind_eq_ok.mp h
    unfold IrModule.function at hfound
    split at hfound <;> cases hfound
    split at h
    · unfold insertText at h
      by_cases hname : name ∈ builder.names
      · simp only [contains_eq_mem, hname, decide_true, if_true] at h
        cases h
        exact .refused symbol
      · simp only [contains_eq_mem, hname, decide_false] at h
        cases h
        exact .shared hknown ‹_› ‹_› hname
    · cases h
      exact .refused symbol
  · have ha := builder.attempt_addFunction name symbol sig true
    generalize builder.addFunction name symbol sig true = added at ha h
    cases ha with
    | made hfree =>
      cases h
      exact .new ‹_› hfree
    | refused _ taken =>
      cases h
      exact .refused taken

theorem define_eq_ok {id : FuncId} {body : FunctionBody} : builder.define id body = .ok (.ok (), builder') ↔
    ∃ function, builder.mod.functions[id.index]? = some function ∧ function.isExternal = false ∧ function.body = none ∧
      builder' = { builder with mod := builder.mod.setBody id function body } := by
  simp only [define, bind_eq_ok, IrModule.function]
  constructor
  · rintro ⟨function, hf, h⟩
    split at hf <;> cases hf
    split at h
    · cases h
    · split at h <;> cases h
      exact ⟨function, ‹_›, by simp_all, by simp_all, rfl⟩
  · rintro ⟨function, hf, hx, hb, rfl⟩
    refine ⟨function, by rw [hf], ?_⟩
    rw [if_neg (by simp [hx]), if_neg (by simp [hb])]
    rfl

theorem define_refused {id : FuncId} {body : FunctionBody} {error : ModuleError}
    (h : builder.define id body = .ok (.error error, builder')) : builder' = builder := by
  obtain ⟨function, -, h⟩ := bind_eq_ok.mp h
  split at h
  · cases h
    rfl
  · split at h <;> cases h
    rfl

end ModuleBuilder

/-! ## Calls -/

inductive ModuleCall where
  | declareStruct (name : String) (fields : List IrType)
  | declareGlobal (name : String) (type : IrType) (init : GlobalInit)
  | newFunction (name : String) (sig : FunctionSig)
  | newFunctionWithSymbol (name : String) (sig : FunctionSig) (symbol : String)
  | declareExternal (name : String) (sig : FunctionSig) (symbol : String)
  | define (id : FuncId) (body : FunctionBody)

inductive ModuleAnswer where
  | layout (id : LayoutId)
  | global (id : GlobalId)
  | function (id : FuncId)
  | defined
deriving DecidableEq

/-- A call with what it answered. -/
structure ModuleEvent where
  call : ModuleCall
  answer : Except ModuleError ModuleAnswer

namespace ModuleCall

/-- The name that a call takes for a function or a global. -/
def valueName? : ModuleCall → Option String
  | declareGlobal name _ _ | newFunction name _ | newFunctionWithSymbol name _ _
  | declareExternal name _ _ => some name
  | declareStruct .. | define .. => none

/-- The name of the function that a call reserves, to be given a body later. -/
def reservedName? : ModuleCall → Option String
  | newFunction name _ | newFunctionWithSymbol name _ _ => some name
  | declareStruct .. | declareGlobal .. | declareExternal .. | define .. => none

def Declares : ModuleCall → IrFunction → Prop
  | newFunction .., function | newFunctionWithSymbol .., function => function.isExternal = false
  | declareExternal _ sig symbol, function =>
    function.isExternal = true ∧ function.symbol = symbol ∧ function.sig = sig
  | declareStruct .., _ | declareGlobal .., _ | define .., _ => False

/-- Two calls declare the same external function. -/
def SameExternal (c c' : ModuleCall) : Prop :=
  ∃ name name' sig symbol, c = declareExternal name sig symbol ∧ c' = declareExternal name' sig symbol

end ModuleCall

namespace ModuleEvent

def function? (event : ModuleEvent) : Option FuncId :=
  match event.answer with
  | .ok (.function id) => some id
  | _ => none

/-- The name that an event took for a function or a global. -/
def takes? (event : ModuleEvent) : Option String :=
  match event.answer with
  | .ok _ => event.call.valueName?
  | .error _ => none

def reserves? (event : ModuleEvent) : Option (FuncId × String) := do
  let id ← event.function?
  let name ← event.call.reservedName?
  some (id, name)

/-- The function that an event gave its body. -/
def defines? (event : ModuleEvent) : Option FuncId :=
  match event.call, event.answer with
  | .define id _, .ok .defined => some id
  | _, _ => none

end ModuleEvent

namespace ModuleBuilder

variable {builder builder' : ModuleBuilder}
variable {c : ModuleCall}

def answered {α : Type} (answer : α → ModuleAnswer) : ModuleResult α → ModuleResult ModuleAnswer :=
  Prod.map (Except.map answer) id

def call (builder : ModuleBuilder) : ModuleCall → Except Fault (ModuleResult ModuleAnswer)
  | .declareStruct name fields => .ok (answered .layout (builder.declareStruct name fields))
  | .declareGlobal name type init => .ok (answered .global (builder.declareGlobal name type init))
  | .newFunction name sig => .ok (answered .function (builder.newFunction name sig))
  | .newFunctionWithSymbol name sig symbol =>
    .ok (answered .function (builder.newFunctionWithSymbol name sig symbol))
  | .declareExternal name sig symbol => do
    let result ← builder.declareExternal name sig symbol
    return answered .function result
  | .define id body => do
    let result ← builder.define id body
    return answered (fun () => .defined) result

/-- Calls were made of a new builder. A body is given to a function that an earlier call answered. -/
inductive Run (moduleName : String) : List ModuleEvent → ModuleBuilder → Prop
  | new : Run moduleName [] (.new moduleName)
  | call {history : List ModuleEvent} {builder builder' : ModuleBuilder} {c : ModuleCall}
      {answer : Except ModuleError ModuleAnswer} (before : Run moduleName history builder)
      (known : ∀ id body, c = .define id body → id ∈ history.filterMap (·.function?))
      (made : builder.call c = .ok (answer, builder')) : Run moduleName (history ++ [⟨c, answer⟩]) builder'

/-! ## What a call can do -/

/-- What a call does to a builder. -/
inductive Step (builder : ModuleBuilder) :
    ModuleCall → Except ModuleError ModuleAnswer → ModuleBuilder → Prop
  | refused {c : ModuleCall} {error : ModuleError} : Step builder c (.error error) builder
  | struct {name : String} {fields : List IrType} (fresh : name ∉ builder.structNames) :
      Step builder (.declareStruct name fields) (.ok (.layout builder.nextLayout)) (builder.withStruct ⟨name, fields⟩)
  | global {name : String} {type : IrType} {init : GlobalInit} (freshName : name ∉ builder.names)
      (freshSymbol : LinkSymbol.ofText name ∉ builder.symbols) :
      Step builder (.declareGlobal name type init) (.ok (.global ⟨builder.mod.globals.size⟩))
        (builder.withGlobal ⟨name, LinkSymbol.ofText name, type, init⟩)
  | function {c : ModuleCall} {function : IrFunction} (freshName : function.name ∉ builder.names)
      (freshSymbol : function.symbol ∉ builder.symbols) (declares : c.Declares function)
      (name : c.valueName? = some function.name)
      (reserved : c.reservedName? = if function.isExternal then none else some function.name)
      (bodiless : function.body = none) :
      Step builder c (.ok (.function ⟨builder.mod.functions.size⟩)) (builder.withFunction function)
  | shared {name symbol : String} {id : FuncId} {function : IrFunction} (freshName : name ∉ builder.names)
      (known : builder.externals.get? symbol = some id) (found : builder.mod.functions[id.index]? = some function) :
      Step builder (.declareExternal name function.sig symbol) (.ok (.function id))
        { builder with names := name :: builder.names }
  | defined {id : FuncId} {body : FunctionBody} {function : IrFunction}
      (found : builder.mod.functions[id.index]? = some function) (own : function.isExternal = false) :
      Step builder (.define id body) (.ok .defined) { builder with mod := builder.mod.setBody id function body }

theorem step_of_attempt {α : Type} {free : Prop} {id : α} {after : ModuleBuilder} {answer : α → ModuleAnswer}
    {result : ModuleResult α} {reply : Except ModuleError ModuleAnswer} (h : builder.Attempt free id after result)
    (hr : answered answer result = (reply, builder')) (made : free → builder.Step c (.ok (answer id)) after) :
    builder.Step c reply builder' := by
  cases h with
  | made hfree =>
    cases hr
    exact made hfree
  | refused =>
    cases hr
    exact .refused

/-- Every call does one of these things. -/
theorem step_of_call {answer : Except ModuleError ModuleAnswer} (h : builder.call c = .ok (answer, builder')) :
    builder.Step c answer builder' := by
  cases c with
  | declareStruct name fields => exact step_of_attempt (attempt_declareStruct ..) (Except.ok.inj h) .struct
  | declareGlobal name type init =>
    exact step_of_attempt (attempt_declareGlobal ..) (Except.ok.inj h) fun hfree => .global hfree.1 hfree.2
  | newFunction name sig =>
    exact step_of_attempt (attempt_addFunction ..) (Except.ok.inj h) fun hfree =>
      show builder.Step _ _ (builder.withFunction ⟨name, _, sig, false, none⟩) from
        .function hfree.1 hfree.2 rfl rfl rfl rfl
  | newFunctionWithSymbol name sig symbol =>
    exact step_of_attempt (attempt_addFunction ..) (Except.ok.inj h) fun hfree =>
      show builder.Step _ _ (builder.withFunction ⟨name, symbol, sig, false, none⟩) from
        .function hfree.1 hfree.2 rfl rfl rfl rfl
  | declareExternal name sig symbol =>
    obtain ⟨result, hrun, h⟩ := bind_eq_ok.mp h
    cases attempt_declareExternal hrun with
    | new unknown hfree =>
      cases h
      exact .function hfree.1 hfree.2 ⟨rfl, rfl, rfl⟩ rfl rfl rfl
    | shared known found same free =>
      cases h
      subst same
      exact .shared free known found
    | refused taken =>
      cases h
      exact .refused
  | define id body =>
    obtain ⟨⟨result, after⟩, hrun, h⟩ := bind_eq_ok.mp h
    cases result with
    | error error =>
      cases h
      cases define_refused hrun
      exact .refused
    | ok =>
      cases h
      obtain ⟨function, hfound, hown, -, rfl⟩ := define_eq_ok.mp hrun
      exact .defined hfound hown

end ModuleBuilder

/-! ## What holds after every run -/

namespace IrModule

def valueNames (mod : IrModule) : List String :=
  mod.functions.toList.map (·.name) ++ mod.globals.toList.map (·.name)

def valueSymbols (mod : IrModule) : List String :=
  mod.functions.toList.map (·.symbol) ++ mod.globals.toList.map (·.symbol)

/-- For each function, if it is external, and its symbol. -/
def linkage (mod : IrModule) : List (Bool × String) := mod.functions.toList.map fun f => (f.isExternal, f.symbol)

/-- The functions of a module that are not external, with their names. -/
def ownFunctions (mod : IrModule) : List (FuncId × String) :=
  (mod.functions.toList.map fun f => (f.isExternal, f.name)).zipIdx.filterMap fun
    | ((isExternal, name), index) => if isExternal then none else some (⟨index⟩, name)

/-- What a body does not change of a function does not change in the list of them. -/
theorem map_setBody {α : Type} {mod : IrModule} {id : FuncId} {function : IrFunction} {body : FunctionBody}
    (found : mod.functions[id.index]? = some function) (view : IrFunction → α)
    (hview : view { function with body := some body } = view function) :
    (mod.setBody id function body).functions.toList.map view = mod.functions.toList.map view := by
  obtain ⟨hlt, hat⟩ := Array.getElem?_eq_some_iff.mp found
  rw [Array.toList_setIfInBounds, map_set, hview]
  refine ext_getElem? fun i => ?_
  rw [getElem?_set]
  split
  · rename_i hi
    subst hi
    simp [hlt, hat]
  · rfl

theorem linkage_eq_some {mod : IrModule} {i : Nat} {isExternal : Bool} {symbol : String} :
    mod.linkage[i]? = some (isExternal, symbol) ↔ ∃ function, mod.functions[i]? = some function ∧
      function.isExternal = isExternal ∧ function.symbol = symbol := by
  simp [linkage]

end IrModule

namespace ModuleBuilder

variable {builder builder' : ModuleBuilder} {history : List ModuleEvent} {c : ModuleCall}
  {answer : Except ModuleError ModuleAnswer} {moduleName : String}

/-- The sets of a builder are those of its module, and what is in them is there once. -/
structure Indexed (builder : ModuleBuilder) : Prop where
  distinctNames : builder.mod.valueNames.Nodup
  distinctSymbols : builder.mod.valueSymbols.Nodup
  distinctStructs : (builder.mod.structs.toList.map (·.name)).Nodup
  names : ∀ name ∈ builder.mod.valueNames, name ∈ builder.names
  symbols : ∀ symbol, symbol ∈ builder.symbols ↔ symbol ∈ builder.mod.valueSymbols
  structNames : ∀ name, name ∈ builder.structNames ↔ name ∈ builder.mod.structs.toList.map (·.name)
  externals : ∀ {symbol id}, builder.externals.get? symbol = some id ↔
    builder.mod.linkage[id.index]? = some (true, symbol)

namespace Indexed

theorem new : Indexed (.new moduleName) where
  distinctNames := nodup_nil
  distinctSymbols := nodup_nil
  distinctStructs := nodup_nil
  names := by simp [IrModule.valueNames, ModuleBuilder.new]
  symbols := by simp [IrModule.valueSymbols, ModuleBuilder.new]
  structNames := by simp [ModuleBuilder.new]
  externals := by simp [IrModule.linkage, ModuleBuilder.new]

variable (h : builder.Indexed) {name symbol : String}
include h

theorem externals_congr (h' : builder'.Indexed) (hf : builder'.mod.functions = builder.mod.functions) :
    builder'.externals.get? symbol = builder.externals.get? symbol := by
  refine Option.ext fun id => ?_
  rw [h.externals, h'.externals, IrModule.linkage, IrModule.linkage, hf]

theorem not_external (hget : builder.externals.get? symbol = none) {function : IrFunction}
    (hf : function ∈ builder.mod.functions.toList) : ¬ (function.isExternal = true ∧ function.symbol = symbol) := by
  intro hx
  obtain ⟨i, hi⟩ := mem_iff_getElem?.mp hf
  have hat := h.externals.mpr (IrModule.linkage_eq_some.mpr ⟨function, Array.getElem?_toList ▸ hi, hx⟩ :
    _[(FuncId.mk i).index]? = _)
  rw [hget] at hat
  cases hat

/-- What is entered under a symbol is the external function with the symbol. -/
theorem function_of_externals {id : FuncId} (hget : builder.externals.get? symbol = some id) : ∃ function,
    builder.mod.functions[id.index]? = some function ∧ function.isExternal = true ∧ function.symbol = symbol :=
  IrModule.linkage_eq_some.mp (h.externals.mp hget)

theorem withStruct {fields : List IrType} (fresh : name ∉ builder.structNames) :
    (builder.withStruct ⟨name, fields⟩).Indexed where
  __ := h
  distinctStructs := by
    rw [ModuleBuilder.withStruct, Array.toList_push, map_append]
    exact nodup_append_comm.mp (nodup_cons.mpr ⟨fun hm => fresh ((h.structNames name).mpr hm), h.distinctStructs⟩)
  structNames other := by simp [ModuleBuilder.withStruct, h.structNames, or_comm]

/-- One more function or global keeps the sets of a builder, given what it does to the external functions. -/
theorem withValue (names : builder'.names = name :: builder.names) (symbols : builder'.symbols = symbol :: builder.symbols)
    (structNames : builder'.structNames = builder.structNames) (hstructs : builder'.mod.structs = builder.mod.structs)
    (hnames : builder'.mod.valueNames.Perm (name :: builder.mod.valueNames))
    (hsymbols : builder'.mod.valueSymbols.Perm (symbol :: builder.mod.valueSymbols))
    (freshName : name ∉ builder.names) (freshSymbol : symbol ∉ builder.symbols)
    (externals : ∀ {symbol id}, builder'.externals.get? symbol = some id ↔
      builder'.mod.linkage[id.index]? = some (true, symbol)) : builder'.Indexed where
  distinctNames := hnames.nodup_iff.mpr (nodup_cons.mpr ⟨fun hm => freshName (h.names _ hm), h.distinctNames⟩)
  distinctSymbols :=
    hsymbols.nodup_iff.mpr (nodup_cons.mpr ⟨fun hm => freshSymbol ((h.symbols _).mpr hm), h.distinctSymbols⟩)
  distinctStructs := hstructs ▸ h.distinctStructs
  names other hm := by
    rw [names, mem_cons]
    exact (mem_cons.mp (hnames.mem_iff.mp hm)).imp_right (h.names other)
  symbols other := by rw [symbols, hsymbols.mem_iff, mem_cons, mem_cons, h.symbols]
  structNames := by
    rw [structNames, hstructs]
    exact h.structNames
  externals := externals

theorem withGlobal {global : IrGlobal} (freshName : global.name ∉ builder.names)
    (freshSymbol : global.symbol ∉ builder.symbols) : (builder.withGlobal global).Indexed := by
  refine h.withValue rfl rfl rfl rfl ?_ ?_ freshName freshSymbol h.externals
  · simp [ModuleBuilder.withGlobal, IrModule.valueNames, ← append_assoc]
  · simp [ModuleBuilder.withGlobal, IrModule.valueSymbols, ← append_assoc]

theorem withFunction {function : IrFunction} (freshName : function.name ∉ builder.names)
    (freshSymbol : function.symbol ∉ builder.symbols) : (builder.withFunction function).Indexed := by
  refine h.withValue rfl rfl rfl rfl ?_ ?_ freshName freshSymbol fun {other id} => ?_
  · simp [ModuleBuilder.withFunction, IrModule.valueNames]
  · simp [ModuleBuilder.withFunction, IrModule.valueSymbols]
  · have hget : (builder.withFunction function).externals.get? other =
        if function.isExternal = true ∧ other = function.symbol then some ⟨builder.mod.functions.size⟩
        else builder.externals.get? other := by
      cases hx : function.isExternal <;> simp [ModuleBuilder.withFunction, hx, Table.get?_insert]
    have hlinkage : (builder.withFunction function).mod.linkage =
        builder.mod.linkage ++ [(function.isExternal, function.symbol)] := by
      simp [ModuleBuilder.withFunction, IrModule.linkage]
    have hsize : builder.mod.linkage.length = builder.mod.functions.size := by simp [IrModule.linkage]
    -- No earlier function has the symbol.
    have hfresh : ∀ {i : Nat} {isExternal : Bool}, builder.mod.linkage[i]? ≠ some (isExternal, function.symbol) := by
      intro i isExternal hi
      obtain ⟨earlier, hearlier, -, hsymbol⟩ := IrModule.linkage_eq_some.mp hi
      refine freshSymbol ((h.symbols _).mpr (mem_append_left _ (mem_map.mpr ⟨earlier, ?_, hsymbol⟩)))
      exact Array.mem_toList_iff.mpr (Array.mem_of_getElem? hearlier)
    rw [hget, hlinkage]
    by_cases hi : id.index < builder.mod.linkage.length
    · rw [getElem?_append_left hi]
      split
      · rename_i hx
        obtain ⟨-, rfl⟩ := hx
        refine ⟨fun he => ?_, fun he => absurd he hfresh⟩
        cases he
        exact absurd hsize (Nat.ne_of_gt hi)
      · exact h.externals
    · have hnone : builder.externals.get? other ≠ some id := fun he =>
        hi (List.getElem?_eq_some_iff.mp (h.externals.mp he)).1
      obtain ⟨i⟩ := id
      grind

theorem withName : Indexed { builder with names := name :: builder.names } where
  __ := h
  names other hm := .tail _ (h.names other hm)

theorem withBody {id : FuncId} {function : IrFunction} {body : FunctionBody}
    (found : builder.mod.functions[id.index]? = some function) :
    Indexed { builder with mod := builder.mod.setBody id function body } where
  __ := h
  distinctNames := by simpa only [IrModule.valueNames, IrModule.map_setBody found IrFunction.name rfl] using h.distinctNames
  distinctSymbols := by
    simpa only [IrModule.valueSymbols, IrModule.map_setBody found IrFunction.symbol rfl] using h.distinctSymbols
  names := by simpa only [IrModule.valueNames, IrModule.map_setBody found IrFunction.name rfl] using h.names
  symbols := by simpa only [IrModule.valueSymbols, IrModule.map_setBody found IrFunction.symbol rfl] using h.symbols
  externals := by
    simp only [IrModule.linkage, IrModule.map_setBody found (fun f => (f.isExternal, f.symbol)) rfl]
    exact h.externals

theorem step (hs : builder.Step c answer builder') : builder'.Indexed := by
  cases hs with
  | refused => exact h
  | struct fresh => exact h.withStruct fresh
  | global freshName freshSymbol => exact h.withGlobal freshName freshSymbol
  | function freshName freshSymbol => exact h.withFunction freshName freshSymbol
  | shared => exact h.withName
  | defined found => exact h.withBody found

end Indexed

/-- A module is what the events of a history made of it. -/
structure Consistent (history : List ModuleEvent) (builder : ModuleBuilder) : Prop where
  indexed : builder.Indexed
  taken : ∀ name, name ∈ builder.names ↔ name ∈ history.filterMap (·.takes?)
  answers : ∀ event ∈ history, ∀ id ∈ event.function?, ∃ function,
    builder.mod.functions[id.index]? = some function ∧ event.call.Declares function
  apart : history.Pairwise fun event event' => ∀ id ∈ event.function?, id ∈ event'.function? →
    event.call.SameExternal event'.call
  bodiless : ∀ function ∈ builder.mod.functions.toList, function.isExternal = true → function.body = none
  reserved : history.filterMap (·.reserves?) = builder.mod.ownFunctions
  defined : ∀ id, id ∈ history.filterMap (·.defines?) ↔
    ∃ function, builder.mod.functions[id.index]? = some function ∧ function.body.isSome = true

theorem Consistent.new : Consistent [] (.new moduleName) where
  indexed := .new
  taken := by simp [ModuleBuilder.new]
  answers := by simp
  apart := .nil
  bodiless := by simp [ModuleBuilder.new]
  reserved := rfl
  defined := by simp [ModuleBuilder.new]

/-- An event that answers no function and gives none a body keeps what is known of the functions. -/
theorem Consistent.of_functions (h : Consistent history builder) {event : ModuleEvent} (indexed : builder'.Indexed)
    (hfunctions : builder'.mod.functions = builder.mod.functions) (hanswer : event.function? = none)
    (hdefines : event.defines? = none)
    (taken : ∀ name, name ∈ builder'.names ↔ name ∈ builder.names ∨ event.takes? = some name) :
    Consistent (history ++ [event]) builder' where
  indexed := indexed
  taken name := by simp [taken, h.taken]
  answers e he id hid := by
    rw [hfunctions]
    rcases mem_append.mp he with he | he
    · exact h.answers e he id hid
    · rw [mem_singleton.mp he, hanswer] at hid
      cases hid
  apart := pairwise_append.mpr ⟨h.apart, pairwise_singleton .., by simp [hanswer]⟩
  bodiless := hfunctions ▸ h.bodiless
  reserved := by
    have hnone : event.reserves? = none := by simp [ModuleEvent.reserves?, hanswer]
    rw [filterMap_append, h.reserved, filterMap_cons_none hnone]
    simp [IrModule.ownFunctions, hfunctions]
  defined id := by
    rw [filterMap_append, filterMap_cons_none hdefines, hfunctions]
    simpa using h.defined id

/-- Calls that declare one function are calls for one external function, if one of them is. -/
theorem sameExternal_of_declares {c' : ModuleCall} {function : IrFunction} (h : c.Declares function)
    {name symbol : String} {sig : FunctionSig} (hc : c' = .declareExternal name sig symbol)
    (h' : c'.Declares function) : c.SameExternal c' := by
  subst hc
  obtain ⟨hx, rfl, rfl⟩ := h'
  cases c with
  | declareExternal name' sig' symbol' =>
    obtain ⟨-, rfl, rfl⟩ := h
    exact ⟨name', name, _, _, rfl, rfl⟩
  | newFunction | newFunctionWithSymbol =>
    rw [show function.isExternal = false from h] at hx
    cases hx
  | declareStruct | declareGlobal | define => exact absurd h id

section

variable (h : Consistent history builder)
variable {function : IrFunction} {id : FuncId}
include h

theorem Consistent.withShared {name symbol : String} (known : builder.externals.get? symbol = some id)
    (found : builder.mod.functions[id.index]? = some function) :
    Consistent (history ++ [⟨.declareExternal name function.sig symbol, .ok (.function id)⟩])
      { builder with names := name :: builder.names } := by
  have declares : (ModuleCall.declareExternal name function.sig symbol).Declares function := by
    obtain ⟨_, hfunction, hx, hsymbol⟩ := h.indexed.function_of_externals known
    cases found.symm.trans hfunction
    exact ⟨hx, hsymbol, rfl⟩
  refine { h with
    indexed := h.indexed.withName
    taken := fun other => by simp [h.taken, ModuleEvent.takes?, ModuleCall.valueName?, or_comm]
    answers := fun e he id' hid => ?_
    apart := ?_
    reserved := ?_
    defined := fun id' => ?_ }
  · rcases mem_append.mp he with he | he
    · exact h.answers e he id' hid
    · rw [mem_singleton.mp he] at hid ⊢
      cases hid
      exact ⟨function, found, declares⟩
  · refine pairwise_append.mpr ⟨h.apart, pairwise_singleton .., fun e he e' he' id' hid hid' => ?_⟩
    rw [mem_singleton.mp he'] at hid' ⊢
    cases hid'
    obtain ⟨function', found', declares'⟩ := h.answers e he id hid
    rw [found] at found'
    cases found'
    exact sameExternal_of_declares declares' rfl declares
  · rw [filterMap_append, h.reserved]
    exact append_nil _
  · rw [filterMap_append, filterMap_cons_none rfl]
    simpa using h.defined id'

theorem Consistent.withFunction
    (freshName : function.name ∉ builder.names) (freshSymbol : function.symbol ∉ builder.symbols)
    (declares : c.Declares function) (hname : c.valueName? = some function.name)
    (hreserved : c.reservedName? = if function.isExternal then none else some function.name)
    (bodiless : function.body = none) :
    Consistent (history ++ [⟨c, .ok (.function ⟨builder.mod.functions.size⟩)⟩]) (builder.withFunction function) := by
  have hpush : (builder.withFunction function).mod.functions = builder.mod.functions.push function := rfl
  have hold : ∀ (i : Nat) (f : IrFunction), builder.mod.functions[i]? = some f →
      (builder.withFunction function).mod.functions[i]? = some f := fun i f hf => by
    rw [hpush, Array.getElem?_push, if_neg (Nat.ne_of_lt (lt_of_getElem? hf))]
    exact hf
  refine {
    indexed := h.indexed.withFunction freshName freshSymbol
    taken := fun other => ?_
    answers := fun e he id hid => ?_
    apart := ?_
    bodiless := fun f hf hx => ?_
    reserved := ?_
    defined := fun id => ?_ }
  · simp [ModuleBuilder.withFunction, h.taken, ModuleEvent.takes?, hname, or_comm]
  · rcases mem_append.mp he with he | he
    · obtain ⟨f, hf, hd⟩ := h.answers e he id hid
      exact ⟨f, hold _ _ hf, hd⟩
    · rw [mem_singleton.mp he] at hid ⊢
      cases hid
      exact ⟨function, Array.getElem?_push_size, declares⟩
  · refine pairwise_append.mpr ⟨h.apart, pairwise_singleton .., fun e he e' he' id hid hid' => ?_⟩
    rw [mem_singleton.mp he'] at hid'
    cases hid'
    obtain ⟨f, hf, -⟩ := h.answers e he _ hid
    exact absurd (lt_of_getElem? hf) (Nat.lt_irrefl _)
  · rw [hpush, Array.toList_push] at hf
    rcases mem_append.mp hf with hf | hf
    · exact h.bodiless f hf hx
    · exact mem_singleton.mp hf ▸ bodiless
  · rw [filterMap_append, h.reserved]
    cases hx : function.isExternal <;>
      simp [IrModule.ownFunctions, hpush, zipIdx_append, ModuleEvent.reserves?, ModuleEvent.function?, hreserved, hx]
  · have hnone : (⟨c, .ok (.function ⟨builder.mod.functions.size⟩)⟩ : ModuleEvent).defines? = none := by cases c <;> rfl
    rw [filterMap_append, filterMap_cons_none hnone, filterMap_nil, append_nil, h.defined]
    constructor
    · rintro ⟨f, hf, hb⟩
      exact ⟨f, hold _ _ hf, hb⟩
    · rintro ⟨f, hf, hb⟩
      rw [hpush, Array.getElem?_push] at hf
      split at hf
      · cases hf
        simp [bodiless] at hb
      · exact ⟨f, hf, hb⟩

theorem Consistent.withBody {body : FunctionBody} (found : builder.mod.functions[id.index]? = some function)
    (own : function.isExternal = false) : Consistent (history ++ [⟨.define id body, .ok .defined⟩])
      { builder with mod := builder.mod.setBody id function body } := by
  have hlt := lt_of_getElem? found
  refine {
    indexed := h.indexed.withBody found
    taken := fun name => by simp [h.taken, ModuleEvent.takes?, ModuleCall.valueName?]
    answers := fun e he id' hid => ?_
    apart := pairwise_append.mpr ⟨h.apart, pairwise_singleton .., by simp [ModuleEvent.function?]⟩
    bodiless := fun f hf hx => ?_
    reserved := by
      rw [filterMap_append, h.reserved]
      simp only [IrModule.ownFunctions, IrModule.map_setBody found (fun f => (f.isExternal, f.name)) rfl]
      exact append_nil _
    defined := fun id' => ?_ }
  · rcases mem_append.mp he with he | he
    · obtain ⟨f, hf, hd⟩ := h.answers e he id' hid
      rw [Array.getElem?_setIfInBounds]
      split
      · rename_i hi
        rw [← hi, found] at hf
        cases hf
        refine ⟨_, rfl, ?_⟩
        generalize e.call = c at hd
        cases c <;> exact hd
      · exact ⟨f, hf, hd⟩
    · rw [mem_singleton.mp he] at hid
      cases hid
  · rw [Array.toList_setIfInBounds] at hf
    rcases mem_or_eq_of_mem_set hf with hf | rfl
    · exact h.bodiless f hf hx
    · rw [own] at hx
      cases hx
  · rw [filterMap_append, mem_append, h.defined]
    by_cases hi : id.index = id'.index
    · have he : id = id' := congrArg FuncId.mk hi
      subst he
      simp [ModuleEvent.defines?, hlt]
    · have hne : id' ≠ id := fun he => hi (congrArg FuncId.index he.symm)
      simp [ModuleEvent.defines?, hi, hne]

/-- What a call does keeps the builder consistent with its history. -/
theorem Consistent.step (hs : builder.Step c answer builder') : Consistent (history ++ [⟨c, answer⟩]) builder' := by
  have indexed := h.indexed.step hs
  cases hs with
  | refused => exact h.of_functions indexed rfl rfl (by cases c <;> rfl) fun name => by simp [ModuleEvent.takes?]
  | struct =>
    exact h.of_functions indexed rfl rfl rfl fun name => by simp [withStruct, ModuleEvent.takes?, ModuleCall.valueName?]
  | global =>
    exact h.of_functions indexed rfl rfl rfl fun name => by
      simp [withGlobal, ModuleEvent.takes?, ModuleCall.valueName?, or_comm, eq_comm]
  | function freshName freshSymbol declares name reserved bodiless =>
    exact h.withFunction freshName freshSymbol declares name reserved bodiless
  | shared freshName known found => exact h.withShared known found
  | defined found own => exact h.withBody found own

end

theorem Run.consistent (h : Run moduleName history builder) : Consistent history builder := by
  induction h with
  | new => exact .new
  | call _ _ made ih => exact ih.step (step_of_call made)

/-! ## Finishing -/

theorem filter_missing {defined : List FuncId} {functions : List IrFunction} (start : Nat)
    (h : ∀ i f, functions[i]? = some f → (f.body.isSome = true ↔ ⟨start + i⟩ ∈ defined)) :
    (functions.filter fun f => !f.isExternal && f.body.isNone).map (·.name) =
      ((((functions.map fun f => (f.isExternal, f.name)).zipIdx start).filterMap fun
        | ((isExternal, name), index) => if isExternal then none else some (FuncId.mk index, name)).filter
          fun function => function.1 ∉ defined).map (·.2) := by
  induction functions generalizing start with
  | nil => rfl
  | cons f rest ih =>
    have hf := h 0 f rfl
    have hrest := ih (start + 1) fun i g hg => by rw [h (i + 1) g hg, Nat.add_assoc, Nat.add_comm 1 i]
    cases hx : f.isExternal with
    | true => simpa [hx] using hrest
    | false =>
      cases hb : f.body with
      | none =>
        have hno : ⟨start⟩ ∉ defined := fun hm => by simpa [hb] using hf.mpr hm
        simpa [hx, hb, hno] using hrest
      | some body =>
        have hyes : ⟨start⟩ ∈ defined := hf.mp (by rw [hb]; rfl)
        simpa [hx, hb, hyes] using hrest

theorem Consistent.missing (h : Consistent history builder) : builder.mod.missing =
    ((history.filterMap (·.reserves?)).filter
      fun function => function.1 ∉ history.filterMap (·.defines?)).map (·.2) := by
  rw [h.reserved]
  refine filter_missing 0 fun i f hf => ?_
  rw [Array.getElem?_toList] at hf
  rw [h.defined]
  simp [hf]

/-- A call for a function that an earlier call answered is never a fault. -/
theorem Consistent.call_ok (h : Consistent history builder)
    (known : ∀ id body, c = .define id body → id ∈ history.filterMap (·.function?)) :
    ∃ answer builder', builder.call c = .ok (answer, builder') := by
  cases c with
  | define id body =>
    obtain ⟨event, hevent, hid⟩ := mem_filterMap.mp (known id body rfl)
    obtain ⟨function, hfound, -⟩ := h.answers event hevent id hid
    simp only [call, define, IrModule.function, hfound, bind, Except.bind]
    split
    · rename_i hno
      split at hno <;> [cases hno; split at hno <;> cases hno]
    · exact ⟨_, _, rfl⟩
  | declareExternal name sig symbol =>
    have hrun : ∃ result, builder.declareExternal name sig symbol = .ok result := by
      unfold declareExternal
      split
      · obtain ⟨function, hfound, -⟩ := h.indexed.function_of_externals ‹_›
        simp only [IrModule.function, hfound, bind, Except.bind]
        split <;> exact ⟨_, rfl⟩
      · split <;> exact ⟨_, rfl⟩
    obtain ⟨result, hrun⟩ := hrun
    exact ⟨_, _, bind_eq_ok.mpr ⟨result, hrun, rfl⟩⟩
  | _ => exact ⟨_, _, rfl⟩

/-- After every sequence of calls of a new builder: the names and the link symbols of functions and
globals and the names of structs are pairwise distinct; a name is taken exactly if a call that was not
refused took it, the other sets hold what the module has, and the map of external functions finds each
by its symbol; two calls answered the same function only if both declared one external function with
one signature; an external function has no body; no further call is a fault, and one that is refused
changes nothing. The module can be finished exactly if every function that was reserved has been given
a body, and otherwise the error lists the others in the order of their declaration. -/
theorem run_sound {moduleName : String} (h : Run moduleName history builder) :
    builder.mod.valueNames.Nodup ∧ builder.mod.valueSymbols.Nodup ∧
    (builder.mod.structs.toList.map (·.name)).Nodup ∧
    (∀ name, name ∈ builder.names ↔ name ∈ history.filterMap (·.takes?)) ∧
    (∀ symbol, symbol ∈ builder.symbols ↔ symbol ∈ builder.mod.valueSymbols) ∧
    (∀ name, name ∈ builder.structNames ↔ name ∈ builder.mod.structs.toList.map (·.name)) ∧
    (∀ symbol id, builder.externals.get? symbol = some id ↔ ∃ function,
      builder.mod.functions[id.index]? = some function ∧ function.isExternal = true ∧ function.symbol = symbol) ∧
    (history.Pairwise fun event event' => ∀ id ∈ event.function?, id ∈ event'.function? →
      event.call.SameExternal event'.call) ∧
    (∀ function ∈ builder.mod.functions.toList, function.isExternal = true → function.body = none) ∧
    (∀ c, (∀ id body, c = .define id body → id ∈ history.filterMap (·.function?)) →
      ∃ answer builder', builder.call c = .ok (answer, builder') ∧
        ∀ error, answer = .error error → builder' = builder) ∧
    ((∃ mod, builder.finish = .ok mod) ↔ ∀ function ∈ history.filterMap (·.reserves?),
      function.1 ∈ history.filterMap (·.defines?)) ∧
    ∀ error, builder.finish = .error error → error = .incomplete
      (((history.filterMap (·.reserves?)).filter
        fun function => function.1 ∉ history.filterMap (·.defines?)).map (·.2)) := by
  have hc := h.consistent
  have hi := hc.indexed
  refine ⟨hi.distinctNames, hi.distinctSymbols, hi.distinctStructs, hc.taken, hi.symbols, hi.structNames,
    fun symbol id => hi.externals.trans IrModule.linkage_eq_some, hc.apart, hc.bodiless, fun c known => ?_, ?_, ?_⟩
  · obtain ⟨answer, builder', hcall⟩ := hc.call_ok known
    refine ⟨answer, builder', hcall, fun error herror => ?_⟩
    subst herror
    cases step_of_call hcall
    rfl
  · have hnone : builder.mod.missing = [] ↔ ∀ function ∈ history.filterMap (·.reserves?),
        function.1 ∈ history.filterMap (·.defines?) := by
      rw [hc.missing, List.map_eq_nil_iff, List.filter_eq_nil_iff]
      simp only [decide_eq_true_eq, not_not]
    rw [← hnone, finish]
    cases hm : builder.mod.missing <;> simp
  · intro error herror
    rw [finish] at herror
    split at herror <;> cases herror
    rw [hc.missing]

/-- Two units declare an external function, and a function is reserved that never gets a body. -/
theorem run_sound_puts : ∃ history builder, Run "m" history builder ∧
    history.filterMap (·.takes?) = ["a::puts", "b::puts", "m::f"] ∧
    ¬ (∃ mod, builder.finish = .ok mod) ∧
    ∀ error, builder.finish = .error error → error = .incomplete ["m::f"] := by
  let sig : FunctionSig := ⟨[.ptr], .int 32, false⟩
  have hrun : (((new "m").call (.declareExternal "a::puts" sig "puts")).toOption.any fun p1 =>
      (p1.2.call (.declareExternal "b::puts" sig "puts")).toOption.any fun p2 =>
      (p2.2.call (.newFunction "m::f" sig)).toOption.any fun p3 =>
        p1.1.toOption = some (.function ⟨0⟩) ∧ p2.1.toOption = some (.function ⟨0⟩) ∧
          p3.1.toOption = some (.function ⟨1⟩)) = true := by
    decide +kernel
  obtain ⟨⟨a1, b1⟩, h1, hrun⟩ := exists_ok hrun
  obtain ⟨⟨a2, b2⟩, h2, hrun⟩ := exists_ok hrun
  obtain ⟨⟨a3, b3⟩, h3, hrun⟩ := exists_ok hrun
  obtain ⟨e1, e2, e3⟩ := of_decide_eq_true hrun
  cases a1 <;> cases e1
  cases a2 <;> cases e2
  cases a3 <;> cases e3
  have r : Run "m" [_, _, _] b3 := .call (.call (.call .new (by simp) h1) (by simp) h2) (by simp) h3
  obtain ⟨-, -, -, -, -, -, -, -, -, -, hfinish, hmissing⟩ := run_sound r
  have hno : ¬ ∃ mod, b3.finish = .ok mod := fun hmod => by
    cases hfinish.mp hmod (⟨1⟩, "m::f") (.head _)
  exact ⟨_, b3, r, rfl, hno, hmissing⟩

end ModuleBuilder

end SsaCompiler
