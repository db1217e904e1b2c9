import SsaCompiler.Fault
import SsaCompiler.Ir.Function
import SsaCompiler.Ir.LinkSymbol
import SsaCompiler.Name
import SsaCompiler.Table

/-!
# Modules

Functions are declared before they are defined, so that bodies can refer to functions that come
later. A module is finished when every function that is not external has its body.
-/

namespace SsaCompiler

inductive ModuleError where
  | duplicate (name : String)
  | incomplete (missing : List String)
  | alreadyDefined (name : String)
  | externalDefined (name : String)
deriving DecidableEq, Repr

namespace ModuleError

def message : ModuleError → String
  | duplicate name => s!"`{name}` is declared more than once"
  | incomplete missing => "module is incomplete: no body for " ++ ", ".intercalate missing
  | alreadyDefined name => s!"function `{name}` already has a body"
  | externalDefined name => s!"external function `{name}` cannot have a body"

end ModuleError

structure StructLayout where
  name : String
  fields : List IrType
deriving DecidableEq, Repr

inductive GlobalInit where
  | zero
  | const (constant : Constant)
  | cString (text : String)
deriving DecidableEq, Repr

structure IrGlobal where
  name : String
  symbol : String
  type : IrType
  init : GlobalInit
deriving DecidableEq, Repr

structure IrFunction where
  name : String
  symbol : String
  sig : FunctionSig
  isExternal : Bool
  body : Option FunctionBody
deriving DecidableEq, Repr

structure IrModule where
  name : String
  structs : Array StructLayout
  globals : Array IrGlobal
  functions : Array IrFunction
deriving DecidableEq, Repr

namespace IrModule

def function (mod : IrModule) (id : FuncId) : Except Fault IrFunction :=
  match mod.functions[id.index]? with
  | some function => .ok function
  | none => .error .outOfRange

def global (mod : IrModule) (id : GlobalId) : Except Fault IrGlobal :=
  match mod.globals[id.index]? with
  | some global => .ok global
  | none => .error .outOfRange

def layout (mod : IrModule) (id : LayoutId) : Except Fault StructLayout :=
  match mod.structs[id.index]? with
  | some layout => .ok layout
  | none => .error .outOfRange

/-- The function declared first under a qualified name. -/
def functionByName? (mod : IrModule) (name : String) : Option IrFunction :=
  mod.functions.find? (·.name = name)

/-- Gives a function of a module its body. -/
abbrev setBody (mod : IrModule) (id : FuncId) (function : IrFunction) (body : FunctionBody) : IrModule :=
  { mod with functions := mod.functions.setIfInBounds id.index { function with body := some body } }

def missing (mod : IrModule) : List String :=
  (mod.functions.toList.filter fun function => !function.isExternal && function.body.isNone).map
    (·.name)

end IrModule

structure ModuleBuilder where
  mod : IrModule
  /-- The names of its functions and globals; an external function may have several. -/
  names : List String
  symbols : List String
  structNames : List String
  /-- The external functions by their symbols. -/
  externals : Table String FuncId
deriving Repr

/-- What a call of a builder gives: an answer, and the builder after it, also if it is refused. -/
abbrev ModuleResult (α : Type) := Except ModuleError α × ModuleBuilder

namespace ModuleBuilder

def new (name : String) : ModuleBuilder := ⟨⟨name, #[], #[], #[]⟩, [], [], [], .empty⟩

/-- Adds a text to a set, and says if it was not there. -/
def insertText (texts : List String) (text : String) : Bool × List String :=
  if texts.contains text then (false, texts) else (true, text :: texts)

def nextLayout (builder : ModuleBuilder) : LayoutId := ⟨builder.mod.structs.size⟩

/-- Takes a name and a link symbol, if both are free. -/
def claim (builder : ModuleBuilder) (name symbol : String) : ModuleResult Unit :=
  if builder.names.contains name then (.error (.duplicate name), builder)
  else if builder.symbols.contains symbol then (.error (.duplicate symbol), builder)
  else (.ok (), { builder with names := name :: builder.names, symbols := symbol :: builder.symbols })

def declareStruct (builder : ModuleBuilder) (name : String) (fields : List IrType) :
    ModuleResult LayoutId :=
  let (isNew, structNames) := insertText builder.structNames name
  let builder := { builder with structNames := structNames }
  if isNew then
    let mod := builder.mod
    (.ok builder.nextLayout,
      { builder with mod := { mod with structs := mod.structs.push ⟨name, fields⟩ } })
  else (.error (.duplicate name), builder)

def declareGlobal (builder : ModuleBuilder) (name : String) (type : IrType) (init : GlobalInit) :
    ModuleResult GlobalId :=
  let symbol := LinkSymbol.ofText name
  match builder.claim name symbol with
  | (.ok (), builder) =>
    let mod := builder.mod
    (.ok ⟨mod.globals.size⟩,
      { builder with mod := { mod with globals := mod.globals.push ⟨name, symbol, type, init⟩ } })
  | (.error error, builder) => (.error error, builder)

def addFunction (builder : ModuleBuilder) (name symbol : String) (sig : FunctionSig)
    (isExternal : Bool) : ModuleResult FuncId :=
  match builder.claim name symbol with
  | (.ok (), builder) =>
    let mod := builder.mod
    let function : IrFunction := ⟨name, symbol, sig, isExternal, none⟩
    (.ok ⟨mod.functions.size⟩,
      { builder with mod := { mod with functions := mod.functions.push function } })
  | (.error error, builder) => (.error error, builder)

/-- The link symbol of a function. One called `main` keeps that name, so that it can be linked as
the start of a program. -/
def symbolOf (builder : ModuleBuilder) (name : String) (sig : FunctionSig) : String :=
  if Name.lastSegment name = "main" then "main"
  else LinkSymbol.ofFunction (fun id => (builder.mod.structs[id.index]?).map (·.name)) name sig

/-- Declares a function under the symbol made of its name and signature. -/
def newFunction (builder : ModuleBuilder) (name : String) (sig : FunctionSig) : ModuleResult FuncId :=
  builder.addFunction name (builder.symbolOf name sig) sig false

def newFunctionWithSymbol (builder : ModuleBuilder) (name : String) (sig : FunctionSig)
    (symbol : String) : ModuleResult FuncId :=
  builder.addFunction name symbol sig false

/-- Declares an external function. Declarations of one symbol share a function if they agree on its
signature. -/
def declareExternal (builder : ModuleBuilder) (name : String) (sig : FunctionSig)
    (symbol : String) : Except Fault (ModuleResult FuncId) :=
  match builder.externals.get? symbol with
  | some existing => do
    let function ← builder.mod.function existing
    if function.sig = sig then
      let (isNew, names) := insertText builder.names name
      let answer := if isNew then .ok existing else .error (.duplicate symbol)
      return (answer, { builder with names := names })
    else return (.error (.duplicate symbol), builder)
  | none =>
    match builder.addFunction name symbol sig true with
    | (.ok id, builder) =>
      return (.ok id, { builder with externals := builder.externals.insert symbol id })
    | (.error error, builder) => return (.error error, builder)

def define (builder : ModuleBuilder) (id : FuncId) (body : FunctionBody) :
    Except Fault (ModuleResult Unit) := do
  let mod := builder.mod
  let function ← mod.function id
  if function.isExternal then return (.error (.externalDefined function.name), builder)
  else if function.body.isSome then return (.error (.alreadyDefined function.name), builder)
  else return (.ok (), { builder with mod := mod.setBody id function body })

def finish (builder : ModuleBuilder) : Except ModuleError IrModule :=
  match builder.mod.missing with
  | [] => .ok builder.mod
  | missing => .error (.incomplete missing)

end ModuleBuilder

end SsaCompiler
