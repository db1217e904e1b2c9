import SsaCompiler.Checking.Body
import SsaCompiler.Declarations.Collect
import SsaCompiler.Diagnostic
import SsaCompiler.Lowering.Body

/-!
# Compiling a module

The items of all units are collected and declared in the module first. Each unit is then checked
and, if nothing is wrong with it or with the items, lowered. `compile` gives a module only if there
is no diagnostic at all; otherwise it gives the diagnostics of all units in order.
-/

namespace SsaCompiler

structure Compilation (κ : Type := String) where
  decls : Declarations κ
  /-- Where the items stand in the module, if all of them could be declared. -/
  items : Option ItemMap
  builder : ModuleBuilder

namespace Compilation

variable {κ : Type}

def unitName (units : List SourceUnit) (unit : UnitId) : Except Fault String :=
  match units[unit.index]? with
  | some source => .ok source.name
  | none => .error .outOfRange

/-- Declares the items of units in the module, unless one of them is wrong. The diagnostics are
clashes of link symbols. -/
def declareItems (moduleName : String) (units : List SourceUnit) (decls : Declarations κ) :
    Except Fault (Compilation κ × List Diagnostic) := do
  let builder := ModuleBuilder.new moduleName
  if decls.hasErrors then return (⟨decls, none, builder⟩, [])
  else
    let progress ← ItemMap.declareAll decls builder
    match progress.errors with
    | [] => return (⟨decls, some progress.items, progress.builder⟩, [])
    | errors =>
      let diagnostics ← errors.mapM fun error => do
        let unit ← unitName units error.unit
        Diagnostic.ofDeclareError unit error
      return (⟨decls, none, progress.builder⟩, diagnostics)

def start (moduleName : String) (units : List SourceUnit) :
    Except Fault (Compilation × List Diagnostic) := do
  let decls ← Declarations.collect units
  declareItems moduleName units decls

def define : List (FuncId × FunctionBody) → ModuleBuilder → Except Fault ModuleBuilder
  | [], builder => .ok builder
  | (id, body) :: rest, builder => do
    match ← builder.define id body with
    | (.ok (), builder) => define rest builder
    | (.error (.externalDefined name), _) => .error (.externalDefined name)
    | (.error (.alreadyDefined name), _) => .error (.alreadyDefined name)
    | (.error _, _) => .error .outOfRange

/-- Checks a unit and lowers it if nothing is wrong: what is wrong, and the bodies. -/
def checkAndLower {m : Type → Type} [Monad m] [MonadLiftT (Except Fault) m] [Names κ m]
    [DecidableEq κ] (compilation : Compilation κ) (unit : UnitId) (source : SourceUnit) :
    m (List Diagnostic × List (FuncId × FunctionBody)) := do
  match ← checkUnitWith compilation.decls unit source with
  | .error errors => return (errors.map (Diagnostic.ofTypeError source.name), [])
  | .ok checked =>
    match compilation.items with
    | none => return ([], [])
    | some items =>
      let bodies ← checked.lower compilation.decls items source
      return ([], bodies)

def addUnit (compilation : Compilation) (unit : UnitId) (source : SourceUnit) :
    Except Fault (List Diagnostic × Compilation) := do
  let (diagnostics, bodies) ← compilation.checkAndLower unit source
  let builder ← define bodies compilation.builder
  return (diagnostics, { compilation with builder := builder })

def addUnits : List (SourceUnit × Nat) → Compilation → Except Fault (List Diagnostic × Compilation)
  | [], compilation => .ok ([], compilation)
  | (source, index) :: rest, compilation => do
    let (diagnostics, compilation) ← compilation.addUnit ⟨index⟩ source
    let (others, compilation) ← addUnits rest compilation
    return (diagnostics ++ others, compilation)

def finish (compilation : Compilation κ) : Except Fault (Except Diagnostic IrModule) :=
  match compilation.builder.finish with
  | .ok mod => .ok (.ok mod)
  | .error error => do
    let diagnostic ← Diagnostic.ofModuleError error
    return .error diagnostic

end Compilation

def compile (moduleName : String) (units : List SourceUnit) :
    Except Fault (Except (List Diagnostic) IrModule) := do
  let (compilation, clashes) ← Compilation.start moduleName units
  let (diagnostics, compilation) ← Compilation.addUnits units.zipIdx compilation
  match clashes ++ diagnostics with
  | [] =>
    match ← compilation.finish with
    | .ok mod => return .ok mod
    | .error diagnostic => return .error [diagnostic]
  | diagnostics => return .error diagnostics

end SsaCompiler
