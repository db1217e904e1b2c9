import SsaCompiler.CommandLine.Help
import SsaCompiler.Compilation
import SsaCompiler.Files.Loading
import SsaCompiler.Ir.Text
import SsaCompiler.Report.Render

/-!
# Running the command line

A run takes arguments and files to an outcome: an exit status and what is printed. The status is 0 on
success, 1 after an error that is reported, 2 if the arguments cannot be understood, and 101 after a
fault of the compiler.
-/

namespace SsaCompiler

namespace CommandLine

structure Outcome where
  status : Nat
  output : List String
  errors : String
  /-- Whether the last line printed ends with the time taken. -/
  timed : Bool
deriving DecidableEq, Repr

inductive Failure where
  | file (error : FileError)
  | zeroJobs
  /-- Something is wrong with the units; each report is about one thing. -/
  | reports (texts : List String)
  | fault (fault : Fault)

namespace Failure

def status : Failure → Nat
  | fault _ => 101
  | _ => 1

def text : Failure → String
  | file error => "Error: " ++ error.message ++ "\n"
  | zeroJobs => "Error: --jobs must be at least 1\n"
  | reports texts =>
    String.join texts ++ "Failed: " ++ texts.length.repr ++ " errors found\n" ++
      "Error: compilation failed with " ++ texts.length.repr ++ " errors\n"
  | fault cause =>
    match cause.message? with
    | some message => message ++ "\n"
    | none => ""

end Failure

abbrev Action (m : Type → Type) := ExceptT Failure (StateT (List String) m)

variable {m : Type → Type} [Monad m]

def say (line : String) : Action m Unit := modify (· ++ [line])

def onFiles {α : Type} (operation : ExceptT FileError m α) : Action m α := do
  match ← operation.run with
  | .ok value => return value
  | .error error => throw (.file error)

def orFault {α : Type} (result : Except Fault α) : Action m α :=
  match result with
  | .ok value => return value
  | .error fault => throw (.fault fault)

/-- The options of an invocation: those of the configuration, with what the arguments say instead. -/
def optionsOf (files : FileAccess m) (invocation : Invocation) : Action m Options := do
  let options ← match invocation.config with
    | some path => onFiles (files.loadOptions path)
    | none => onFiles (files.discoverOptions ".")
  let options := { options with
    moduleName := invocation.moduleName.getD options.moduleName
    output := invocation.output.getD options.output }
  match invocation.jobs with
  | some 0 => throw .zeroJobs
  | some jobs => return { options with jobs := some jobs }
  | none => return options

def compileFiles (files : FileAccess m) (options : Options) (paths : List String) :
    Action m IrModule := do
  let loaded ← onFiles (files.loadUnits paths)
  match ← orFault (compile options.moduleName loaded.units) with
  | .ok mod => return mod
  | .error diagnostics =>
    throw (.reports (← orFault (diagnostics.mapM (·.render .plain loaded.sources))))

def check (files : FileAccess m) (options : Options) (paths : List String) : Action m Unit := do
  say ("Checking " ++ paths.length.repr ++ " units")
  let _ ← compileFiles files options paths
  say "Success: No errors found"

def build (files : FileAccess m) (options : Options) (paths : List String) : Action m Unit := do
  say ("Compiling module `" ++ options.moduleName ++ "` from " ++ paths.length.repr ++ " units")
  let mod ← compileFiles files options paths
  let text ← orFault mod.text
  onFiles (files.writeText options.output text)
  say ("  Lowered: " ++ mod.functions.size.repr ++ " functions, " ++ mod.globals.size.repr ++
    " globals")
  say ("  Finished wrote " ++ options.output)

def runInvocation (files : FileAccess m) (invocation : Invocation) : m Outcome := do
  let action : Action m Unit := do
    let options ← optionsOf files invocation
    match invocation.command with
    | .check => check files options invocation.units
    | .build => build files options invocation.units
  let (result, lines) ← action.run.run []
  match result with
  | .ok () => return ⟨0, lines, "", invocation.command = .build⟩
  | .error failure => return ⟨failure.status, lines, failure.text, false⟩

def run (files : FileAccess m) (arguments : List String) : m Outcome :=
  match readArguments arguments with
  | .run invocation => runInvocation files invocation
  | .help topic => return ⟨0, topic.helpLines, "", false⟩
  | .version => return ⟨0, [versionText], "", false⟩
  | .misuse => return ⟨2, [], "error: the arguments are not understood; see `acorn --help`\n", false⟩

end CommandLine

end SsaCompiler
