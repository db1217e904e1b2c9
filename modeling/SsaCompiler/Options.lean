import SsaCompiler.Toml

/-!
# Options

What a compilation can be told: the name of the module, the number of workers, and where the module
is written. All of them can be set in a configuration file.
-/

namespace SsaCompiler

structure Options where
  moduleName : String
  /-- The number of workers; as many as there are processors if there is none. -/
  jobs : Option Nat
  output : String
deriving DecidableEq, Repr

inductive OptionsError where
  | invalid
  | zeroJobs
deriving DecidableEq, Repr

namespace OptionsError

def message : OptionsError → String
  | invalid => "invalid compile options"
  | zeroJobs => "`jobs` must be at least 1"

end OptionsError

namespace Options

def default : Options := ⟨"acorn", none, "build/output.ll"⟩

def set? (options : Options) : String × Toml.Value → Option Options
  | ("module_name", .string name) => some { options with moduleName := name }
  | ("output", .string path) => some { options with output := path }
  | ("jobs", .integer count) =>
    if count < 0 then none else some { options with jobs := some count.toNat }
  | _ => none

def ofToml (text : String) : Except OptionsError Options :=
  match (Toml.parse text).bind (·.foldlM set? default) with
  | none => .error .invalid
  | some options => if options.jobs = some 0 then .error .zeroJobs else .ok options

end Options

end SsaCompiler
