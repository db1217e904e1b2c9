import SsaCompiler.Files.Access
import SsaCompiler.Files.Path
import SsaCompiler.Options
import SsaCompiler.SourceMap
import SsaCompiler.Syntax.Decoding

/-!
# Loading and writing

Options, units and their source texts come from files, and the text of a module goes to one. A unit
may say where its source text is, as seen from the directory of the unit's own file; that text is only
shown in reports, so it may be missing.
-/

namespace SsaCompiler

inductive FileError where
  | unreadable (path : String)
  | invalidOptions (path : String)
  | invalidUnit (path : String)
  | notCreated (path : String)
  | notWritten (path : String)
deriving DecidableEq, Repr

namespace FileError

def message : FileError → String
  | unreadable path => "failed to read " ++ path
  | invalidOptions path => "in " ++ path
  | invalidUnit path => path ++ " is not a valid unit"
  | notCreated path => "failed to create " ++ path
  | notWritten path => "failed to write " ++ path

end FileError

structure LoadedUnits where
  units : List SourceUnit
  sources : SourceMap

namespace FileAccess

variable {m : Type → Type} [Monad m]

def optionsFile : String := "Acorn.toml"

def require (files : FileAccess m) (path : String) : ExceptT FileError m String := do
  match ← files.read path with
  | some text => return text
  | none => throw (.unreadable path)

def loadOptions (files : FileAccess m) (path : String) : ExceptT FileError m Options := do
  match Options.ofToml (← files.require path) with
  | .ok options => return options
  | .error _ => throw (.invalidOptions path)

/-- Loads the options of the configuration file of a directory, if there is one. -/
def discoverOptions (files : FileAccess m) (directory : String) : ExceptT FileError m Options := do
  let path := Path.join directory optionsFile
  if ← files.isFile path then files.loadOptions path else return .default

def sourcePath (path source : String) : String :=
  match Path.parent? path with
  | some directory => Path.join directory source
  | none => source

def loadSource (files : FileAccess m) (path : String) (unit : SourceUnit) (sources : SourceMap) :
    ExceptT FileError m SourceMap := do
  match unit.path with
  | none => return sources
  | some source =>
    let source := sourcePath path source
    match ← files.read source with
    | some text => return sources.insert unit.name ⟨source, text⟩
    | none => return sources

/-- Loads a unit as the file with a number, behind those loaded already. -/
def loadUnit (files : FileAccess m) (loaded : LoadedUnits) (path : String × Nat) :
    ExceptT FileError m LoadedUnits := do
  let (path, index) := path
  match SourceUnit.ofText? (← files.require path) with
  | none => throw (.invalidUnit path)
  | some unit =>
    let sources ← files.loadSource path unit loaded.sources
    return ⟨loaded.units ++ [{ unit with file := ⟨index⟩ }], sources⟩

/-- Loads units, which get their positions as the numbers of their files. -/
def loadUnits (files : FileAccess m) (paths : List String) : ExceptT FileError m LoadedUnits :=
  paths.zipIdx.foldlM files.loadUnit ⟨[], .empty⟩

def writeText (files : FileAccess m) (path text : String) : ExceptT FileError m Unit := do
  match Path.parent? path with
  | none => pure ()
  | some directory =>
    unless directory.isEmpty do
      unless ← files.createDirectories directory do throw (.notCreated directory)
  unless ← files.write path text do throw (.notWritten path)

end FileAccess

end SsaCompiler
