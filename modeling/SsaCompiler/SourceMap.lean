import SsaCompiler.Table

/-!
# Source texts

The texts of units that diagnostics can show a part of. A unit is looked up by its name, and the text
set last counts.
-/

namespace SsaCompiler

structure SourceFile where
  path : String
  text : String
deriving DecidableEq, Repr

/-- The source files of units, by the name of the unit. -/
abbrev SourceMap := Table String SourceFile

end SsaCompiler
