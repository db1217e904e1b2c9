import SsaCompiler.Suggestion
import SsaCompiler.Span

/-!
# Errors of name resolution
-/

namespace SsaCompiler

inductive SymbolError where
  /-- No visible declaration; near names are suggested. -/
  | unboundName (name : String) (span : FileSpan) (suggestions : List String)
  /-- Declared again in the scope of the declaration at `first`. -/
  | duplicate (name : String) (span first : FileSpan)
deriving DecidableEq, Repr

namespace SymbolError

def message : SymbolError → String
  | unboundName name _ _ => s!"cannot find `{name}` in this scope"
  | duplicate name _ _ => s!"`{name}` is already declared in this scope"

def span : SymbolError → FileSpan
  | unboundName _ span _ | duplicate _ span _ => span

/-- The error of a name that is none of `candidates`. -/
def unbound (name : String) (span : FileSpan) (candidates : List String) : SymbolError :=
  .unboundName name span (Suggestion.suggest name candidates)

end SymbolError

end SsaCompiler
