import SsaCompiler.Span

/-!
# Type expressions

Types as written: names, pointers and function types. A function type without a result type gives
back nothing.
-/

namespace SsaCompiler

inductive TypeExpr where
  | named (name : String) (span : FileSpan)
  | pointer (pointee : TypeExpr) (span : FileSpan)
  | function (params : List TypeExpr) (result : Option TypeExpr) (varargs : Bool) (span : FileSpan)
deriving Repr, Inhabited

namespace TypeExpr

def span : TypeExpr → FileSpan
  | named _ span | pointer _ span | function _ _ _ span => span

end TypeExpr

end SsaCompiler
