import SsaCompiler.Syntax.Literal
import SsaCompiler.Syntax.Operator
import SsaCompiler.Syntax.TypeExpr

/-!
# Function bodies

The expressions and statements of one function stand in two tables and refer to each other by
position. Nothing is said about the order or the sharing of nodes; `Syntax.Expr` has the trees that
a body stands for.
-/

namespace SsaCompiler

structure ExprId where
  index : Nat
deriving DecidableEq, Repr, Inhabited

structure StmtId where
  index : Nat
deriving DecidableEq, Repr, Inhabited

/-- `name: value` inside a struct literal. -/
structure FieldInit where
  name : String
  value : ExprId
  span : FileSpan
deriving DecidableEq, Repr

/-- One expression, its parts given by position. -/
inductive ExprNode where
  | literal (value : Literal) (span : FileSpan)
  | var (name : String) (span : FileSpan)
  | binary (op : BinaryOp) (lhs rhs : ExprId) (span : FileSpan)
  | unary (op : UnaryOp) (operand : ExprId) (span : FileSpan)
  | call (callee : ExprId) (args : List ExprId) (span : FileSpan)
  | assign (target value : ExprId) (span : FileSpan)
  | cond (condition thenBranch : ExprId) (elseBranch : Option ExprId) (span : FileSpan)
  | loop (condition body : ExprId) (span : FileSpan)
  | block (stmts : List StmtId) (tail : Option ExprId) (span : FileSpan)
  | field (base : ExprId) (field : String) (span : FileSpan)
  | structLiteral (name : String) (fields : List FieldInit) (span : FileSpan)
  | breakLoop (span : FileSpan)
  | continueLoop (span : FileSpan)
deriving Repr

namespace ExprNode

def span : ExprNode → FileSpan
  | literal _ span | var _ span | binary _ _ _ span | unary _ _ span | call _ _ span
  | assign _ _ span | cond _ _ _ span | loop _ _ span | block _ _ span | field _ _ span
  | structLiteral _ _ span | breakLoop span | continueLoop span => span

end ExprNode

/-- One statement, its parts given by position. -/
inductive StmtNode where
  | bind (name : String) (type : Option TypeExpr) (init : Option ExprId) (span : FileSpan)
  | eval (expr : ExprId) (span : FileSpan)
  | ret (value : Option ExprId) (span : FileSpan)
deriving Repr

namespace StmtNode

def span : StmtNode → FileSpan
  | bind _ _ _ span | eval _ span | ret _ span => span

end StmtNode

/-- The nodes of one function, and the expression that is its whole body. -/
structure Body where
  exprs : Array ExprNode
  stmts : Array StmtNode
  root : ExprId
deriving Repr

end SsaCompiler
