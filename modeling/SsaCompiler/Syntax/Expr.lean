import SsaCompiler.Fault
import SsaCompiler.Syntax.Body

/-!
# Expression trees

`Body.tree` reads a body from its root as a tree. Every node keeps its position in the body, because
what is recorded about a node is recorded by position; a node that several others refer to occurs
several times in the tree. A position outside the tables, or a node below itself, is a fault.
-/

namespace SsaCompiler

mutual
inductive Expr where
  | literal (id : ExprId) (span : FileSpan) (value : Literal)
  | var (id : ExprId) (span : FileSpan) (name : String)
  | binary (id : ExprId) (span : FileSpan) (op : BinaryOp) (lhs rhs : Expr)
  | unary (id : ExprId) (span : FileSpan) (op : UnaryOp) (operand : Expr)
  | call (id : ExprId) (span : FileSpan) (callee : Expr) (args : List Expr)
  | assign (id : ExprId) (span : FileSpan) (target value : Expr)
  | cond (id : ExprId) (span : FileSpan) (condition thenBranch : Expr) (elseBranch : Option Expr)
  | loop (id : ExprId) (span : FileSpan) (condition body : Expr)
  | block (id : ExprId) (span : FileSpan) (stmts : List Stmt) (tail : Option Expr)
  | field (id : ExprId) (span : FileSpan) (base : Expr) (field : String)
  | structLiteral (id : ExprId) (span : FileSpan) (name : String) (fields : List Init)
  | breakLoop (id : ExprId) (span : FileSpan)
  | continueLoop (id : ExprId) (span : FileSpan)

inductive Stmt where
  | bind (id : StmtId) (span : FileSpan) (name : String) (type : Option TypeExpr)
      (init : Option Expr)
  | eval (id : StmtId) (span : FileSpan) (expr : Expr)
  | ret (id : StmtId) (span : FileSpan) (value : Option Expr)

inductive Init where
  | mk (name : String) (span : FileSpan) (value : Expr)
end

namespace Expr

def id : Expr → ExprId
  | literal id _ _ | var id _ _ | binary id _ _ _ _ | unary id _ _ _ | call id _ _ _
  | assign id _ _ _ | cond id _ _ _ _ | loop id _ _ _ | block id _ _ _ | field id _ _ _
  | structLiteral id _ _ _ | breakLoop id _ | continueLoop id _ => id

def span : Expr → FileSpan
  | literal _ span _ | var _ span _ | binary _ span _ _ _ | unary _ span _ _ | call _ span _ _
  | assign _ span _ _ | cond _ span _ _ _ | loop _ span _ _ | block _ span _ _ | field _ span _ _
  | structLiteral _ span _ _ | breakLoop _ span | continueLoop _ span => span

def isTrue : Expr → Bool
  | literal _ _ (.bool true) => true
  | _ => false

end Expr

namespace Init

def name : Init → String
  | mk name _ _ => name

def span : Init → FileSpan
  | mk _ span _ => span

def value : Init → Expr
  | mk _ _ value => value

end Init

namespace Body

mutual
/-- The tree of the expression at a position, at most `fuel` levels deep. -/
def exprTree (body : Body) : Nat → ExprId → Except Fault Expr
  | 0, _ => .error .endless
  | fuel + 1, id =>
    match body.exprs[id.index]? with
    | none => .error .outOfRange
    | some (.literal value span) => .ok (.literal id span value)
    | some (.var name span) => .ok (.var id span name)
    | some (.binary op lhs rhs span) => do
      let lhs ← exprTree body fuel lhs
      let rhs ← exprTree body fuel rhs
      .ok (.binary id span op lhs rhs)
    | some (.unary op operand span) => do
      let operand ← exprTree body fuel operand
      .ok (.unary id span op operand)
    | some (.call callee args span) => do
      let callee ← exprTree body fuel callee
      let args ← args.mapM (exprTree body fuel)
      .ok (.call id span callee args)
    | some (.assign target value span) => do
      let target ← exprTree body fuel target
      let value ← exprTree body fuel value
      .ok (.assign id span target value)
    | some (.cond condition thenBranch elseBranch span) => do
      let condition ← exprTree body fuel condition
      let thenBranch ← exprTree body fuel thenBranch
      let elseBranch ← elseBranch.mapM (exprTree body fuel)
      .ok (.cond id span condition thenBranch elseBranch)
    | some (.loop condition loopBody span) => do
      let condition ← exprTree body fuel condition
      let loopBody ← exprTree body fuel loopBody
      .ok (.loop id span condition loopBody)
    | some (.block stmts tail span) => do
      let stmts ← stmts.mapM (stmtTree body fuel)
      let tail ← tail.mapM (exprTree body fuel)
      .ok (.block id span stmts tail)
    | some (.field base field span) => do
      let base ← exprTree body fuel base
      .ok (.field id span base field)
    | some (.structLiteral name fields span) => do
      let fields ← fields.mapM fun init => do
        let value ← exprTree body fuel init.value
        .ok (Init.mk init.name init.span value)
      .ok (.structLiteral id span name fields)
    | some (.breakLoop span) => .ok (.breakLoop id span)
    | some (.continueLoop span) => .ok (.continueLoop id span)

def stmtTree (body : Body) : Nat → StmtId → Except Fault Stmt
  | 0, _ => .error .endless
  | fuel + 1, id =>
    match body.stmts[id.index]? with
    | none => .error .outOfRange
    | some (.bind name type init span) => do
      let init ← init.mapM (exprTree body fuel)
      .ok (.bind id span name type init)
    | some (.eval expr span) => do
      let expr ← exprTree body fuel expr
      .ok (.eval id span expr)
    | some (.ret value span) => do
      let value ← value.mapM (exprTree body fuel)
      .ok (.ret id span value)
end

/-- The tree of a body. No path through a body that does not contain itself has more nodes than the
two tables together, so the bound cuts nothing off. -/
def tree (body : Body) : Except Fault Expr :=
  body.exprTree (body.exprs.size + body.stmts.size + 1) body.root

end Body

end SsaCompiler
