import SsaCompiler.Syntax.Unit

/-!
# Building bodies

A builder hands out spans of one byte each, one after the other, and puts the nodes it is given at
the next free position. So every node built gets a span of its own, and the nodes stand in the order
in which they were built.
-/

namespace SsaCompiler

/-- The nodes built so far, and the next offset to hand out. -/
structure BodyBuilder where
  file : FileId
  nextOffset : Nat
  exprs : Array ExprNode
  stmts : Array StmtNode

abbrev Build := StateM BodyBuilder

namespace BodyBuilder

/-- A builder that hands out the offsets of `file` from `offset` on. -/
def new (file : FileId) (offset : Nat) : BodyBuilder := ⟨file, offset, #[], #[]⟩

end BodyBuilder

namespace Build

def span : Build FileSpan := do
  let builder ← get
  let offset := builder.nextOffset
  set { builder with nextOffset := offset + 1 }
  return ⟨builder.file, ⟨offset, offset + 1⟩⟩

def addExpr (node : ExprNode) : Build ExprId := do
  let builder ← get
  set { builder with exprs := builder.exprs.push node }
  return ⟨builder.exprs.size⟩

def addStmt (node : StmtNode) : Build StmtId := do
  let builder ← get
  set { builder with stmts := builder.stmts.push node }
  return ⟨builder.stmts.size⟩

def expr (node : FileSpan → ExprNode) : Build ExprId := do addExpr (node (← span))

def stmt (node : FileSpan → StmtNode) : Build StmtId := do addStmt (node (← span))

def type (build : FileSpan → TypeExpr) : Build TypeExpr := do return build (← span)

def param (name : String) (type : TypeExpr) : Build Param := do return ⟨name, type, ← span⟩

/-- A struct literal: one span for each initializer in order, then one for the literal. -/
def structLiteral (name : String) (fields : List (String × ExprId)) : Build ExprId := do
  let inits ← fields.mapM fun (field, value) => do return ⟨field, value, ← span⟩
  expr (.structLiteral name inits)

/-- The body whose root is the block of `stmts` and `tail`. -/
def finish (stmts : List StmtId) (tail : Option ExprId) : Build Body := do
  let root ← expr (.block stmts tail)
  let builder ← get
  return ⟨builder.exprs, builder.stmts, root⟩

/-- A function around the block of `stmts` and `tail`; its span precedes that of the block. -/
def finishFunction (name : String) (params : List Param) (result : Option TypeExpr)
    (stmts : List StmtId) (tail : Option ExprId) : Build FunctionDecl := do
  let span ← span
  let body ← finish stmts tail
  return ⟨name, params, result, some body, [], span⟩

end Build

end SsaCompiler
