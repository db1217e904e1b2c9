import SsaCompiler.Json.Printer
import SsaCompiler.Json.Record
import SsaCompiler.Syntax.Unit

/-!
# The JSON form of a unit

Every member of a record is written, what is absent is null, and a variant without payload is its
name. How a float is written is left to the caller: `Json.float` writes the number itself.
-/

namespace SsaCompiler

def Json.variant (name : String) (payload : Json) : Json := .object [(name, payload)]

def Json.variantRecord (name : String) (members : List (String × Json)) : Json :=
  .variant name (.object members)

def FileSpan.toJson (location : FileSpan) : Json :=
  .object [("file", .nat location.file.index),
    ("span", .object [("start", .nat location.span.start), ("end", .nat location.span.stop)])]

def Literal.toJson (float : Binary64 → Json) : Literal → Json
  | .int value bits => .variantRecord "Int" [("value", .int value), ("bits", .optional .nat bits)]
  | .float value bits =>
    .variantRecord "Float" [("value", float value), ("bits", .optional .nat bits)]
  | .bool value => .variant "Bool" (.bool value)
  | .unit => .string "Unit"
  | .cString text => .variant "CString" (.string text)

mutual
def TypeExpr.toJson : TypeExpr → Json
  | .named name span => .variantRecord "Named" [("name", .string name), ("span", span.toJson)]
  | .pointer pointee span =>
    .variantRecord "Pointer" [("pointee", pointee.toJson), ("span", span.toJson)]
  | .function params result varargs span =>
    .variantRecord "Function"
      [("params", .array (TypeExpr.listToJson params)),
        ("ret", match result with
          | some result => result.toJson
          | none => .null),
        ("varargs", .bool varargs), ("span", span.toJson)]

def TypeExpr.listToJson : List TypeExpr → List Json
  | [] => []
  | type :: rest => type.toJson :: TypeExpr.listToJson rest
end

def ExprId.toJson (id : ExprId) : Json := .nat id.index

def StmtId.toJson (id : StmtId) : Json := .nat id.index

def FieldInit.toJson (init : FieldInit) : Json :=
  .object [("name", .string init.name), ("value", init.value.toJson), ("span", init.span.toJson)]

def ExprNode.toJson (float : Binary64 → Json) : ExprNode → Json
  | .literal value span =>
    .variantRecord "Literal" [("value", value.toJson float), ("span", span.toJson)]
  | .var name span => .variantRecord "Variable" [("name", .string name), ("span", span.toJson)]
  | .binary op lhs rhs span =>
    .variantRecord "Binary"
      [("op", .string op.name), ("lhs", lhs.toJson), ("rhs", rhs.toJson), ("span", span.toJson)]
  | .unary op operand span =>
    .variantRecord "Unary"
      [("op", .string op.name), ("operand", operand.toJson), ("span", span.toJson)]
  | .call callee args span =>
    .variantRecord "Call"
      [("callee", callee.toJson), ("args", .list ExprId.toJson args), ("span", span.toJson)]
  | .assign target value span =>
    .variantRecord "Assign"
      [("target", target.toJson), ("value", value.toJson), ("span", span.toJson)]
  | .cond condition thenBranch elseBranch span =>
    .variantRecord "If"
      [("condition", condition.toJson), ("then_branch", thenBranch.toJson),
        ("else_branch", .optional ExprId.toJson elseBranch), ("span", span.toJson)]
  | .loop condition body span =>
    .variantRecord "While"
      [("condition", condition.toJson), ("body", body.toJson), ("span", span.toJson)]
  | .block stmts tail span =>
    .variantRecord "Block"
      [("stmts", .list StmtId.toJson stmts), ("tail", .optional ExprId.toJson tail),
        ("span", span.toJson)]
  | .field base name span =>
    .variantRecord "Field"
      [("base", base.toJson), ("field", .string name), ("span", span.toJson)]
  | .structLiteral name fields span =>
    .variantRecord "StructLiteral"
      [("name", .string name), ("fields", .list FieldInit.toJson fields), ("span", span.toJson)]
  | .breakLoop span => .variantRecord "Break" [("span", span.toJson)]
  | .continueLoop span => .variantRecord "Continue" [("span", span.toJson)]

def StmtNode.toJson : StmtNode → Json
  | .bind name type init span =>
    .variantRecord "Let"
      [("name", .string name), ("ty", .optional TypeExpr.toJson type),
        ("init", .optional ExprId.toJson init), ("span", span.toJson)]
  | .eval expr span => .variantRecord "Expr" [("expr", expr.toJson), ("span", span.toJson)]
  | .ret value span =>
    .variantRecord "Return" [("value", .optional ExprId.toJson value), ("span", span.toJson)]

def Body.toJson (float : Binary64 → Json) (body : Body) : Json :=
  .object [("exprs", .list (ExprNode.toJson float) body.exprs.toList),
    ("stmts", .list StmtNode.toJson body.stmts.toList), ("root", body.root.toJson)]

def Param.toJson (param : Param) : Json :=
  .object [("name", .string param.name), ("ty", param.type.toJson), ("span", param.span.toJson)]

def Attribute.toJson : Attribute → Json
  | .varargs => .string "Varargs"
  | .mangleAs symbol => .variant "MangleAs" (.string symbol)

def FunctionDecl.toJson (float : Binary64 → Json) (decl : FunctionDecl) : Json :=
  .object [("name", .string decl.name), ("params", .list Param.toJson decl.params),
    ("return_type", .optional TypeExpr.toJson decl.result),
    ("body", .optional (Body.toJson float) decl.body),
    ("attributes", .list Attribute.toJson decl.attributes), ("span", decl.span.toJson)]

def GlobalDecl.toJson (float : Binary64 → Json) (decl : GlobalDecl) : Json :=
  .object [("name", .string decl.name), ("ty", decl.type.toJson),
    ("init", .optional (Literal.toJson float) decl.init), ("span", decl.span.toJson)]

def FieldDecl.toJson (decl : FieldDecl) : Json :=
  .object [("name", .string decl.name), ("ty", decl.type.toJson), ("span", decl.span.toJson)]

def StructDecl.toJson (decl : StructDecl) : Json :=
  .object [("name", .string decl.name), ("fields", .list FieldDecl.toJson decl.fields),
    ("span", decl.span.toJson)]

def AliasDecl.toJson (decl : AliasDecl) : Json :=
  .object [("name", .string decl.name), ("ty", decl.type.toJson), ("span", decl.span.toJson)]

def Item.toJson (float : Binary64 → Json) : Item → Json
  | .function decl => .variant "Function" (decl.toJson float)
  | .global decl => .variant "Global" (decl.toJson float)
  | .struct decl => .variant "Struct" decl.toJson
  | .typeAlias decl => .variant "TypeAlias" decl.toJson

def SourceUnit.toJson (float : Binary64 → Json) (unit : SourceUnit) : Json :=
  .object [("name", .string unit.name), ("file", .nat unit.file.index),
    ("path", .optional .string unit.path), ("items", .list (Item.toJson float) unit.items)]

/-- The text of a unit. Floats are written as the numbers they are, and the members of each record in
the order of their names. -/
def SourceUnit.toText (unit : SourceUnit) : String :=
  (unit.toJson Json.float).sorted.render

end SsaCompiler
