import SsaCompiler.Json.Parser
import SsaCompiler.Json.Record
import SsaCompiler.Syntax.Unit

/-!
# Reading units

`SourceUnit.ofJson?` reads the JSON form of a unit, and `SourceUnit.ofText?` its text. A text may
nest the parts of a unit at most `levelLimit` levels deep; only types can nest without bound, so the
limit is a limit on them.
-/

namespace SsaCompiler

def FileSpan.ofJson? (json : Json) : Option FileSpan := do
  let outer ← json.record? ["file", "span"]
  let file ← outer.required "file" (Json.unsigned? 32)
  let inner ← outer.required "span" (Json.record? ["start", "end"])
  let start ← inner.required "start" (Json.unsigned? 32)
  let stop ← inner.required "end" (Json.unsigned? 32)
  some ⟨⟨file⟩, ⟨start, stop⟩⟩

namespace Json.Record

def span (record : Json.Record) : Option FileSpan := record.required "span" FileSpan.ofJson?

def text (record : Json.Record) (name : String) : Option String := record.required name Json.string?

end Json.Record

def Literal.ofJson? (json : Json) : Option Literal := do
  match ← json.variant? with
  | ("Int", some payload) =>
    let record ← payload.record? ["value", "bits"]
    let value ← record.required "value" Json.int64?
    let bits ← record.withDefault "bits" (Json.nullable? (Json.unsigned? 8)) none
    some (.int value bits)
  | ("Float", some payload) =>
    let record ← payload.record? ["value", "bits"]
    let value ← record.required "value" Json.binary64?
    let bits ← record.withDefault "bits" (Json.nullable? (Json.unsigned? 8)) none
    some (.float value bits)
  | ("Bool", some payload) => payload.bool?.map Literal.bool
  | ("Unit", none) => some .unit
  | ("Unit", some .null) => some .unit
  | ("CString", some payload) => payload.string?.map Literal.cString
  | _ => none

def TypeExpr.read? : Nat → Json → Option TypeExpr
  | 0, _ => none
  | fuel + 1, json => do
    match ← json.variant? with
    | ("Named", some payload) =>
      let record ← payload.record? ["name", "span"]
      let name ← record.text "name"
      let span ← record.span
      some (.named name span)
    | ("Pointer", some payload) =>
      let record ← payload.record? ["pointee", "span"]
      let pointee ← record.required "pointee" (TypeExpr.read? fuel)
      let span ← record.span
      some (.pointer pointee span)
    | ("Function", some payload) =>
      let record ← payload.record? ["params", "ret", "varargs", "span"]
      let params ← record.required "params" (Json.list? (TypeExpr.read? fuel))
      let result ← record.optional "ret" (TypeExpr.read? fuel)
      let varargs ← record.withDefault "varargs" Json.bool? false
      let span ← record.span
      some (.function params result varargs span)
    | _ => none

/-- Reads a type. Each level of a type takes a level of its JSON form. -/
def TypeExpr.ofJson? (json : Json) : Option TypeExpr := TypeExpr.read? json.depth json

def ExprId.ofJson? (json : Json) : Option ExprId := (json.unsigned? 32).map ExprId.mk

namespace Json.Record

def expr (record : Json.Record) (name : String) : Option ExprId :=
  record.required name ExprId.ofJson?

def expr? (record : Json.Record) (name : String) : Option (Option ExprId) :=
  record.optional name ExprId.ofJson?

end Json.Record

def StmtId.ofJson? (json : Json) : Option StmtId := (json.unsigned? 32).map StmtId.mk

def BinaryOp.ofJson? (json : Json) : Option BinaryOp := do BinaryOp.ofName? (← json.bareVariant?)

def UnaryOp.ofJson? (json : Json) : Option UnaryOp := do UnaryOp.ofName? (← json.bareVariant?)

def FieldInit.ofJson? (json : Json) : Option FieldInit := do
  let record ← json.record? ["name", "value", "span"]
  let name ← record.text "name"
  let value ← record.expr "value"
  let span ← record.span
  some ⟨name, value, span⟩

def ExprNode.ofJson? (json : Json) : Option ExprNode := do
  match ← json.variant? with
  | ("Literal", some payload) =>
    let record ← payload.record? ["value", "span"]
    let value ← record.required "value" Literal.ofJson?
    let span ← record.span
    some (.literal value span)
  | ("Variable", some payload) =>
    let record ← payload.record? ["name", "span"]
    let name ← record.text "name"
    let span ← record.span
    some (.var name span)
  | ("Binary", some payload) =>
    let record ← payload.record? ["op", "lhs", "rhs", "span"]
    let op ← record.required "op" BinaryOp.ofJson?
    let lhs ← record.expr "lhs"
    let rhs ← record.expr "rhs"
    let span ← record.span
    some (.binary op lhs rhs span)
  | ("Unary", some payload) =>
    let record ← payload.record? ["op", "operand", "span"]
    let op ← record.required "op" UnaryOp.ofJson?
    let operand ← record.expr "operand"
    let span ← record.span
    some (.unary op operand span)
  | ("Call", some payload) =>
    let record ← payload.record? ["callee", "args", "span"]
    let callee ← record.expr "callee"
    let args ← record.required "args" (Json.list? ExprId.ofJson?)
    let span ← record.span
    some (.call callee args span)
  | ("Assign", some payload) =>
    let record ← payload.record? ["target", "value", "span"]
    let target ← record.expr "target"
    let value ← record.expr "value"
    let span ← record.span
    some (.assign target value span)
  | ("If", some payload) =>
    let record ← payload.record? ["condition", "then_branch", "else_branch", "span"]
    let condition ← record.expr "condition"
    let thenBranch ← record.expr "then_branch"
    let elseBranch ← record.expr? "else_branch"
    let span ← record.span
    some (.cond condition thenBranch elseBranch span)
  | ("While", some payload) =>
    let record ← payload.record? ["condition", "body", "span"]
    let condition ← record.expr "condition"
    let body ← record.expr "body"
    let span ← record.span
    some (.loop condition body span)
  | ("Block", some payload) =>
    let record ← payload.record? ["stmts", "tail", "span"]
    let stmts ← record.required "stmts" (Json.list? StmtId.ofJson?)
    let tail ← record.expr? "tail"
    let span ← record.span
    some (.block stmts tail span)
  | ("Field", some payload) =>
    let record ← payload.record? ["base", "field", "span"]
    let base ← record.expr "base"
    let field ← record.text "field"
    let span ← record.span
    some (.field base field span)
  | ("StructLiteral", some payload) =>
    let record ← payload.record? ["name", "fields", "span"]
    let name ← record.text "name"
    let fields ← record.required "fields" (Json.list? FieldInit.ofJson?)
    let span ← record.span
    some (.structLiteral name fields span)
  | ("Break", some payload) =>
    let record ← payload.record? ["span"]
    let span ← record.span
    some (.breakLoop span)
  | ("Continue", some payload) =>
    let record ← payload.record? ["span"]
    let span ← record.span
    some (.continueLoop span)
  | _ => none

def StmtNode.ofJson? (json : Json) : Option StmtNode := do
  match ← json.variant? with
  | ("Let", some payload) =>
    let record ← payload.record? ["name", "ty", "init", "span"]
    let name ← record.text "name"
    let type ← record.optional "ty" TypeExpr.ofJson?
    let init ← record.expr? "init"
    let span ← record.span
    some (.bind name type init span)
  | ("Expr", some payload) =>
    let record ← payload.record? ["expr", "span"]
    let expr ← record.expr "expr"
    let span ← record.span
    some (.eval expr span)
  | ("Return", some payload) =>
    let record ← payload.record? ["value", "span"]
    let value ← record.expr? "value"
    let span ← record.span
    some (.ret value span)
  | _ => none

def Body.ofJson? (json : Json) : Option Body := do
  let record ← json.record? ["exprs", "stmts", "root"]
  let exprs ← record.required "exprs" (Json.list? ExprNode.ofJson?)
  let stmts ← record.required "stmts" (Json.list? StmtNode.ofJson?)
  let root ← record.expr "root"
  some ⟨exprs.toArray, stmts.toArray, root⟩

/-- Reads what is made of a name, a type and a span. -/
def Json.typed? {α : Type} (make : String → TypeExpr → FileSpan → α) (json : Json) : Option α := do
  let record ← json.record? ["name", "ty", "span"]
  let name ← record.text "name"
  let type ← record.required "ty" TypeExpr.ofJson?
  let span ← record.span
  some (make name type span)

def Param.ofJson? : Json → Option Param := Json.typed? Param.mk

def Attribute.ofJson? (json : Json) : Option Attribute := do
  match ← json.variant? with
  | ("Varargs", none) => some .varargs
  | ("Varargs", some .null) => some .varargs
  | ("MangleAs", some payload) => payload.string?.map Attribute.mangleAs
  | _ => none

def FunctionDecl.ofJson? (json : Json) : Option FunctionDecl := do
  let record ← json.record? ["name", "params", "return_type", "body", "attributes", "span"]
  let name ← record.text "name"
  let params ← record.required "params" (Json.list? Param.ofJson?)
  let result ← record.withDefault "return_type" (Json.nullable? TypeExpr.ofJson?) none
  let body ← record.withDefault "body" (Json.nullable? Body.ofJson?) none
  let attributes ← record.withDefault "attributes" (Json.list? Attribute.ofJson?) []
  let span ← record.span
  some ⟨name, params, result, body, attributes, span⟩

def GlobalDecl.ofJson? (json : Json) : Option GlobalDecl := do
  let record ← json.record? ["name", "ty", "init", "span"]
  let name ← record.text "name"
  let type ← record.required "ty" TypeExpr.ofJson?
  let init ← record.withDefault "init" (Json.nullable? Literal.ofJson?) none
  let span ← record.span
  some ⟨name, type, init, span⟩

def FieldDecl.ofJson? : Json → Option FieldDecl := Json.typed? FieldDecl.mk

def StructDecl.ofJson? (json : Json) : Option StructDecl := do
  let record ← json.record? ["name", "fields", "span"]
  let name ← record.text "name"
  let fields ← record.required "fields" (Json.list? FieldDecl.ofJson?)
  let span ← record.span
  some ⟨name, fields, span⟩

def AliasDecl.ofJson? : Json → Option AliasDecl := Json.typed? AliasDecl.mk

def Item.ofJson? (json : Json) : Option Item := do
  match ← json.variant? with
  | ("Function", some payload) => (FunctionDecl.ofJson? payload).map Item.function
  | ("Global", some payload) => (GlobalDecl.ofJson? payload).map Item.global
  | ("Struct", some payload) => (StructDecl.ofJson? payload).map Item.struct
  | ("TypeAlias", some payload) => (AliasDecl.ofJson? payload).map Item.typeAlias
  | _ => none

def SourceUnit.ofJson? (json : Json) : Option SourceUnit := do
  let record ← json.record? ["name", "file", "path", "items"]
  let name ← record.text "name"
  let file ← record.withDefault "file" (Json.unsigned? 32) 0
  let path ← record.withDefault "path" (Json.nullable? Json.string?) none
  let items ← record.required "items" (Json.list? Item.ofJson?)
  some ⟨name, ⟨file⟩, path, items⟩

/-! ## Text -/

mutual
/-- The levels of arrays and objects in the JSON form of a type. -/
def TypeExpr.levels : TypeExpr → Nat
  | .named _ _ => 4
  | .pointer pointee _ => 2 + pointee.levels
  | .function params result _ _ =>
    2 + max (max 2 (1 + TypeExpr.listLevels params))
      (match result with
        | some result => result.levels
        | none => 0)

def TypeExpr.listLevels : List TypeExpr → Nat
  | [] => 0
  | type :: rest => max type.levels (TypeExpr.listLevels rest)
end

def StmtNode.levels : StmtNode → Nat
  | .bind _ (some type) _ _ => type.levels
  | _ => 0

/-- The levels of an item of a unit, those of the unit around it included. -/
def Item.levels : Item → Nat
  | .function decl =>
    let params := TypeExpr.listLevels (decl.params.map (·.type))
    let result := TypeExpr.listLevels decl.result.toList
    let stmts := match decl.body with
      | some body => body.stmts.toList.foldl (fun deepest stmt => max deepest stmt.levels) 0
      | none => 0
    max (6 + params) (max (4 + result) (8 + stmts))
  | .global decl => 4 + decl.type.levels
  | .struct decl => 6 + TypeExpr.listLevels (decl.fields.map (·.type))
  | .typeAlias decl => 4 + decl.type.levels

/-- The greatest number of levels that the text of a unit may have. -/
def levelLimit : Nat := 127

def SourceUnit.ofText? (text : String) : Option SourceUnit := do
  let unit ← SourceUnit.ofJson? (← Json.parse text)
  if unit.items.all (·.levels ≤ levelLimit) then some unit else none

end SsaCompiler
