import SsaCompiler.Json.Record
import SsaCompiler.Syntax.Builder

/-!
# Units in shorthand

A short JSON notation for units, without spans and without positions: `["bin", "+", ["var", "x"],
["int", 1]]`. Reading it builds the nodes in order, each after its parts, so that every node gets a
span and a position of its own. The spans of an item start at a multiple of `itemSpacing`.
-/

namespace SsaCompiler

def Literal.ofShorthand? : Json → Option Literal
  | .array [.string "int", value] => do return .int (← value.int64?) none
  | .array [.string "int", value, bits] => do
    return .int (← value.int64?) (← bits.nullable? (Json.unsigned? 8))
  | .array [.string "float", value] => do return .float (← value.binary64?) none
  | .array [.string "float", value, bits] => do
    return .float (← value.binary64?) (← bits.nullable? (Json.unsigned? 8))
  | .array [.string "bool", value] => value.bool?.map Literal.bool
  | .array [.string "unit"] => some .unit
  | .array [.string "str", text] => text.string?.map Literal.cString
  | _ => none

def Attribute.ofShorthand? : Json → Option Attribute
  | .string "varargs" => some .varargs
  | .array [.string "mangle_as", symbol] => symbol.string?.map Attribute.mangleAs
  | _ => none

/-- Reading shorthand, which may turn out to be none. -/
abbrev Shorthand := StateT BodyBuilder Option

namespace Shorthand

def build {α : Type} (step : Build α) : Shorthand α := fun builder => some (step.run builder)

def read {α : Type} (value : Option α) : Shorthand α := StateT.lift value

/-- Reads something that may be null. -/
def nullable {α : Type} (decode : Json → Shorthand α) : Json → Shorthand (Option α)
  | .null => return none
  | json => some <$> decode json

/-- A type of at most `fuel` levels. -/
def type : Nat → Json → Shorthand TypeExpr
  | 0, _ => failure
  | _ + 1, .string name => build (.type (.named name))
  | fuel + 1, .array [.string "*", pointee] => do
    build (.type (.pointer (← type fuel pointee)))
  | fuel + 1, .array (.string "fn" :: .array params :: result :: varargs) => do
    let params ← params.mapM (type fuel)
    let result ← nullable (type fuel) result
    let varargs ← read (varargs.mapM (·.bool?))
    build (.type (.function params result (varargs.headD false)))
  | _, _ => failure

def typeExpr (json : Json) : Shorthand TypeExpr := type (json.depth + 1) json

mutual
def expr : Nat → Json → Shorthand ExprId
  | 0, _ => failure
  | fuel + 1, json => do
    match Literal.ofShorthand? json, json with
    | some literal, _ => build (.expr (.literal literal))
    | none, .array [.string "var", name] => build (.expr (.var (← read name.string?)))
    | none, .array [.string "bin", symbol, lhs, rhs] =>
      let op ← read (symbol.string?.bind BinaryOp.ofSymbol?)
      build (.expr (.binary op (← expr fuel lhs) (← expr fuel rhs)))
    | none, .array [.string "un", symbol, operand] =>
      let op ← read (symbol.string?.bind UnaryOp.ofSymbol?)
      build (.expr (.unary op (← expr fuel operand)))
    | none, .array (.string "call" :: callee :: args) =>
      build (.expr (.call (← expr fuel callee) (← args.mapM (expr fuel))))
    | none, .array [.string "assign", target, value] =>
      build (.expr (.assign (← expr fuel target) (← expr fuel value)))
    | none, .array (.string "if" :: condition :: thenBranch :: elseBranch) =>
      let condition ← expr fuel condition
      let thenBranch ← expr fuel thenBranch
      let elseBranch ← match elseBranch with
        | [] => pure none
        | [elseBranch] => nullable (expr fuel) elseBranch
        | _ => failure
      build (.expr (.cond condition thenBranch elseBranch))
    | none, .array [.string "while", condition, body] =>
      build (.expr (.loop (← expr fuel condition) (← expr fuel body)))
    | none, .array [.string "block", .array stmts, tail] =>
      build (.expr (.block (← stmts.mapM (stmt fuel)) (← nullable (expr fuel) tail)))
    | none, .array [.string "field", base, name] =>
      build (.expr (.field (← expr fuel base) (← read name.string?)))
    | none, .array [.string "struct", name, .array fields] =>
      let name ← read name.string?
      let fields ← fields.mapM fun
        | .array [.string field, value] => do return (field, ← expr fuel value)
        | _ => failure
      build (.structLiteral name fields)
    | none, .array [.string "break"] => build (.expr .breakLoop)
    | none, .array [.string "continue"] => build (.expr .continueLoop)
    | none, _ => failure

def stmt : Nat → Json → Shorthand StmtId
  | 0, _ => failure
  | fuel + 1, .array [.string "let", .string name, type, init] => do
    build (.stmt (.bind name (← nullable typeExpr type) (← nullable (expr fuel) init)))
  | fuel + 1, .array [.string "expr", value] => do
    build (.stmt (.eval (← expr fuel value)))
  | fuel + 1, .array [.string "return", value] => do
    build (.stmt (.ret (← nullable (expr fuel) value)))
  | _, _ => failure
end

def params (json : Option Json) : Shorthand (List Param) := do
  let pairs ← match json with
    | some json => read json.elements?
    | none => pure []
  pairs.mapM fun
    | .array [.string name, type] => do build (.param name (← typeExpr type))
    | _ => failure

def function (name : String) (json : Json) : Shorthand FunctionDecl := do
  let params ← params (json.present? "params")
  let result ← (json.present? "ret").mapM typeExpr
  let attributes ← read ((json.present? "attrs").mapM (·.list? Attribute.ofShorthand?))
  let attributes := attributes.getD []
  match json.present? "body" with
  | some (.array [.array stmts, tail]) =>
    let stmts ← stmts.mapM (stmt (json.depth + 1))
    let tail ← nullable (expr (json.depth + 1)) tail
    let decl ← build (.finishFunction name params result stmts tail)
    return { decl with attributes := attributes }
  | some _ => failure
  | none =>
    return ⟨name, params, result, none, attributes, ← build .span⟩

def itemType (json : Json) : Shorthand TypeExpr := do typeExpr (← read (json.member? "ty"))

def item (json : Json) : Shorthand Item := do
  match json.member? "fn", json.member? "global", json.member? "struct", json.member? "type" with
  | some (.string name), _, _, _ => Item.function <$> function name json
  | none, some (.string name), _, _ =>
    let type ← itemType json
    let init ← read ((json.present? "init").mapM Literal.ofShorthand?)
    return .global ⟨name, type, init, ← build .span⟩
  | none, none, some (.string name), _ =>
    let fields ← params (json.member? "fields")
    let span ← build .span
    return .struct ⟨name, fields.map fun field => ⟨field.name, field.type, field.span⟩, span⟩
  | none, none, none, some (.string name) =>
    return .typeAlias ⟨name, ← itemType json, ← build .span⟩
  | _, _, _, _ => failure

end Shorthand

/-- The distance between the first spans of two items. -/
def itemSpacing : Nat := 1000

/-- A unit in shorthand, with its spans in `file`. -/
def SourceUnit.ofShorthand? (file : FileId) (json : Json) : Option SourceUnit := do
  let name ← (← json.member? "name").string?
  let items ← (← json.member? "items").elements?
  let items ← items.zipIdx.mapM fun (item, index) =>
    ((Shorthand.item item).run (.new file (itemSpacing * index))).map (·.1)
  some { name := name, file := file, path := none, items := items }

end SsaCompiler
