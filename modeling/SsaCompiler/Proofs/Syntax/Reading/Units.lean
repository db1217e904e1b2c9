import SsaCompiler.Proofs.Syntax.Reading.Types

/-!
# Reading units

The JSON form of a unit is read as that unit, and so is every other way to write it
(`SourceUnit.ofJson?_toJson`): with members of records in another order, among unknown ones or left out
where they have their default, with records as lists, and with null payloads. The numbers of the unit have
to fit the format (`SourceUnit.Fits`).
-/

namespace SsaCompiler

open List Json ExprId
open Json (Shape Variation Found reads)
open Json.Variation (readRecord readPayload readVariant)

/-! ## Numbers that fit -/

def ExprId.Fits (id : ExprId) : Prop := id.index < 2 ^ 32

def StmtId.Fits (id : StmtId) : Prop := id.index < 2 ^ 32

def FieldInit.Fits (init : FieldInit) : Prop := init.value.Fits ∧ init.span.Fits

def ExprNode.Fits : ExprNode → Prop
  | .literal value span => value.Fits ∧ span.Fits
  | .var _ span | .breakLoop span | .continueLoop span => span.Fits
  | .binary _ first second span | .assign first second span | .loop first second span =>
    first.Fits ∧ second.Fits ∧ span.Fits
  | .unary _ operand span | .field operand _ span => operand.Fits ∧ span.Fits
  | .call callee args span => callee.Fits ∧ (∀ arg ∈ args, arg.Fits) ∧ span.Fits
  | .cond condition thenBranch elseBranch span =>
    condition.Fits ∧ thenBranch.Fits ∧ (∀ branch ∈ elseBranch, branch.Fits) ∧ span.Fits
  | .block stmts tail span => (∀ stmt ∈ stmts, stmt.Fits) ∧ (∀ expr ∈ tail, expr.Fits) ∧ span.Fits
  | .structLiteral _ fields span => (∀ init ∈ fields, init.Fits) ∧ span.Fits

def StmtNode.Fits : StmtNode → Prop
  | .bind _ annotation init span => (∀ type ∈ annotation, type.Fits) ∧ (∀ expr ∈ init, expr.Fits) ∧ span.Fits
  | .eval expr span => expr.Fits ∧ span.Fits
  | .ret value span => (∀ expr ∈ value, expr.Fits) ∧ span.Fits

/-! ## Shapes -/

def FieldInit.shape : Shape := .record [("name", none, .scalar), ("value", none, .scalar), ("span", none, FileSpan.shape)]

def ExprNode.shape : Shape :=
  .variant [("Literal", some (.record [("value", none, Literal.shape), ("span", none, FileSpan.shape)])),
    ("Variable", some (.record [("name", none, .scalar), ("span", none, FileSpan.shape)])),
    ("Binary", some (.record [("op", none, .variant (BinaryOp.all.map fun op => (op.name, none))),
      ("lhs", none, .scalar), ("rhs", none, .scalar), ("span", none, FileSpan.shape)])),
    ("Unary", some (.record [("op", none, .variant (UnaryOp.all.map fun op => (op.name, none))),
      ("operand", none, .scalar), ("span", none, FileSpan.shape)])),
    ("Call", some (.record [("callee", none, .scalar), ("args", none, .list .scalar), ("span", none, FileSpan.shape)])),
    ("Assign", some (.record [("target", none, .scalar), ("value", none, .scalar), ("span", none, FileSpan.shape)])),
    ("If", some (.record [("condition", none, .scalar), ("then_branch", none, .scalar),
      ("else_branch", some .null, .scalar), ("span", none, FileSpan.shape)])),
    ("While", some (.record [("condition", none, .scalar), ("body", none, .scalar), ("span", none, FileSpan.shape)])),
    ("Block", some (.record [("stmts", none, .list .scalar), ("tail", some .null, .scalar),
      ("span", none, FileSpan.shape)])),
    ("Field", some (.record [("base", none, .scalar), ("field", none, .scalar), ("span", none, FileSpan.shape)])),
    ("StructLiteral", some (.record [("name", none, .scalar), ("fields", none, .list FieldInit.shape),
      ("span", none, FileSpan.shape)])),
    ("Break", some (.record [("span", none, FileSpan.shape)])),
    ("Continue", some (.record [("span", none, FileSpan.shape)]))]

def StmtNode.shape : Shape :=
  .variant [("Let", some (.record [("name", none, .scalar), ("ty", some .null, .recursive), ("init", some .null, .scalar),
      ("span", none, FileSpan.shape)])),
    ("Expr", some (.record [("expr", none, .scalar), ("span", none, FileSpan.shape)])),
    ("Return", some (.record [("value", some .null, .scalar), ("span", none, FileSpan.shape)]))]

def Body.shape : Shape :=
  .record [("exprs", none, .list ExprNode.shape), ("stmts", none, .list StmtNode.shape), ("root", none, .scalar)]

/-- The shape of what has a name, a type and a span: a parameter, a field or an alias. -/
def typedShape : Shape := .record [("name", none, .scalar), ("ty", none, .recursive), ("span", none, FileSpan.shape)]

def Attribute.shape : Shape := .variant [("Varargs", none), ("MangleAs", some .scalar)]

def FunctionDecl.shape : Shape :=
  .record [("name", none, .scalar), ("params", none, .list typedShape), ("return_type", some .null, .recursive),
    ("body", some .null, Body.shape), ("attributes", some (.array []), .list Attribute.shape),
    ("span", none, FileSpan.shape)]

def GlobalDecl.shape : Shape :=
  .record [("name", none, .scalar), ("ty", none, .recursive), ("init", some .null, Literal.shape),
    ("span", none, FileSpan.shape)]

def StructDecl.shape : Shape :=
  .record [("name", none, .scalar), ("fields", none, .list typedShape), ("span", none, FileSpan.shape)]

def Item.shape : Shape :=
  .variant [("Function", some FunctionDecl.shape), ("Global", some GlobalDecl.shape), ("Struct", some StructDecl.shape),
    ("TypeAlias", some typedShape)]

def SourceUnit.shape : Shape :=
  .record [("name", none, .scalar), ("file", some (.nat 0), .scalar), ("path", some .null, .scalar),
    ("items", none, .list Item.shape)]

/-! ## Expressions -/

theorem ExprId.ofJson?_of_fits {id : ExprId} (h : id.Fits) : ofJson? id.toJson = some id := by
  rw [ofJson?, toJson, unsigned?_nat h]
  rfl

theorem StmtId.ofJson?_of_fits {id : StmtId} (h : id.Fits) : StmtId.ofJson? id.toJson = some id := by
  rw [StmtId.ofJson?, StmtId.toJson, unsigned?_nat h]
  rfl

theorem BinaryOp.ofName?_name (op : BinaryOp) : BinaryOp.ofName? op.name = some op := by cases op <;> decide

theorem UnaryOp.ofName?_name (op : UnaryOp) : UnaryOp.ofName? op.name = some op := by cases op <;> decide

namespace Json.Found

variable {root shape : Shape} {depth : Nat} {record : Record} {name : String}

theorem expr {id : ExprId} (h : Found root depth record (name, none, .scalar) id.toJson) (hf : id.Fits) :
    record.expr name = some id :=
  h.scalar.trans (ofJson?_of_fits hf)

theorem expr? {id : Option ExprId} (h : Found root depth record (name, some .null, .scalar) (.optional toJson id))
    (hf : ∀ expr ∈ id, expr.Fits) : record.expr? name = some id :=
  h.optional rfl (fun _ hnull => by cases hnull) fun expr he _ hv _ =>
    hv.eq_scalar ▸ ofJson?_of_fits (hf expr he)

theorem span {location : FileSpan} (h : Found root depth record ("span", none, FileSpan.shape) location.toJson)
    (hf : location.Fits) : record.span = some location :=
  h.required fun _ hv _ => FileSpan.ofJson?_variation hf hv

theorem text {value : String} (h : Found root depth record (name, none, .scalar) (.string value)) :
    record.text name = some value :=
  h.scalar

theorem list {α : Type} {encode : α → Json} {decode : Json → Option α} {values : List α}
    (h : Found root depth record (name, none, .list shape) (.list encode values))
    (hd : ∀ value ∈ values, ∀ json, Variation root shape (encode value) json → decode json = some value) :
    record.required name (list? decode) = some values :=
  h.required fun _ hv _ => hv.list? fun value hvalue json hj _ => hd value hvalue json hj

theorem type {type : TypeExpr} (h : Found TypeExpr.shape depth record (name, none, .recursive) type.toJson)
    (hf : type.Fits) : record.required name TypeExpr.ofJson? = some type :=
  h.required fun _ hv _ => TypeExpr.ofJson?_variation hf hv

end Json.Found

section

variable {root : Shape} {cases : List (String × Option Shape)} {json : Json}

theorem BinaryOp.ofJson?_variation {op : BinaryOp}
    (h : Variation root (.variant cases) (.string op.name) json) : BinaryOp.ofJson? json = some op := by
  rw [BinaryOp.ofJson?, h.bareVariant?]
  exact op.ofName?_name

theorem UnaryOp.ofJson?_variation {op : UnaryOp}
    (h : Variation root (.variant cases) (.string op.name) json) : UnaryOp.ofJson? json = some op := by
  rw [UnaryOp.ofJson?, h.bareVariant?]
  exact op.ofName?_name

theorem FieldInit.ofJson?_variation {init : FieldInit} (hf : init.Fits)
    (h : Variation root FieldInit.shape init.toJson json) : FieldInit.ofJson? json = some init :=
  readRecord h fun _ ⟨hname, hvalue, hspan⟩ =>
    reads hname.text <| reads (hvalue.expr hf.1) <| reads (hspan.span hf.2) rfl

namespace ExprNode

/-- An expression is read as what it is, however it is written. -/
theorem ofJson?_variation {expr : ExprNode} (hf : expr.Fits)
    (h : Variation root ExprNode.shape (expr.toJson float) json) : ExprNode.ofJson? json = some expr := by
  cases expr with
  | literal value span =>
    exact readVariant h rfl (fun _ => rfl) fun _ _ ⟨hvalue, hspan⟩ =>
      reads (hvalue.required fun _ hv _ => Literal.ofJson?_variation hf.1 hv) <| reads (hspan.span hf.2) rfl
  | var name span =>
    exact readVariant h rfl (fun _ => rfl) fun _ _ ⟨hname, hspan⟩ =>
      reads hname.text <| reads (hspan.span hf) rfl
  | binary op lhs rhs span =>
    exact readVariant h rfl (fun _ => rfl) fun _ _ ⟨hop, hlhs, hrhs, hspan⟩ =>
      reads (hop.required fun _ hv _ => BinaryOp.ofJson?_variation hv) <| reads (hlhs.expr hf.1) <|
      reads (hrhs.expr hf.2.1) <| reads (hspan.span hf.2.2) rfl
  | unary op operand span =>
    exact readVariant h rfl (fun _ => rfl) fun _ _ ⟨hop, hoperand, hspan⟩ =>
      reads (hop.required fun _ hv _ => UnaryOp.ofJson?_variation hv) <| reads (hoperand.expr hf.1) <|
      reads (hspan.span hf.2) rfl
  | call callee args span =>
    exact readVariant h rfl (fun _ => rfl) fun _ _ ⟨hcallee, hargs, hspan⟩ =>
      reads (hcallee.expr hf.1) <| reads (hargs.required fun _ hv _ => hv.list? fun id hid _ hv _ =>
        hv.eq_scalar ▸ ExprId.ofJson?_of_fits (hf.2.1 id hid)) <| reads (hspan.span hf.2.2) rfl
  | assign target value span =>
    exact readVariant h rfl (fun _ => rfl) fun _ _ ⟨htarget, hvalue, hspan⟩ =>
      reads (htarget.expr hf.1) <| reads (hvalue.expr hf.2.1) <| reads (hspan.span hf.2.2) rfl
  | cond condition thenBranch elseBranch span =>
    exact readVariant h rfl (fun _ => rfl) fun _ _ ⟨hcondition, hthen, helse, hspan⟩ =>
      reads (hcondition.expr hf.1) <| reads (hthen.expr hf.2.1) <| reads (helse.expr? hf.2.2.1) <|
      reads (hspan.span hf.2.2.2) rfl
  | loop condition body span =>
    exact readVariant h rfl (fun _ => rfl) fun _ _ ⟨hcondition, hbody, hspan⟩ =>
      reads (hcondition.expr hf.1) <| reads (hbody.expr hf.2.1) <| reads (hspan.span hf.2.2) rfl
  | block stmts tail span =>
    exact readVariant h rfl (fun _ => rfl) fun _ _ ⟨hstmts, htail, hspan⟩ =>
      reads (hstmts.list fun stmt hs _ hv => hv.eq_scalar ▸ StmtId.ofJson?_of_fits (hf.1 stmt hs)) <|
      reads (htail.expr? hf.2.1) <| reads (hspan.span hf.2.2) rfl
  | field base name span =>
    exact readVariant h rfl (fun _ => rfl) fun _ _ ⟨hbase, hname, hspan⟩ =>
      reads (hbase.expr hf.1) <| reads hname.text <| reads (hspan.span hf.2) rfl
  | structLiteral name fields span =>
    exact readVariant h rfl (fun _ => rfl) fun _ _ ⟨hname, hfields, hspan⟩ =>
      reads hname.text <|
      reads (hfields.list fun init hi _ hv => FieldInit.ofJson?_variation (hf.1 init hi) hv) <|
      reads (hspan.span hf.2) rfl
  | breakLoop span | continueLoop span =>
    exact readVariant h rfl (fun _ => rfl) fun _ _ hspan => reads (hspan.span hf) rfl

end ExprNode

/-! ## Statements and bodies -/

theorem StmtNode.ofJson?_variation {stmt : StmtNode} (hf : stmt.Fits)
    (h : Varies StmtNode.shape stmt.toJson json) : StmtNode.ofJson? json = some stmt := by
  cases stmt with
  | bind name annotation init span =>
    exact readVariant h rfl (fun _ => rfl) fun _ _ ⟨hname, htype, hinit, hspan⟩ =>
      reads hname.text <| reads (htype.optional rfl TypeExpr.toJson_ne_null fun expr he _ hv _ =>
        TypeExpr.ofJson?_variation (hf.1 expr he) hv) <| reads (hinit.expr? hf.2.1) <| reads (hspan.span hf.2.2) rfl
  | eval expr span =>
    exact readVariant h rfl (fun _ => rfl) fun _ _ ⟨hexpr, hspan⟩ =>
      reads (hexpr.expr hf.1) <| reads (hspan.span hf.2) rfl
  | ret value span =>
    exact readVariant h rfl (fun _ => rfl) fun _ _ ⟨hvalue, hspan⟩ =>
      reads (hvalue.expr? hf.1) <| reads (hspan.span hf.2) rfl

structure Body.Fits (body : Body) : Prop where
  exprs : ∀ expr ∈ body.exprs.toList, expr.Fits
  stmts : ∀ stmt ∈ body.stmts.toList, stmt.Fits
  root : body.root.Fits

theorem Body.ofJson?_variation {body : Body} (hf : body.Fits)
    (h : Varies Body.shape (body.toJson float) json) : Body.ofJson? json = some body :=
  readRecord h fun _ ⟨hexprs, hstmts, hroot⟩ =>
    reads (hexprs.list fun expr he _ hv => ExprNode.ofJson?_variation (hf.exprs expr he) hv) <|
    reads (hstmts.list fun stmt hs _ hv => StmtNode.ofJson?_variation (hf.stmts stmt hs) hv) <|
    reads (hroot.expr hf.root) rfl

/-! ## Items -/

theorem readTyped {α : Type} {make : String → TypeExpr → FileSpan → α} {name : String} {type : TypeExpr}
    {span : FileSpan} (hf : type.Fits ∧ span.Fits)
    (h : Varies typedShape (.object [("name", .string name), ("ty", type.toJson), ("span", span.toJson)]) json) :
    json.typed? make = some (make name type span) :=
  readRecord h fun _ ⟨hname, htype, hspan⟩ =>
    reads hname.text <| reads (htype.type hf.1) <| reads (hspan.span hf.2) rfl

theorem Attribute.ofJson?_variation {mark : Attribute}
    (h : Variation root Attribute.shape mark.toJson json) : Attribute.ofJson? json = some mark := by
  cases mark with
  | varargs =>
    cases h with
    | same => rfl
    | bare => rfl
  | mangleAs symbol => exact readPayload h rfl fun _ hpayload _ => by rw [hpayload.eq_scalar]; rfl

structure FunctionDecl.Fits (decl : FunctionDecl) : Prop where
  params : ∀ param ∈ decl.params, param.type.Fits ∧ param.span.Fits
  result : ∀ type ∈ decl.result, type.Fits
  body : ∀ body ∈ decl.body, body.Fits
  span : decl.span.Fits

theorem FunctionDecl.ofJson?_variation {decl : FunctionDecl} (hf : decl.Fits)
    (h : Varies FunctionDecl.shape (decl.toJson float) json) : FunctionDecl.ofJson? json = some decl := by
  refine readRecord h fun record ⟨hname, hparams, hresult, hbody, hattributes, hspan⟩ => reads hname.text <|
    reads (hparams.list fun param hp _ hv => readTyped (hf.params param hp) hv) <|
    reads (hresult.nullable rfl TypeExpr.toJson_ne_null fun type ht _ hv _ =>
      TypeExpr.ofJson?_variation (hf.result type ht) hv) <|
    reads (hbody.nullable rfl (fun _ hnull => by cases hnull) fun body hb _ hv _ =>
      Body.ofJson?_variation (hf.body body hb) hv) <|
    reads (hattributes.withDefault (fun _ hv _ => hv.list? fun _ _ _ hv _ => Attribute.ofJson?_variation hv)
      fun hnone => ?_) <|
    reads (hspan.span hf.span) rfl
  exact map_eq_nil_iff.mp (array.inj hnone)

theorem GlobalDecl.ofJson?_variation {decl : GlobalDecl}
    (hf : decl.type.Fits ∧ (∀ value ∈ decl.init, value.Fits) ∧ decl.span.Fits)
    (h : Varies GlobalDecl.shape (decl.toJson float) json) : GlobalDecl.ofJson? json = some decl :=
  readRecord h fun _ ⟨hname, htype, hinit, hspan⟩ => reads hname.text <| reads (htype.type hf.1) <|
    reads (hinit.nullable rfl Literal.toJson_ne_null fun value hvalue _ hv _ =>
      Literal.ofJson?_variation (hf.2.1 value hvalue) hv) <|
    reads (hspan.span hf.2.2) rfl

theorem StructDecl.ofJson?_variation {decl : StructDecl}
    (hf : (∀ field ∈ decl.fields, field.type.Fits ∧ field.span.Fits) ∧ decl.span.Fits)
    (h : Varies StructDecl.shape decl.toJson json) : StructDecl.ofJson? json = some decl :=
  readRecord h fun _ ⟨hname, hfields, hspan⟩ => reads hname.text <|
    reads (hfields.list fun field hfield _ hv => readTyped (hf.1 field hfield) hv) <| reads (hspan.span hf.2) rfl

def Item.Fits : Item → Prop
  | .function decl => decl.Fits
  | .global decl => decl.type.Fits ∧ (∀ value ∈ decl.init, value.Fits) ∧ decl.span.Fits
  | .struct decl => (∀ field ∈ decl.fields, field.type.Fits ∧ field.span.Fits) ∧ decl.span.Fits
  | .typeAlias decl => decl.type.Fits ∧ decl.span.Fits

theorem Item.ofJson?_variation {item : Item} (hf : item.Fits)
    (h : Varies Item.shape (item.toJson float) json) : Item.ofJson? json = some item := by
  cases item with
  | function decl =>
    exact readPayload h rfl fun _ hpayload _ =>
      congrArg (Option.map Item.function) (FunctionDecl.ofJson?_variation hf hpayload)
  | global decl =>
    exact readPayload h rfl fun _ hpayload _ =>
      congrArg (Option.map Item.global) (GlobalDecl.ofJson?_variation hf hpayload)
  | struct decl =>
    exact readPayload h rfl fun _ hpayload _ =>
      congrArg (Option.map Item.struct) (StructDecl.ofJson?_variation hf hpayload)
  | typeAlias decl =>
    exact readPayload h rfl fun _ hpayload _ =>
      congrArg (Option.map Item.typeAlias) (@readTyped _ _ AliasDecl.mk _ _ _ hf hpayload)

end

/-! ## Units -/

/-- The numbers of a unit fit the format, and its floats are finite. -/
structure SourceUnit.Fits (unit : SourceUnit) : Prop where
  file : unit.file.index < 2 ^ 32
  items : ∀ item ∈ unit.items, item.Fits

/-- A unit whose numbers fit and whose floats are finite is read back from its JSON form, and from every
other way to write that form. -/
theorem SourceUnit.ofJson?_toJson {unit : SourceUnit} (hf : unit.Fits) :
    SourceUnit.ofJson? (unit.toJson Json.float) = some unit ∧
      ∀ json, Varies SourceUnit.shape (unit.toJson Json.float) json → SourceUnit.ofJson? json = some unit := by
  have hread : ∀ json, Varies SourceUnit.shape (unit.toJson Json.float) json →
      SourceUnit.ofJson? json = some unit := by
    intro json h
    refine readRecord h fun _ ⟨hname, hfile, hpath, hitems⟩ => reads hname.text <|
      reads (hfile.withDefault (fun _ hv _ => ?_) fun hzero => ?_) <|
      reads (hpath.nullable rfl (fun _ hnull => by cases hnull) fun path _ _ hv _ => hv.eq_scalar ▸ rfl) <|
      reads (hitems.list fun item hi _ hv => Item.ofJson?_variation (hf.items item hi) hv) rfl
    · rw [hv.eq_scalar]
      exact Json.unsigned?_nat hf.file
    · exact Int.ofNat.inj (Number.integer.inj (Json.number.inj hzero))
  exact ⟨hread _ (.same _ _), hread⟩

/-! ## A unit written in another way -/

namespace Rewritten

/-- `fn f(..);` with extra arguments. -/
def function : FunctionDecl := ⟨"f", [], none, none, [.varargs], .ofOffsets 0 0 1⟩

/-- `g: f64 = 0.5;` -/
def global : GlobalDecl :=
  ⟨"g", .named "f64" (.ofOffsets 0 1 2), some (.float ⟨0x3FE0000000000000⟩ none), .ofOffsets 0 2 3⟩

def unit : SourceUnit := ⟨"m", ⟨0⟩, none, [.function function, .global global]⟩

/-- The function with its members in another order and one that it does not have, without those that have
their default, its span as a list and the payload of its attribute as null. -/
def functionJson : Json :=
  .object [("span", .array [.nat 0, .object [("end", .nat 1), ("start", .nat 0)]]), ("note", .bool true),
    ("attributes", .array [.object [("Varargs", .null)]]), ("name", .string "f"), ("params", .array [])]

/-- The unit as a list, with the function written that way. -/
def json : Json :=
  .array [.string "m", .nat 0, .null,
    .array [.object [("Function", functionJson)], (Item.global global).toJson float]]

theorem fits : unit.Fits := by
  refine ⟨by decide, fun item hi => ?_⟩
  rcases mem_cons.mp hi with rfl | hi
  · exact ⟨by simp [function], by simp [function], by simp [function], ⟨by decide, by decide, by decide⟩⟩
  · rw [mem_singleton.mp hi]
    refine ⟨?_, fun value hv => ?_, ⟨by decide, by decide, by decide⟩⟩
    · rw [global]
      exact ⟨by decide, by decide, by decide⟩
    · cases hv
      exact ⟨by decide, by simp [WidthFits]⟩

theorem span_varies : Varies FileSpan.shape (FileSpan.ofOffsets 0 0 1).toJson
    (.array [.nat 0, .object [("end", .nat 1), ("start", .nat 0)]]) := by
  refine .listed rfl fun {i field value value'} hf hw hv => ?_
  obtain _ | _ | i := i
  · cases hf; cases hw; cases hv
    exact .same _ _
  · cases hf; cases hw; cases hv
    refine .members (by decide) ?_ ?_
    · intro field value value' hf hw hl
      simp only [mem_cons, not_mem_nil, or_false] at hf
      rcases hf with rfl | rfl <;> simp [lookup_cons] at hw hl <;> subst hw hl <;> exact .same _ _
    · intro field value hf hw hl
      simp only [mem_cons, not_mem_nil, or_false] at hf
      rcases hf with rfl | rfl <;> simp [lookup_cons] at hl
  · simp at hf

theorem function_varies : Varies FunctionDecl.shape (function.toJson float) functionJson := by
  refine .members (by decide) ?_ ?_
  · intro field value value' hf hw hl
    simp only [mem_cons, not_mem_nil, or_false] at hf
    rcases hf with rfl | rfl | rfl | rfl | rfl | rfl <;> simp [lookup_cons] at hw hl <;> subst hw hl
    · exact .same _ _
    · exact .same _ _
    · refine .elements rfl fun {i x y} hx hy => ?_
      obtain _ | i := i
      · cases hx; cases hy
        exact .bare (.head _)
      · simp [function] at hx
    · exact span_varies
  · intro field value hf hw hl
    simp only [mem_cons, not_mem_nil, or_false] at hf
    rcases hf with rfl | rfl | rfl | rfl | rfl | rfl <;> simp [lookup_cons] at hw hl <;> subst hw <;> rfl

theorem varies : Varies SourceUnit.shape (unit.toJson float) json := by
  refine .listed rfl fun {i field value value'} hf hw hv => ?_
  obtain _ | _ | _ | _ | i := i
  · cases hf; cases hw; cases hv
    exact .same _ _
  · cases hf; cases hw; cases hv
    exact .same _ _
  · cases hf; cases hw; cases hv
    exact .same _ _
  · cases hf; cases hw; cases hv
    refine .elements rfl fun {i x y} hx hy => ?_
    obtain _ | _ | i := i
    · cases hx; cases hy
      exact .payload (.head _) function_varies
    · cases hx; cases hy
      exact .same _ _
    · simp [unit] at hx
  · simp at hf

end Rewritten

theorem SourceUnit.ofJson?_toJson_rewritten : Rewritten.unit.Fits ∧
    Varies SourceUnit.shape (Rewritten.unit.toJson Json.float) Rewritten.json ∧
    SourceUnit.ofJson? Rewritten.json = some Rewritten.unit :=
  ⟨Rewritten.fits, Rewritten.varies, (SourceUnit.ofJson?_toJson Rewritten.fits).2 _ Rewritten.varies⟩

end SsaCompiler
