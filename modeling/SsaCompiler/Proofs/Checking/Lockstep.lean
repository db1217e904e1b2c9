import Mathlib.Data.List.Forall2
import SsaCompiler.Checking.Body

/-!
# Checking in lockstep

A function is checked twice, against two sets of declarations or from two states. If a relation between
steps holds of each rule of the language, given that it holds of the types of the parts
(`Check.Lockstep`), then it holds of the checking of whole bodies (`Check.Lockstep.inferExpr`). The
types found need not be the same on both sides, and that of a callee may be related more loosely than
that of a value.
-/

namespace SsaCompiler

open List

/-- The function that a record is of. -/
def CheckedFunction.owner (F : CheckedFunction) : BindingId × Nat := (F.binding, F.itemIndex)

/-! ## The names used as values -/

def Expr.isVar : Expr → Bool
  | .var .. => true
  | _ => false

mutual
/-- The names of variables in an expression, without those that are only called. -/
def Expr.valueNames : Expr → List String
  | .literal .. | .breakLoop .. | .continueLoop .. => []
  | .var _ _ name => [name]
  | .binary _ _ _ lhs rhs => lhs.valueNames ++ rhs.valueNames
  | .unary _ _ _ operand => operand.valueNames
  | .call _ _ callee args => (if callee.isVar then [] else callee.valueNames) ++ Expr.allValueNames args
  | .assign _ _ target value => target.valueNames ++ value.valueNames
  | .cond _ _ condition thenBranch none => condition.valueNames ++ thenBranch.valueNames
  | .cond _ _ condition thenBranch (some elseBranch) =>
    condition.valueNames ++ (thenBranch.valueNames ++ elseBranch.valueNames)
  | .loop _ _ condition body => condition.valueNames ++ body.valueNames
  | .block _ _ stmts none => Stmt.allValueNames stmts
  | .block _ _ stmts (some tail) => Stmt.allValueNames stmts ++ tail.valueNames
  | .field _ _ base _ => base.valueNames
  | .structLiteral _ _ _ fields => Init.allValueNames fields

def Expr.allValueNames : List Expr → List String
  | [] => []
  | expr :: rest => expr.valueNames ++ Expr.allValueNames rest

def Stmt.valueNames : Stmt → List String
  | .bind _ _ _ _ none | .ret _ _ none => []
  | .bind _ _ _ _ (some init) => init.valueNames
  | .eval _ _ expr => expr.valueNames
  | .ret _ _ (some value) => value.valueNames

def Stmt.allValueNames : List Stmt → List String
  | [] => []
  | stmt :: rest => stmt.valueNames ++ Stmt.allValueNames rest

def Init.allValueNames : List Init → List String
  | [] => []
  | .mk _ _ value :: rest => value.valueNames ++ Init.allValueNames rest
end

namespace Check

variable {κ κ' : Type} {m m' : Type → Type} [Monad m] [Monad m'] [MonadLiftT (Except Fault) m]
  [MonadLiftT (Except Fault) m'] [Names κ m] [Names κ' m'] [DecidableEq κ] [DecidableEq κ']

/-! ## The rules -/

/-- What a step of checking answers. -/
inductive AnswerKind : Type → Type 1
  | any (α : Type) : AnswerKind α
  | type : AnswerKind Ty
  | callee : AnswerKind Ty
  | types : AnswerKind (List Ty)
  | written : AnswerKind (Option Ty)

def AnswerKind.Rel (types callees : Ty → Ty → Prop) {α : Type} : AnswerKind α → α → α → Prop
  | .any _ => (· = ·)
  | .type => types
  | .callee => callees
  | .types => Forall₂ types
  | .written => Option.Rel types

/-- A relation between the steps of two checks of a function. Steps have related answers; a name that
is `valued` may be used as a value. -/
structure Lockstep (ctx : CheckContext κ) (ctx' : CheckContext κ') (types callees : Ty → Ty → Prop)
    (valued : String → Prop)
    (rel : ∀ {α : Type}, AnswerKind α → CheckWith κ m α → CheckWith κ' m' α → Prop) : Prop where
  unit : types .unit .unit
  callee {x : CheckWith κ m Ty} {x' : CheckWith κ' m' Ty} : rel .type x x' → rel .callee x x'
  pure {α : Type} {k : AnswerKind α} {a a' : α} : k.Rel types callees a a' → rel k (pure a) (pure a')
  bind {α β : Type} {k : AnswerKind α} {l : AnswerKind β} {x : CheckWith κ m α} {x' : CheckWith κ' m' α}
    {f : α → CheckWith κ m β} {f' : α → CheckWith κ' m' β} : rel k x x' →
    (∀ a a', k.Rel types callees a a' → rel l (f a) (f' a')) → rel l (x >>= f) (x' >>= f')
  recorded (expr : Expr) {x : CheckWith κ m Ty} {x' : CheckWith κ' m' Ty} : rel .type x x' →
    rel .type (recorded expr x) (recorded expr x')
  recordedCallee (expr : Expr) {x : CheckWith κ m Ty} {x' : CheckWith κ' m' Ty} : rel .callee x x' →
    rel .callee (Check.recorded expr x) (Check.recorded expr x')
  fail (error : (Ty → String) → TypeError) :
    rel .type (fail (error ctx.decls.describe)) (fail (error ctx'.decls.describe))
  note {change : CheckedFunction → CheckedFunction} : (∀ f, (change f).refs = f.refs ∧ (change f).owner = f.owner) →
    (∀ f, (change f).exprTypes = f.exprTypes) → rel (.any Unit) (note change) (note change)
  inScope {α : Type} {k : AnswerKind α} (kind : ScopeKind) {x : CheckWith κ m α} {x' : CheckWith κ' m' α} :
    rel k x x' → rel k (inScope kind x) (inScope kind x')
  literal (value : Literal) (span : FileSpan) : rel .type (literal value span) (literal value span)
  used (id : ExprId) {name : String} (span : FileSpan) : valued name → rel .type (var id name span) (var id name span)
  called (id : ExprId) (name : String) (span : FileSpan) : rel .callee (var id name span) (var id name span)
  binary (op : BinaryOp) (lhs rhs : Expr) {left left' right right' : Ty} (span : FileSpan) : types left left' →
    types right right' →
    rel .type (binary ctx op lhs rhs left right span) (binary ctx' op lhs rhs left' right' span)
  unary (op : UnaryOp) (operand : Expr) {type type' : Ty} : types type type' →
    rel .type (unary ctx op operand type) (unary ctx' op operand type')
  call (expr : Expr) {type type' : Ty} (args : List Expr) {found found' : List Ty} (span : FileSpan) :
    callees type type' → Forall₂ types found found' →
    rel .type (call ctx expr type (args.zip found) span) (call ctx' expr type' (args.zip found') span)
  assignmentTarget (target : Expr) : rel (.any Unit) (assignmentTarget target) (assignmentTarget target)
  expectAssignable (expr : ExprId) {found found' expected expected' : Ty} (site : FileSpan) : types found found' →
    types expected expected' →
    rel (.any Unit) (expectAssignable ctx expr found expected site) (expectAssignable ctx' expr found' expected' site)
  expectBool (expr : Expr) {found found' : Ty} : types found found' →
    rel (.any Unit) (expectBool ctx expr found) (expectBool ctx' expr found')
  expectResult (expr : ExprId) {found found' : Ty} (site : FileSpan) : types found found' →
    rel (.any Unit) (expectResult ctx expr found site) (expectResult ctx' expr found' site)
  branches (thenBranch elseBranch : Expr) {thenType thenType' elseType elseType' : Ty} : types thenType thenType' →
    types elseType elseType' → rel .type (branches ctx thenBranch elseBranch thenType elseType)
      (branches ctx' thenBranch elseBranch thenType' elseType')
  field (id : ExprId) {base base' : Ty} (name : String) (span : FileSpan) : types base base' →
    rel .type (field ctx id base name span) (field ctx' id base' name span)
  structLiteral (id : ExprId) (name : String) (inits : List Init) {found found' : List Ty} (span : FileSpan) :
    Forall₂ types found found' → rel .type (structLiteral ctx id name (inits.zip found) span)
      (structLiteral ctx' id name (inits.zip found') span)
  expectLoop (keyword : String) (span : FileSpan) : rel .type (expectLoop keyword span) (expectLoop keyword span)
  written (type : Option TypeExpr) : rel .written (type.mapM (annotatedType ctx)) (type.mapM (annotatedType ctx'))
  declareLocal (name : String) {type type' : Ty} (storage : Storage) (span : FileSpan) : types type type' →
    rel (.any _) (declareLocal name type storage span) (declareLocal name type' storage span)
  emptyReturn (span : FileSpan) : rel (.any Unit) (emptyReturn ctx span) (emptyReturn ctx' span)

namespace Lockstep

variable {ctx : CheckContext κ} {ctx' : CheckContext κ'} {types callees : Ty → Ty → Prop} {valued : String → Prop}
  {rel : ∀ {α : Type}, AnswerKind α → CheckWith κ m α → CheckWith κ' m' α → Prop}
  (h : Lockstep ctx ctx' types callees valued rel)

include h

theorem letBinding (id : StmtId) (name : String) {annotated annotated' : Option Ty} (init : Option (ExprId × Ty × Ty))
    (span : FileSpan) (ha : Option.Rel types annotated annotated') (hi : ∀ p ∈ init, types p.2.1 p.2.2) :
    rel (.any Unit) (letBinding ctx id name annotated (init.map fun p => (p.1, p.2.1)) span)
      (letBinding ctx' id name annotated' (init.map fun p => (p.1, p.2.2)) span) := by
  have hdeclare : ∀ {type type' : Ty}, types type type' → ∀ {next : Option BindingId → CheckWith κ m Unit}
      {next' : Option BindingId → CheckWith κ' m' Unit},
      (∀ binding, rel (.any Unit) (next (some binding)) (next' (some binding))) → rel (.any Unit) (next none) (next' none) →
      rel (.any Unit) (Check.declareLocal name type .local span >>= next)
        (Check.declareLocal name type' .local span >>= next') := by
    intro type type' ht next next' hsome hnone
    refine h.bind (h.declareLocal _ _ _ ht) fun binding binding' hb => ?_
    obtain rfl : binding = binding' := hb
    cases binding with
    | some binding => exact hsome binding
    | none => exact hnone
  have hnote : ∀ binding : BindingId, rel (.any Unit) (Check.note fun f => { f with lets := f.lets.insert id binding })
      (Check.note fun f => { f with lets := f.lets.insert id binding }) :=
    fun _ => h.note (fun _ => ⟨rfl, rfl⟩) fun _ => rfl
  cases ha with
  | some ht =>
    cases init with
    | some p =>
      exact h.bind (h.expectAssignable _ _ (hi p rfl) ht) fun _ _ _ => h.bind (h.pure (k := .type) ht) fun _ _ ht =>
        hdeclare ht hnote (h.pure rfl)
    | none => exact h.bind (h.pure (k := .type) ht) fun _ _ ht => hdeclare ht hnote (h.pure rfl)
  | none =>
    cases init with
    | some p => exact h.bind (h.pure (k := .type) (hi p rfl)) fun _ _ ht => hdeclare ht hnote (h.pure rfl)
    | none => exact h.bind (h.fail fun _ => _) fun _ _ ht => hdeclare ht hnote (h.pure rfl)

theorem declareParams (params : List Param) {found found' : List Ty} (hf : Forall₂ types found found') :
    rel (.any Unit) (declareParams (params.zip found)) (declareParams (params.zip found')) := by
  induction params generalizing found found' with
  | nil => exact h.pure rfl
  | cons param rest ih =>
    cases hf with
    | nil => exact h.pure rfl
    | cons ht hf =>
      refine h.bind (h.declareLocal _ _ _ ht) fun binding binding' hb => ?_
      obtain rfl : binding = binding' := hb
      cases binding with
      | some binding => exact h.bind (h.note (fun _ => ⟨rfl, rfl⟩) fun _ => rfl) fun _ _ _ => ih hf
      | none => exact ih hf

/-! ## Bodies -/

mutual
theorem inferExpr : ∀ expr : Expr, (∀ name ∈ expr.valueNames, valued name) →
    rel .type (inferExpr ctx expr) (inferExpr ctx' expr)
  | .literal id span value, _ => by exact h.recorded _ (h.literal ..)
  | .var id span name, hv => by exact h.recorded _ (h.used _ _ (hv name (by simp [Expr.valueNames])))
  | .binary id span op lhs rhs, hv => by
    rw [Expr.valueNames, forall_mem_append] at hv
    exact h.recorded _ (h.bind (inferExpr lhs hv.1) fun _ _ hl =>
      h.bind (inferExpr rhs hv.2) fun _ _ hr => h.binary _ _ _ _ hl hr)
  | .unary id span op operand, hv => by exact h.recorded _ (h.bind (inferExpr operand hv) fun _ _ ho => h.unary _ _ ho)
  | .call id span callee args, hv => by
    have hcall : rel .callee (Check.inferExpr ctx callee) (Check.inferExpr ctx' callee) →
        (∀ name ∈ Expr.allValueNames args, valued name) → rel .type _ _ := fun hc ha =>
      h.recorded (.call id span callee args) (h.bind hc fun _ _ hc =>
        h.bind (inferExprs args ha) fun _ _ ha => h.call callee args span hc ha)
    rw [Expr.valueNames, forall_mem_append] at hv
    by_cases hvar : callee.isVar = true
    · refine hcall ?_ hv.2
      cases callee with
      | var id span name => exact h.recordedCallee _ (h.called ..)
      | _ => cases hvar
    · rw [if_neg hvar] at hv
      exact hcall (h.callee (inferExpr callee hv.1)) hv.2
  | .assign id span target value, hv => by
    rw [Expr.valueNames, forall_mem_append] at hv
    exact h.recorded _ (h.bind (inferExpr target hv.1) fun _ _ ht =>
      h.bind (inferExpr value hv.2) fun _ _ hval => h.bind (h.assignmentTarget _) fun _ _ _ =>
        h.bind (h.expectAssignable _ _ hval ht) fun _ _ _ => h.pure ht)
  | .cond id span condition thenBranch none, hv => by
    rw [Expr.valueNames, forall_mem_append] at hv
    exact h.recorded _ (h.bind (inferExpr condition hv.1) fun _ _ hc =>
      h.bind (h.expectBool _ hc) fun _ _ _ => h.bind (inferExpr thenBranch hv.2) fun _ _ _ => h.pure h.unit)
  | .cond id span condition thenBranch (some elseBranch), hv => by
    rw [Expr.valueNames, forall_mem_append, forall_mem_append] at hv
    exact h.recorded _ (h.bind (inferExpr condition hv.1) fun _ _ hc =>
      h.bind (h.expectBool _ hc) fun _ _ _ => h.bind (inferExpr thenBranch hv.2.1) fun _ _ ht =>
        h.bind (inferExpr elseBranch hv.2.2) fun _ _ he => h.branches _ _ ht he)
  | .loop id span condition body, hv => by
    rw [Expr.valueNames, forall_mem_append] at hv
    have hinside := h.inScope .loop (h.bind (inferExpr condition hv.1) fun _ _ hc =>
      h.bind (h.expectBool condition hc) fun _ _ _ => h.bind (inferExpr body hv.2) fun _ _ _ =>
        h.pure (k := .any Unit) (rfl : () = ()))
    refine h.recorded _ (h.bind hinside fun _ _ _ => ?_)
    split
    · exact h.bind (h.note (fun _ => ⟨rfl, rfl⟩) fun _ => rfl) fun _ _ _ => h.pure h.unit
    · exact h.pure h.unit
  | .block id span stmts none, hv => by
    exact h.recorded _ (h.bind (h.inScope _ (checkStmts stmts hv)) fun _ _ _ => h.pure h.unit)
  | .block id span stmts (some tail), hv => by
    rw [Expr.valueNames, forall_mem_append] at hv
    exact h.recorded _ (h.inScope _ (h.bind (checkStmts stmts hv.1) fun _ _ _ =>
      inferExpr tail hv.2))
  | .field id span base name, hv => by exact h.recorded _ (h.bind (inferExpr base hv) fun _ _ hb => h.field _ _ _ hb)
  | .structLiteral id span name fields, hv => by
    exact h.recorded _ (h.bind (inferInits fields hv) fun _ _ hf =>
      h.structLiteral _ _ _ _ hf)
  | .breakLoop id span, _ => by exact h.recorded _ (h.expectLoop ..)
  | .continueLoop id span, _ => by exact h.recorded _ (h.expectLoop ..)

theorem inferExprs : ∀ exprs : List Expr, (∀ name ∈ Expr.allValueNames exprs, valued name) →
    rel .types (inferExprs ctx exprs) (inferExprs ctx' exprs)
  | [], _ => by exact h.pure .nil
  | expr :: rest, hv => by
    rw [Expr.allValueNames, forall_mem_append] at hv
    exact h.bind (inferExpr expr hv.1) fun _ _ he => h.bind (inferExprs rest hv.2) fun _ _ hr => h.pure (.cons he hr)

theorem inferInits : ∀ inits : List Init, (∀ name ∈ Init.allValueNames inits, valued name) →
    rel .types (inferInits ctx inits) (inferInits ctx' inits)
  | [], _ => by exact h.pure .nil
  | .mk _ _ value :: rest, hv => by
    rw [Init.allValueNames, forall_mem_append] at hv
    exact h.bind (inferExpr value hv.1) fun _ _ he => h.bind (inferInits rest hv.2) fun _ _ hr => h.pure (.cons he hr)

theorem checkStmt : ∀ stmt : Stmt, (∀ name ∈ stmt.valueNames, valued name) →
    rel (.any Unit) (checkStmt ctx stmt) (checkStmt ctx' stmt)
  | .bind id span name type none, _ => by
    exact h.bind (h.written type) fun _ _ ht => h.letBinding id name none span ht (by simp)
  | .bind id span name type (some init), hv => by
    exact h.bind (h.written type) fun _ _ ht => h.bind (inferExpr init hv) fun found found' hf =>
      h.letBinding id name (some (init.id, found, found')) span ht fun _ hp => Option.some.inj hp ▸ hf
  | .eval id span expr, hv => by exact h.bind (inferExpr expr hv) fun _ _ _ => h.pure rfl
  | .ret id span none, _ => by exact h.emptyReturn span
  | .ret id span (some value), hv => by exact h.bind (inferExpr value hv) fun _ _ hf => h.expectResult _ _ hf

theorem checkStmts : ∀ stmts : List Stmt, (∀ name ∈ Stmt.allValueNames stmts, valued name) →
    rel (.any Unit) (checkStmts ctx stmts) (checkStmts ctx' stmts)
  | [], _ => by exact h.pure rfl
  | stmt :: rest, hv => by
    rw [Stmt.allValueNames, forall_mem_append] at hv
    exact h.bind (checkStmt stmt hv.1) fun _ _ _ => checkStmts rest hv.2
end

theorem functionBody {item item' : FunctionItem} (hitem : Forall₂ types item.params item'.params)
    (decl : FunctionDecl) {root : Expr} (hv : ∀ name ∈ root.valueNames, valued name) :
    rel (.any Unit) (functionBody ctx item decl root) (functionBody ctx' item' decl root) := by
  refine h.bind (h.declareParams _ hitem) fun _ _ _ => h.bind (h.inferExpr root hv) fun _ _ hf => ?_
  cases root.diverges with
  | true => exact h.pure rfl
  | false => exact h.expectResult _ _ hf

end Lockstep

end Check

end SsaCompiler
