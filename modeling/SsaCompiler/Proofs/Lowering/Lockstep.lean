import SsaCompiler.Proofs.Ir.Graph
import SsaCompiler.Proofs.Lowering.Runs

/-!
# Lowering in lockstep

A function is lowered twice, the second time with its items among others (`ItemMap.Agrees`). If a
relation between steps holds of straight code and of each control structure, given that it holds of
the parts (`Lower.Lockstep`), then it holds of the lowering of whole bodies (`Lower.Lockstep.lowerExpr`).
A property of single steps is such a relation too.
-/

namespace SsaCompiler

namespace ItemMap

variable {items items' : ItemMap}

section

variable (h : items.layouts <+: items'.layouts)

include h

theorem layout_of_isPrefix {id : StructId} {found : LayoutId} (hf : items.layout id = .ok found) :
    items'.layout id = .ok found := by
  unfold layout at hf ⊢
  split at hf <;> cases hf
  rw [getElem?_of_isPrefix h ‹_›]

theorem lowerType_of_isPrefix {type : Ty} {found : IrType} (hf : items.lowerType type = .ok found) :
    items'.lowerType type = .ok found := by
  cases type with
  | aggregate id =>
    simp only [lowerType, bind_eq_ok] at hf ⊢
    obtain ⟨found, hl, hf⟩ := hf
    exact ⟨found, layout_of_isPrefix h hl, hf⟩
  | _ => exact hf

theorem lowerSig_of_isPrefix {params : List Ty} {result : Ty} {varargs : Bool} {sig : FunctionSig}
    (hf : items.lowerSig params result varargs = .ok sig) : items'.lowerSig params result varargs = .ok sig := by
  simp only [lowerSig, bind_eq_ok] at hf ⊢
  obtain ⟨types, ht, type, hr, hf⟩ := hf
  exact ⟨types, mapM_of_forall₂ ((mapM_eq_ok ht).imp fun _ _ => lowerType_of_isPrefix h), type,
    lowerType_of_isPrefix h hr, hf⟩

end

/-- The items that a function refers to stand at the same places, and so do the layouts. -/
structure Agrees (items items' : ItemMap) (F : CheckedFunction) : Prop where
  layouts : items.layouts <+: items'.layouts
  functions : ∀ {id : ExprId} {binding : BindingId}, F.refs.get? id = some binding →
    items'.functions.get? binding = items.functions.get? binding
  globals : ∀ {id : ExprId} {binding : BindingId}, F.refs.get? id = some binding →
    items'.globals.get? binding = items.globals.get? binding

end ItemMap

theorem bind_congr_ok {ε α β : Type} {x : Except ε α} {f g : α → Except ε β} (h : ∀ a, x = .ok a → f a = g a) :
    x >>= f = x >>= g := by
  cases x with
  | error e => rfl
  | ok a => exact h a rfl

namespace Lower

open Emit (Quietly)

variable {items items' : ItemMap} {F : CheckedFunction} {id : ExprId} {env : Env} {binding : BindingId}

/-! ## What lowering looks up -/

theorem eq_of_agrees (h : items.Agrees items' F) (hb : bindingOf ⟨items, F⟩ id = .ok binding) :
    items'.functions.get? binding = items.functions.get? binding ∧
      items'.globals.get? binding = items.globals.get? binding := by
  simp only [bindingOf] at hb
  split at hb <;> cases hb
  exact ⟨h.functions ‹_›, h.globals ‹_›⟩

theorem isMemoryPlace_of_agrees (h : items.Agrees items' F) {expr : Expr} :
    isMemoryPlace ⟨items', F⟩ env expr = isMemoryPlace ⟨items, F⟩ env expr := by
  induction expr using isMemoryPlace.induct with
  | case1 id span name =>
    refine bind_congr_ok fun binding hb => ?_
    simp only [Table.contains, (eq_of_agrees h hb).2]
  | case2 id span base name ih =>
    simp only [isMemoryPlace, ih]
    rfl
  | case3 => simp only [isMemoryPlace]
  | case4 expr hvar hfield hderef =>
    rw [isMemoryPlace.eq_4 _ _ expr hvar hfield hderef, isMemoryPlace.eq_4 _ _ expr hvar hfield hderef]

theorem directCallee?_of_agrees (h : items.Agrees items' F) {callee : Expr} :
    directCallee? ⟨items', F⟩ env callee = directCallee? ⟨items, F⟩ env callee := by
  cases callee with
  | var id span name =>
    refine bind_congr_ok fun binding hb => ?_
    rw [(eq_of_agrees h hb).1]
  | _ => rfl

/-- A step that asks something without changing anything. -/
def Asks {α : Type} (step : Lower α) : Prop :=
  ∀ ⦃s r s'⦄, Runs step s r s' → r ≠ none ∧ s' = s

theorem asks_resultType {ctx : LowerContext} : Asks (resultType ctx id) := fun s r s' hr => by
  unfold resultType at hr
  split at hr
  · obtain ⟨rfl, rfl⟩ := runs_pure.mp hr
    exact ⟨by simp, rfl⟩
  · rw [map_eq_pure_bind] at hr
    obtain ⟨type, -, hr⟩ := runs_answer_bind.mp hr
    obtain ⟨rfl, rfl⟩ := runs_pure.mp hr
    exact ⟨by simp, rfl⟩

theorem quietly_widen {value : ValueId} {target : IrType} : Quietly (widen value target) := by
  refine Quietly.ask.bind fun constant => ?_
  split
  · exact .addValue ..
  · exact .addValue ..
  · exact .addValue ..
  · exact Quietly.ask.bind fun _ => .pushValue rfl
  · exact .pushValue rfl
  · exact .throw

theorem quietly_binaryStep {op : BinaryOp} {lhs rhs : ValueId} : Quietly (binaryStep op lhs rhs) := by
  have hbinary : ∀ op, Quietly (Emit.binary op lhs rhs) := fun op =>
    Quietly.ask.bind fun _ => .pushValue rfl
  have hcompare : ∀ op, Quietly (Emit.compare op lhs rhs) := fun op => .pushValue rfl
  cases op <;> first | exact hbinary _ | exact hcompare _

theorem quietly_unary {op : Negation} {operand : ValueId} : Quietly (Emit.unary op operand) :=
  Quietly.ask.bind fun _ => .pushValue rfl

/-! ## Steps -/

/-- A relation between the steps of two lowerings of a function. -/
structure Lockstep (items items' : ItemMap) (F : CheckedFunction) (rel : ∀ {α : Type}, Lower α → Lower α → Prop) :
    Prop where
  agrees : items.Agrees items' F
  pure {α : Type} (a : α) : rel (pure a) (pure a)
  bind {α β : Type} {x x' : Lower α} {f f' : α → Lower β} : rel x x' → (∀ a, rel (f a) (f' a)) →
    rel (x >>= f) (x' >>= f')
  fault {α : Type} (fault : Fault) : rel (Lower.fault fault : Lower α) (Lower.fault fault)
  answer {α β : Type} {x x' : Except Fault α} {f f' : α → Lower β} : (∀ a, x = .ok a → x' = .ok a) →
    (∀ a, x = .ok a → rel (f a) (f' a)) → rel (answer x >>= f) (answer x' >>= f')
  get {β : Type} {f f' : LowerState → Lower β} : (∀ s, rel (f s) (f' s)) → rel (get >>= f) (get >>= f')
  emit {α : Type} {step : Emit α} : step.Quietly → rel (emit step) (emit step)
  modifyEnv (change : LowerState → Env) :
    rel (modify fun s => { s with env := change s }) (modify fun s => { s with env := change s })
  inScope {α : Type} {x x' : Lower α} : rel x x' → rel (inScope x) (inScope x')
  logical (op : BinaryOp) {x x' y y' : Lower ValueId} : rel x x' → rel y y' →
    rel (logical op x y) (logical op x' y')
  ifThen {x x' : Lower ValueId} {y y' : Lower Lowered} {type type' : Lower (Option IrType)} : rel x x' → rel y y' →
    Asks type → rel type type' → rel (ifThen x y type) (ifThen x' y' type')
  ifThenElse {x x' : Lower ValueId} {y y' z z' : Lower Lowered} {type type' : Lower (Option IrType)} : rel x x' →
    rel y y' → rel z z' → Asks type → rel type type' → rel (ifThenElse x y z type) (ifThenElse x' y' z' type')
  whileLoop (isInfinite : Bool) {x x' : Lower ValueId} {y y' : Lower Lowered} : rel x x' → rel y y' →
    rel (whileLoop isInfinite x y) (whileLoop isInfinite x' y')
  breakLoop : rel breakLoop breakLoop
  continueLoop : rel continueLoop continueLoop
  ret {α : Type} (lowered : Lowered) : rel (ret lowered : Lower α) (ret lowered)

namespace Lockstep

variable {rel : ∀ {α : Type}, Lower α → Lower α → Prop} {x x' : Lower Lowered} {value : Option Lowered}
  (h : Lockstep items items' F rel)

include h

theorem lowerType {type : Ty} : ∀ found, items.lowerType type = .ok found → items'.lowerType type = .ok found :=
  fun _ => ItemMap.lowerType_of_isPrefix h.agrees.layouts

theorem layout {struct : StructId} : ∀ found, items.layout struct = .ok found → items'.layout struct = .ok found :=
  fun _ => ItemMap.layout_of_isPrefix h.agrees.layouts

theorem asValue (hx : rel x x') : rel (asValue x) (asValue x') := by
  refine h.bind hx fun a => ?_
  cases a with
  | value v => exact h.pure v
  | unit => exact h.fault _

theorem coerced (hx : rel x x') : rel (coerced ⟨items, F⟩ id x) (coerced ⟨items', F⟩ id x') := by
  refine h.bind hx fun a => ?_
  cases a with
  | unit => exact h.pure _
  | value v =>
    cases F.coercions.get? id with
    | none => exact h.pure _
    | some type => exact h.answer h.lowerType fun _ _ => h.bind (h.emit quietly_widen) fun _ => h.pure _

theorem resultType : rel (resultType ⟨items, F⟩ id) (resultType ⟨items', F⟩ id) := by
  unfold Lower.resultType
  split
  · exact h.pure _
  · rw [map_eq_pure_bind, map_eq_pure_bind]
    exact h.answer h.lowerType fun _ _ => h.pure _

theorem literal {value : Literal} : rel (literal ⟨items, F⟩ id value) (literal ⟨items', F⟩ id value) := by
  cases value with
  | int | float => exact h.answer h.lowerType fun _ _ => h.bind (h.emit (.addValue ..)) fun _ => h.pure _
  | bool b => exact h.bind (h.emit (.addValue ..)) fun _ => h.pure _
  | unit => exact h.pure _
  | cString text => exact h.bind (h.emit .string) fun _ => h.pure _

theorem var : rel (var ⟨items, F⟩ id) (var ⟨items', F⟩ id) := by
  refine h.answer (fun _ hb => hb) fun binding hb => h.get fun s => ?_
  rw [(eq_of_agrees h.agrees hb).1, (eq_of_agrees h.agrees hb).2]
  split
  · exact h.pure _
  · exact h.bind (h.emit (.pushValue rfl)) fun _ => h.pure _
  · exact h.pure _
  · cases items.functions.get? binding with
    | some function => exact h.bind (h.emit (.addValue ..)) fun _ => h.pure _
    | none =>
      cases items.globals.get? binding with
      | some global =>
        exact h.answer h.lowerType fun _ _ => h.bind (h.emit (.addValue ..)) fun _ =>
          h.bind (h.emit (.pushValue rfl)) fun _ => h.pure _
      | none => exact h.fault _

theorem variablePlace : rel (variablePlace ⟨items, F⟩ id) (variablePlace ⟨items', F⟩ id) := by
  refine h.answer (fun _ hb => hb) fun binding hb => h.get fun s => ?_
  rw [(eq_of_agrees h.agrees hb).2]
  split
  · exact h.pure _
  · exact h.fault _
  · cases items.globals.get? binding with
    | some global => exact h.emit (.addValue ..)
    | none => exact h.fault _

theorem fieldPlace {field : FieldRef} (base : ValueId) :
    rel (fieldPlace ⟨items, F⟩ field base) (fieldPlace ⟨items', F⟩ field base) :=
  h.answer h.layout fun _ _ => h.emit (.pushValue rfl)

section

variable {field : FieldRef} {value value' place place' : Lower ValueId}

theorem readsMemory {base : Expr} : rel (readsMemory ⟨items, F⟩ field base) (readsMemory ⟨items', F⟩ field base) := by
  unfold Lower.readsMemory
  split
  · exact h.pure _
  · refine h.get fun s => ?_
    rw [isMemoryPlace_of_agrees h.agrees]
    simpa only [bind_pure] using h.answer (fun _ hm => hm) fun inMemory _ => h.pure inMemory

omit h in
theorem fieldBase (hv : rel value value') (hp : rel place place') :
    rel (fieldBase field value place) (fieldBase field value' place') := by
  unfold Lower.fieldBase
  split
  · exact hv
  · exact hp

theorem readField {type : IrType} {inMemory : Bool} (hv : rel value value') (hp : rel place place') :
    rel (readField ⟨items, F⟩ field type inMemory value place)
      (readField ⟨items', F⟩ field type inMemory value' place') := by
  unfold Lower.readField
  split
  · exact h.bind (fieldBase hv hp) fun _ => h.bind (h.fieldPlace _) fun _ =>
      h.bind (h.emit (.pushValue rfl)) fun _ => h.pure _
  · exact h.bind hv fun _ => h.bind (h.emit (.pushValue rfl)) fun _ => h.pure _

theorem callTarget {direct : Option FuncId} (hv : rel value value') :
    rel (callTarget direct value) (callTarget direct value') := by
  cases direct with
  | some function => exact h.pure _
  | none => exact h.bind hv fun _ => h.pure _

theorem emitCall {target : Callee} {args : List ValueId} {sig : FunctionSig} :
    rel (emitCall target args sig) (emitCall target args sig) := by
  refine h.bind (h.emit (.push rfl)) fun result => ?_
  cases result <;> exact h.pure _

end

theorem assignVariable {lowered : Lowered} :
    rel (assignVariable ⟨items, F⟩ id lowered) (assignVariable ⟨items', F⟩ id lowered) := by
  refine h.answer (fun _ hb => hb) fun binding hb => h.get fun s => ?_
  rw [(eq_of_agrees h.agrees hb).2]
  split
  · exact h.modifyEnv _
  · exact h.emit (.store ..)
  · exact h.pure _
  · cases items.globals.get? binding with
    | none => exact h.fault _
    | some global => exact h.bind (h.emit (.addValue ..)) fun _ => h.emit (.store ..)
  · exact h.pure _

theorem declare : rel (declare ⟨items, F⟩ binding value) (declare ⟨items', F⟩ binding value) := by
  refine h.bind (h.answer (fun _ ht => ht) fun type _ => ?_) fun _ => h.modifyEnv _
  split
  · exact h.pure _
  · refine h.answer h.lowerType fun lowered _ => ?_
    extract_lets value
    split
    · refine h.bind (h.emit .alloca) fun slot => ?_
      cases value with
      | none => exact h.pure _
      | some v => exact h.bind (h.emit (.store ..)) fun _ => h.pure _
    · cases value with
      | none => exact h.bind (h.emit (.addValue ..)) fun _ => h.pure _
      | some v => exact h.pure _

/-! ## Bodies -/

mutual
theorem lowerExpr : ∀ expr : Expr, rel (lowerExpr ⟨items, F⟩ expr) (lowerExpr ⟨items', F⟩ expr)
  | .literal id span value => by exact h.coerced h.literal
  | .var id span name => by exact h.coerced h.var
  | .binary id span op lhs rhs => by
    have hl := h.asValue (lowerExpr lhs)
    have hr := h.asValue (lowerExpr rhs)
    refine h.coerced ?_
    split
    · exact h.logical op hl hr
    · exact h.bind hl fun _ => h.bind hr fun _ => h.bind (h.emit quietly_binaryStep) fun _ => h.pure _
  | .unary id span .neg operand | .unary id span .not operand => by
    exact h.coerced (h.bind (h.asValue (lowerExpr operand)) fun _ => h.bind (h.emit quietly_unary) fun _ => h.pure _)
  | .unary id span .deref operand => by
    refine h.coerced (h.bind (h.asValue (lowerExpr operand)) fun pointer => ?_)
    split
    · exact h.pure _
    · exact h.answer h.lowerType fun _ _ => h.bind (h.emit (.pushValue rfl)) fun _ => h.pure _
  | .unary id span .addrOf operand => by exact h.coerced (h.bind (lowerPlace operand) fun _ => h.pure _)
  | .call id span callee args => by
    refine h.coerced (h.answer (fun sig hs => ?_) fun sig _ => h.get fun s => ?_)
    · unfold calleeSig at hs ⊢
      dsimp only at hs ⊢
      split at hs
      · exact ItemMap.lowerSig_of_isPrefix h.agrees.layouts hs
      · cases hs
    · rw [directCallee?_of_agrees h.agrees]
      exact h.answer (fun _ hd => hd) fun direct _ => h.bind (h.callTarget (h.asValue (lowerExpr callee))) fun target =>
        h.bind (lowerValues args) fun _ => h.emitCall
  | .assign id span target value => by
    unfold Lower.lowerExpr
    refine h.coerced (h.bind (lowerExpr value) fun lowered => ?_)
    split
    · exact h.bind h.assignVariable fun _ => h.pure _
    · refine h.bind (lowerPlace target) fun place => ?_
      split
      · exact h.bind (h.emit (.store ..)) fun _ => h.pure _
      · exact h.pure _
  | .cond id span condition thenBranch none => by
    exact h.coerced (h.ifThen (h.asValue (lowerExpr condition)) (lowerExpr thenBranch) asks_resultType h.resultType)
  | .cond id span condition thenBranch (some elseBranch) => by
    exact h.coerced (h.ifThenElse (h.asValue (lowerExpr condition)) (lowerExpr thenBranch) (lowerExpr elseBranch)
      asks_resultType h.resultType)
  | .loop id span condition body => by
    exact h.coerced (h.whileLoop _ (h.asValue (lowerExpr condition)) (lowerExpr body))
  | .block id span stmts none => by exact h.coerced (h.inScope (h.bind (lowerStmts stmts) fun _ => h.pure _))
  | .block id span stmts (some tail) => by
    exact h.coerced (h.inScope (h.bind (lowerStmts stmts) fun _ => lowerExpr tail))
  | .field id span base name => by
    exact h.coerced (h.answer (fun _ hf => hf) fun field _ => h.answer h.lowerType fun type _ =>
      h.bind h.readsMemory fun _ => h.readField (h.asValue (lowerExpr base)) (lowerPlace base))
  | .structLiteral id span name fields => by
    refine h.coerced ?_
    dsimp only
    split
    · exact h.fault _
    · exact h.bind (lowerInits fields _) fun _ => h.answer (fun _ ho => ho) fun _ _ =>
        h.answer h.layout fun _ _ => h.bind (h.emit (.pushValue rfl)) fun _ => h.pure _
  | .breakLoop id span => by exact h.coerced h.breakLoop
  | .continueLoop id span => by exact h.coerced h.continueLoop

theorem lowerPlace : ∀ expr : Expr, rel (lowerPlace ⟨items, F⟩ expr) (lowerPlace ⟨items', F⟩ expr)
  | .var id span name => by exact h.variablePlace
  | .field id span base name => by
    exact h.answer (fun _ hf => hf) fun field _ =>
      h.bind (fieldBase (h.asValue (lowerExpr base)) (lowerPlace base)) h.fieldPlace
  | .unary id span .deref operand => by exact h.asValue (lowerExpr operand)
  | .literal .. | .binary .. | .unary _ _ .neg _ | .unary _ _ .not _ | .unary _ _ .addrOf _ | .call .. | .assign ..
  | .cond .. | .loop .. | .block .. | .structLiteral .. | .breakLoop .. | .continueLoop .. => by
    exact h.fault _

theorem lowerValues : ∀ exprs : List Expr, rel (lowerValues ⟨items, F⟩ exprs) (lowerValues ⟨items', F⟩ exprs)
  | [] => by exact h.pure _
  | expr :: rest => by
    exact h.bind (h.asValue (lowerExpr expr)) fun _ => h.bind (lowerValues rest) fun _ => h.pure _

theorem lowerInits : ∀ (inits : List Init) (positions : List Nat),
    rel (lowerInits ⟨items, F⟩ inits positions) (lowerInits ⟨items', F⟩ inits positions)
  | .mk _ _ value :: rest, position :: positions => by
    exact h.bind (h.asValue (lowerExpr value)) fun _ => h.bind (lowerInits rest positions) fun _ => h.pure _
  | [], _ => by exact h.pure _
  | _ :: _, [] => by
    simp only [Lower.lowerInits]
    exact h.pure _

theorem lowerStmt : ∀ stmt : Stmt, rel (lowerStmt ⟨items, F⟩ stmt) (lowerStmt ⟨items', F⟩ stmt)
  | .bind id span name type none => by exact h.answer (fun _ hb => hb) fun _ _ => h.declare
  | .bind id span name type (some init) => by
    exact h.answer (fun _ hb => hb) fun _ _ => h.bind (lowerExpr init) fun _ => h.declare
  | .eval id span expr => by exact h.bind (lowerExpr expr) fun _ => h.pure _
  | .ret id span none => by
    rw [Lower.lowerStmt, Lower.lowerStmt]
    exact h.ret _
  | .ret id span (some value) => by exact h.bind (lowerExpr value) h.ret

theorem lowerStmts : ∀ stmts : List Stmt, rel (lowerStmts ⟨items, F⟩ stmts) (lowerStmts ⟨items', F⟩ stmts)
  | [] => by exact h.pure _
  | stmt :: rest => by exact h.bind (lowerStmt stmt) fun _ => lowerStmts rest
end

theorem declareParams (params : List (BindingId × Nat)) :
    rel (declareParams ⟨items, F⟩ params) (declareParams ⟨items', F⟩ params) := by
  induction params with
  | nil => exact h.pure _
  | cons param rest ih =>
    refine h.bind (h.emit .ask) fun value => h.answer (fun _ ht => ht) fun type _ =>
      h.answer h.lowerType fun lowered _ => ?_
    extract_lets next next'
    have hnext : ∀ bound, rel (next bound) (next' bound) := fun bound => h.bind (h.modifyEnv _) fun _ => ih
    split
    · exact h.bind (h.emit .alloca) fun _ => h.bind (h.emit (.store ..)) fun _ => hnext _
    · exact hnext _

end Lockstep

end Lower

end SsaCompiler
