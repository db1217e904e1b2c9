import SsaCompiler.Checking.Check

/-!
# Checking bodies

One pass over a body, each expression after its parts. The value of a `let` is checked before its
name is in scope.
-/

namespace SsaCompiler

namespace Check

variable {κ : Type} {m : Type → Type} [Monad m] [MonadLiftT (Except Fault) m] [Names κ m]
  [DecidableEq κ]

mutual
def inferExpr (ctx : CheckContext κ) : Expr → CheckWith κ m Ty
  | expr@(.literal _ span value) => recorded expr (literal value span)
  | expr@(.var id span name) => recorded expr (var id name span)
  | expr@(.binary _ span op lhs rhs) => recorded expr do
    let left ← inferExpr ctx lhs
    let right ← inferExpr ctx rhs
    binary ctx op lhs rhs left right span
  | expr@(.unary _ _ op operand) => recorded expr do
    let type ← inferExpr ctx operand
    unary ctx op operand type
  | expr@(.call _ span callee args) => recorded expr do
    let type ← inferExpr ctx callee
    let types ← inferExprs ctx args
    call ctx callee type (args.zip types) span
  | expr@(.assign _ span target value) => recorded expr do
    let targetType ← inferExpr ctx target
    let valueType ← inferExpr ctx value
    assignmentTarget target
    expectAssignable ctx value.id valueType targetType span
    return targetType
  | expr@(.cond _ _ condition thenBranch none) => recorded expr do
    let type ← inferExpr ctx condition
    expectBool ctx condition type
    let _ ← inferExpr ctx thenBranch
    return .unit
  | expr@(.cond _ _ condition thenBranch (some elseBranch)) => recorded expr do
    let type ← inferExpr ctx condition
    expectBool ctx condition type
    let thenType ← inferExpr ctx thenBranch
    let elseType ← inferExpr ctx elseBranch
    branches ctx thenBranch elseBranch thenType elseType
  | expr@(.loop id _ condition body) => recorded expr do
    inScope .loop do
      let type ← inferExpr ctx condition
      expectBool ctx condition type
      let _ ← inferExpr ctx body
    if condition.isTrue then
      note fun f => { f with infiniteLoops := f.infiniteLoops.insert id }
    return .unit
  | expr@(.block _ _ stmts none) => recorded expr do
    inScope .block (checkStmts ctx stmts)
    return .unit
  | expr@(.block _ _ stmts (some tail)) => recorded expr do
    inScope .block do
      checkStmts ctx stmts
      inferExpr ctx tail
  | expr@(.field id span base name) => recorded expr do
    let type ← inferExpr ctx base
    field ctx id type name span
  | expr@(.structLiteral id span name fields) => recorded expr do
    let types ← inferInits ctx fields
    structLiteral ctx id name (fields.zip types) span
  | expr@(.breakLoop _ span) => recorded expr (expectLoop "break" span)
  | expr@(.continueLoop _ span) => recorded expr (expectLoop "continue" span)

def inferExprs (ctx : CheckContext κ) : List Expr → CheckWith κ m (List Ty)
  | [] => return []
  | expr :: rest => do
    let type ← inferExpr ctx expr
    let types ← inferExprs ctx rest
    return type :: types

def inferInits (ctx : CheckContext κ) : List Init → CheckWith κ m (List Ty)
  | [] => return []
  | .mk _ _ value :: rest => do
    let type ← inferExpr ctx value
    let types ← inferInits ctx rest
    return type :: types

def checkStmt (ctx : CheckContext κ) : Stmt → CheckWith κ m Unit
  | .bind id span name type none => do
    let annotated ← type.mapM (annotatedType ctx)
    letBinding ctx id name annotated none span
  | .bind id span name type (some init) => do
    let annotated ← type.mapM (annotatedType ctx)
    let found ← inferExpr ctx init
    letBinding ctx id name annotated (some (init.id, found)) span
  | .eval _ _ expr => do
    let _ ← inferExpr ctx expr
    return ()
  | .ret _ span none => emptyReturn ctx span
  | .ret _ span (some value) => do
    let found ← inferExpr ctx value
    expectResult ctx value.id found span

def checkStmts (ctx : CheckContext κ) : List Stmt → CheckWith κ m Unit
  | [] => return ()
  | stmt :: rest => do
    checkStmt ctx stmt
    checkStmts ctx rest
end

def declareParams : List (Param × Ty) → CheckWith κ m Unit
  | [] => return ()
  | (param, type) :: rest => do
    match ← declareLocal param.name type .parameter param.span with
    | some binding => note fun f => { f with params := f.params ++ [binding] }
    | none => pure ()
    declareParams rest

/-- Where a body gives back its value: at the tail of its block, else at the declaration. -/
def resultSite (decl : FunctionDecl) : Expr → FileSpan
  | .block _ _ _ (some tail) => tail.span
  | _ => decl.span

/-- Checks what is inside a function. If control reaches the end of the body, the value of the body is
returned. -/
def functionBody (ctx : CheckContext κ) (item : FunctionItem) (decl : FunctionDecl) (root : Expr) :
    CheckWith κ m Unit := do
  declareParams (decl.params.zip item.params)
  let found ← inferExpr ctx root
  if !root.diverges then expectResult ctx root.id found (resultSite decl root)

def inFunction (name : String) (inside : CheckWith κ m Unit) : CheckWith κ m Unit := do
  let key ← Names.intern (m := m) name
  within .function (some key) inside

/-- Checks a function with a body. -/
def function (ctx : CheckContext κ) (item : FunctionItem) (decl : FunctionDecl) (root : Expr) :
    CheckWith κ m Unit :=
  inFunction decl.name (functionBody ctx item decl root)

end Check

section

variable {κ : Type} {m : Type → Type} [Monad m] [MonadLiftT (Except Fault) m] [Names κ m]
  [DecidableEq κ]

/-- Checks functions of a unit one after another, adding to the mistakes and functions found. -/
def checkFunctions (decls : Declarations κ) (unit : UnitId) (unitName : String) :
    List (Nat × FunctionDecl) → SymbolTable Ty κ →
      m (List TypeError × List CheckedFunction × SymbolTable Ty κ)
  | [], symbols => return ([], [], symbols)
  | (itemIndex, decl) :: rest, symbols =>
    match decl.body, decls.functionAt? unit itemIndex with
    | some body, some item => do
      let root ← body.tree
      let start : CheckState κ := ⟨symbols, .start item body.exprs.size, [], .empty⟩
      let ((), s) ← (Check.function ⟨decls, unitName, item.result⟩ item decl root).run start
      let (errors, functions, symbols) ← checkFunctions decls unit unitName rest s.symbols
      return (s.errors ++ errors, s.function :: functions, symbols)
    | _, _ => checkFunctions decls unit unitName rest symbols

/-- Checks a unit, with names kept as keys: its mistakes, those of its declarations first, or what is
known about it. -/
def checkUnitWith (decls : Declarations κ) (unit : UnitId) (source : SourceUnit) :
    m (Except (List TypeError) (CheckedUnit κ)) := do
  let symbols ← SymbolTable.forUnit decls.index unit
  let unitKey ← decls.index.unitName unit
  let unitName ← Names.text unitKey
  let (errors, functions, symbols) ←
    checkFunctions decls unit unitName source.functions symbols
  match decls.errorsOf unit ++ errors with
  | [] => return .ok ⟨unit, functions, symbols.locals.toList⟩
  | errors => return .error errors

end

/-- Checks a unit: its mistakes, those of its declarations first, or what is known about it. -/
def checkUnit (decls : Declarations) (unit : UnitId) (source : SourceUnit) :
    Except Fault (Except (List TypeError) CheckedUnit) :=
  checkUnitWith decls unit source

theorem checkUnit_eq {decls : Declarations} {unit : UnitId} {source : SourceUnit} :
    checkUnit decls unit source = do
      let symbols ← SymbolTable.forUnit decls.index unit
      let unitName ← decls.index.unitName unit
      let (errors, functions, symbols) ← checkFunctions decls unit unitName source.functions symbols
      match decls.errorsOf unit ++ errors with
      | [] => return .ok ⟨unit, functions, symbols.locals.toList⟩
      | errors => return .error errors := by
  simp only [checkUnit, checkUnitWith, Names.text, pure_bind]
  rfl

end SsaCompiler
