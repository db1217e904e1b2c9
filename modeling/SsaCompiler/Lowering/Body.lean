import SsaCompiler.Lowering.Lower

/-!
# Lowering bodies

Each expression is lowered to instructions at the end of the current block, its parts first and from
left to right, except that the value of an assignment comes before the place it goes to.
-/

namespace SsaCompiler

namespace Lower

mutual
/-- Lowers an expression, with the conversion recorded for it. -/
def lowerExpr (ctx : LowerContext) : Expr → Lower Lowered
  | .literal id _ value => coerced ctx id (literal ctx id value)
  | .var id _ _ => coerced ctx id (var ctx id)
  | .binary id _ op lhs rhs => coerced ctx id <|
    if op.isLogical then logical op (asValue (lowerExpr ctx lhs)) (asValue (lowerExpr ctx rhs))
    else do
      let left ← asValue (lowerExpr ctx lhs)
      let right ← asValue (lowerExpr ctx rhs)
      let value ← emit (binaryStep op left right)
      return .value value
  | .unary id _ .neg operand => coerced ctx id do
    let operand ← asValue (lowerExpr ctx operand)
    let value ← emit (.unary .neg operand)
    return .value value
  | .unary id _ .not operand => coerced ctx id do
    let operand ← asValue (lowerExpr ctx operand)
    let value ← emit (.unary .not operand)
    return .value value
  | .unary id _ .deref operand => coerced ctx id do
    let pointer ← asValue (lowerExpr ctx operand)
    if (ctx.function.typeOf id).isUnit then return .unit
    else
      let type ← typeOf ctx id
      let value ← emit (.load pointer type)
      return .value value
  | .unary id _ .addrOf operand => coerced ctx id do
    let address ← lowerPlace ctx operand
    return .value address
  | .call id _ callee args => coerced ctx id do
    let sig ← answer (calleeSig ctx callee.id)
    let direct ← answer (directCallee? ctx (← get).env callee)
    let target ← callTarget direct (asValue (lowerExpr ctx callee))
    let values ← lowerValues ctx args
    emitCall target values sig
  | .assign id _ target value => coerced ctx id do
    let lowered ← lowerExpr ctx value
    match target with
    | .var targetId _ _ => assignVariable ctx targetId lowered
    | target =>
      let place ← lowerPlace ctx target
      match lowered with
      | .value value => emit (.store place value)
      | .unit => pure ()
    return lowered
  | .cond id _ condition thenBranch none => coerced ctx id <|
    ifThen (asValue (lowerExpr ctx condition)) (lowerExpr ctx thenBranch) (resultType ctx id)
  | .cond id _ condition thenBranch (some elseBranch) => coerced ctx id <|
    ifThenElse (asValue (lowerExpr ctx condition)) (lowerExpr ctx thenBranch)
      (lowerExpr ctx elseBranch) (resultType ctx id)
  | .loop id _ condition body => coerced ctx id <|
    whileLoop (ctx.function.infiniteLoops.contains id) (asValue (lowerExpr ctx condition))
      (lowerExpr ctx body)
  | .block id _ stmts none => coerced ctx id <| inScope do
    lowerStmts ctx stmts
    return .unit
  | .block id _ stmts (some tail) => coerced ctx id <| inScope do
    lowerStmts ctx stmts
    lowerExpr ctx tail
  | .field id _ base _ => coerced ctx id do
    let field ← answer (fieldRef ctx id)
    let type ← typeOf ctx id
    let inMemory ← readsMemory ctx field base
    readField ctx field type inMemory (asValue (lowerExpr ctx base)) (lowerPlace ctx base)
  | .structLiteral id _ _ fields => coerced ctx id do
    match ctx.function.structLiterals.get? id with
    | none => fault (.unresolvedStructLiteral id.index)
    | some literal =>
      let values ← lowerInits ctx fields literal.positions
      let values ← answer (inLayoutOrder values literal.positions.length)
      let layout ← answer (ctx.items.layout literal.struct)
      let value ← emit (.makeAggregate layout values)
      return .value value
  | .breakLoop id _ => coerced ctx id breakLoop
  | .continueLoop id _ => coerced ctx id continueLoop

/-- Lowers the place that an expression stands for to its address. -/
def lowerPlace (ctx : LowerContext) : Expr → Lower ValueId
  | .var id _ _ => variablePlace ctx id
  | .field id _ base _ => do
    let field ← answer (fieldRef ctx id)
    let pointer ← fieldBase field (asValue (lowerExpr ctx base)) (lowerPlace ctx base)
    fieldPlace ctx field pointer
  | .unary _ _ .deref operand => asValue (lowerExpr ctx operand)
  | expr => fault (.exprNotAPlace expr.id.index)

def lowerValues (ctx : LowerContext) : List Expr → Lower (List ValueId)
  | [] => return []
  | expr :: rest => do
    let value ← asValue (lowerExpr ctx expr)
    let values ← lowerValues ctx rest
    return value :: values

/-- Lowers initializers to their values with the positions of their fields, in the order written. -/
def lowerInits (ctx : LowerContext) : List Init → List Nat → Lower (List (Nat × ValueId))
  | .mk _ _ value :: rest, position :: positions => do
    let value ← asValue (lowerExpr ctx value)
    let values ← lowerInits ctx rest positions
    return (position, value) :: values
  | _, _ => return []

def lowerStmt (ctx : LowerContext) : Stmt → Lower Unit
  | .bind id _ _ _ none => do
    let binding ← answer (letBinding ctx id)
    declare ctx binding none
  | .bind id _ _ _ (some init) => do
    let binding ← answer (letBinding ctx id)
    let value ← lowerExpr ctx init
    declare ctx binding (some value)
  | .eval _ _ expr => do
    let _ ← lowerExpr ctx expr
    return ()
  | .ret _ _ none => ret .unit
  | .ret _ _ (some value) => do
    let lowered ← lowerExpr ctx value
    ret lowered

def lowerStmts (ctx : LowerContext) : List Stmt → Lower Unit
  | [] => return ()
  | stmt :: rest => do
    lowerStmt ctx stmt
    lowerStmts ctx rest
end

/-- Declares parameters; those kept in memory are stored to a stack slot first. -/
def declareParams (ctx : LowerContext) : List (BindingId × Nat) → Lower Unit
  | [] => return ()
  | (binding, index) :: rest => do
    let value ← emit (Emit.ask (·.param index))
    let type ← answer (localType ctx binding)
    let type ← answer (ctx.items.lowerType type)
    let bound ←
      if ctx.function.isMemoryResident binding then do
        let slot ← emit (.alloca type)
        emit (.store slot value)
        pure (.slot slot type)
      else pure (.value value)
    modify fun s => { s with env := s.env.insert binding bound }
    declareParams ctx rest

/-- Closes the last block of a body, if it is open: a block that nothing goes to is unreachable, any
other returns the value of the body. -/
def finishBody (ctx : LowerContext) (result : Option Lowered) : Emit Unit := do
  let builder ← get
  if ← builder.isTerminated then return ()
  else if builder.current ≠ builder.entry && (builder.predecessors builder.current).isEmpty then
    Emit.unreachable
  else
    match result, ctx.function.result with
    | _, .unit => Emit.ret none
    | some (.value value), _ => Emit.ret (some value)
    | _, _ => throw (.missingResult ctx.function.binding)

def lowerBody (ctx : LowerContext) (root : Expr) : Lower Unit := do
  declareParams ctx ctx.function.params.zipIdx
  let result ← attempt (lowerExpr ctx root)
  emit (finishBody ctx result)

end Lower

def CheckedFunction.lower (function : CheckedFunction) (items : ItemMap) (sig : FunctionSig)
    (root : Expr) : Except Fault FunctionBody := do
  let start : LowerState := ⟨FunctionBuilder.new sig, .empty, []⟩
  let (_, s) ← (Lower.lowerBody ⟨items, function⟩ root).run start
  s.builder.finish

/-- The declaration of a checked function in the source of its unit. -/
def SourceUnit.bodyAt? (source : SourceUnit) (itemIndex : Nat) : Option Body :=
  match source.items[itemIndex]? with
  | some (.function decl) => decl.body
  | _ => none

def CheckedUnit.lowerFunction {κ : Type} (decls : Declarations κ) (items : ItemMap) (source : SourceUnit)
    (function : CheckedFunction) : Except Fault (FuncId × FunctionBody) := do
  match items.functions.get? function.binding with
  | none => throw (.missingSlot function.binding)
  | some id =>
    match source.bodyAt? function.itemIndex, decls.function? function.binding with
    | none, _ => throw (.missingBody function.binding)
    | some _, none => throw (.uncollectedFunction function.binding)
    | some body, some item =>
      let sig ← items.lowerSig item.params item.result item.varargs
      let root ← body.tree
      let lowered ← function.lower items sig root
      return (id, lowered)

def CheckedUnit.lower {κ : Type} (checked : CheckedUnit κ) (decls : Declarations κ) (items : ItemMap)
    (source : SourceUnit) : Except Fault (List (FuncId × FunctionBody)) :=
  checked.functions.mapM (CheckedUnit.lowerFunction decls items source)

end SsaCompiler
