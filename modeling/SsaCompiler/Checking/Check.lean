import SsaCompiler.Checking.CheckedUnit
import SsaCompiler.Checking.Divergence
import SsaCompiler.LiteralType
import SsaCompiler.SymbolTable

/-!
# Checking steps

What checking keeps as it goes through a body, and the rules of the language that need no recursion:
what an operator, a call, a field or an assignment asks of the types of its parts. A mistake is
recorded and gives the type `error`, with which checking goes on.
-/

namespace SsaCompiler

/-- What stays fixed while a function is checked. -/
structure CheckContext (κ : Type := String) where
  decls : Declarations κ
  unitName : String
  result : Ty

/-- What is known and recorded while a function is checked. -/
structure CheckState (κ : Type := String) where
  symbols : SymbolTable Ty κ
  function : CheckedFunction
  errors : List TypeError
  /-- The number of loops around the declaration of each local. -/
  depths : Table BindingId Nat

/-- The state after a local is declared, with its type and the number of loops around it. -/
abbrev CheckState.withLocal {κ : Type} (s : CheckState κ) (symbols : SymbolTable Ty κ)
    (binding : BindingId) (type : Ty) (depth : Nat) : CheckState κ :=
  { s with
    symbols := symbols
    function := { s.function with localTypes := s.function.localTypes.insert binding type }
    depths := s.depths.insert binding depth }

/-- A step of checking, with names kept as keys `κ`. -/
abbrev CheckWith (κ : Type) (m : Type → Type) := StateT (CheckState κ) m

abbrev Check := CheckWith String (Except Fault)

/-- Where an assignable expression keeps its value. -/
inductive PlaceRoot where
  /-- In a parameter or local, or in a part of one. -/
  | binding (id : BindingId)
  /-- Behind a pointer or in a global. -/
  | memory
  | notAPlace
deriving DecidableEq, Repr

namespace Check

variable {κ α : Type} {m : Type → Type} [Monad m] [MonadLiftT (Except Fault) m]

def report (error : TypeError) : CheckWith κ m Unit :=
  modify fun s => { s with errors := s.errors ++ [error] }

/-- Records a mistake and goes on with the type `error`. -/
def fail (error : TypeError) : CheckWith κ m Ty := do
  report error
  return .error

def note (change : CheckedFunction → CheckedFunction) : CheckWith κ m Unit :=
  modify fun s => { s with function := change s.function }

/-- The error of a value of type `found` where `expected` is asked for. -/
def mismatch (ctx : CheckContext κ) (expected found : Ty) (span : FileSpan) : TypeError :=
  .mismatch (ctx.decls.describe expected) (ctx.decls.describe found) span

/-- What is done in a scope of its own, which is left afterwards. -/
def within (kind : ScopeKind) (owner : Option κ) (inside : CheckWith κ m α) : CheckWith κ m α := do
  modify fun s => { s with symbols := s.symbols.enterOwned kind owner }
  let answer ← inside
  let s ← get
  let outer ← s.symbols.exit
  set { s with symbols := outer }
  return answer

def inScope (kind : ScopeKind) (inside : CheckWith κ m α) : CheckWith κ m α := within kind none inside

/-- Infers the type of an expression and records it, with whether control goes on. -/
def recorded (expr : Expr) (infer : CheckWith κ m Ty) : CheckWith κ m Ty := do
  let type ← infer
  if expr.diverges then note (·.setDiverging expr.id)
  note (·.setType expr.id type)
  return type

/-- Records the conversion of an expression, if the types differ by one. -/
def coerce (expr : ExprId) (source target : Ty) : CheckWith κ m Unit :=
  if source.widensTo target then
    note fun f => { f with coercions := f.coercions.insert expr target }
  else return ()

/-- Asks for an expression to fit a type; the place that asks is at `site`. -/
def expectAssignable (ctx : CheckContext κ) (expr : ExprId) (found expected : Ty)
    (site : FileSpan) : CheckWith κ m Unit :=
  if found.assignableTo expected then coerce expr found expected
  else report (mismatch ctx expected found site)

def expectBool (ctx : CheckContext κ) (expr : Expr) (found : Ty) : CheckWith κ m Unit :=
  if found = .bool || found.isError then return ()
  else report (mismatch ctx .bool found expr.span)

/-- Asks for a value to return; the place that asks is at `site`. -/
def expectResult (ctx : CheckContext κ) (expr : ExprId) (found : Ty) (site : FileSpan) :
    CheckWith κ m Unit :=
  if found.assignableTo ctx.result then coerce expr found ctx.result
  else report (.returnMismatch (ctx.decls.describe ctx.result) (ctx.decls.describe found) site)

def emptyReturn (ctx : CheckContext κ) (span : FileSpan) : CheckWith κ m Unit := do
  if !ctx.result.isUnit && !ctx.result.isError then
    report (.returnMismatch (ctx.decls.describe ctx.result) (ctx.decls.describe .unit) span)

section

variable [Names κ m] [DecidableEq κ]

def declareLocal (name : String) (type : Ty) (storage : Storage) (span : FileSpan) :
    CheckWith κ m (Option BindingId) := do
  let s ← get
  let (declared, symbols) ← s.symbols.declare (m := m) name type storage span
  match declared with
  | .ok binding =>
    let depth ← symbols.loopDepth
    set (s.withLocal symbols binding type depth)
    return some binding
  | .error error =>
    set { s with symbols := symbols }
    report (.ofSymbolError error)
    return none

def annotatedType (ctx : CheckContext κ) (type : TypeExpr) : CheckWith κ m Ty := do
  match ← ctx.decls.resolveType (m := m) ctx.unitName type with
  | .ok type => return type
  | .error error => fail error

end

/-! ## Literals and names -/

def literal (value : Literal) (span : FileSpan) : CheckWith κ m Ty :=
  match value.type span with
  | .ok type => return type
  | .error error => fail error

def var [Names κ m] [DecidableEq κ] (id : ExprId) (name : String) (span : FileSpan) : CheckWith κ m Ty := do
  let s ← get
  match ← s.symbols.resolve (m := m) name span with
  | .ok binding =>
    note fun f => { f with refs := f.refs.insert id binding.id }
    return binding.type
  | .error error => fail (.ofSymbolError error)

/-! ## Places -/

/-- Where an expression keeps its value, if it is a place. -/
def placeRoot (s : CheckState κ) : Expr → PlaceRoot
  | .var id _ _ =>
    match s.function.refs.get? id with
    | none => .memory
    | some binding =>
      match s.symbols.binding? binding with
      | none => .memory
      | some found =>
        match found.storage with
        | .local | .parameter => .binding binding
        | .function => .notAPlace
        | .global => .memory
  | .field _ _ base _ =>
    match s.function.typeOf base.id with
    | .ptr _ | .error => .memory
    | _ => placeRoot s base
  | .unary _ _ .deref _ => .memory
  | _ => .notAPlace

def place (expr : Expr) : CheckWith κ m PlaceRoot := return placeRoot (← get) expr

/-- Whether the current scope is inside a loop that the declaration of a local is outside of. -/
def crossesLoop (binding : BindingId) : CheckWith κ m Bool := do
  let s ← get
  let depth ← s.symbols.loopDepth
  return depth > (s.depths.get? binding).getD 0

/-- Asks for a place to assign to. A variable assigned inside a loop that its declaration is outside
of is kept in memory, and so is one that is assigned in part. -/
def assignmentTarget (target : Expr) : CheckWith κ m Unit := do
  match ← place target with
  | .binding binding =>
    match target with
    | .var .. => if ← crossesLoop binding then note (·.keepInMemory binding)
    | _ => note (·.keepInMemory binding)
  | .memory => return ()
  | .notAPlace => report (.notAPlace target.span)

/-! ## Operators -/

/-- Brings two operands to a common type; each of them has to be an accepted one. -/
def unify (ctx : CheckContext κ) (lhs rhs : ExprId × Ty) (accepts : Ty → Bool) (what : String)
    (site : FileSpan) : CheckWith κ m Ty :=
  match [lhs.2, rhs.2].find? fun type => !type.isError && !accepts type with
  | some type => fail (.mismatch what (ctx.decls.describe type) site)
  | none =>
    match Ty.promote lhs.2 rhs.2 with
    | some common => do
      coerce lhs.1 lhs.2 common
      coerce rhs.1 rhs.2 common
      return common
    | none => fail (mismatch ctx lhs.2 rhs.2 site)

def isEquatable (type : Ty) : Bool := type.isNumeric || type = .bool || type.isPtr

def binary (ctx : CheckContext κ) (op : BinaryOp) (lhs rhs : Expr) (left right : Ty)
    (span : FileSpan) : CheckWith κ m Ty := do
  if op.isLogical then
    expectBool ctx lhs left
    expectBool ctx rhs right
    return .bool
  else if op.isArithmetic then
    unify ctx (lhs.id, left) (rhs.id, right) Ty.isNumeric "a numeric type" span
  else if op.isBitwise then
    unify ctx (lhs.id, left) (rhs.id, right) Ty.isInt "an integer type" span
  else
    let common ←
      if op = .eq || op = .ne then
        unify ctx (lhs.id, left) (rhs.id, right) isEquatable "a numeric, boolean or pointer type"
          span
      else unify ctx (lhs.id, left) (rhs.id, right) Ty.isNumeric "a numeric type" span
    return if common.isError then .error else .bool

def pointerTo (operand : Expr) (type : Ty) : CheckWith κ m Ty :=
  if type.isUnit then fail (.mismatch "a value type" "unit" operand.span) else return .ptr type

/-- The type of the address of an operand, which is kept in memory from now on. -/
def addressOf (operand : Expr) (type : Ty) : CheckWith κ m Ty := do
  match ← place operand with
  | .notAPlace => fail (.notAPlace operand.span)
  | .memory => pointerTo operand type
  | .binding binding =>
    note (·.keepInMemory binding)
    pointerTo operand type

def unary (ctx : CheckContext κ) (op : UnaryOp) (operand : Expr) (type : Ty) : CheckWith κ m Ty :=
  if type.isError then return .error
  else
    match op with
    | .neg =>
      if type.isNumeric then return type
      else fail (.mismatch "a numeric type" (ctx.decls.describe type) operand.span)
    | .not =>
      if type.isInt || type = .bool then return type
      else fail (.mismatch "bool or an integer type" (ctx.decls.describe type) operand.span)
    | .deref =>
      match type with
      | .ptr pointee => return pointee
      | _ => fail (.mismatch "a pointer" (ctx.decls.describe type) operand.span)
    | .addrOf => addressOf operand type

/-! ## Calls -/

/-- The type that an argument beyond the declared parameters is passed as, if it is converted. -/
def extraArgument? : Ty → Option Ty
  | .float 32 => some (.float 64)
  | .int bits => if bits < 32 then some (.int 32) else none
  | .bool => some (.int 32)
  | _ => none

def arguments (ctx : CheckContext κ) : List (Expr × Ty) → List Ty → CheckWith κ m Unit
  | [], _ => return ()
  | (arg, found) :: rest, param :: params => do
    expectAssignable ctx arg.id found param arg.span
    arguments ctx rest params
  | (arg, found) :: rest, [] => do
    if found.isUnit then report (.mismatch "a value type" "unit" arg.span)
    else
      match extraArgument? found with
      | some type => note fun f => { f with coercions := f.coercions.insert arg.id type }
      | none => pure ()
    arguments ctx rest []

def call (ctx : CheckContext κ) (callee : Expr) (type : Ty) (args : List (Expr × Ty))
    (span : FileSpan) : CheckWith κ m Ty :=
  match type with
  | .function params result varargs => do
    if args.length < params.length || (!varargs && args.length > params.length) then
      report (.arity params.length args.length span)
    arguments ctx args params
    return result
  | .error => return .error
  | _ => fail (.mismatch "a function" (ctx.decls.describe type) callee.span)

/-! ## Branches -/

/-- The type of an `if` with both branches. A branch that control never leaves has no say. -/
def branches (ctx : CheckContext κ) (thenBranch elseBranch : Expr) (thenType elseType : Ty) :
    CheckWith κ m Ty :=
  match thenBranch.diverges, elseBranch.diverges with
  | false, false =>
    match Ty.promote thenType elseType with
    | some common => do
      coerce thenBranch.id thenType common
      coerce elseBranch.id elseType common
      return common
    | none => fail (mismatch ctx thenType elseType elseBranch.span)
  | false, true => return thenType
  | true, false => return elseType
  | true, true => return .unit

/-! ## Structs -/

/-- The struct whose field is accessed, and whether through a pointer. -/
def accessed? : Ty → Option (StructId × Bool)
  | .aggregate id => some (id, false)
  | .ptr (.aggregate id) => some (id, true)
  | _ => none

def field (ctx : CheckContext κ) (id : ExprId) (base : Ty) (name : String) (span : FileSpan) :
    CheckWith κ m Ty :=
  if base.isError then return .error
  else
    let unknown := fail (.unknownField (ctx.decls.describe base) name span)
    match accessed? base with
    | none => unknown
    | some (struct, throughPointer) =>
      match ctx.decls.struct? struct with
      | none => liftM (m := Except Fault) (.error .outOfRange)
      | some def' =>
        match def'.field? name with
        | none => unknown
        | some (index, field) => do
          note fun f => { f with fields := f.fields.insert id ⟨struct, index, throughPointer⟩ }
          return field.type

/-- Checks the initializers of a struct; gives the positions of their fields and all positions
named, each with where it was named last. -/
def initializers (ctx : CheckContext κ) (id : StructId) (struct : StructDef) :
    List (Init × Ty) → List Nat → Table Nat FileSpan → CheckWith κ m (List Nat × Table Nat FileSpan)
  | [], positions, seen => return (positions, seen)
  | (init, found) :: rest, positions, seen => do
    match struct.field? init.name with
    | none =>
      report (.unknownField (ctx.decls.describe (.aggregate id)) init.name init.span)
      initializers ctx id struct rest positions seen
    | some (index, field) =>
      let named := seen.insert index init.span
      match seen.get? index with
      | some before =>
        report (.duplicate init.name init.span before)
        initializers ctx id struct rest positions named
      | none =>
        expectAssignable ctx init.value.id found field.type init.span
        initializers ctx id struct rest (positions ++ [index]) named

def missingFields (seen : Table Nat FileSpan) (span : FileSpan) :
    List (FieldDef × Nat) → CheckWith κ m Unit
  | [] => return ()
  | (field, index) :: rest => do
    if !seen.contains index then
      report (.mismatch s!"an initializer for field `{field.name}`" "none" span)
    missingFields seen span rest

def structLiteral [Names κ m] [DecidableEq κ] (ctx : CheckContext κ) (id : ExprId) (name : String) (inits : List (Init × Ty))
    (span : FileSpan) : CheckWith κ m Ty := do
  match ← annotatedType ctx (.named name span) with
  | .aggregate struct =>
    match ctx.decls.struct? struct with
    | none => liftM (m := Except Fault) (.error .outOfRange)
    | some def' =>
      let (positions, seen) ← initializers ctx struct def' inits [] .empty
      missingFields seen span def'.fields.zipIdx
      note fun f => { f with structLiterals := f.structLiterals.insert id ⟨struct, positions⟩ }
      return .aggregate struct
  | .error => return .error
  | other => fail (.mismatch "a struct" (ctx.decls.describe other) span)

/-! ## Statements -/

def inLoop : CheckWith κ m Bool := do (← get).symbols.inLoop

def expectLoop (keyword : String) (span : FileSpan) : CheckWith κ m Ty := do
  if !(← inLoop) then report (.outsideLoop keyword span)
  return .unit

/-- Declares what a `let` binds, from its annotation and its initial value. -/
def letBinding [Names κ m] [DecidableEq κ] (ctx : CheckContext κ) (id : StmtId) (name : String) (annotated : Option Ty)
    (init : Option (ExprId × Ty)) (span : FileSpan) : CheckWith κ m Unit := do
  let type ← match annotated, init with
    | some annotated, some (init, found) => do
      expectAssignable ctx init found annotated span
      pure annotated
    | some annotated, none => pure annotated
    | none, some (_, found) => pure found
    | none, none => fail (.mismatch "a type annotation or an initializer" "neither" span)
  match ← declareLocal name type .local span with
  | some binding => note fun f => { f with lets := f.lets.insert id binding }
  | none => return ()

end Check

end SsaCompiler
