import SsaCompiler.Checking.CheckedUnit
import SsaCompiler.Ir.FunctionBuilder
import SsaCompiler.Lowering.ItemMap

/-!
# Lowering steps

What lowering keeps as it goes through a checked body, and how the control structures of the
language are laid out in blocks, given how their parts are lowered. A step that has no answer is one
that control does not go on after; the current block is then closed.

A local is a value or a stack slot. Where control from several blocks meets, a local whose value
depends on the way taken becomes a phi; a loop needs none, because locals assigned inside it are in
stack slots.
-/

namespace SsaCompiler

/-- What a binding holds at a point of the program. -/
inductive Bound where
  | value (id : ValueId)
  | slot (id : ValueId) (type : IrType)
  | unit
deriving DecidableEq, Repr

/-- What an expression gives that control goes on after. -/
inductive Lowered where
  | value (id : ValueId)
  | unit
deriving DecidableEq, Repr

/-- What the bindings in scope hold, in the order of their declaration. -/
abbrev Env := Table BindingId Bound

/-- A loop around the current point. -/
structure LoopTarget where
  header : BlockId
  /-- The block that `break` goes to, once there is one. -/
  exit : Option BlockId
deriving DecidableEq, Repr

/-- What stays fixed while a function is lowered. -/
structure LowerContext where
  items : ItemMap
  function : CheckedFunction

/-- What changes while a function is lowered. -/
structure LowerState where
  builder : FunctionBuilder
  env : Env
  /-- The loops around the current point, innermost first. -/
  loops : List LoopTarget

abbrev Lower := OptionT (StateT LowerState (Except Fault))

/-- One of the ways control reaches the point where ways meet. -/
structure Arm where
  block : BlockId
  env : Env
  value : Lowered
  /-- Whether the block still has to be closed. -/
  isOpen : Bool

namespace Lower

variable {α : Type}

def emit (step : Emit α) : Lower α :=
  OptionT.lift fun s => do
    let (answer, builder) ← step.run s.builder
    return (answer, { s with builder := builder })

def fault (fault : Fault) : Lower α := OptionT.lift (throw fault)

def answer (result : Except Fault α) : Lower α := OptionT.lift (liftM result)

def stop : Lower α := OptionT.fail

/-- Runs a step and goes on whether or not control does after the step. -/
def attempt (step : Lower α) : Lower (Option α) := OptionT.lift step.run

def currentBlock : Lower BlockId := return (← get).builder.current

def setEnv (env : Env) : Lower Unit := modify fun s => { s with env := env }

def asValue (lowered : Lower Lowered) : Lower ValueId := do
  match ← lowered with
  | .value value => return value
  | .unit => fault .unitAsValue

/-! ## What checking found out -/

def typeOf (ctx : LowerContext) (id : ExprId) : Lower IrType :=
  answer (ctx.items.lowerType (ctx.function.typeOf id))

def localType (ctx : LowerContext) (binding : BindingId) : Except Fault Ty :=
  match ctx.function.localTypes.get? binding with
  | some type => .ok type
  | none => .error (.untypedBinding binding)

def bindingOf (ctx : LowerContext) (id : ExprId) : Except Fault BindingId :=
  match ctx.function.refs.get? id with
  | some binding => .ok binding
  | none => .error (.unresolvedVariable id.index)

def fieldRef (ctx : LowerContext) (id : ExprId) : Except Fault FieldRef :=
  match ctx.function.fields.get? id with
  | some field => .ok field
  | none => .error (.unresolvedField id.index)

/-! ## Conversions -/

/-- Converts a value to a type; a constant becomes another constant. -/
def widen (value : ValueId) (target : IrType) : Emit ValueId := do
  let constant ← Emit.ask (·.asConstant value)
  match constant, target with
  | some (.int n), .int bits => Emit.constInt n bits
  | some (.bool b), .int bits => Emit.constInt (if b then 1 else 0) bits
  | some (.float x), .float _ => Emit.constant (.float x) target
  | _, .int _ =>
    let type ← Emit.ask (·.valueType value)
    Emit.cast (if type = .bool then .zeroExtend else .signExtend) value target
  | _, .float _ => Emit.cast .floatExtend value target
  | _, _ => throw (.noWidening target)

/-- Lowers an expression and applies the conversion recorded for it. -/
def coerced (ctx : LowerContext) (id : ExprId) (lowered : Lower Lowered) : Lower Lowered := do
  match ← lowered with
  | .unit => return .unit
  | .value value =>
    match ctx.function.coercions.get? id with
    | none => return .value value
    | some type =>
      let target ← answer (ctx.items.lowerType type)
      let widened ← emit (widen value target)
      return .value widened

/-! ## Literals, variables and operators -/

/-- The type of the value of an `if`, none for one that has no value. -/
def resultType (ctx : LowerContext) (id : ExprId) : Lower (Option IrType) := do
  if (ctx.function.typeOf id).isUnit then return none else some <$> typeOf ctx id

def literal (ctx : LowerContext) (id : ExprId) : Literal → Lower Lowered
  | .int value _ => do
    let type ← typeOf ctx id
    let value ← emit (.constant (.int value) type)
    return .value value
  | .float value _ => do
    let type ← typeOf ctx id
    let value ← emit (.constant (.float (floatConstant value (ctx.function.typeOf id))) type)
    return .value value
  | .bool value => do
    let value ← emit (.constBool value)
    return .value value
  | .unit => return .unit
  | .cString text => do
    let value ← emit (.string text)
    return .value value

def var (ctx : LowerContext) (id : ExprId) : Lower Lowered := do
  let binding ← answer (bindingOf ctx id)
  match (← get).env.get? binding with
  | some (.value value) => return .value value
  | some (.slot slot type) =>
    let value ← emit (.load slot type)
    return .value value
  | some .unit => return .unit
  | none =>
    match ctx.items.functions.get? binding, ctx.items.globals.get? binding with
    | some function, _ =>
      let value ← emit (.functionAddr function)
      return .value value
    | none, some global =>
      let type ← typeOf ctx id
      let address ← emit (.globalAddr global)
      let value ← emit (.load address type)
      return .value value
    | none, none => fault (.valuelessBinding binding)

/-- The instruction of a binary operator that computes both operands. -/
def binaryStep (op : BinaryOp) (lhs rhs : ValueId) : Emit ValueId :=
  match op with
  | .add => .binary .add lhs rhs
  | .sub => .binary .sub lhs rhs
  | .mul => .binary .mul lhs rhs
  | .div => .binary .div lhs rhs
  | .rem => .binary .rem lhs rhs
  | .bitAnd | .and => .binary .and lhs rhs
  | .bitOr | .or => .binary .or lhs rhs
  | .bitXor => .binary .xor lhs rhs
  | .shl => .binary .shl lhs rhs
  | .shr => .binary .shr lhs rhs
  | .eq => .compare .eq lhs rhs
  | .ne => .compare .ne lhs rhs
  | .lt => .compare .lt lhs rhs
  | .le => .compare .le lhs rhs
  | .gt => .compare .gt lhs rhs
  | .ge => .compare .ge lhs rhs

/-! ## Places -/

def variablePlace (ctx : LowerContext) (id : ExprId) : Lower ValueId := do
  let binding ← answer (bindingOf ctx id)
  match (← get).env.get? binding with
  | some (.slot slot _) => return slot
  | some _ => fault (.addressOfRegister binding)
  | none =>
    match ctx.items.globals.get? binding with
    | some global => emit (.globalAddr global)
    | none => fault (.bindingNotAPlace binding)

def fieldPlace (ctx : LowerContext) (field : FieldRef) (base : ValueId) : Lower ValueId := do
  let layout ← answer (ctx.items.layout field.struct)
  emit (.fieldAddr base layout field.index)

/-- Whether an expression stands for memory, so that its fields can be read there. -/
def isMemoryPlace (ctx : LowerContext) (env : Env) : Expr → Except Fault Bool
  | .var id _ _ => do
    let binding ← bindingOf ctx id
    match env.get? binding with
    | some (.slot ..) => return true
    | some _ => return false
    | none => return ctx.items.globals.contains binding
  | .field id _ base _ => do
    let field ← fieldRef ctx id
    if field.throughPointer then return true else isMemoryPlace ctx env base
  | .unary _ _ .deref _ => return true
  | _ => return false

def readsMemory (ctx : LowerContext) (field : FieldRef) (base : Expr) : Lower Bool := do
  if field.throughPointer then return true else answer (isMemoryPlace ctx (← get).env base)

/-- The address of the struct that a field is in, which is the value of the base or its place. -/
def fieldBase (field : FieldRef) (value place : Lower ValueId) : Lower ValueId :=
  if field.throughPointer then value else place

def readField (ctx : LowerContext) (field : FieldRef) (type : IrType) (inMemory : Bool)
    (value place : Lower ValueId) : Lower Lowered := do
  if inMemory then
    let pointer ← fieldBase field value place
    let place ← fieldPlace ctx field pointer
    let value ← emit (.load place type)
    return .value value
  else
    let aggregate ← value
    let value ← emit (.extractField aggregate field.index type)
    return .value value

def assignVariable (ctx : LowerContext) (id : ExprId) (lowered : Lowered) : Lower Unit := do
  let binding ← answer (bindingOf ctx id)
  let s ← get
  match s.env.get? binding, lowered with
  | some (.value _), .value value => setEnv (s.env.insert binding (.value value))
  | some (.slot slot _), .value value => emit (.store slot value)
  | some _, _ => return ()
  | none, .value value =>
    match ctx.items.globals.get? binding with
    | none => fault (.assignedNonVariable binding)
    | some global =>
      let address ← emit (.globalAddr global)
      emit (.store address value)
  | none, .unit => return ()

/-! ## Calls and structs -/

def directCallee? (ctx : LowerContext) (env : Env) : Expr → Except Fault (Option FuncId)
  | .var id _ _ => do
    let binding ← bindingOf ctx id
    if env.contains binding then return none else return ctx.items.functions.get? binding
  | _ => return none

def calleeSig (ctx : LowerContext) (id : ExprId) : Except Fault FunctionSig :=
  match ctx.function.typeOf id with
  | .function params result varargs => ctx.items.lowerSig params result varargs
  | _ => .error .calledNonFunction

/-- What is called: a function that is known, or a value. -/
def callTarget (direct : Option FuncId) (value : Lower ValueId) : Lower Callee :=
  match direct with
  | some function => return .direct function
  | none => Callee.indirect <$> value

def emitCall (target : Callee) (args : List ValueId) (sig : FunctionSig) : Lower Lowered := do
  match ← emit (.call target args sig) with
  | some value => return .value value
  | none => return .unit

/-- The values of a struct in layout order, from values with their positions. -/
def inLayoutOrder (values : List (Nat × ValueId)) (count : Nat) : Except Fault (List ValueId) :=
  if values.any fun (position, _) => count ≤ position then .error .outOfRange
  else
    (List.range count).mapM fun position =>
      match values.reverse.find? (·.1 = position) with
      | some (_, value) => .ok value
      | none => .error .missingFieldValue

/-! ## Joins -/

/-- What a binding holds where ways meet, given its place in the environments of the arms: the same
as on all ways, or a phi. -/
def joinBound (arms : List Arm) (index : Nat) (first : Bound) : Lower Bound := do
  let bounds ← arms.mapM fun arm =>
    match arm.env.entries[index]? with
    | some (_, bound) => pure (arm.block, bound)
    | none => fault .outOfRange
  if bounds.all (·.2 = first) then return first
  else
    let incoming ← bounds.mapM fun (block, bound) =>
      match bound with
      | .value value => pure (block, value)
      | .slot slot type => fault (.slotRebound slot type)
      | .unit => fault .unitRebound
    match incoming with
    | [] => return first
    | (_, value) :: _ =>
      let type ← emit (Emit.ask (·.valueType value))
      let merged ← emit (.phi type incoming)
      return .value merged

def joinEnv (arms : List Arm) : Nat → List (BindingId × Bound) → Lower (List (BindingId × Bound))
  | _, [] => return []
  | index, (binding, first) :: rest => do
    let bound ← joinBound arms index first
    let rest ← joinEnv arms (index + 1) rest
    return (binding, bound) :: rest

def joinValue (arms : List Arm) (type : IrType) : Lower ValueId := do
  let incoming ← arms.mapM fun arm =>
    match arm.value with
    | .value value => pure (arm.block, value)
    | .unit => fault .unitArm
  match incoming with
  | [(_, value)] => return value
  | _ => emit (.phi type incoming)

def closeArms (merge : BlockId) : List Arm → Emit Unit
  | [] => return ()
  | arm :: rest => do
    if arm.isOpen then
      Emit.switchTo arm.block
      Emit.jump merge
    closeArms merge rest

/-- Goes on at `merge`, which all arms go to, with the first `keys` bindings in scope. The value is
merged if `type` is given. -/
def join (merge : BlockId) (keys : Nat) (arms : List Arm) (type : Option IrType) :
    Lower Lowered := do
  emit (closeArms merge arms)
  emit (.switchTo merge)
  match arms with
  | [] => fault .outOfRange
  | first :: _ =>
    let entries ← joinEnv arms 0 (first.env.entries.take keys)
    setEnv ⟨entries⟩
    match type with
    | none => return .unit
    | some type =>
      let value ← joinValue arms type
      return .value value

/-- Goes on in a block; gives the way from the end of what is lowered there, if control gets to the
end. -/
def arm (block : BlockId) (lowered : Lower Lowered) : Lower (Option Arm) := do
  emit (.switchTo block)
  match ← attempt lowered with
  | none => return none
  | some value =>
    let s ← get
    return some ⟨s.builder.current, s.env, value, true⟩

/-! ## Control structures -/

/-- `a && b` and `a || b`: the right side is computed only if the left side does not settle the
result. -/
def logical (op : BinaryOp) (lhs rhs : Lower ValueId) : Lower Lowered := do
  let left ← lhs
  let s ← get
  let settles := op = .or
  let right ← emit .newBlock
  let merge ← emit .newBlock
  emit (if settles then .branch left merge right else .branch left right merge)
  let short ← emit (.constBool settles)
  let shortArm : Arm := ⟨s.builder.current, s.env, .value short, false⟩
  let rightArm ← arm right do
    let value ← rhs
    return .value value
  join merge s.env.size (shortArm :: rightArm.toList) (some .bool)

def ifThen (condition : Lower ValueId) (thenBranch : Lower Lowered) (type : Lower (Option IrType)) :
    Lower Lowered := do
  let value ← condition
  let s ← get
  let thenBlock ← emit .newBlock
  let merge ← emit .newBlock
  emit (.branch value thenBlock merge)
  let thenArm ← arm thenBlock thenBranch
  setEnv s.env
  let type ← type
  join merge s.env.size (thenArm.toList ++ [⟨s.builder.current, s.env, .unit, false⟩]) type

/-- An `if` with `else`. Control goes on if it does after one of the branches. -/
def ifThenElse (condition : Lower ValueId) (thenBranch elseBranch : Lower Lowered)
    (type : Lower (Option IrType)) : Lower Lowered := do
  let value ← condition
  let s ← get
  let thenBlock ← emit .newBlock
  let elseBlock ← emit .newBlock
  emit (.branch value thenBlock elseBlock)
  let thenArm ← arm thenBlock thenBranch
  setEnv s.env
  let elseArm ← arm elseBlock elseBranch
  setEnv s.env
  match thenArm.toList ++ elseArm.toList with
  | [] => stop
  | arms =>
    let merge ← emit .newBlock
    let type ← type
    join merge s.env.size arms type

/-- The block that `break` goes to, made when it is first asked for. -/
def loopExit : Lower BlockId := do
  let s ← get
  match s.loops with
  | [] => fault .breakOutsideLoop
  | target :: outer =>
    match target.exit with
    | some exit => return exit
    | none =>
      let exit ← emit .newBlock
      modify fun s => { s with loops := { target with exit := some exit } :: outer }
      return exit

def breakLoop : Lower Lowered := do
  let exit ← loopExit
  emit (.jump exit)
  stop

def continueLoop : Lower Lowered := do
  match (← get).loops with
  | [] => fault .continueOutsideLoop
  | target :: _ =>
    emit (.jump target.header)
    stop

/-- The start of a loop: to its body, or out of it. Gives the block of the body. -/
def loopEntry (isInfinite : Bool) (condition : Lower ValueId) : Lower BlockId := do
  if isInfinite then
    let body ← emit .newBlock
    emit (.jump body)
    return body
  else
    let value ← condition
    let body ← emit .newBlock
    let exit ← loopExit
    emit (.branch value body exit)
    return body

/-- Ends a loop. Control goes on if something leaves it. -/
def afterLoop (env : Env) : Lower Lowered := do
  let loops := (← get).loops
  modify fun s => { s with env := env, loops := loops.tail }
  match loops.head?.bind (·.exit) with
  | none => stop
  | some exit =>
    emit (.switchTo exit)
    return .unit

/-- A `while`. -/
def whileLoop (isInfinite : Bool) (condition : Lower ValueId) (body : Lower Lowered) :
    Lower Lowered := do
  let header ← emit .newBlock
  emit (.jump header)
  emit (.switchTo header)
  let env := (← get).env
  modify fun s => { s with loops := ⟨header, none⟩ :: s.loops }
  match ← attempt (loopEntry isInfinite condition) with
  | none => pure ()
  | some block =>
    emit (.switchTo block)
    match ← attempt body with
    | none => pure ()
    | some _ => emit (.jump header)
  afterLoop env

/-- Lowers something and forgets the bindings it declares, whether or not control goes on. -/
def inScope (inside : Lower α) : Lower α := do
  let keys := (← get).env.size
  let result ← attempt inside
  modify fun s => { s with env := s.env.truncate keys }
  match result with
  | some value => return value
  | none => stop

/-! ## Statements -/

/-- What a new binding holds: its initial value or zero, in a stack slot if it is kept in memory. -/
def newBound (ctx : LowerContext) (binding : BindingId) (value : Option Lowered) : Lower Bound := do
  let type ← answer (localType ctx binding)
  if type.isUnit then return .unit
  else
    let type ← answer (ctx.items.lowerType type)
    let value := match value with
      | some (.value value) => some value
      | _ => none
    if ctx.function.isMemoryResident binding then
      let slot ← emit (.alloca type)
      match value with
      | some value => emit (.store slot value)
      | none => pure ()
      return .slot slot type
    else
      match value with
      | some value => return .value value
      | none =>
        let zero ← emit (.constant .zero type)
        return .value zero

def declare (ctx : LowerContext) (binding : BindingId) (value : Option Lowered) : Lower Unit := do
  let bound ← newBound ctx binding value
  modify fun s => { s with env := s.env.insert binding bound }

def letBinding (ctx : LowerContext) (id : StmtId) : Except Fault BindingId :=
  match ctx.function.lets.get? id with
  | some binding => .ok binding
  | none => .error (.unresolvedLet id.index)

def ret : Lowered → Lower α
  | .value value => do
    emit (.ret (some value))
    stop
  | .unit => do
    emit (.ret none)
    stop

end Lower

end SsaCompiler
