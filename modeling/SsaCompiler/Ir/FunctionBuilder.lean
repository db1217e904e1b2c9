import SsaCompiler.Fault
import SsaCompiler.Ir.Function

/-!
# Building function bodies

A body is built one step at a time. Instructions go to the end of the current block, except that
stack slots go to the entry block, in front of everything else. A block takes one terminator and no
instruction after it.
-/

namespace SsaCompiler

structure FunctionBuilder where
  values : Array ValueData
  blocks : Array BasicBlock
  params : List ValueId
  strings : List String
  current : BlockId
  allocas : Nat
  /-- The edges between blocks, as pairs of source and target, in the order in which they were
  made. -/
  edges : List (BlockId × BlockId)
deriving Repr

abbrev Emit := StateT FunctionBuilder (Except Fault)

namespace FunctionBuilder

/-- The builder of a function: an entry block, and a value for each parameter. -/
def new (sig : FunctionSig) : FunctionBuilder :=
  { values := (sig.params.zipIdx.map fun (type, index) => ⟨.param index, type⟩).toArray
    blocks := #[.empty]
    params := (List.range sig.params.length).map ValueId.mk
    strings := []
    current := ⟨0⟩
    allocas := 0
    edges := [] }

def entry (_ : FunctionBuilder) : BlockId := ⟨0⟩

def value (builder : FunctionBuilder) (id : ValueId) : Except Fault ValueData :=
  match builder.values[id.index]? with
  | some data => .ok data
  | none => .error .outOfRange

def valueType (builder : FunctionBuilder) (id : ValueId) : Except Fault IrType := do
  let data ← builder.value id
  return data.type

def asConstant (builder : FunctionBuilder) (id : ValueId) : Except Fault (Option Constant) := do
  let data ← builder.value id
  match data.kind with
  | .const constant => return some constant
  | _ => return none

def param (builder : FunctionBuilder) (index : Nat) : Except Fault ValueId :=
  match builder.params[index]? with
  | some id => .ok id
  | none => .error .outOfRange

def currentBlock (builder : FunctionBuilder) : Except Fault BasicBlock :=
  match builder.blocks[builder.current.index]? with
  | some block => .ok block
  | none => .error .outOfRange

def isTerminated (builder : FunctionBuilder) : Except Fault Bool := do
  let block ← builder.currentBlock
  return block.terminator.isSome

def predecessors (builder : FunctionBuilder) (target : BlockId) : List BlockId :=
  (builder.edges.filter (·.2 = target)).map (·.1)

def addValue (builder : FunctionBuilder) (kind : ValueKind) (type : IrType) :
    ValueId × FunctionBuilder :=
  (⟨builder.values.size⟩, { builder with values := builder.values.push ⟨kind, type⟩ })

def modifyCurrent (builder : FunctionBuilder) (change : BasicBlock → BasicBlock) :
    FunctionBuilder :=
  { builder with blocks := builder.blocks.modify builder.current.index change }

/-- Adds the edges from the current block to some blocks, each once. -/
def addEdges (builder : FunctionBuilder) : List BlockId → FunctionBuilder
  | [] => builder
  | target :: rest =>
    let edge := (builder.current, target)
    if builder.edges.contains edge then builder.addEdges rest
    else { builder with edges := builder.edges ++ [edge] }.addEdges rest

def unterminated? (builder : FunctionBuilder) : Option BlockId :=
  (builder.blocks.findIdx? (·.terminator.isNone)).map BlockId.mk

def finish (builder : FunctionBuilder) : Except Fault FunctionBody :=
  match builder.unterminated? with
  | some block => .error (.unterminatedBlock block)
  | none => .ok ⟨builder.values, builder.blocks, builder.params, builder.strings⟩

end FunctionBuilder

namespace Emit

def ask {α : Type} (question : FunctionBuilder → Except Fault α) : Emit α := do
  question (← get)

/-- Adds a value that no instruction computes. -/
def addValue (kind : ValueKind) (type : IrType) : Emit ValueId :=
  modifyGet fun builder => builder.addValue kind type

def newBlock : Emit BlockId :=
  modifyGet fun builder =>
    (⟨builder.blocks.size⟩, { builder with blocks := builder.blocks.push .empty })

def switchTo (block : BlockId) : Emit Unit := modify fun builder => { builder with current := block }

/-! ## Values without instructions -/

def constant (constant : Constant) (type : IrType) : Emit ValueId := addValue (.const constant) type

def constInt (value : Int) (bits : Nat) : Emit ValueId := constant (.int value) (.int bits)

def constBool (value : Bool) : Emit ValueId := constant (.bool value) .bool

def globalAddr (id : GlobalId) : Emit ValueId := addValue (.global id) .ptr

def functionAddr (id : FuncId) : Emit ValueId := addValue (.function id) .ptr

def string (text : String) : Emit ValueId := do
  let builder ← get
  set { builder with strings := builder.strings ++ [text] }
  addValue (.string builder.strings.length) .ptr

/-! ## Instructions -/

/-- Appends an instruction; it gives a value unless its type is `void`. -/
def push (operation : Operation) (type : IrType) : Emit (Option ValueId) := do
  if ← ask (·.isTerminated) then throw .appendedToTerminated
  let result ← if type = .void then pure none else some <$> addValue .result type
  modify fun builder => builder.modifyCurrent fun block =>
    { block with insts := block.insts ++ [⟨operation, result⟩] }
  return result

/-- Appends an instruction that has to give a value. -/
def pushValue (operation : Operation) (type : IrType) : Emit ValueId := do
  match ← push operation type with
  | some value => return value
  | none => throw .voidValue

/-- A binary operation; the result has the type of the left operand. -/
def binary (op : Arithmetic) (lhs rhs : ValueId) : Emit ValueId := do
  let type ← ask (·.valueType lhs)
  pushValue (.binary op lhs rhs) type

def compare (op : Comparison) (lhs rhs : ValueId) : Emit ValueId :=
  pushValue (.compare op lhs rhs) .bool

/-- A unary operation; the result has the type of the operand. -/
def unary (op : Negation) (operand : ValueId) : Emit ValueId := do
  let type ← ask (·.valueType operand)
  pushValue (.unary op operand) type

def cast (kind : Widening) (value : ValueId) (target : IrType) : Emit ValueId :=
  pushValue (.cast kind value) target

def call (callee : Callee) (args : List ValueId) (sig : FunctionSig) : Emit (Option ValueId) :=
  push (.call callee args sig) sig.result

def alloca (type : IrType) : Emit ValueId := do
  let result ← addValue .result .ptr
  modify fun builder =>
    { builder with
      blocks := builder.blocks.modify builder.entry.index fun block =>
        { block with
          insts := block.insts.take builder.allocas ++ ⟨.alloca type, some result⟩ ::
            block.insts.drop builder.allocas }
      allocas := builder.allocas + 1 }
  return result

def load (pointer : ValueId) (type : IrType) : Emit ValueId := pushValue (.load pointer) type

def store (pointer value : ValueId) : Emit Unit := do
  let _ ← push (.store pointer value) .void
  return ()

def fieldAddr (base : ValueId) (layout : LayoutId) (index : Nat) : Emit ValueId :=
  pushValue (.fieldAddr base layout index) .ptr

def extractField (aggregate : ValueId) (index : Nat) (type : IrType) : Emit ValueId :=
  pushValue (.extractField aggregate index) type

def makeAggregate (layout : LayoutId) (fields : List ValueId) : Emit ValueId :=
  pushValue (.makeAggregate layout fields) (.struct layout)

/-- A value that depends on where control came from. -/
def phi (type : IrType) (incoming : List (BlockId × ValueId)) : Emit ValueId :=
  pushValue (.phi incoming) type

/-! ## Terminators -/

def terminate (terminator : Terminator) : Emit Unit := do
  if ← ask (·.isTerminated) then throw .terminatedTwice
  modify fun builder =>
    (builder.modifyCurrent fun block => { block with terminator := some terminator }).addEdges
      terminator.successors

def jump (target : BlockId) : Emit Unit := terminate (.jump target)

def branch (condition : ValueId) (thenBlock elseBlock : BlockId) : Emit Unit :=
  terminate (.branch condition thenBlock elseBlock)

def ret (value : Option ValueId) : Emit Unit := terminate (.ret value)

def unreachable : Emit Unit := terminate .unreachable

end Emit

end SsaCompiler
