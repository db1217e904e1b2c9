import SsaCompiler.Binary64
import SsaCompiler.Ir.Type

/-!
# Function bodies in single assignment form

A body has a table of values and a table of basic blocks. A value comes from one place: an
instruction, a parameter, a constant or an address. A block is a list of instructions with one
terminator at its end; the first block is the entry.
-/

namespace SsaCompiler

inductive Constant where
  | int (value : Int)
  /-- A float; those of 32 bits are stored widened. -/
  | float (value : Binary64)
  | bool (value : Bool)
  | zero
deriving DecidableEq, Repr

inductive ValueKind where
  | result
  | param (index : Nat)
  | const (constant : Constant)
  | global (id : GlobalId)
  | function (id : FuncId)
  | string (index : Nat)
deriving DecidableEq, Repr

structure ValueData where
  kind : ValueKind
  type : IrType
deriving DecidableEq, Repr

/-- A binary operation on two operands of the type of its result. -/
inductive Arithmetic where
  | add | sub | mul
  | div
  | rem
  | and | or | xor | shl
  | shr
deriving DecidableEq, Repr

namespace Arithmetic

def name : Arithmetic → String
  | add => "Add" | sub => "Sub" | mul => "Mul" | div => "Div" | rem => "Rem"
  | and => "And" | or => "Or" | xor => "Xor" | shl => "Shl" | shr => "Shr"

def ofName? (text : String) : Option Arithmetic :=
  [add, sub, mul, div, rem, and, or, xor, shl, shr].find? (·.name = text)

end Arithmetic

/-- A comparison; integers compare as signed numbers. -/
inductive Comparison where
  | eq | ne | lt | le | gt | ge
deriving DecidableEq, Repr

namespace Comparison

def name : Comparison → String
  | eq => "Eq" | ne => "Ne" | lt => "Lt" | le => "Le" | gt => "Gt" | ge => "Ge"

def ofName? (text : String) : Option Comparison :=
  [eq, ne, lt, le, gt, ge].find? (·.name = text)

end Comparison

inductive Negation where
  | neg
  | not
deriving DecidableEq, Repr

namespace Negation

def name : Negation → String
  | neg => "Neg" | not => "Not"

def ofName? (text : String) : Option Negation := [neg, not].find? (·.name = text)

end Negation

inductive Widening where
  | signExtend
  | zeroExtend
  | floatExtend
deriving DecidableEq, Repr

namespace Widening

def name : Widening → String
  | signExtend => "SExt" | zeroExtend => "ZExt" | floatExtend => "FpExt"

def ofName? (text : String) : Option Widening :=
  [signExtend, zeroExtend, floatExtend].find? (·.name = text)

end Widening

inductive Callee where
  | direct (function : FuncId)
  | indirect (value : ValueId)
deriving DecidableEq, Repr

inductive Operation where
  | binary (op : Arithmetic) (lhs rhs : ValueId)
  | compare (op : Comparison) (lhs rhs : ValueId)
  | unary (op : Negation) (operand : ValueId)
  | cast (kind : Widening) (value : ValueId)
  | call (callee : Callee) (args : List ValueId) (sig : FunctionSig)
  | alloca (type : IrType)
  | load (pointer : ValueId)
  | store (pointer value : ValueId)
  | fieldAddr (base : ValueId) (layout : LayoutId) (index : Nat)
  | extractField (aggregate : ValueId) (index : Nat)
  | makeAggregate (layout : LayoutId) (fields : List ValueId)
  /-- The value that belongs to the block control came from. -/
  | phi (incoming : List (BlockId × ValueId))
deriving DecidableEq, Repr

structure Instruction where
  operation : Operation
  result : Option ValueId
deriving DecidableEq, Repr

inductive Terminator where
  | jump (target : BlockId)
  | branch (condition : ValueId) (thenBlock elseBlock : BlockId)
  | ret (value : Option ValueId)
  | unreachable
deriving DecidableEq, Repr

namespace Terminator

def successors : Terminator → List BlockId
  | jump target => [target]
  | branch _ thenBlock elseBlock => [thenBlock, elseBlock]
  | ret _ | unreachable => []

end Terminator

structure BasicBlock where
  insts : List Instruction
  /-- The terminator; none while the block is being built. -/
  terminator : Option Terminator
deriving DecidableEq, Repr

namespace BasicBlock

def empty : BasicBlock := ⟨[], none⟩

def successors (block : BasicBlock) : List BlockId :=
  match block.terminator with
  | some terminator => terminator.successors
  | none => []

end BasicBlock

structure FunctionBody where
  values : Array ValueData
  blocks : Array BasicBlock
  params : List ValueId
  strings : List String
deriving DecidableEq, Repr

namespace FunctionBody

def entryBlock? (body : FunctionBody) : Option BlockId :=
  if body.blocks.isEmpty then none else some ⟨0⟩

def instructionCount (body : FunctionBody) : Nat :=
  body.blocks.toList.foldl (fun count block => count + block.insts.length) 0

end FunctionBody

end SsaCompiler
