import SsaCompiler.Ir.Module

/-!
# The text of a module

A module is written as LLVM assembly. Values are numbered through a function in the order of their
definition, parameters first; blocks are labelled by their position.
-/

namespace SsaCompiler

namespace IrModule

def typeName (mod : IrModule) : IrType → Except Fault String
  | .int bits => .ok s!"i{bits}"
  | .float bits => .ok (if bits = 32 then "float" else "double")
  | .bool => .ok "i1"
  | .ptr => .ok "ptr"
  | .struct id => do
    let layout ← mod.layout id
    return "%\"" ++ layout.name ++ "\""
  | .void => .ok "void"

/-- The texts of the parameter types of a signature, with the mark of extra arguments. -/
def paramNames (mod : IrModule) (sig : FunctionSig) : Except Fault String := do
  let params ← sig.params.mapM mod.typeName
  return ", ".intercalate (params ++ if sig.varargs then ["..."] else [])

end IrModule

namespace Constant

def text (type : IrType) : Constant → String
  | int value => toString value
  | float value => "0x" ++ value.toHex
  | bool value => if value then "true" else "false"
  | zero =>
    match type with
    | .int _ => "0"
    | .float _ => "0x0000000000000000"
    | .bool => "false"
    | .ptr => "null"
    | .struct _ | .void => "zeroinitializer"

end Constant

namespace StringConstant

def hexDigit (n : Nat) : Char := (Nat.digitChar n).toUpper

/-- The text of one byte: itself if it is printable, else its two hexadecimal digits. -/
def byteText (byte : UInt8) : List Char :=
  let n := byte.toNat
  if 32 ≤ n ∧ n < 127 ∧ n ≠ 34 ∧ n ≠ 92 then [Char.ofNat n]
  else ['\\', hexDigit (n / 16), hexDigit (n % 16)]

def text (content : String) : String :=
  let bytes := content.toUTF8.toList
  s!"[{bytes.length + 1} x i8] c\"" ++ String.ofList (bytes.flatMap byteText) ++ "\\00\""

end StringConstant

namespace Arithmetic

def mnemonic (float : Bool) : Arithmetic → String
  | add => if float then "fadd" else "add"
  | sub => if float then "fsub" else "sub"
  | mul => if float then "fmul" else "mul"
  | div => if float then "fdiv" else "sdiv"
  | rem => if float then "frem" else "srem"
  | and => "and"
  | or => "or"
  | xor => "xor"
  | shl => "shl"
  | shr => "ashr"

end Arithmetic

namespace Comparison

def mnemonic (float : Bool) : Comparison → String
  | eq => if float then "fcmp oeq" else "icmp eq"
  | ne => if float then "fcmp one" else "icmp ne"
  | lt => if float then "fcmp olt" else "icmp slt"
  | le => if float then "fcmp ole" else "icmp sle"
  | gt => if float then "fcmp ogt" else "icmp sgt"
  | ge => if float then "fcmp oge" else "icmp sge"

end Comparison

namespace Widening

def mnemonic : Widening → String
  | signExtend => "sext"
  | zeroExtend => "zext"
  | floatExtend => "fpext"

end Widening

/-- A piece of a line. -/
inductive Piece where
  | word (text : String)
  | type (type : IrType)
  | typeOf (id : ValueId)
  | value (id : ValueId)
  | function (id : FuncId)
  | block (id : BlockId)
  /-- The name of a struct value before the fields after `index` are set. -/
  | part (struct : ValueId) (index : Nat)

namespace Piece

def typed (id : ValueId) : List Piece := [typeOf id, word " ", value id]

/-- Items with commas between them. -/
def list (items : List (List Piece)) : List Piece := [word ", "].intercalate items

end Piece

structure BodyText where
  mod : IrModule
  function : Nat
  body : FunctionBody
  defined : List ValueId

namespace BodyText

def new (mod : IrModule) (function : Nat) (body : FunctionBody) : BodyText :=
  let results := body.blocks.toList.flatMap fun block => block.insts.filterMap (·.result)
  ⟨mod, function, body, body.params ++ results⟩

def value (text : BodyText) (id : ValueId) : Except Fault ValueData :=
  match text.body.values[id.index]? with
  | some data => .ok data
  | none => .error .outOfRange

def typeOf (text : BodyText) (id : ValueId) : Except Fault String := do
  let data ← text.value id
  text.mod.typeName data.type

def operand (text : BodyText) (id : ValueId) : Except Fault String := do
  let data ← text.value id
  match data.kind with
  | .result | .param _ =>
    match text.defined.idxOf? id with
    | some number => return s!"%{number}"
    | none => return s!"%v{id.index}"
  | .const constant => return constant.text data.type
  | .global global => do
    let global ← text.mod.global global
    return s!"@{global.symbol}"
  | .function function => do
    let function ← text.mod.function function
    return s!"@{function.symbol}"
  | .string index => return s!"@.str.{text.function}.{index}"

def piece (text : BodyText) : Piece → Except Fault String
  | .word word => .ok word
  | .type type => text.mod.typeName type
  | .typeOf id => text.typeOf id
  | .value id => text.operand id
  | .function id => do
    let function ← text.mod.function id
    return s!"@{function.symbol}"
  | .block id => .ok s!"%bb{id.index}"
  | .part struct index => do
    let name ← text.operand struct
    let stem := String.ofList (name.toList.dropWhile (· = '%'))
    return s!"%agg.{stem}.{index}"

def line (text : BodyText) (pieces : List Piece) : Except Fault String := do
  let texts ← pieces.mapM text.piece
  return String.join texts

def isFloat (text : BodyText) (id : ValueId) : Except Fault Bool := do
  let data ← text.value id
  match data.type with
  | .float _ => return true
  | _ => return false

def resultType (result : Option ValueId) : List Piece := (result.map Piece.typeOf).toList

def target : Option ValueId → Piece
  | some result => .value result
  | none => .word ""

/-- The lines that set the fields of a struct value one after another, from the field `index` on.
The last one defines the value. -/
def insertions (layout : LayoutId) (result : Option ValueId) :
    Nat → Piece → List ValueId → List (List Piece)
  | _, _, [] => []
  | index, previous, field :: rest =>
    let part := match result with
      | some result => Piece.part result index
      | none => .word s!"%agg..{index}"
    let name := if rest.isEmpty then target result else part
    ([name, .word " = insertvalue ", .type (.struct layout), .word " ", previous, .word ", "] ++
      Piece.typed field ++ [.word s!", {index}"]) :: insertions layout result (index + 1) name rest

def aggregate (layout : LayoutId) (fields : List ValueId) (result : Option ValueId) : List Piece :=
  if fields.isEmpty then
    [target result, .word " = ", .word "freeze ", .type (.struct layout), .word " undef"]
  else [.word "\n  "].intercalate (insertions layout result 0 (.word "undef") fields)

def callee : Callee → Piece
  | .direct id => .function id
  | .indirect value => .value value

/-- A call; its type has the parameters if there may be extra arguments. -/
def call (target : Callee) (args : List ValueId) (sig : FunctionSig) : List Piece :=
  let params := if sig.varargs then
      [.word " ("] ++ Piece.list (sig.params.map ([.type ·]) ++ [[.word "..."]]) ++ [.word ")"]
    else []
  [.word "call ", .type sig.result] ++ params ++ [.word " ", callee target, .word "("] ++
    Piece.list (args.map Piece.typed) ++ [.word ")"]

def unary (op : Negation) (operand : ValueId) (type : IrType) : List Piece :=
  match op, type with
  | .neg, .float _ => .word "fneg " :: Piece.typed operand
  | .neg, _ => [.word "sub ", .typeOf operand, .word " 0, ", .value operand]
  | .not, .bool => .word "xor " :: Piece.typed operand ++ [.word ", true"]
  | .not, _ => .word "xor " :: Piece.typed operand ++ [.word ", -1"]

/-- A value that comes from one of several blocks. -/
def arm (incoming : BlockId × ValueId) : List Piece :=
  [.word "[ ", .value incoming.2, .word ", ", .block incoming.1, .word " ]"]

def operation (text : BodyText) (result : Option ValueId) : Operation → Except Fault (List Piece)
  | .binary op lhs rhs => do
    let float ← text.isFloat lhs
    return [.word (op.mnemonic float), .word " "] ++ Piece.typed lhs ++ [.word ", ", .value rhs]
  | .compare op lhs rhs => do
    let float ← text.isFloat lhs
    return [.word (op.mnemonic float), .word " "] ++ Piece.typed lhs ++ [.word ", ", .value rhs]
  | .unary op operand => do
    let data ← text.value operand
    return unary op operand data.type
  | .cast kind value =>
    .ok ([.word kind.mnemonic, .word " "] ++ Piece.typed value ++ [.word " to "] ++ resultType result)
  | .call callee args sig => .ok (call callee args sig)
  | .alloca type => .ok [.word "alloca ", .type type]
  | .load pointer =>
    .ok ([.word "load "] ++ resultType result ++ [.word ", "] ++ Piece.typed pointer)
  | .store pointer value =>
    .ok ([.word "store "] ++ Piece.typed value ++ [.word ", "] ++ Piece.typed pointer)
  | .fieldAddr base layout index =>
    .ok ([.word "getelementptr ", .type (.struct layout), .word ", "] ++ Piece.typed base ++
      [.word s!", i32 0, i32 {index}"])
  | .extractField aggregate index =>
    .ok ([.word "extractvalue "] ++ Piece.typed aggregate ++ [.word s!", {index}"])
  | .makeAggregate layout fields => .ok (aggregate layout fields result)
  | .phi incoming =>
    .ok ([.word "phi "] ++ resultType result ++ [.word " "] ++ Piece.list (incoming.map arm))

/-- The text of an instruction. One that makes a struct value names the value it defines itself. -/
def instruction (text : BodyText) (inst : Instruction) : Except Fault String := do
  let pieces ← text.operation inst.result inst.operation
  match inst.operation, inst.result with
  | .makeAggregate _ _, _ => text.line pieces
  | _, some result => text.line ([.value result, .word " = "] ++ pieces)
  | _, none => text.line pieces

def terminator : Terminator → List Piece
  | .jump target => [.word "br label ", .block target]
  | .branch condition thenBlock elseBlock => [.word "br "] ++ Piece.typed condition ++
    [.word ", label ", .block thenBlock, .word ", label ", .block elseBlock]
  | .ret (some value) => .word "ret " :: Piece.typed value
  | .ret none => [.word "ret void"]
  | .unreachable => [.word "unreachable"]

def block (text : BodyText) (index : Nat) (block : BasicBlock) : Except Fault (List String) := do
  let insts ← block.insts.mapM text.instruction
  let last ← block.terminator.toList.mapM fun last => text.line (terminator last)
  return s!"bb{index}:" :: (insts ++ last).map ("  " ++ ·)

def lines (text : BodyText) : Except Fault (List String) := do
  let blocks ← text.body.blocks.toList.zipIdx.mapM fun (block, index) => text.block index block
  return blocks.flatten

end BodyText

namespace IrModule

def layoutLine (mod : IrModule) (layout : StructLayout) : Except Fault String := do
  let fields ← layout.fields.mapM mod.typeName
  return "%\"" ++ layout.name ++ "\" = type \x7b " ++ ", ".intercalate fields ++ " \x7d"

def stringLine (label content : String) : String :=
  label ++ " = private unnamed_addr constant " ++ StringConstant.text content

/-- The lines of a global; a string it points to comes before it. -/
def globalLines (mod : IrModule) (index : Nat) (global : IrGlobal) :
    Except Fault (List String) := do
  let type ← mod.typeName global.type
  let line (init : String) : String := s!"@{global.symbol} = global {type} {init} ; {global.name}"
  match global.init with
  | .zero => return [line (Constant.zero.text global.type)]
  | .const constant => return [line (constant.text global.type)]
  | .cString content =>
    let label := s!"@.str.g{index}"
    return [stringLine label content, line label]

def stringLines (index : Nat) (function : IrFunction) : List String :=
  match function.body with
  | none => []
  | some body => body.strings.zipIdx.map fun (content, n) => stringLine s!"@.str.{index}.{n}" content

def functionLines (mod : IrModule) (index : Nat) (function : IrFunction) :
    Except Fault (List String) := do
  let result ← mod.typeName function.sig.result
  match function.body with
  | none =>
    let params ← mod.paramNames function.sig
    return ["", s!"declare {result} @{function.symbol}({params})"]
  | some body =>
    let text := BodyText.new mod index body
    let params ← text.line (Piece.list (body.params.map Piece.typed))
    let lines ← text.lines
    return ["", s!"; {function.name}", s!"define {result} @{function.symbol}({params}) \x7b"] ++
      lines ++ ["\x7d"]

/-- Lines that are set off from those before them. -/
def setOff (lines : List String) : List String := if lines.isEmpty then [] else "" :: lines

def lines (mod : IrModule) : Except Fault (List String) := do
  let structs ← mod.structs.toList.mapM mod.layoutLine
  let globals ← mod.globals.toList.zipIdx.mapM fun (global, index) => mod.globalLines index global
  let strings := mod.functions.toList.zipIdx.map fun (function, index) => stringLines index function
  let functions ←
    mod.functions.toList.zipIdx.mapM fun (function, index) => mod.functionLines index function
  return ("; ModuleID = '" ++ mod.name ++ "'") ::
    (setOff structs ++ setOff globals.flatten ++ strings.flatten ++ functions.flatten)

def text (mod : IrModule) : Except Fault String := do
  let lines ← mod.lines
  return String.join (lines.map (· ++ "\n"))

end IrModule

end SsaCompiler
