import SsaCompiler.Ir.Module
import Mathlib.Data.List.Forall2

/-!
# Well-typed bodies

The typing rules of instructions and terminators (`Operation.Typed`, `Terminator.Typed`), and what it
means for a body to be well typed in a module (`FunctionBody.WellTyped`). Pointers are opaque, so a
read or a write is bound to a type only where the address says what is there: the address of a stack
slot, of a global or of a field (`FunctionBody.PointsTo`).

The rules are stated over a `ValueTyping`, so that they can be used of a body that is still being
built.
-/

namespace SsaCompiler

/-- What is known about values: their types, and what is in memory at the address that they are. -/
structure ValueTyping where
  typeOf : ValueId → Option IrType
  /-- The type of what is in memory at an address. -/
  Holds : ValueId → IrType → Prop

def Widening.Converts : Widening → IrType → IrType → Prop
  | .signExtend, source, target => ∃ a b, a < b ∧ source = .int a ∧ target = .int b
  | .zeroExtend, source, target => source = .bool ∧ ∃ b, target = .int b
  | .floatExtend, source, target => source = .float 32 ∧ target = .float 64

/-- A type that a value may have beyond the declared parameters of a call. -/
def IrType.PassedExtra : IrType → Prop
  | .int bits => 32 ≤ bits
  | .float bits => bits ≠ 32
  | .ptr | .struct _ => True
  | .bool | .void => False

/-- Values of some types can be passed to a function: one for each parameter, and more only if the
function takes them. -/
def FunctionSig.Accepts (sig : FunctionSig) (types : List IrType) : Prop :=
  ∃ extra, types = sig.params ++ extra ∧ (sig.varargs = false → extra = []) ∧ ∀ type ∈ extra, type.PassedExtra

def IrModule.fields? (mod : IrModule) (layout : LayoutId) : Option (List IrType) :=
  (mod.structs[layout.index]?).map (·.fields)

def Callee.Typed (mod : IrModule) (V : ValueTyping) (sig : FunctionSig) : Callee → Prop
  | .direct id => ∃ function, mod.functions[id.index]? = some function ∧ function.sig = sig
  | .indirect value => V.typeOf value = some .ptr

/-- The typing rules: an operation gives a value of a type, or none. -/
def Operation.Typed (mod : IrModule) (V : ValueTyping) : Operation → Option IrType → Prop
  | .binary _ lhs rhs, result => V.typeOf lhs = result ∧ V.typeOf rhs = result ∧ result.isSome
  | .compare _ lhs rhs, result =>
    (∃ type, V.typeOf lhs = some type ∧ V.typeOf rhs = some type) ∧ result = some .bool
  | .unary _ operand, result => V.typeOf operand = result ∧ result.isSome
  | .cast kind value, result =>
    ∃ source target, V.typeOf value = some source ∧ result = some target ∧ kind.Converts source target
  | .call callee args sig, result => callee.Typed mod V sig ∧
    (∃ types, List.Forall₂ (fun arg type => V.typeOf arg = some type) args types ∧ sig.Accepts types) ∧
    result = if sig.result = .void then none else some sig.result
  | .alloca _, result => result = some .ptr
  | .load pointer, result => V.typeOf pointer = some .ptr ∧
    ∃ type, result = some type ∧ ∀ held, V.Holds pointer held → held = type
  | .store pointer value, result => V.typeOf pointer = some .ptr ∧ result = none ∧
    ∃ type, V.typeOf value = some type ∧ ∀ held, V.Holds pointer held → held = type
  | .fieldAddr base layout index, result => V.typeOf base = some .ptr ∧ result = some .ptr ∧
    ∃ fields, mod.fields? layout = some fields ∧ index < fields.length
  | .extractField aggregate index, result => ∃ layout fields,
    V.typeOf aggregate = some (.struct layout) ∧ mod.fields? layout = some fields ∧
      result = fields[index]? ∧ result.isSome
  | .makeAggregate layout values, result => result = some (.struct layout) ∧
    ∃ fields, mod.fields? layout = some fields ∧
      List.Forall₂ (fun value type => V.typeOf value = some type) values fields
  | .phi incoming, result => result.isSome ∧ ∀ arm ∈ incoming, V.typeOf arm.2 = result

/-- An instruction is typed, and its result has the type that the operation gives. -/
def Instruction.Typed (mod : IrModule) (V : ValueTyping) (inst : Instruction) : Prop :=
  ∃ type, inst.operation.Typed mod V type ∧ inst.result.map V.typeOf = type.map some

def Terminator.Typed (sig : FunctionSig) (V : ValueTyping) : Terminator → Prop
  | .jump _ | .unreachable => True
  | .branch condition _ _ => V.typeOf condition = some .bool
  | .ret none => sig.result = .void
  | .ret (some value) => V.typeOf value = some sig.result

namespace FunctionBody

def instructions (body : FunctionBody) : List Instruction := body.blocks.toList.flatMap (·.insts)

def typeOf? (body : FunctionBody) (value : ValueId) : Option IrType :=
  (body.values[value.index]?).map (·.type)

/-- A value is the address of a stack slot, a global or a field of a type. -/
inductive PointsTo (mod : IrModule) (body : FunctionBody) : ValueId → IrType → Prop
  | slot {type : IrType} {value : ValueId} :
    ⟨.alloca type, some value⟩ ∈ body.instructions → PointsTo mod body value type
  | global {id : GlobalId} {type : IrType} {value : ValueId} {global : IrGlobal} :
    body.values[value.index]? = some ⟨.global id, type⟩ → mod.globals[id.index]? = some global →
    PointsTo mod body value global.type
  | field {base value : ValueId} {layout : LayoutId} {index : Nat} {fields : List IrType} {type : IrType} :
    ⟨.fieldAddr base layout index, some value⟩ ∈ body.instructions → mod.fields? layout = some fields →
    fields[index]? = some type → PointsTo mod body value type

/-- What a body says about its values. -/
def typing (mod : IrModule) (body : FunctionBody) : ValueTyping := ⟨body.typeOf?, body.PointsTo mod⟩

/-- A body of a function of a signature is well typed in a module. -/
structure WellTyped (mod : IrModule) (sig : FunctionSig) (body : FunctionBody) : Prop where
  instructions : ∀ inst ∈ body.instructions, inst.Typed mod (body.typing mod)
  terminators : ∀ block ∈ body.blocks.toList, ∃ terminator, block.terminator = some terminator ∧
    terminator.Typed sig (body.typing mod)

end FunctionBody

/-! ## More is known -/

namespace ValueTyping

/-- The second knows the types of more values, and nothing new about what is at known addresses. -/
structure Le (V V' : ValueTyping) : Prop where
  typeOf : ∀ {value : ValueId} {type : IrType}, V.typeOf value = some type → V'.typeOf value = some type
  holds : ∀ {value : ValueId} {type held : IrType}, V.typeOf value = some type → V'.Holds value held →
    V.Holds value held

end ValueTyping

variable {mod : IrModule} {V V' : ValueTyping} {sig : FunctionSig}

theorem Callee.Typed.mono (hV : V.Le V') {callee : Callee} (h : callee.Typed mod V sig) : callee.Typed mod V' sig := by
  cases callee with
  | direct id => exact h
  | indirect value => exact hV.typeOf h

theorem Operation.Typed.mono (hV : V.Le V') {op : Operation} {result : Option IrType}
    (h : op.Typed mod V result) : op.Typed mod V' result := by
  have hsome : ∀ {value : ValueId}, result.isSome → V.typeOf value = result → V'.typeOf value = result := by
    intro value hr hv
    obtain ⟨type, rfl⟩ := Option.isSome_iff_exists.mp hr
    exact hV.typeOf hv
  cases op with
  | binary _ lhs rhs => exact ⟨hsome h.2.2 h.1, hsome h.2.2 h.2.1, h.2.2⟩
  | compare _ lhs rhs =>
    obtain ⟨⟨type, hl, hr⟩, rfl⟩ := h
    exact ⟨⟨type, hV.typeOf hl, hV.typeOf hr⟩, rfl⟩
  | unary _ operand => exact ⟨hsome h.2 h.1, h.2⟩
  | cast kind value =>
    obtain ⟨source, target, hv, rfl, hc⟩ := h
    exact ⟨source, target, hV.typeOf hv, rfl, hc⟩
  | call callee args sig =>
    obtain ⟨hc, ⟨types, ha, hs⟩, rfl⟩ := h
    exact ⟨hc.mono hV, ⟨types, ha.imp fun _ _ => hV.typeOf, hs⟩, rfl⟩
  | alloca type => exact h
  | load pointer =>
    obtain ⟨hp, type, rfl, hh⟩ := h
    exact ⟨hV.typeOf hp, type, rfl, fun held h' => hh held (hV.holds hp h')⟩
  | store pointer value =>
    obtain ⟨hp, rfl, type, hv, hh⟩ := h
    exact ⟨hV.typeOf hp, rfl, type, hV.typeOf hv, fun held h' => hh held (hV.holds hp h')⟩
  | fieldAddr base layout index => exact ⟨hV.typeOf h.1, h.2⟩
  | extractField aggregate index =>
    obtain ⟨layout, fields, ha, hf⟩ := h
    exact ⟨layout, fields, hV.typeOf ha, hf⟩
  | makeAggregate layout values =>
    obtain ⟨rfl, fields, hf, hv⟩ := h
    exact ⟨rfl, fields, hf, hv.imp fun _ _ => hV.typeOf⟩
  | phi incoming => exact ⟨h.1, fun arm ha => hsome h.1 (h.2 arm ha)⟩

theorem Instruction.Typed.mono (hV : V.Le V') {inst : Instruction} (h : inst.Typed mod V) : inst.Typed mod V' := by
  obtain ⟨type, ho, hr⟩ := h
  refine ⟨type, ho.mono hV, ?_⟩
  cases hi : inst.result with
  | none => simpa [hi] using hr
  | some value =>
    rw [hi] at hr
    cases type with
    | none => simp at hr
    | some type => simpa using hV.typeOf (Option.some.inj hr)

theorem Terminator.Typed.mono (hV : V.Le V') {t : Terminator} (h : t.Typed sig V) : t.Typed sig V' := by
  cases t with
  | jump | unreachable => trivial
  | branch condition => exact hV.typeOf h
  | ret value =>
    cases value with
    | none => exact h
    | some value => exact hV.typeOf h

end SsaCompiler
