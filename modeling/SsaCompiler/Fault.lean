import SsaCompiler.Binding
import SsaCompiler.Ir.Type

/-!
# Faults

A fault is an internal failure: the compiler was asked for something that its own earlier work
rules out, or a body refers to a node that does not exist. It is not a diagnostic of the program
being compiled. Most faults carry a report; the others stop without one.
-/

namespace SsaCompiler

/-- An internal failure. -/
inductive Fault where
  | outOfRange
  /-- A chain of references never ends. -/
  | endless
  | leftUnitScope
  | clashingItems
  | appendedToTerminated
  | terminatedTwice
  | unterminatedBlock (block : BlockId)
  /-- An instruction that yields a value has no type. -/
  | voidValue
  | missingResult (function : BindingId)
  | untypedBinding (binding : BindingId)
  | unresolvedVariable (expr : Nat)
  | unresolvedField (expr : Nat)
  | unresolvedStructLiteral (expr : Nat)
  | unresolvedLet (stmt : Nat)
  /-- An expression without a value was used as one. -/
  | unitAsValue
  | noWidening (target : IrType)
  | continueOutsideLoop
  | breakOutsideLoop
  /-- A binding is neither local, function nor global. -/
  | valuelessBinding (binding : BindingId)
  | calledNonFunction
  | assignedNonVariable (binding : BindingId)
  /-- The address of a binding without a stack slot was taken. -/
  | addressOfRegister (binding : BindingId)
  | bindingNotAPlace (binding : BindingId)
  | exprNotAPlace (expr : Nat)
  | missingFieldValue
  /-- A stack slot differs between the branches of a join. -/
  | slotRebound (slot : ValueId) (type : IrType)
  /-- A binding without a value differs between the branches of a join. -/
  | unitRebound
  /-- A branch of a join that needs a value has none. -/
  | unitArm
  /-- A type that failed to check reached lowering. -/
  | errorType
  | missingLayout (struct : Nat)
  | missingBody (function : BindingId)
  | uncollectedFunction (function : BindingId)
  /-- A function to be lowered was never declared in the module. -/
  | missingSlot (function : BindingId)
  | structRejected (name : String)
  | alreadyDefined (name : String)
  | externalDefined (name : String)
deriving DecidableEq, Repr

namespace Fault

/-- What is wrong, for the faults that carry a report. -/
def detail? : Fault → Option String
  | outOfRange | endless | leftUnitScope | clashingItems | appendedToTerminated => none
  | terminatedTwice => some "block terminated twice"
  | unterminatedBlock block => some s!"block bb{block.index} has no terminator"
  | voidValue => some "value instruction with void type"
  | missingResult function => some s!"function {function.render} reaches its end without a value"
  | untypedBinding binding => some s!"binding {binding.render} has no type"
  | unresolvedVariable expr => some s!"unresolved variable at {expr}"
  | unresolvedField expr => some s!"unresolved field access at {expr}"
  | unresolvedStructLiteral expr => some s!"unresolved struct literal at {expr}"
  | unresolvedLet stmt => some s!"unresolved let at {stmt}"
  | unitAsValue => some "unit expression used as a value"
  | noWidening target => some s!"no widening to {target.describe}"
  | continueOutsideLoop => some "continue outside of a loop"
  | breakOutsideLoop => some "break outside of a loop"
  | valuelessBinding binding => some s!"binding {binding.render} has no value"
  | calledNonFunction => some "call through a non-function"
  | assignedNonVariable binding =>
    some s!"assignment to {binding.render}, which is not a variable"
  | addressOfRegister binding =>
    some s!"address of {binding.render}, which lives in a register"
  | bindingNotAPlace binding => some s!"{binding.render} is not a place"
  | exprNotAPlace expr => some s!"expression {expr} is not a place"
  | missingFieldValue => some "struct literal with a missing field"
  | slotRebound slot type =>
    some s!"Slot(Idx::<ValueData>({slot.index}), {type.describe}) rebound in a branch"
  | unitRebound => some "Unit rebound in a branch"
  | unitArm => some "unit arm in a valued join"
  | errorType => some "error type reached lowering"
  | missingLayout struct => some s!"struct#{struct} has no layout"
  | missingBody function => some s!"function {function.render} has no body"
  | uncollectedFunction function => some s!"function {function.render} was not collected"
  | missingSlot function => some s!"function {function.render} has no module slot"
  | structRejected name => some s!"collected struct rejected: `{name}` is declared more than once"
  | alreadyDefined name => some s!"function `{name}` already has a body"
  | externalDefined name => some s!"external function `{name}` cannot have a body"

/-- The report of a fault that carries one. -/
def message? (fault : Fault) : Option String := fault.detail?.map ("COMPILER BUG: " ++ ·)

end Fault

end SsaCompiler
