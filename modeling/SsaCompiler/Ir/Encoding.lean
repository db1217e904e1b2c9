import SsaCompiler.Ir.Module
import SsaCompiler.Json.Record

/-!
# The JSON form of types and constants

A type without a width is its name; any other value is an object whose one member names its kind.
-/

namespace SsaCompiler

def IrType.toJson : IrType → Json
  | .int bits => .object [("Int", .nat bits)]
  | .float bits => .object [("Float", .nat bits)]
  | .bool => .string "Bool"
  | .ptr => .string "Ptr"
  | .struct layout => .object [("Struct", .nat layout.index)]
  | .void => .string "Void"

def IrType.ofJson? (json : Json) : Option IrType := do
  match ← json.variant? with
  | ("Int", some bits) => return .int (← bits.unsigned? 8)
  | ("Float", some bits) => return .float (← bits.unsigned? 8)
  | ("Struct", some layout) => return .struct ⟨← layout.unsigned? 32⟩
  | ("Bool", _) => return .bool
  | ("Ptr", _) => return .ptr
  | ("Void", _) => return .void
  | _ => none

def FunctionSig.toJson (sig : FunctionSig) : Json :=
  .object [("params", .list IrType.toJson sig.params), ("ret", sig.result.toJson),
    ("varargs", .bool sig.varargs)]

def FunctionSig.ofJson? (json : Json) : Option FunctionSig := do
  let record ← json.record? ["params", "ret", "varargs"]
  let params ← record.required "params" (Json.list? IrType.ofJson?)
  let result ← record.required "ret" IrType.ofJson?
  let varargs ← record.required "varargs" Json.bool?
  return ⟨params, result, varargs⟩

/-- The JSON form of a constant; how a float is written is left to the caller. -/
def Constant.toJson (float : Binary64 → Json) : Constant → Json
  | .int value => .object [("Int", .int value)]
  | .float value => .object [("Float", float value)]
  | .bool value => .object [("Bool", .bool value)]
  | .zero => .string "Zero"

def Constant.ofJson? (json : Json) : Option Constant := do
  match ← json.variant? with
  | ("Int", some value) => return .int (← value.int64?)
  | ("Float", some value) => return .float (← value.binary64?)
  | ("Bool", some value) => return .bool (← value.bool?)
  | ("Zero", _) => return .zero
  | _ => none

def GlobalInit.ofJson? (json : Json) : Option GlobalInit := do
  match ← json.variant? with
  | ("Zero", _) => return .zero
  | ("Const", some constant) => return .const (← Constant.ofJson? constant)
  | ("CString", some text) => return .cString (← text.string?)
  | _ => none

end SsaCompiler
