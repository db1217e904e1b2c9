import SsaCompiler.Syntax.Literal
import SsaCompiler.Ty
import SsaCompiler.TypeError

/-!
# Types of literals

An integer has 32 bits unless it says otherwise and has to fit its signed width; a float has 64.
-/

namespace SsaCompiler

def fitsSigned (value : Int) (bits : Nat) : Bool :=
  -(Nat.pow 2 (bits - 1) : Int) ≤ value ∧ value < (Nat.pow 2 (bits - 1) : Int)

def Literal.type (span : FileSpan) : Literal → Except TypeError Ty
  | .int value bits =>
    let bits := bits.getD 32
    if [8, 16, 32, 64].contains bits then
      if fitsSigned value bits then .ok (.int bits)
      else .error (.mismatch s!"an integer that fits i{bits}" (toString value) span)
    else .error (.mismatch "i8, i16, i32 or i64" s!"i{bits}" span)
  | .float _ bits =>
    let bits := bits.getD 64
    if [32, 64].contains bits then .ok (.float bits)
    else .error (.mismatch "f32 or f64" s!"f{bits}" span)
  | .bool _ => .ok .bool
  | .unit => .ok .unit
  | .cString _ => .ok Ty.cString

end SsaCompiler
