import SsaCompiler.Binary64

/-!
# Literals
-/

namespace SsaCompiler

/-- A literal as written. A number may carry the width of its type in bits. -/
inductive Literal where
  | int (value : Int) (bits : Option Nat)
  | float (value : Binary64) (bits : Option Nat)
  | bool (value : Bool)
  | unit
  | cString (text : String)
deriving DecidableEq, Repr

end SsaCompiler
