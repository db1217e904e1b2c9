import SsaCompiler.Ir.Type

/-!
# Link symbols

A function is linked under a symbol made of its qualified name and its signature, a global under one
made of its name. What an assembler would not take is spelled out.
-/

namespace SsaCompiler

namespace LinkSymbol

/-- Spells out brackets, commas, colons and ellipses. -/
def escape : List Char → List Char
  | [] => []
  | '.' :: '.' :: '.' :: rest => "_va_".toList ++ escape rest
  | '(' :: rest => "_op_".toList ++ escape rest
  | ')' :: rest => "_cl_".toList ++ escape rest
  | ',' :: rest => "_sep_".toList ++ escape rest
  | ':' :: rest => '_' :: escape rest
  | c :: rest => c :: escape rest

def ofText (text : String) : String := String.ofList (escape ("acorn_coded::" ++ text).toList)

/-- The text of a type in a symbol; `structName` names the layouts known. -/
def typeText (structName : LayoutId → Option String) : IrType → String
  | .int bits => s!"i{bits}"
  | .float bits => s!"f{bits}"
  | .bool => "bool"
  | .ptr => "ptr"
  | .struct layout => (structName layout).getD s!"struct{layout.index}"
  | .void => "void"

def ofFunction (structName : LayoutId → Option String) (name : String) (sig : FunctionSig) :
    String :=
  let params := sig.params.map (typeText structName) ++ (if sig.varargs then ["..."] else [])
  ofText (name ++ "(" ++ ",".intercalate params ++ ")::" ++ typeText structName sig.result)

end LinkSymbol

end SsaCompiler
