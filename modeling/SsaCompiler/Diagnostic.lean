import SsaCompiler.Lowering.ItemMap

/-!
# Diagnostics

What is reported about a program: the kind of problem, where it is, and a hint if there is one.
-/

namespace SsaCompiler

structure Diagnostic where
  kind : DiagnosticKind
  /-- The unit it is in, unless it concerns the whole module. -/
  unit : Option String
  location : Option FileSpan
  message : String
  help : Option String
deriving DecidableEq, Repr

namespace Diagnostic

/-- The hint that names were suggested for. -/
def suggestionHelp : List String → Option String
  | [] => none
  | [only] => some s!"did you mean `{only}`?"
  | many => some ("did you mean one of " ++ ", ".intercalate (many.map fun name => s!"`{name}`") ++ "?")

def ofTypeError (unit : String) (error : TypeError) : Diagnostic :=
  let help := match error with
    | .unboundName _ _ suggestions => suggestionHelp suggestions
    | _ => error.help?
  ⟨error.kind, some unit, some error.span, error.message, help⟩

/-- The diagnostic of a problem of the whole module. Giving a function a body that may not have one
is a fault of the compiler. -/
def ofModuleError (error : ModuleError) : Except Fault Diagnostic :=
  match error with
  | .duplicate _ => .ok ⟨.duplicateDeclaration, none, none, error.message, none⟩
  | .incomplete _ => .ok ⟨.incompleteModule, none, none, error.message, none⟩
  | .alreadyDefined name => .error (.alreadyDefined name)
  | .externalDefined name => .error (.externalDefined name)

/-- The diagnostic of an item of a unit that could not be declared in the module. -/
def ofDeclareError (unit : String) (error : DeclareError) : Except Fault Diagnostic := do
  let diagnostic ← ofModuleError error.error
  return { diagnostic with unit := some unit, location := some error.span }

end Diagnostic

end SsaCompiler
