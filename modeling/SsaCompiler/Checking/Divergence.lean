import SsaCompiler.Syntax.Expr

/-!
# Divergence

Whether control ever goes on after an expression, decided from its text: a `return`, `break` or
`continue` never lets it, an `if` does unless both branches refuse, and a `while` refuses only if its
condition is the literal `true` or diverges and no `break` leaves it. A `break` belongs to the
innermost loop around it, whose condition is part of the loop.
-/

namespace SsaCompiler

mutual
/-- Whether a `break` in an expression leaves the loop around the expression. -/
def Expr.breaks : Expr → Bool
  | .literal .. | .var .. | .loop .. | .continueLoop .. => false
  | .breakLoop .. => true
  | .binary _ _ _ lhs rhs => lhs.breaks || rhs.breaks
  | .unary _ _ _ operand => operand.breaks
  | .call _ _ callee args => callee.breaks || Expr.anyBreaks args
  | .assign _ _ target value => target.breaks || value.breaks
  | .cond _ _ condition thenBranch none => condition.breaks || thenBranch.breaks
  | .cond _ _ condition thenBranch (some elseBranch) =>
    condition.breaks || thenBranch.breaks || elseBranch.breaks
  | .block _ _ stmts none => Stmt.anyBreaks stmts
  | .block _ _ stmts (some tail) => Stmt.anyBreaks stmts || tail.breaks
  | .field _ _ base _ => base.breaks
  | .structLiteral _ _ _ fields => Init.anyBreaks fields

def Expr.anyBreaks : List Expr → Bool
  | [] => false
  | expr :: rest => expr.breaks || Expr.anyBreaks rest

def Stmt.breaks : Stmt → Bool
  | .bind _ _ _ _ none | .ret _ _ none => false
  | .bind _ _ _ _ (some init) => init.breaks
  | .eval _ _ expr => expr.breaks
  | .ret _ _ (some value) => value.breaks

def Stmt.anyBreaks : List Stmt → Bool
  | [] => false
  | stmt :: rest => stmt.breaks || Stmt.anyBreaks rest

def Init.breaks : Init → Bool
  | .mk _ _ value => value.breaks

def Init.anyBreaks : List Init → Bool
  | [] => false
  | init :: rest => init.breaks || Init.anyBreaks rest
end

mutual
/-- Whether control never goes on after an expression. -/
def Expr.diverges : Expr → Bool
  | .literal .. | .var .. => false
  | .binary _ _ op lhs rhs => lhs.diverges || (!op.isLogical && rhs.diverges)
  | .unary _ _ _ operand => operand.diverges
  | .call _ _ callee args => callee.diverges || Expr.anyDiverges args
  | .assign _ _ target value => target.diverges || value.diverges
  | .cond _ _ condition _ none => condition.diverges
  | .cond _ _ condition thenBranch (some elseBranch) =>
    condition.diverges || (thenBranch.diverges && elseBranch.diverges)
  | .loop _ _ condition body =>
    (condition.isTrue || condition.diverges) && !(condition.breaks || body.breaks)
  | .block _ _ stmts none => Stmt.anyDiverges stmts
  | .block _ _ stmts (some tail) => Stmt.anyDiverges stmts || tail.diverges
  | .field _ _ base _ => base.diverges
  | .structLiteral _ _ _ fields => Init.anyDiverges fields
  | .breakLoop .. | .continueLoop .. => true

def Expr.anyDiverges : List Expr → Bool
  | [] => false
  | expr :: rest => expr.diverges || Expr.anyDiverges rest

def Stmt.diverges : Stmt → Bool
  | .bind _ _ _ _ none => false
  | .bind _ _ _ _ (some init) => init.diverges
  | .eval _ _ expr => expr.diverges
  | .ret .. => true

def Stmt.anyDiverges : List Stmt → Bool
  | [] => false
  | stmt :: rest => stmt.diverges || Stmt.anyDiverges rest

def Init.diverges : Init → Bool
  | .mk _ _ value => value.diverges

def Init.anyDiverges : List Init → Bool
  | [] => false
  | init :: rest => init.diverges || Init.anyDiverges rest
end

end SsaCompiler
