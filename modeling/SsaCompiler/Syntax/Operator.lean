/-!
# Operators

The binary operators fall into four classes, and each operator is in exactly one of them.
-/

namespace SsaCompiler

inductive BinaryOp where
  | add | sub | mul | div | rem
  | eq | ne | lt | le | gt | ge
  | and | or
  | bitAnd | bitOr | bitXor | shl | shr
deriving DecidableEq, Repr

namespace BinaryOp

def all : List BinaryOp :=
  [.add, .sub, .mul, .div, .rem, .eq, .ne, .lt, .le, .gt, .ge, .and, .or,
    .bitAnd, .bitOr, .bitXor, .shl, .shr]

def name : BinaryOp → String
  | add => "Add" | sub => "Sub" | mul => "Mul" | div => "Div" | rem => "Rem"
  | eq => "Eq" | ne => "Ne" | lt => "Lt" | le => "Le" | gt => "Gt" | ge => "Ge"
  | and => "And" | or => "Or"
  | bitAnd => "BitAnd" | bitOr => "BitOr" | bitXor => "BitXor" | shl => "Shl" | shr => "Shr"

def symbol : BinaryOp → String
  | add => "+" | sub => "-" | mul => "*" | div => "/" | rem => "%"
  | eq => "==" | ne => "!=" | lt => "<" | le => "<=" | gt => ">" | ge => ">="
  | and => "&&" | or => "||"
  | bitAnd => "&" | bitOr => "|" | bitXor => "^" | shl => "<<" | shr => ">>"

def ofName? (text : String) : Option BinaryOp := all.find? (·.name = text)

def ofSymbol? (text : String) : Option BinaryOp := all.find? (·.symbol = text)

/-- `+ - * / %`: numbers to a number. -/
def isArithmetic : BinaryOp → Bool
  | add | sub | mul | div | rem => true
  | _ => false

/-- `== != < <= > >=`: two operands of one type to a truth value. -/
def isComparison : BinaryOp → Bool
  | eq | ne | lt | le | gt | ge => true
  | _ => false

/-- `&& ||`: the right operand is evaluated only if it decides the result. -/
def isLogical : BinaryOp → Bool
  | and | or => true
  | _ => false

/-- `& | ^ << >>`: integers to an integer. -/
def isBitwise : BinaryOp → Bool
  | bitAnd | bitOr | bitXor | shl | shr => true
  | _ => false

end BinaryOp

inductive UnaryOp where
  | neg | not | addrOf | deref
deriving DecidableEq, Repr

namespace UnaryOp

def all : List UnaryOp := [.neg, .not, .addrOf, .deref]

def name : UnaryOp → String
  | neg => "Neg" | not => "Not" | addrOf => "AddrOf" | deref => "Deref"

def symbol : UnaryOp → String
  | neg => "-" | not => "!" | addrOf => "&" | deref => "*"

def ofName? (text : String) : Option UnaryOp := all.find? (·.name = text)

def ofSymbol? (text : String) : Option UnaryOp := all.find? (·.symbol = text)

end UnaryOp

end SsaCompiler
