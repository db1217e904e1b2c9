import SsaCompiler.Checking.Check
import SsaCompiler.Proofs.Syntax.Tree

/-!
# The typing rules

What it means for the record of a checked function to type its body, said rule by rule and without
the checker: `TypingContext.Typed` holds of an expression at a point where some locals are visible
and some loops are around it. The rules speak of the type recorded for an expression (`typeOf`) and
of the type its value has where it is used (`usedType`), which differ where a widening is recorded.

The rules also say what the body asks of the storage of locals: one whose address is needed, or that
is assigned in a loop that its declaration is outside of, is kept in memory.
-/

namespace SsaCompiler

/-! ## Proper types -/

mutual
/-- A type without `error` in it, of a width the language has, over the first `structs` structs. -/
def Ty.Proper (structs : Nat) : Ty → Prop
  | .int bits => bits = 8 ∨ bits = 16 ∨ bits = 32 ∨ bits = 64
  | .float bits => bits = 32 ∨ bits = 64
  | .bool | .unit => True
  | .ptr pointee => pointee.Proper structs
  | .function params result _ => Ty.AllProper structs params ∧ result.Proper structs
  | .aggregate id => id.index < structs
  | .error => False

def Ty.AllProper (structs : Nat) : List Ty → Prop
  | [] => True
  | type :: rest => type.Proper structs ∧ Ty.AllProper structs rest
end

theorem Ty.allProper_iff {structs : Nat} {types : List Ty} :
    Ty.AllProper structs types ↔ ∀ type ∈ types, type.Proper structs := by
  induction types with
  | nil => simp [Ty.AllProper]
  | cons type rest ih => simp [Ty.AllProper, ih]

theorem Ty.isUnit_eq_true {type : Ty} : type.isUnit = true ↔ type = .unit := by cases type <;> simp [isUnit]

/-! ## Visible locals -/

/-- A local that is visible at a point of a body. -/
structure Local where
  name : String
  binding : BindingId
  depth : Nat
deriving DecidableEq, Repr

namespace Local

/-- The local that a name stands for: of those with the name, the one declared last. -/
def find? (name : String) : List Local → Option Local
  | [] => none
  | x :: rest =>
    match find? name rest with
    | some found => some found
    | none => if x.name = name then some x else none

variable {name : String}

theorem mem_of_find? {Γ : List Local} {x : Local} (h : find? name Γ = some x) : x ∈ Γ := by
  induction Γ with
  | nil => simp [find?] at h
  | cons y Γ ih =>
    simp only [find?] at h
    split at h
    · rename_i z hz
      exact List.mem_cons_of_mem _ (ih (hz.trans h))
    · split at h <;> simp_all

theorem find?_append {Γ Δ : List Local} : find? name (Γ ++ Δ) = (find? name Δ).or (find? name Γ) := by
  induction Γ with
  | nil => simp [find?]
  | cons x Γ ih =>
    simp only [List.cons_append, find?, ih]
    cases find? name Δ <;> rfl

end Local

/-- What a body is typed against. -/
structure TypingContext where
  decls : Declarations
  unitName : String
  function : CheckedFunction

namespace TypingContext

variable (C : TypingContext)

def typeOf (expr : Expr) : Ty := C.function.typeOf expr.id

/-- No conversion is recorded for an expression. -/
def Unconverted (expr : Expr) : Prop := C.function.coercions.get? expr.id = none

def usedType (expr : Expr) : Ty := (C.function.coercions.get? expr.id).getD (C.typeOf expr)

/-- An expression is used as a value of a type, and widened if its own type is a narrower one. -/
def UsedAs (expr : Expr) (type : Ty) : Prop :=
  C.usedType expr = type ∧ (C.Unconverted expr ∨ (C.typeOf expr).widensTo type = true)

/-- An expression is passed beyond the declared parameters, converted as that asks for. -/
def PassedExtra (expr : Expr) : Prop :=
  match C.function.coercions.get? expr.id with
  | none => Check.extraArgument? (C.typeOf expr) = none ∧ C.typeOf expr ≠ .unit
  | some type => Check.extraArgument? (C.typeOf expr) = some type

/-! ## Names -/

/-- The local that a name stands for; a qualified name stands for none. -/
def local? (Γ : List Local) (name : String) : Option Local :=
  if Name.isQualified name then none else Local.find? name Γ

theorem mem_of_local? {Γ : List Local} {name : String} {x : Local} (h : local? Γ name = some x) : x ∈ Γ := by
  unfold local? at h
  split at h <;> [cases h; exact Local.mem_of_find? h]

/-- The item that a name stands for, in the unit unless it is qualified. -/
def item? (name : String) : Option (Binding Ty) :=
  C.decls.index.lookup? (if Name.isQualified name then name else Name.path [C.unitName, name])

/-- A variable is recorded to stand for the local or item of its name, and has its type. -/
def VarTyped (Γ : List Local) (id : ExprId) (name : String) : Prop :=
  match local? Γ name with
  | some x =>
    C.function.refs.get? id = some x.binding ∧ C.function.localTypes.get? x.binding = some (C.function.typeOf id)
  | none =>
    ∃ item, C.item? name = some item ∧ C.function.refs.get? id = some item.id ∧ C.function.typeOf id = item.type

/-! ## Places -/

/-- An expression stands for memory. -/
def Stored (Γ : List Local) : Expr → Prop
  | .var _ _ name =>
    match local? Γ name with
    | some x => C.function.isMemoryResident x.binding = true
    | none => ∃ item, C.item? name = some item ∧ item.storage = .global
  | .field id _ base _ =>
    ∃ field, C.function.fields.get? id = some field ∧ (field.throughPointer = true ∨ Stored Γ base)
  | .unary _ _ .deref _ => True
  | _ => False

/-- An expression can be assigned to. A variable may be a local that is not in memory, if there is no
loop between it and the assignment. -/
def Assignable (Γ : List Local) (depth : Nat) : Expr → Prop
  | .var _ _ name =>
    match local? Γ name with
    | some x => x.depth < depth → C.function.isMemoryResident x.binding = true
    | none => ∃ item, C.item? name = some item ∧ item.storage = .global
  | expr => C.Stored Γ expr

/-! ## Rules for one node -/

def BinaryTyped (id : ExprId) (op : BinaryOp) (lhs rhs : Expr) : Prop :=
  if op.isLogical then C.UsedAs lhs .bool ∧ C.UsedAs rhs .bool ∧ C.function.typeOf id = .bool
  else ∃ type, C.UsedAs lhs type ∧ C.UsedAs rhs type ∧ (type = C.typeOf lhs ∨ type = C.typeOf rhs) ∧
    if op.isArithmetic then type.isNumeric = true ∧ C.function.typeOf id = type
    else if op.isBitwise then type.isInt = true ∧ C.function.typeOf id = type
    else (if op = .eq ∨ op = .ne then Check.isEquatable type = true else type.isNumeric = true) ∧
      C.function.typeOf id = .bool

def UnaryTyped (Γ : List Local) (id : ExprId) (op : UnaryOp) (operand : Expr) : Prop :=
  C.Unconverted operand ∧
    match op with
    | .neg => (C.typeOf operand).isNumeric = true ∧ C.function.typeOf id = C.typeOf operand
    | .not => ((C.typeOf operand).isInt = true ∨ C.typeOf operand = .bool) ∧
        C.function.typeOf id = C.typeOf operand
    | .deref => C.typeOf operand = .ptr (C.function.typeOf id)
    | .addrOf => C.Stored Γ operand ∧ C.typeOf operand ≠ .unit ∧
        C.function.typeOf id = .ptr (C.typeOf operand)

/-- Arguments are used as the parameters they are passed for; more of them need `varargs`. -/
def ArgsTyped (varargs : Bool) : List Expr → List Ty → Prop
  | [], params => params = []
  | arg :: rest, param :: params => C.UsedAs arg param ∧ ArgsTyped varargs rest params
  | arg :: rest, [] => varargs = true ∧ C.PassedExtra arg ∧ ArgsTyped varargs rest []

def CallTyped (id : ExprId) (callee : Expr) (args : List Expr) : Prop :=
  C.Unconverted callee ∧ ∃ params varargs,
    C.typeOf callee = .function params (C.function.typeOf id) varargs ∧ C.ArgsTyped varargs args params

def FieldTyped (id : ExprId) (base : Expr) : Prop :=
  C.Unconverted base ∧ ∃ ref struct field, C.function.fields.get? id = some ref ∧
    C.typeOf base = (if ref.throughPointer then .ptr (.aggregate ref.struct) else .aggregate ref.struct) ∧
    C.decls.struct? ref.struct = some struct ∧ struct.fields[ref.index]? = some field ∧
    C.function.typeOf id = field.type

/-- The rule of a struct literal: each field has one initializer, used as a value of its type. -/
def LiteralTyped (id : ExprId) (inits : List Init) : Prop :=
  ∃ ref struct, C.function.structLiterals.get? id = some ref ∧
    C.decls.struct? ref.struct = some struct ∧ C.function.typeOf id = .aggregate ref.struct ∧
    ref.positions.Nodup ∧ ref.positions.length = struct.fields.length ∧
    List.Forall₂ (fun init position => ∃ field, struct.fields[position]? = some field ∧
      C.UsedAs init.value field.type) inits ref.positions

/-- The rule of a branch of an `if` of a type: control never leaves it, or it has that type. -/
def BranchTyped (type : Ty) (branch : Expr) : Prop :=
  C.UsedAs branch type ∨ (branch.diverges = true ∧ C.Unconverted branch)

/-- The rule of a `let`: its binding is a new one, with a proper type. -/
def LetTyped (Γ : List Local) (id : StmtId) (init : Option Expr) : Prop :=
  ∃ unit index type, C.function.lets.get? id = some (.local unit index) ∧ (∀ x ∈ Γ, x.binding ≠ .local unit index) ∧
    C.function.localTypes.get? (.local unit index) = some type ∧
    type.Proper C.decls.structs.size ∧ ∀ expr ∈ init, C.UsedAs expr type

/-- The locals that a statement declares for those after it. -/
def declared (depth : Nat) : Stmt → List Local
  | .bind id _ name _ _ => (C.function.lets.get? id).toList.map (⟨name, ·, depth⟩)
  | .eval .. | .ret .. => []

def declaredAll (depth : Nat) (stmts : List Stmt) : List Local := stmts.flatMap (C.declared depth)

/-! ## Rules for bodies -/

mutual
/-- An expression is typed where the locals `Γ` are visible and `depth` loops are around it. -/
def Typed (C : TypingContext) : List Local → Nat → Expr → Prop
  | _, _, .literal id span value => value.type span = .ok (C.function.typeOf id)
  | Γ, _, .var id _ name => C.VarTyped Γ id name
  | Γ, depth, .binary id _ op lhs rhs =>
    Typed C Γ depth lhs ∧ Typed C Γ depth rhs ∧ C.BinaryTyped id op lhs rhs
  | Γ, depth, .unary id _ op operand => Typed C Γ depth operand ∧ C.UnaryTyped Γ id op operand
  | Γ, depth, .call id _ callee args =>
    Typed C Γ depth callee ∧ AllTyped C Γ depth args ∧ C.CallTyped id callee args
  | Γ, depth, .assign id _ target value =>
    Typed C Γ depth target ∧ Typed C Γ depth value ∧ C.Unconverted target ∧
      C.Assignable Γ depth target ∧ C.UsedAs value (C.typeOf target) ∧
      C.function.typeOf id = C.typeOf target
  | Γ, depth, .cond id _ condition thenBranch none =>
    Typed C Γ depth condition ∧ Typed C Γ depth thenBranch ∧ C.UsedAs condition .bool ∧
      C.Unconverted thenBranch ∧ C.function.typeOf id = .unit
  | Γ, depth, .cond id _ condition thenBranch (some elseBranch) =>
    Typed C Γ depth condition ∧ Typed C Γ depth thenBranch ∧ Typed C Γ depth elseBranch ∧
      C.UsedAs condition .bool ∧ C.BranchTyped (C.function.typeOf id) thenBranch ∧
      C.BranchTyped (C.function.typeOf id) elseBranch ∧
      (thenBranch.diverges = true → elseBranch.diverges = true → C.function.typeOf id = .unit)
  | Γ, depth, .loop id _ condition body =>
    Typed C Γ (depth + 1) condition ∧ Typed C Γ (depth + 1) body ∧ C.UsedAs condition .bool ∧
      C.Unconverted body ∧ C.function.typeOf id = .unit ∧
      C.function.infiniteLoops.contains id = condition.isTrue
  | Γ, depth, .block id _ stmts none =>
    StmtsTyped C Γ depth stmts ∧ C.function.typeOf id = .unit
  | Γ, depth, .block id _ stmts (some tail) =>
    StmtsTyped C Γ depth stmts ∧ Typed C (Γ ++ C.declaredAll depth stmts) depth tail ∧
      C.Unconverted tail ∧ C.function.typeOf id = C.typeOf tail
  | Γ, depth, .field id _ base _ => Typed C Γ depth base ∧ C.FieldTyped id base
  | Γ, depth, .structLiteral id _ _ fields =>
    InitsTyped C Γ depth fields ∧ C.LiteralTyped id fields
  | _, depth, .breakLoop id _ => 0 < depth ∧ C.function.typeOf id = .unit
  | _, depth, .continueLoop id _ => 0 < depth ∧ C.function.typeOf id = .unit

def AllTyped (C : TypingContext) : List Local → Nat → List Expr → Prop
  | _, _, [] => True
  | Γ, depth, expr :: rest => Typed C Γ depth expr ∧ AllTyped C Γ depth rest

def InitsTyped (C : TypingContext) : List Local → Nat → List Init → Prop
  | _, _, [] => True
  | Γ, depth, .mk _ _ value :: rest => Typed C Γ depth value ∧ InitsTyped C Γ depth rest

def StmtTyped (C : TypingContext) : List Local → Nat → Stmt → Prop
  | Γ, _, .bind id _ _ _ none => C.LetTyped Γ id none
  | Γ, depth, .bind id _ _ _ (some init) => Typed C Γ depth init ∧ C.LetTyped Γ id (some init)
  | Γ, depth, .eval _ _ expr => Typed C Γ depth expr ∧ C.Unconverted expr
  | _, _, .ret _ _ none => C.function.result = .unit
  | Γ, depth, .ret _ _ (some value) => Typed C Γ depth value ∧ C.UsedAs value C.function.result

def StmtsTyped (C : TypingContext) : List Local → Nat → List Stmt → Prop
  | _, _, [] => True
  | Γ, depth, stmt :: rest =>
    StmtTyped C Γ depth stmt ∧ StmtsTyped C (Γ ++ C.declared depth stmt) depth rest
end

/-- Every expression of a tree has a proper type. -/
def ProperIn (nodes : List Node) : Prop :=
  ∀ id, .expr id ∈ nodes → (C.function.typeOf id).Proper C.decls.structs.size

/-- The parameters of a function as locals, under the names they are declared with. -/
def params (decl : FunctionDecl) : List Local :=
  List.zipWith (fun param binding => ⟨param.name, binding, 0⟩) decl.params C.function.params

/-- The rule of a function with a body: the body has the declared result type, unless control never
gets to its end. -/
structure FunctionTyped (item : FunctionItem) (decl : FunctionDecl) (root : Expr) : Prop where
  binding : C.function.binding = item.binding
  itemIndex : C.function.itemIndex = item.itemIndex
  result : C.function.result = item.result
  arity : C.function.params.length = decl.params.length
  distinct : C.function.params.Nodup
  paramTypes : List.Forall₂ (fun binding type => (∃ unit index, binding = .local unit index) ∧
    C.function.localTypes.get? binding = some type) C.function.params item.params
  proper : C.ProperIn root.nodes
  body : C.Typed (C.params decl) 0 root
  returned : C.BranchTyped item.result root

end TypingContext

end SsaCompiler
