import SsaCompiler.Syntax.Body

/-!
# Units

A unit is one source file: a name, which is the first segment of the qualified names of its items,
and the items in the order written.
-/

namespace SsaCompiler

structure Param where
  name : String
  type : TypeExpr
  span : FileSpan
deriving Repr

inductive Attribute where
  /-- Calls may pass more arguments than there are parameters. -/
  | varargs
  /-- The function is linked under this symbol. -/
  | mangleAs (symbol : String)
deriving DecidableEq, Repr

/-- A function: a definition if it has a body, else a declaration of a function defined elsewhere. -/
structure FunctionDecl where
  name : String
  params : List Param
  /-- The declared result type; a function without one gives back nothing. -/
  result : Option TypeExpr
  body : Option Body
  attributes : List Attribute
  span : FileSpan
deriving Repr

namespace FunctionDecl

def isExternal (decl : FunctionDecl) : Bool := decl.body.isNone

def isVarargs (decl : FunctionDecl) : Bool := decl.attributes.contains .varargs

/-- The link symbol asked for: that of the first attribute that names one. -/
def linkName? (decl : FunctionDecl) : Option String :=
  decl.attributes.findSome? fun
    | .mangleAs symbol => some symbol
    | .varargs => none

end FunctionDecl

/-- A global variable. Without an initializer it starts as zero. -/
structure GlobalDecl where
  name : String
  type : TypeExpr
  init : Option Literal
  span : FileSpan
deriving Repr

structure FieldDecl where
  name : String
  type : TypeExpr
  span : FileSpan
deriving Repr

structure StructDecl where
  name : String
  fields : List FieldDecl
  span : FileSpan
deriving Repr

structure AliasDecl where
  name : String
  type : TypeExpr
  span : FileSpan
deriving Repr

inductive Item where
  | function (decl : FunctionDecl)
  | global (decl : GlobalDecl)
  | struct (decl : StructDecl)
  | typeAlias (decl : AliasDecl)
deriving Repr

namespace Item

def name : Item → String
  | function decl => decl.name
  | global decl => decl.name
  | struct decl => decl.name
  | typeAlias decl => decl.name

def span : Item → FileSpan
  | function decl => decl.span
  | global decl => decl.span
  | struct decl => decl.span
  | typeAlias decl => decl.span

end Item

structure SourceUnit where
  name : String
  file : FileId
  /-- The path of the source text, where diagnostics find it. -/
  path : Option String
  items : List Item
deriving Repr

namespace SourceUnit

/-- The functions of a unit, each with its position among the items. -/
def functions (unit : SourceUnit) : List (Nat × FunctionDecl) :=
  unit.items.zipIdx.filterMap fun
    | (.function decl, index) => some (index, decl)
    | _ => none

end SourceUnit

end SsaCompiler
