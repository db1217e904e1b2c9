import SsaCompiler.Proofs.Syntax.Tree

/-!
# The parts of a body and where they stand

`Expr.parts` lists the expressions and statements of a body, each with its site: the blocks around it,
with the statements of each block that come before it, and the number of loops around it. A `let` is
one of the statements before what follows it in its block, but not before its own initial value.

The names that a site can refer to are read off it (`Site.let?`): the last `let` of the name in the
innermost block that has one before the site.
-/

namespace SsaCompiler

open List

/-- A block around a point of a body, as it is seen from there. -/
structure EnclosingBlock where
  loops : Nat
  before : List Stmt

/-- Where a part of a body stands. -/
structure Site where
  blocks : List EnclosingBlock
  /-- The number of loops around it. The condition of a loop is inside the loop. -/
  loops : Nat

/-- An expression or a statement. -/
inductive Part where
  | expr (expr : Expr)
  | stmt (stmt : Stmt)

namespace Site

def top : Site := ⟨[], 0⟩

/-- Inside a loop that stands at a site. -/
def inLoop (site : Site) : Site := { site with loops := site.loops + 1 }

/-- Inside a block that stands at a site, after some of its statements. -/
def inBlock (site : Site) (before : List Stmt) : Site :=
  { site with blocks := ⟨site.loops, before⟩ :: site.blocks }

end Site

mutual
def Expr.parts (site : Site) : Expr → List (Site × Part)
  | expr@(.literal ..) | expr@(.var ..) | expr@(.breakLoop ..) | expr@(.continueLoop ..) =>
    [(site, .expr expr)]
  | expr@(.binary _ _ _ lhs rhs) => (site, .expr expr) :: (lhs.parts site ++ rhs.parts site)
  | expr@(.unary _ _ _ operand) => (site, .expr expr) :: operand.parts site
  | expr@(.call _ _ callee args) => (site, .expr expr) :: (callee.parts site ++ Expr.allParts site args)
  | expr@(.assign _ _ target value) => (site, .expr expr) :: (target.parts site ++ value.parts site)
  | expr@(.cond _ _ condition thenBranch none) =>
    (site, .expr expr) :: (condition.parts site ++ thenBranch.parts site)
  | expr@(.cond _ _ condition thenBranch (some elseBranch)) =>
    (site, .expr expr) :: (condition.parts site ++ (thenBranch.parts site ++ elseBranch.parts site))
  | expr@(.loop _ _ condition body) =>
    (site, .expr expr) :: (condition.parts site.inLoop ++ body.parts site.inLoop)
  | expr@(.block _ _ stmts none) => (site, .expr expr) :: Stmt.allParts site [] stmts
  | expr@(.block _ _ stmts (some tail)) =>
    (site, .expr expr) :: (Stmt.allParts site [] stmts ++ tail.parts (site.inBlock stmts))
  | expr@(.field _ _ base _) => (site, .expr expr) :: base.parts site
  | expr@(.structLiteral _ _ _ fields) => (site, .expr expr) :: Init.allParts site fields

def Expr.allParts (site : Site) : List Expr → List (Site × Part)
  | [] => []
  | expr :: rest => expr.parts site ++ Expr.allParts site rest

/-- A statement and its parts. -/
def Stmt.parts (site : Site) : Stmt → List (Site × Part)
  | stmt@(.bind _ _ _ _ none) | stmt@(.ret _ _ none) => [(site, .stmt stmt)]
  | stmt@(.bind _ _ _ _ (some init)) => (site, .stmt stmt) :: init.parts site
  | stmt@(.eval _ _ expr) => (site, .stmt stmt) :: expr.parts site
  | stmt@(.ret _ _ (some value)) => (site, .stmt stmt) :: value.parts site

def Stmt.allParts (site : Site) : List Stmt → List Stmt → List (Site × Part)
  | _, [] => []
  | before, stmt :: rest =>
    stmt.parts (site.inBlock before) ++ Stmt.allParts site (before ++ [stmt]) rest

def Init.allParts (site : Site) : List Init → List (Site × Part)
  | [] => []
  | .mk _ _ value :: rest => value.parts site ++ Init.allParts site rest
end

variable {site : Site}

theorem Stmt.mem_parts {stmt : Stmt} : (site, .stmt stmt) ∈ stmt.parts site := by
  cases stmt with
  | bind id span name type init => cases init <;> simp [Stmt.parts]
  | ret id span value => cases value <;> simp [Stmt.parts]
  | eval => simp [Stmt.parts]

/-! ## What comes before a part -/

/-- A statement that comes before a point in a block around it is one of the parts in a list. -/
def EnclosingBlock.Listed (parts : List (Site × Part)) (block : EnclosingBlock) : Prop :=
  ∀ stmt ∈ block.before, ∃ p ∈ parts, p.2 = .stmt stmt ∧ p.1.loops = block.loops

variable {block : EnclosingBlock}

theorem EnclosingBlock.Listed.push {parts : List (Site × Part)} {before : List Stmt} {stmt : Stmt}
    (h : EnclosingBlock.Listed parts ⟨site.loops, before⟩) (hs : stmt.parts (site.inBlock before) ⊆ parts) :
    EnclosingBlock.Listed parts ⟨site.loops, before ++ [stmt]⟩ := by
  intro s hm
  rcases mem_append.mp hm with hm | hm
  · exact h s hm
  · obtain rfl := mem_singleton.mp hm
    exact ⟨_, hs Stmt.mem_parts, rfl, rfl⟩

/-- The blocks around a part are around all parts, or what comes before the part in them is in every
list that has the parts. -/
def Site.Encloses (site : Site) (parts parts' : List (Site × Part)) : Prop :=
  parts ⊆ parts' → ∀ p ∈ parts, ∀ block ∈ p.1.blocks, block ∈ site.blocks ∨ block.Listed parts'

namespace Site.Encloses

variable {site : Site} {parts parts1 parts2 parts' : List (Site × Part)}

theorem nil : site.Encloses [] parts' := fun _ _ h => absurd h not_mem_nil

theorem cons {part : Part} (h : site.Encloses parts parts') : site.Encloses ((site, part) :: parts) parts' := by
  intro hs p hp block hblock
  rcases mem_cons.mp hp with rfl | hp
  · exact .inl hblock
  · exact h (cons_subset.mp hs).2 p hp block hblock

theorem append (h1 : site.Encloses parts1 parts') (h2 : site.Encloses parts2 parts') :
    site.Encloses (parts1 ++ parts2) parts' := by
  intro hs p hp
  obtain ⟨hs1, hs2⟩ := append_subset.mp hs
  exact (mem_append.mp hp).elim (h1 hs1 p) (h2 hs2 p)

theorem inLoop (h : site.inLoop.Encloses parts parts') : site.Encloses parts parts' := h

theorem inBlock {before : List Stmt} (h : (site.inBlock before).Encloses parts parts')
    (hb : EnclosingBlock.Listed parts' ⟨site.loops, before⟩) : site.Encloses parts parts' := by
  intro hs p hp block hblock
  rcases h hs p hp block hblock with hin | hin
  · exact (mem_cons.mp hin).elim (fun he => .inr (he ▸ hb)) .inl
  · exact .inr hin

end Site.Encloses

theorem EnclosingBlock.listed_nil {parts : List (Site × Part)} {loops : Nat} : EnclosingBlock.Listed parts ⟨loops, []⟩ :=
  fun _ h => absurd h not_mem_nil

theorem EnclosingBlock.listed_allParts : ∀ {stmts before : List Stmt}
    {parts : List (Site × Part)}, EnclosingBlock.Listed parts ⟨site.loops, before⟩ →
    Stmt.allParts site before stmts ⊆ parts → EnclosingBlock.Listed parts ⟨site.loops, before ++ stmts⟩
  | [], before, _, hb, _ => by simpa using hb
  | stmt :: rest, before, parts, hb, hs => by
    obtain ⟨hstmt, hrest⟩ := append_subset.mp hs
    simpa using listed_allParts (hb.push hstmt) hrest

mutual
theorem Expr.encloses_parts : ∀ (expr : Expr) (site : Site) {parts : List (Site × Part)},
    site.Encloses (expr.parts site) parts
  | .literal .., _, _ | .var .., _, _ | .breakLoop .., _, _ | .continueLoop .., _, _ => .cons .nil
  | .binary _ _ _ e e', site, _ | .assign _ _ e e', site, _ | .cond _ _ e e' none, site, _ =>
    .cons (.append (e.encloses_parts site) (e'.encloses_parts site))
  | .unary _ _ _ e, site, _ | .field _ _ e _, site, _ => .cons (e.encloses_parts site)
  | .call _ _ callee args, site, _ =>
    .cons (.append (callee.encloses_parts site) (Expr.encloses_allParts args site))
  | .cond _ _ condition thenBranch (some elseBranch), site, _ =>
    .cons (.append (condition.encloses_parts site)
      (.append (thenBranch.encloses_parts site) (elseBranch.encloses_parts site)))
  | .loop _ _ condition body, site, _ =>
    .cons (.append (condition.encloses_parts site.inLoop).inLoop (body.encloses_parts site.inLoop).inLoop)
  | .block _ _ stmts none, site, _ => by
    exact .cons (Stmt.encloses_allParts stmts [] site EnclosingBlock.listed_nil)
  | .block _ _ stmts (some tail), site, _ => by
    refine .cons fun hs => ?_
    have hall := EnclosingBlock.listed_allParts EnclosingBlock.listed_nil (append_subset.mp hs).1
    exact Site.Encloses.append (Stmt.encloses_allParts stmts [] site EnclosingBlock.listed_nil)
      (.inBlock (tail.encloses_parts _) hall) hs
  | .structLiteral _ _ _ fields, site, _ => .cons (Init.encloses_allParts fields site)

theorem Expr.encloses_allParts : ∀ (exprs : List Expr) (site : Site) {parts : List (Site × Part)},
    site.Encloses (Expr.allParts site exprs) parts
  | [], _, _ => .nil
  | expr :: rest, site, _ => .append (expr.encloses_parts site) (Expr.encloses_allParts rest site)

theorem Stmt.encloses_parts : ∀ (stmt : Stmt) (site : Site) {parts : List (Site × Part)},
    site.Encloses (stmt.parts site) parts
  | .bind _ _ _ _ none, _, _ | .ret _ _ none, _, _ => .cons .nil
  | .bind _ _ _ _ (some e), site, _ | .eval _ _ e, site, _ | .ret _ _ (some e), site, _ => .cons (e.encloses_parts site)

theorem Stmt.encloses_allParts : ∀ (stmts before : List Stmt) (site : Site) {parts : List (Site × Part)},
    EnclosingBlock.Listed parts ⟨site.loops, before⟩ → site.Encloses (Stmt.allParts site before stmts) parts
  | [], _, _, _, _ => by rw [Stmt.allParts]; exact .nil
  | stmt :: rest, before, site, _, hb => fun hs => by
    have hnext := hb.push (append_subset.mp hs).1
    exact Site.Encloses.append (.inBlock (stmt.encloses_parts _) hb) (Stmt.encloses_allParts rest _ site hnext) hs

theorem Init.encloses_allParts : ∀ (inits : List Init) (site : Site) {parts : List (Site × Part)},
    site.Encloses (Init.allParts site inits) parts
  | [], _, _ => .nil
  | .mk _ _ value :: rest, site, _ => .append (value.encloses_parts site) (Init.encloses_allParts rest site)
end

/-- What comes before a part in a block around it is a part itself. -/
theorem Expr.listed_of_mem_parts {root : Expr} {p : Site × Part} (hp : p ∈ root.parts .top)
    (hb : block ∈ p.1.blocks) : block.Listed (root.parts .top) :=
  (root.encloses_parts .top (Subset.refl _) p hp block hb).resolve_left not_mem_nil

/-! ## Names -/

/-- Whether a statement is a `let` of a name. -/
def Stmt.binds (name : String) : Stmt → Bool
  | .bind _ _ bound _ _ => bound = name
  | .eval .. | .ret .. => false

/-- The last `let` of a name before a point in a block around it. -/
def EnclosingBlock.let? (name : String) (block : EnclosingBlock) : Option Stmt :=
  block.before.reverse.find? (·.binds name)

/-- The `let` that a name refers to at a site: that in the innermost block that has one before it. -/
def Site.let? (name : String) (site : Site) : Option Stmt :=
  site.blocks.findSome? (·.let? name)

/-! ## Where values are asked for

Some parts have to have a value, such as operands and arguments. Others may go without one, such as the tail of a block
or the value of a `let`. -/

/-- What a value is asked for as. -/
inductive ValueUse where
  | operand | condition | callee | argument | pointer | base | initializer
deriving DecidableEq, Repr

/-- What the operand of a unary operator is asked for as, if it is computed. -/
def UnaryOp.valueUse? : UnaryOp → Option ValueUse
  | .neg | .not => some .operand
  | .deref => some .pointer
  | .addrOf => none

/-- What an expression asks values of, without what its parts do. -/
def Expr.asks : Expr → List (ValueUse × Expr)
  | .literal .. | .var .. | .assign .. | .block .. | .breakLoop .. | .continueLoop .. => []
  | .binary _ _ _ lhs rhs => [(.operand, lhs), (.operand, rhs)]
  | .unary _ _ op operand => op.valueUse?.toList.map (·, operand)
  | .call _ _ callee args => (.callee, callee) :: args.map (.argument, ·)
  | .cond _ _ condition .. | .loop _ _ condition _ => [(.condition, condition)]
  | .field _ _ base _ => [(.base, base)]
  | .structLiteral _ _ _ fields => fields.map fun init => (.initializer, init.value)

def Part.asks : Part → List (ValueUse × Expr)
  | .expr e => e.asks
  | .stmt _ => []

def Expr.valueUses (root : Expr) : List (ValueUse × Expr) := (root.parts .top).flatMap (·.2.asks)

end SsaCompiler
