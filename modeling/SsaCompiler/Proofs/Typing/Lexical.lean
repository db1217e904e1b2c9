import SsaCompiler.Proofs.Syntax.Sites
import SsaCompiler.Proofs.Typing.Rules

/-!
# Typing and sites

If a body is typed, each of its parts is typed where it stands (`TypingContext.partTyped_of_mem_parts`):
the locals visible there are those of the `let`s before it in the blocks around it, after the
parameters. So the local that a name stands for is that of the `let` it refers to at the site
(`TypingContext.find?_visible`).
-/

namespace SsaCompiler

open List

namespace TypingContext

variable (C : TypingContext)

/-- The locals that are visible inside some blocks, where `outer` are visible outside of them. -/
def visible (outer : List Local) : List EnclosingBlock → List Local
  | [] => outer
  | block :: blocks => visible outer blocks ++ C.declaredAll block.loops block.before

def PartTyped (Γ : List Local) (depth : Nat) : Part → Prop
  | .expr e => C.Typed Γ depth e
  | .stmt s => C.StmtTyped Γ depth s

def PartsTyped (outer : List Local) (parts : List (Site × Part)) : Prop :=
  ∀ p ∈ parts, C.PartTyped (C.visible outer p.1.blocks) p.1.loops p.2

variable {C} {outer : List Local} {block : EnclosingBlock} {name : String} {stmt : Stmt} {site : Site}

namespace PartsTyped

variable {parts parts' : List (Site × Part)}

theorem nil : C.PartsTyped outer [] := fun _ h => absurd h not_mem_nil

theorem cons {site : Site} {part : Part} (h : C.PartTyped (C.visible outer site.blocks) site.loops part)
    (hs : C.PartsTyped outer parts) : C.PartsTyped outer ((site, part) :: parts) :=
  forall_mem_cons.mpr ⟨h, hs⟩

theorem append (h : C.PartsTyped outer parts) (h' : C.PartsTyped outer parts') : C.PartsTyped outer (parts ++ parts') :=
  forall_mem_append.mpr ⟨h, h'⟩

end PartsTyped

theorem visible_inBlock_append {before : List Stmt} : C.visible outer (site.inBlock (before ++ [stmt])).blocks =
      C.visible outer (site.inBlock before).blocks ++ C.declared site.loops stmt := by
  simp [Site.inBlock, visible, declaredAll]

mutual
theorem partsTyped_parts : ∀ {expr : Expr} {site : Site},
    C.Typed (C.visible outer site.blocks) site.loops expr → C.PartsTyped outer (expr.parts site)
  | .literal .., _, h | .var .., _, h | .breakLoop .., _, h | .continueLoop .., _, h => .cons h .nil
  | .binary .., _, h | .assign .., _, h => by
    have hparts := h
    exact .cons h (.append (partsTyped_parts hparts.1) (partsTyped_parts hparts.2.1))
  | .cond _ _ _ _ none, _, h => by
    have hparts := h
    exact .cons h (.append (partsTyped_parts hparts.1) (partsTyped_parts hparts.2.1))
  | .unary .., _, h | .field .., _, h => by
    have hparts := h
    exact .cons h (partsTyped_parts hparts.1)
  | .call .., _, h => by
    have hparts := h
    exact .cons h (.append (partsTyped_parts hparts.1) (partsTyped_allParts hparts.2.1))
  | .cond _ _ _ _ (some _), _, h => by
    have hparts := h
    exact .cons h (.append (partsTyped_parts hparts.1)
      (.append (partsTyped_parts hparts.2.1) (partsTyped_parts hparts.2.2.1)))
  | .loop .., site, h => by
    have hparts := h
    have hcondition : C.Typed (C.visible outer site.inLoop.blocks) site.inLoop.loops _ := hparts.1
    have hbody : C.Typed (C.visible outer site.inLoop.blocks) site.inLoop.loops _ := hparts.2.1
    exact .cons h (.append (partsTyped_parts hcondition) (partsTyped_parts hbody))
  | .block _ _ stmts none, site, h => by
    have hparts := h
    refine .cons h (stmtsTyped_allParts ?_)
    simpa [Site.inBlock, visible, declaredAll] using hparts.1
  | .block _ _ stmts (some tail), site, h => by
    have hparts := h
    have htail : C.Typed (C.visible outer (site.inBlock stmts).blocks) (site.inBlock stmts).loops tail :=
      hparts.2.1
    refine .cons h (.append (stmtsTyped_allParts ?_) (partsTyped_parts htail))
    simpa [Site.inBlock, visible, declaredAll] using hparts.1
  | .structLiteral .., _, h => by
    have hparts := h
    exact .cons h (initsTyped_allParts hparts.1)

theorem partsTyped_allParts : ∀ {exprs : List Expr} {site : Site},
    C.AllTyped (C.visible outer site.blocks) site.loops exprs → C.PartsTyped outer (Expr.allParts site exprs)
  | [], _, _ => .nil
  | _ :: _, _, h => .append (partsTyped_parts h.1) (partsTyped_allParts h.2)

theorem stmtTyped_parts : ∀ {stmt : Stmt} {site : Site},
    C.StmtTyped (C.visible outer site.blocks) site.loops stmt → C.PartsTyped outer (stmt.parts site)
  | .bind _ _ _ _ none, _, h | .ret _ _ none, _, h => .cons h .nil
  | .bind _ _ _ _ (some _), _, h | .eval .., _, h | .ret _ _ (some _), _, h => by
    have hparts := h
    exact .cons h (partsTyped_parts hparts.1)

theorem stmtsTyped_allParts : ∀ {stmts before : List Stmt} {site : Site},
    C.StmtsTyped (C.visible outer (site.inBlock before).blocks) site.loops stmts →
    C.PartsTyped outer (Stmt.allParts site before stmts)
  | [], _, _, _ => by rw [Stmt.allParts]; exact .nil
  | stmt :: rest, before, site, h => by
    rw [StmtsTyped, ← visible_inBlock_append] at h
    have hstmt : C.StmtTyped (C.visible outer (site.inBlock before).blocks) (site.inBlock before).loops stmt := h.1
    exact .append (stmtTyped_parts hstmt) (stmtsTyped_allParts h.2)

theorem initsTyped_allParts : ∀ {inits : List Init} {site : Site},
    C.InitsTyped (C.visible outer site.blocks) site.loops inits → C.PartsTyped outer (Init.allParts site inits)
  | [], _, _ => .nil
  | .mk _ _ _ :: _, _, h => .append (partsTyped_parts h.1) (initsTyped_allParts h.2)
end

/-- If a body is typed, so is each of its parts where it stands. -/
theorem partTyped_of_mem_parts {root : Expr} (h : C.Typed outer 0 root) {p : Site × Part}
    (hp : p ∈ root.parts .top) : C.PartTyped (C.visible outer p.1.blocks) p.1.loops p.2 := by
  have htop : C.Typed (C.visible outer Site.top.blocks) Site.top.loops root := h
  exact partsTyped_parts htop p hp

/-! ## Names -/

/-- The binding that a statement declares. -/
def boundBy (C : TypingContext) : Stmt → Option BindingId
  | .bind id .. => C.function.lets.get? id
  | .eval .. | .ret .. => none

/-- A binding is recorded for each `let` before a point in a block around it. -/
def AllBound (C : TypingContext) (block : EnclosingBlock) : Prop :=
  ∀ stmt ∈ block.before, ∀ name, stmt.binds name = true → (C.boundBy stmt).isSome = true

theorem find?_declared (h : stmt.binds name = true → (C.boundBy stmt).isSome = true) {loops : Nat} :
    (Local.find? name (C.declared loops stmt)).map (·.binding) = ([stmt].find? (·.binds name)).bind C.boundBy := by
  cases stmt with
  | bind id span bound type init =>
    by_cases hn : bound = name
    · obtain ⟨binding, hb⟩ := Option.isSome_iff_exists.mp (h (by simp [Stmt.binds, hn]))
      have hlet : C.function.lets.get? id = some binding := hb
      simp [declared, Stmt.binds, boundBy, hlet, hn, Local.find?]
    · cases hlet : C.function.lets.get? id <;> simp [declared, Stmt.binds, hlet, hn, Local.find?]
  | eval => rfl
  | ret => rfl

theorem AllBound.boundBy_of_let? (h : C.AllBound block)
    (hs : block.let? name = some stmt) : ∃ binding, C.boundBy stmt = some binding :=
  Option.isSome_iff_exists.mp (h stmt (mem_reverse.mp (mem_of_find?_eq_some hs)) name (find?_some hs))

/-- Among the locals of a block, a name stands for that of its last `let`. -/
theorem find?_declaredAll (h : C.AllBound block) :
    (Local.find? name (C.declaredAll block.loops block.before)).map (·.binding) =
      (block.let? name).bind C.boundBy := by
  obtain ⟨loops, before⟩ := block
  induction before with
  | nil => rfl
  | cons stmt rest ih =>
    have hbound : C.AllBound ⟨loops, rest⟩ := fun s hs => h s (.tail _ hs)
    have hlet : EnclosingBlock.let? name ⟨loops, stmt :: rest⟩ =
        (EnclosingBlock.let? name ⟨loops, rest⟩).or ([stmt].find? (·.binds name)) := by
      simp [EnclosingBlock.let?]
    have hsplit : C.declaredAll loops (stmt :: rest) = C.declared loops stmt ++ C.declaredAll loops rest := rfl
    rw [hlet, hsplit, Local.find?_append, Option.map_or, ih hbound, find?_declared (h stmt (.head _) name)]
    cases hlast : EnclosingBlock.let? name ⟨loops, rest⟩ with
    | none => rfl
    | some last =>
      obtain ⟨binding, hb⟩ := hbound.boundBy_of_let? hlast
      simp [hb]

/-- The local that a name stands for is that of the `let` it refers to, else an outer one. -/
theorem find?_visible (h : ∀ block ∈ site.blocks, C.AllBound block) (outer : List Local) (name : String) :
    (Local.find? name (C.visible outer site.blocks)).map (·.binding) =
      ((site.let? name).bind C.boundBy).or ((Local.find? name outer).map (·.binding)) := by
  unfold Site.let?
  generalize site.blocks = blocks at h
  induction blocks with
  | nil => rfl
  | cons block blocks ih =>
    have hbound := h block (.head _)
    rw [visible, Local.find?_append, Option.map_or, find?_declaredAll hbound,
      ih fun b hb => h b (.tail _ hb), findSome?_cons]
    cases hlet : block.let? name with
    | none => rfl
    | some stmt =>
      obtain ⟨binding, hb⟩ := hbound.boundBy_of_let? hlet
      simp [hb]

end TypingContext

end SsaCompiler
