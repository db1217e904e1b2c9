import Mathlib.Data.List.Perm.Subperm
import SsaCompiler.Proofs.Syntax.Tree

/-!
# Bodies that do not contain themselves

A body is acyclic if all its positions are in range and no node is below itself (`Body.Acyclic`); its
nodes may be shared, unused and in any order. Such a body has a tree (`Body.Acyclic.tree_ok`).

The nodes above a node are different from each other and from it. So a path from the root has no more
nodes than the two tables together, and the bound on the levels of the tree is never reached.
-/

namespace SsaCompiler

open List

theorem mapM_ok {ε α β : Type} {f : α → Except ε β} {xs : List α} (h : ∀ x ∈ xs, ∃ y, f x = .ok y) :
    ∃ ys, xs.mapM f = .ok ys := by
  induction xs with
  | nil => exact ⟨[], rfl⟩
  | cons x rest ih =>
    obtain ⟨y, hy⟩ := h x (.head _)
    obtain ⟨ys, hys⟩ := ih fun x hx => h x (.tail _ hx)
    exact ⟨y :: ys, by rw [mapM_cons, hy, hys]; rfl⟩

theorem option_mapM_ok {ε α β : Type} {f : α → Except ε β} {x : Option α}
    (h : ∀ a ∈ x, ∃ b, f a = .ok b) : ∃ y, x.mapM f = .ok y := by
  cases x with
  | none => exact ⟨none, rfl⟩
  | some a =>
    obtain ⟨b, hb⟩ := h a rfl
    exact ⟨some b, by rw [Option.mapM_some, hb]; rfl⟩

namespace Body

variable {body : Body} {levels : Nat} {node : Node}

def Has (body : Body) : Node → Prop
  | .expr id => id.index < body.exprs.size
  | .stmt id => id.index < body.stmts.size

instance (body : Body) : DecidablePred body.Has
  | .expr id => inferInstanceAs (Decidable (id.index < body.exprs.size))
  | .stmt id => inferInstanceAs (Decidable (id.index < body.stmts.size))

/-- All positions are in range, and no node is below itself. -/
structure Acyclic (body : Body) : Prop where
  root : body.Has (.expr body.root)
  references : ∀ node ∈ body.references, body.Has node
  irreflexive : ∀ node, ¬ Relation.TransGen body.Parent node node

/-- Nodes whose children have smaller numbers are not below themselves. -/
theorem irreflexive_of_number (number : Node → Nat)
    (hexprs : ∀ i < body.exprs.size, ∀ child ∈ body.children (.expr ⟨i⟩), number child < number (.expr ⟨i⟩))
    (hstmts : ∀ i < body.stmts.size, ∀ child ∈ body.children (.stmt ⟨i⟩), number child < number (.stmt ⟨i⟩))
    (node : Node) : ¬ Relation.TransGen body.Parent node node := by
  have hparent : ∀ {parent child}, body.Parent parent child → number child < number parent := by
    intro parent child hp
    cases parent with
    | expr id =>
      obtain ⟨_, hn, -⟩ := mem_childrenAt hp
      exact hexprs id.index (Array.getElem?_eq_some_iff.mp (Array.getElem?_toList.symm.trans hn)).1 child hp
    | stmt id =>
      obtain ⟨_, hn, -⟩ := mem_childrenAt hp
      exact hstmts id.index (Array.getElem?_eq_some_iff.mp (Array.getElem?_toList.symm.trans hn)).1 child hp
  have hbelow : ∀ {a b}, Relation.TransGen body.Parent a b → number b < number a := by
    intro a b hab
    induction hab with
    | single hp => exact hparent hp
    | tail _ hp ih => exact Nat.lt_trans (hparent hp) ih
  exact fun hself => Nat.lt_irrefl _ (hbelow hself)

theorem Acyclic.child (h : body.Acyclic) {parent child : Node} (hp : body.Parent parent child) : body.Has child := by
  refine h.references child (mem_append.mpr ?_)
  cases parent with
  | expr id =>
    obtain ⟨node, hn, hc⟩ := mem_childrenAt hp
    exact .inl (mem_flatMap.mpr ⟨node, mem_of_getElem? hn, hc⟩)
  | stmt id =>
    obtain ⟨node, hn, hc⟩ := mem_childrenAt hp
    exact .inr (mem_flatMap.mpr ⟨node, mem_of_getElem? hn, hc⟩)

/-! ## Paths are short -/

/-- The place of a node in the two tables, one after the other. -/
def place (body : Body) : Node → Nat
  | .expr id => id.index
  | .stmt id => body.exprs.size + id.index

theorem place_lt (h : body.Has node) : body.place node < body.exprs.size + body.stmts.size := by
  cases node with
  | expr id => exact Nat.lt_add_right _ h
  | stmt id => exact Nat.add_lt_add_left h _

theorem place_injective {a b : Node} (ha : body.Has a) (hb : body.Has b) (h : body.place a = body.place b) : a = b := by
  rcases a with ⟨⟨i⟩⟩ | ⟨⟨i⟩⟩ <;> rcases b with ⟨⟨j⟩⟩ | ⟨⟨j⟩⟩ <;> simp only [Has, place] at ha hb h
  · rw [h]
  · omega
  · omega
  · rw [Nat.add_left_cancel h]

theorem length_le_of_nodup {nodes : List Node} (hd : nodes.Nodup) (h : ∀ node ∈ nodes, body.Has node) :
    nodes.length ≤ body.exprs.size + body.stmts.size := by
  have hplaces : (nodes.map body.place).Nodup :=
    hd.map_on fun a ha b hb => place_injective (h a ha) (h b hb)
  have hsub : nodes.map body.place ⊆ List.range (body.exprs.size + body.stmts.size) := by
    intro i hi
    obtain ⟨node, hn, rfl⟩ := mem_map.mp hi
    exact mem_range.mpr (place_lt (h node hn))
  simpa using (subperm_of_subset hplaces hsub).length_le

/-! ## Trees -/

/-- The tree of a node can be built in a number of levels. -/
def Builds (body : Body) (levels : Nat) : Node → Prop
  | .expr id => ∃ tree, body.exprTree levels id = .ok tree
  | .stmt id => ∃ tree, body.stmtTree levels id = .ok tree

theorem builds_expr {id : ExprId} (hid : body.Has (.expr id))
    (h : ∀ child ∈ body.children (.expr id), body.Builds levels child) : body.Builds (levels + 1) (.expr id) := by
  have hnode : body.exprs[id.index]? = some body.exprs[id.index] := Array.getElem?_eq_getElem hid
  simp only [children, hnode, Option.map_some] at h
  simp only [Builds, exprTree, hnode]
  cases hn : body.exprs[id.index] with
    simp only [hn, ExprNode.children] at h ⊢
  | literal | var | breakLoop | continueLoop => exact ⟨_, rfl⟩
  | binary op lhs rhs =>
    obtain ⟨lhs, hl⟩ := h (.expr lhs) (by simp)
    obtain ⟨rhs, hr⟩ := h (.expr rhs) (by simp)
    exact ⟨_, bind_eq_ok.mpr ⟨lhs, hl, bind_eq_ok.mpr ⟨rhs, hr, rfl⟩⟩⟩
  | unary op operand =>
    obtain ⟨operand, ho⟩ := h (.expr operand) (by simp)
    exact ⟨_, bind_eq_ok.mpr ⟨operand, ho, rfl⟩⟩
  | call callee args =>
    obtain ⟨callee, hc⟩ := h (.expr callee) (by simp)
    have hargs : ∀ arg ∈ args, ∃ tree, body.exprTree levels arg = .ok tree :=
      fun arg ha => h (.expr arg) (by simp [ha])
    obtain ⟨args, ha⟩ := mapM_ok hargs
    exact ⟨_, bind_eq_ok.mpr ⟨callee, hc, bind_eq_ok.mpr ⟨args, ha, rfl⟩⟩⟩
  | assign target value =>
    obtain ⟨target, ht⟩ := h (.expr target) (by simp)
    obtain ⟨value, hv⟩ := h (.expr value) (by simp)
    exact ⟨_, bind_eq_ok.mpr ⟨target, ht, bind_eq_ok.mpr ⟨value, hv, rfl⟩⟩⟩
  | cond condition thenBranch elseBranch =>
    obtain ⟨condition, hc⟩ := h (.expr condition) (by simp)
    obtain ⟨thenBranch, ht⟩ := h (.expr thenBranch) (by simp)
    obtain ⟨elseBranch, he⟩ := option_mapM_ok (f := body.exprTree levels) (x := elseBranch)
      fun e he => h (.expr e) (by simp [Option.mem_def.mp he])
    exact ⟨_, bind_eq_ok.mpr ⟨condition, hc, bind_eq_ok.mpr ⟨thenBranch, ht, bind_eq_ok.mpr ⟨elseBranch, he, rfl⟩⟩⟩⟩
  | loop condition loopBody =>
    obtain ⟨condition, hc⟩ := h (.expr condition) (by simp)
    obtain ⟨loopBody, hb⟩ := h (.expr loopBody) (by simp)
    exact ⟨_, bind_eq_ok.mpr ⟨condition, hc, bind_eq_ok.mpr ⟨loopBody, hb, rfl⟩⟩⟩
  | block stmts tail =>
    have hstmts : ∀ stmt ∈ stmts, ∃ tree, body.stmtTree levels stmt = .ok tree :=
      fun stmt hs => h (.stmt stmt) (by simp [hs])
    obtain ⟨stmts, hs⟩ := mapM_ok hstmts
    obtain ⟨tail, ht⟩ := option_mapM_ok (f := body.exprTree levels) (x := tail)
      fun e he => h (.expr e) (by simp [Option.mem_def.mp he])
    exact ⟨_, bind_eq_ok.mpr ⟨stmts, hs, bind_eq_ok.mpr ⟨tail, ht, rfl⟩⟩⟩
  | field base =>
    obtain ⟨base, hb⟩ := h (.expr base) (by simp)
    exact ⟨_, bind_eq_ok.mpr ⟨base, hb, rfl⟩⟩
  | structLiteral name fields =>
    have hinits : ∀ init ∈ fields, ∃ tree, (body.exprTree levels init.value >>= fun value =>
        .ok (Init.mk init.name init.span value)) = .ok tree := by
      intro init hi
      obtain ⟨value, hv⟩ := h (.expr init.value) (mem_map_of_mem hi)
      exact ⟨_, bind_eq_ok.mpr ⟨value, hv, rfl⟩⟩
    obtain ⟨inits, hi⟩ := mapM_ok hinits
    exact ⟨_, bind_eq_ok.mpr ⟨inits, hi, rfl⟩⟩

theorem builds_stmt {id : StmtId} (hid : body.Has (.stmt id))
    (h : ∀ child ∈ body.children (.stmt id), body.Builds levels child) : body.Builds (levels + 1) (.stmt id) := by
  have hnode : body.stmts[id.index]? = some body.stmts[id.index] := Array.getElem?_eq_getElem hid
  simp only [children, hnode, Option.map_some] at h
  simp only [Builds, stmtTree, hnode]
  cases hn : body.stmts[id.index] with
    simp only [hn, StmtNode.children] at h ⊢
  | bind name type init =>
    obtain ⟨init, hi⟩ := option_mapM_ok (f := body.exprTree levels) (x := init)
      fun e he => h (.expr e) (by simp [Option.mem_def.mp he])
    exact ⟨_, bind_eq_ok.mpr ⟨init, hi, rfl⟩⟩
  | eval expr =>
    obtain ⟨expr, he⟩ := h (.expr expr) (by simp)
    exact ⟨_, bind_eq_ok.mpr ⟨expr, he, rfl⟩⟩
  | ret value =>
    obtain ⟨value, hv⟩ := option_mapM_ok (f := body.exprTree levels) (x := value)
      fun e he => h (.expr e) (by simp [Option.mem_def.mp he])
    exact ⟨_, bind_eq_ok.mpr ⟨value, hv, rfl⟩⟩

/-- The tree of a node below some others can be built if the levels and the nodes above it are
together more than all nodes. -/
theorem Acyclic.builds (h : body.Acyclic) (above : List Node) (hnode : body.Has node)
    (hdistinct : above.Nodup) (habove : ∀ a ∈ above, body.Has a ∧ Relation.TransGen body.Parent a node)
    (hlevels : body.exprs.size + body.stmts.size < above.length + levels) : body.Builds levels node := by
  induction levels generalizing above node with
  | zero =>
    have hle := length_le_of_nodup hdistinct fun a ha => (habove a ha).1
    omega
  | succ levels ih =>
    have hnew : node ∉ above := fun hin => h.irreflexive node (habove node hin).2
    have hchildren : ∀ child ∈ body.children node, body.Builds levels child := by
      intro child hc
      refine ih (node :: above) (h.child hc) (hdistinct.cons hnew) (fun a ha => ?_) ?_
      · rcases mem_cons.mp ha with rfl | ha
        · exact ⟨hnode, .single hc⟩
        · exact ⟨(habove a ha).1, (habove a ha).2.tail hc⟩
      · simp only [length_cons]
        omega
    cases node with
    | expr id => exact builds_expr hnode hchildren
    | stmt id => exact builds_stmt hnode hchildren

theorem Acyclic.tree_ok (h : body.Acyclic) : ∃ root, body.tree = .ok root :=
  h.builds [] h.root .nil (fun _ ha => nomatch ha) (by simp)

end Body

end SsaCompiler
