import Mathlib.Data.List.Nodup
import Mathlib.Logic.Relation
import SsaCompiler.Proofs.Steps
import SsaCompiler.Syntax.Expr

/-!
# Bodies that are trees

A body is tree-shaped if no node is referred to twice (`Body.TreeShaped`). What is recorded about
nodes is recorded by position, so this is what keeps the records of different parts of a body apart:
in the tree of a tree-shaped body no position occurs twice (`Body.nodup_nodes`).

The argument is on the references alone. A node has at most one parent, so two nodes above a third
one are above each other (`Relation.ReflTransGen.total_of_right_unique`), and no node is above
itself, because the levels needed to build the tree of a node are more than those of its children.
-/

namespace SsaCompiler

open List

/-- A node of a body. -/
inductive Node where
  | expr (id : ExprId)
  | stmt (id : StmtId)
deriving DecidableEq, Repr

def ExprNode.children : ExprNode → List Node
  | .literal .. | .var .. | .breakLoop .. | .continueLoop .. => []
  | .binary _ lhs rhs _ => [.expr lhs, .expr rhs]
  | .unary _ operand _ => [.expr operand]
  | .call callee args _ => .expr callee :: args.map .expr
  | .assign target value _ => [.expr target, .expr value]
  | .cond condition thenBranch elseBranch _ =>
    .expr condition :: .expr thenBranch :: elseBranch.toList.map .expr
  | .loop condition body _ => [.expr condition, .expr body]
  | .block stmts tail _ => stmts.map .stmt ++ tail.toList.map .expr
  | .field base _ _ => [.expr base]
  | .structLiteral _ fields _ => fields.map fun init => .expr init.value

def StmtNode.children : StmtNode → List Node
  | .bind _ _ init _ => init.toList.map .expr
  | .eval expr _ => [.expr expr]
  | .ret value _ => value.toList.map .expr

namespace Body

def children (body : Body) : Node → List Node
  | .expr id => (body.exprs[id.index]?.map ExprNode.children).getD []
  | .stmt id => (body.stmts[id.index]?.map StmtNode.children).getD []

def references (body : Body) : List Node :=
  body.exprs.toList.flatMap ExprNode.children ++ body.stmts.toList.flatMap StmtNode.children

/-- No node has two parents, or the same parent twice. -/
def TreeShaped (body : Body) : Prop := body.references.Nodup

instance (body : Body) : Decidable body.TreeShaped := inferInstanceAs (Decidable (Nodup _))

/-- One node refers to another. -/
def Parent (body : Body) (parent child : Node) : Prop := child ∈ body.children parent

end Body

/-! ## The positions in a tree -/

mutual
/-- The positions of an expression and its parts, its own first. -/
def Expr.nodes : Expr → List Node
  | .literal id .. | .var id .. | .breakLoop id _ | .continueLoop id _ => [.expr id]
  | .binary id _ _ lhs rhs => .expr id :: (lhs.nodes ++ rhs.nodes)
  | .unary id _ _ operand => .expr id :: operand.nodes
  | .call id _ callee args => .expr id :: (callee.nodes ++ Expr.allNodes args)
  | .assign id _ target value => .expr id :: (target.nodes ++ value.nodes)
  | .cond id _ condition thenBranch none => .expr id :: (condition.nodes ++ thenBranch.nodes)
  | .cond id _ condition thenBranch (some elseBranch) =>
    .expr id :: (condition.nodes ++ (thenBranch.nodes ++ elseBranch.nodes))
  | .loop id _ condition body => .expr id :: (condition.nodes ++ body.nodes)
  | .block id _ stmts none => .expr id :: Stmt.allNodes stmts
  | .block id _ stmts (some tail) => .expr id :: (Stmt.allNodes stmts ++ tail.nodes)
  | .field id _ base _ => .expr id :: base.nodes
  | .structLiteral id _ _ fields => .expr id :: Init.allNodes fields

def Expr.allNodes : List Expr → List Node
  | [] => []
  | expr :: rest => expr.nodes ++ Expr.allNodes rest

def Stmt.nodes : Stmt → List Node
  | .bind id _ _ _ none | .ret id _ none => [.stmt id]
  | .bind id _ _ _ (some init) => .stmt id :: init.nodes
  | .eval id _ expr => .stmt id :: expr.nodes
  | .ret id _ (some value) => .stmt id :: value.nodes

def Stmt.allNodes : List Stmt → List Node
  | [] => []
  | stmt :: rest => stmt.nodes ++ Stmt.allNodes rest

def Init.nodes : Init → List Node
  | .mk _ _ value => value.nodes

def Init.allNodes : List Init → List Node
  | [] => []
  | init :: rest => init.nodes ++ Init.allNodes rest
end

/-- The positions of the parts of an expression, without its own. -/
def Expr.innerNodes (expr : Expr) : List Node := expr.nodes.tail

theorem Expr.nodes_eq (expr : Expr) : expr.nodes = .expr expr.id :: expr.innerNodes := by
  cases expr with
  | cond id span condition thenBranch elseBranch => cases elseBranch <;> simp [nodes, innerNodes, Expr.id]
  | block id span stmts tail => cases tail <;> simp [nodes, innerNodes, Expr.id]
  | _ => simp [nodes, innerNodes, Expr.id]

theorem Expr.id_mem_nodes (expr : Expr) : .expr expr.id ∈ expr.nodes := by rw [expr.nodes_eq]; exact .head _

theorem Expr.allNodes_eq_flatMap {exprs : List Expr} : Expr.allNodes exprs = exprs.flatMap Expr.nodes := by
  induction exprs with
  | nil => rfl
  | cons expr rest ih => simp [Expr.allNodes, ih]

theorem Stmt.allNodes_eq_flatMap {stmts : List Stmt} : Stmt.allNodes stmts = stmts.flatMap Stmt.nodes := by
  induction stmts with
  | nil => rfl
  | cons stmt rest ih => simp [Stmt.allNodes, ih]

theorem Init.allNodes_eq_flatMap {inits : List Init} : Init.allNodes inits = inits.flatMap Init.nodes := by
  induction inits with
  | nil => rfl
  | cons init rest ih => simp [Init.allNodes, ih]

/-! ## Trees and references -/

namespace Body

variable {body : Body}
variable {levels : Nat} {id : ExprId} {node : Node} {nodes : List Node} {root : Expr} {child : Node}

/-- The tree of a node, built in a number of levels, has these positions. -/
def Spells (body : Body) (levels : Nat) : Node → List Node → Prop
  | .expr id, nodes => ∃ tree, body.exprTree levels id = .ok tree ∧ tree.nodes = nodes
  | .stmt id, nodes => ∃ tree, body.stmtTree levels id = .ok tree ∧ tree.nodes = nodes

theorem spells_exprs {ids : List ExprId} {trees : List Expr} (h : ids.mapM (body.exprTree levels) = .ok trees) :
    Forall₂ (body.Spells levels) (ids.map .expr) (trees.map Expr.nodes) := by
  rw [forall₂_map_left_iff, forall₂_map_right_iff]
  exact (mapM_eq_ok h).imp fun _ tree ht => ⟨tree, ht, rfl⟩

theorem spells_stmts {ids : List StmtId} {trees : List Stmt} (h : ids.mapM (body.stmtTree levels) = .ok trees) :
    Forall₂ (body.Spells levels) (ids.map .stmt) (trees.map Stmt.nodes) := by
  rw [forall₂_map_left_iff, forall₂_map_right_iff]
  exact (mapM_eq_ok h).imp fun _ tree ht => ⟨tree, ht, rfl⟩

theorem spells_option {id : Option ExprId} {tree : Option Expr} (h : id.mapM (body.exprTree levels) = .ok tree) :
    Forall₂ (body.Spells levels) (id.toList.map .expr) (tree.toList.map Expr.nodes) := by
  rcases option_mapM_eq_ok h with ⟨rfl, rfl⟩ | ⟨a, b, rfl, rfl, hb⟩
  · exact .nil
  · exact .cons ⟨b, hb, rfl⟩ .nil

/-- The positions of the tree of an expression are its own and those of the trees of its children. -/
theorem exprTree_nodes {tree : Expr} (h : body.exprTree (levels + 1) id = .ok tree) :
    ∃ parts, Forall₂ (body.Spells levels) (body.children (.expr id)) parts ∧
      tree.nodes = .expr id :: parts.flatten := by
  unfold exprTree at h
  simp only [children]
  split at h <;> [cases h; skip; skip; skip; skip; skip; skip; skip; skip; skip; skip; skip; skip; skip]
  all_goals
    rename_i hn
    rw [hn]
    simp only [bind_eq_ok, Except.ok.injEq] at h
  · exact ⟨[], .nil, by subst h; rfl⟩
  · exact ⟨[], .nil, by subst h; rfl⟩
  · obtain ⟨lhs, hl, rhs, hr, rfl⟩ := h
    exact ⟨[lhs.nodes, rhs.nodes], .cons ⟨_, hl, rfl⟩ (.cons ⟨_, hr, rfl⟩ .nil), by simp [Expr.nodes]⟩
  · obtain ⟨operand, ho, rfl⟩ := h
    exact ⟨[operand.nodes], .cons ⟨_, ho, rfl⟩ .nil, by simp [Expr.nodes]⟩
  · obtain ⟨callee, hc, args, ha, rfl⟩ := h
    exact ⟨callee.nodes :: args.map Expr.nodes, .cons ⟨_, hc, rfl⟩ (spells_exprs ha),
      by simp [Expr.nodes, Expr.allNodes_eq_flatMap, flatMap]⟩
  · obtain ⟨target, ht, value, hv, rfl⟩ := h
    exact ⟨[target.nodes, value.nodes], .cons ⟨_, ht, rfl⟩ (.cons ⟨_, hv, rfl⟩ .nil), by simp [Expr.nodes]⟩
  · obtain ⟨condition, hc, thenBranch, ht, elseBranch, he, rfl⟩ := h
    refine ⟨condition.nodes :: thenBranch.nodes :: elseBranch.toList.map Expr.nodes,
      .cons ⟨_, hc, rfl⟩ (.cons ⟨_, ht, rfl⟩ (spells_option he)), ?_⟩
    cases elseBranch <;> simp [Expr.nodes]
  · obtain ⟨condition, hc, loopBody, hb, rfl⟩ := h
    exact ⟨[condition.nodes, loopBody.nodes], .cons ⟨_, hc, rfl⟩ (.cons ⟨_, hb, rfl⟩ .nil), by simp [Expr.nodes]⟩
  · obtain ⟨stmts, hs, tail, ht, rfl⟩ := h
    refine ⟨stmts.map Stmt.nodes ++ tail.toList.map Expr.nodes, rel_append (spells_stmts hs) (spells_option ht), ?_⟩
    cases tail <;> simp [Expr.nodes, Stmt.allNodes_eq_flatMap, flatMap]
  · obtain ⟨base, hb, rfl⟩ := h
    exact ⟨[base.nodes], .cons ⟨_, hb, rfl⟩ .nil, by simp [Expr.nodes]⟩
  · obtain ⟨inits, hi, rfl⟩ := h
    refine ⟨inits.map Init.nodes, ?_, by simp [Expr.nodes, Init.allNodes_eq_flatMap, flatMap]⟩
    simp only [ExprNode.children, Option.map_some, Option.getD_some]
    rw [forall₂_map_left_iff, forall₂_map_right_iff]
    refine (mapM_eq_ok hi).imp fun init tree ht => ?_
    simp only [bind_eq_ok, Except.ok.injEq] at ht
    obtain ⟨value, hv, rfl⟩ := ht
    exact ⟨value, hv, rfl⟩
  · exact ⟨[], .nil, by subst h; rfl⟩
  · exact ⟨[], .nil, by subst h; rfl⟩

theorem stmtTree_nodes {id : StmtId} {tree : Stmt} (h : body.stmtTree (levels + 1) id = .ok tree) :
    ∃ parts, Forall₂ (body.Spells levels) (body.children (.stmt id)) parts ∧
      tree.nodes = .stmt id :: parts.flatten := by
  unfold stmtTree at h
  simp only [children]
  split at h <;> [cases h; skip; skip; skip]
  all_goals
    rename_i hn
    rw [hn]
    simp only [bind_eq_ok, Except.ok.injEq] at h
  · obtain ⟨init, hi, rfl⟩ := h
    exact ⟨init.toList.map Expr.nodes, spells_option hi, by cases init <;> simp [Stmt.nodes]⟩
  · obtain ⟨expr, he, rfl⟩ := h
    exact ⟨[expr.nodes], .cons ⟨_, he, rfl⟩ .nil, by simp [Stmt.nodes]⟩
  · obtain ⟨value, hv, rfl⟩ := h
    exact ⟨value.toList.map Expr.nodes, spells_option hv, by cases value <;> simp [Stmt.nodes]⟩

theorem Spells.succ (h : body.Spells (levels + 1) node nodes) :
    ∃ parts, Forall₂ (body.Spells levels) (body.children node) parts ∧ nodes = node :: parts.flatten := by
  cases node with
  | expr id =>
    obtain ⟨tree, ht, rfl⟩ := h
    exact exprTree_nodes ht
  | stmt id =>
    obtain ⟨tree, ht, rfl⟩ := h
    exact stmtTree_nodes ht

theorem not_spells_zero : ¬ body.Spells 0 node nodes := by cases node <;> simp [Spells, exprTree, stmtTree]

/-! ## One parent each -/

section

variable {α : Type} {table : Array α} {f : α → List Node} {i : Nat}

theorem mem_childrenAt (h : child ∈ (table[i]?.map f).getD []) :
    ∃ node, table.toList[i]? = some node ∧ child ∈ f node := by
  rw [Array.getElem?_toList]
  cases hn : table[i]? with
  | none => simp [hn] at h
  | some node => exact ⟨node, rfl, by simpa [hn] using h⟩

theorem nodup_childrenAt (h : (table.toList.flatMap f).Nodup) : ((table[i]?.map f).getD []).Nodup := by
  cases hn : table[i]? with
  | none => exact nodup_nil
  | some node => exact (nodup_flatMap.mp h).1 node (by simpa using Array.mem_of_getElem? hn)

end

/-- In a flattened list without repetitions an element comes from one position only. -/
theorem index_unique {α β : Type} {f : α → List β} {xs : List α} (hn : (xs.flatMap f).Nodup) {i j : Nat}
    {a b : α} {x : β} (hi : xs[i]? = some a) (hj : xs[j]? = some b) (ha : x ∈ f a) (hb : x ∈ f b) : i = j := by
  obtain ⟨hi', rfl⟩ := List.getElem?_eq_some_iff.mp hi
  obtain ⟨hj', rfl⟩ := List.getElem?_eq_some_iff.mp hj
  have hp := pairwise_iff_getElem.mp (nodup_flatMap.mp hn).2
  rcases Nat.lt_trichotomy i j with h | h | h
  · exact absurd hb (disjoint_left.mp (hp i j hi' hj' h) ha)
  · exact h
  · exact absurd ha (disjoint_left.mp (hp j i hj' hi' h) hb)

/-- The parent of a node is unique. -/
theorem TreeShaped.parent_unique (ht : body.TreeShaped) {p q : Node}
    (hp : body.Parent p child) (hq : body.Parent q child) : p = q := by
  obtain ⟨he, hs, hd⟩ := nodup_append.mp ht
  cases p with
  | expr i =>
    obtain ⟨a, ha, hca⟩ := mem_childrenAt hp
    cases q with
    | expr j =>
      obtain ⟨b, hb, hcb⟩ := mem_childrenAt hq
      have hij := index_unique he ha hb hca hcb
      cases i; cases j; simp_all
    | stmt j =>
      obtain ⟨b, hb, hcb⟩ := mem_childrenAt hq
      exact absurd rfl (hd child (mem_flatMap.mpr ⟨a, mem_of_getElem? ha, hca⟩) child
        (mem_flatMap.mpr ⟨b, mem_of_getElem? hb, hcb⟩))
  | stmt i =>
    obtain ⟨a, ha, hca⟩ := mem_childrenAt hp
    cases q with
    | expr j =>
      obtain ⟨b, hb, hcb⟩ := mem_childrenAt hq
      exact absurd rfl (hd child (mem_flatMap.mpr ⟨b, mem_of_getElem? hb, hcb⟩) child
        (mem_flatMap.mpr ⟨a, mem_of_getElem? ha, hca⟩))
    | stmt j =>
      obtain ⟨b, hb, hcb⟩ := mem_childrenAt hq
      have hij := index_unique hs ha hb hca hcb
      cases i; cases j; simp_all

theorem TreeShaped.children_nodup (ht : body.TreeShaped) : (body.children node).Nodup := by
  obtain ⟨he, hs, -⟩ := nodup_append.mp ht
  cases node with
  | expr id => exact nodup_childrenAt he
  | stmt id => exact nodup_childrenAt hs

/-! ## No position twice -/

open Relation in
/-- Everything in a tree is below its root. -/
theorem Spells.reaches
    (h : body.Spells levels node nodes) {x : Node} (hx : x ∈ nodes) : ReflTransGen body.Parent node x := by
  induction levels generalizing node nodes with
  | zero => exact absurd h not_spells_zero
  | succ levels ih =>
    obtain ⟨parts, hparts, rfl⟩ := h.succ
    rcases mem_cons.mp hx with rfl | hx
    · exact .refl
    · obtain ⟨part, hpart, hxp⟩ := mem_flatten.mp hx
      obtain ⟨child, hc, hs⟩ := forall₂_exists_left hparts hpart
      exact .head hc (ih hs hxp)

open Relation in
theorem Spells.descend {below : Node} (h : body.Spells levels node nodes) (hb : TransGen body.Parent node below) :
    ∃ fewer, fewer < levels ∧ ∃ nodes', body.Spells fewer below nodes' := by
  induction hb using TransGen.head_induction_on generalizing levels nodes with
  | single hp =>
    cases levels with
    | zero => exact absurd h not_spells_zero
    | succ levels =>
      obtain ⟨parts, hparts, -⟩ := h.succ
      obtain ⟨part, -, hs⟩ := forall₂_exists_right hparts hp
      exact ⟨levels, Nat.lt_succ_self _, part, hs⟩
  | head hp _ ih =>
    cases levels with
    | zero => exact absurd h not_spells_zero
    | succ levels =>
      obtain ⟨parts, hparts, -⟩ := h.succ
      obtain ⟨part, -, hs⟩ := forall₂_exists_right hparts hp
      obtain ⟨fewer, hf, rest⟩ := ih hs
      exact ⟨fewer, by omega, rest⟩

open Relation in
theorem Spells.irrefl (h : body.Spells levels node nodes) : ¬ TransGen body.Parent node node := by
  intro hb
  induction levels using Nat.strongRecOn generalizing nodes with
  | _ levels ih =>
    obtain ⟨fewer, hf, nodes', h'⟩ := h.descend hb
    exact ih fewer hf h'

open Relation in
/-- The trees of two different children of a node share nothing. -/
theorem TreeShaped.disjoint_of_children (ht : body.TreeShaped) {p q x : Node}
    (hnode : ¬ TransGen body.Parent node node) (hp : body.Parent node p) (hq : body.Parent node q)
    (hne : p ≠ q) (hxp : ReflTransGen body.Parent p x) (hxq : ReflTransGen body.Parent q x) : False := by
  -- The one of the two that is below the other has its parent, `node`, below that other one too.
  have key : ∀ {a b : Node}, body.Parent node a → body.Parent node b → a ≠ b →
      ReflTransGen body.Parent a b → False := by
    intro a b ha hb hab hreach
    rcases ReflTransGen.cases_tail hreach with rfl | ⟨c, hac, hcb⟩
    · exact hab rfl
    · obtain rfl : c = node := ht.parent_unique hcb hb
      exact hnode (.head' ha hac)
  have hu : Relator.RightUnique (Function.swap body.Parent) :=
    fun _ _ _ h1 h2 => ht.parent_unique h1 h2
  rcases ReflTransGen.total_of_right_unique hu (reflTransGen_swap.mpr hxp) (reflTransGen_swap.mpr hxq) with h | h
  · exact key hq hp hne.symm (reflTransGen_swap.mp h)
  · exact key hp hq hne (reflTransGen_swap.mp h)

theorem nodup_flatten_of_forall₂ {α β : Type} {R : α → List β → Prop} {xs : List α} {ys : List (List β)}
    (h : Forall₂ R xs ys) (hxs : xs.Nodup) (hone : ∀ x y, x ∈ xs → R x y → y.Nodup)
    (htwo : ∀ x x' y y', x ∈ xs → x' ∈ xs → x ≠ x' → R x y → R x' y' → ∀ b, b ∈ y → b ∈ y' → False) :
    ys.flatten.Nodup := by
  induction h with
  | nil => exact nodup_nil
  | @cons x y xs ys hr hrest ih =>
    rw [nodup_cons] at hxs
    rw [flatten_cons, nodup_append]
    refine ⟨hone x y (.head _) hr, ih hxs.2 (fun a b ha => hone a b (.tail _ ha))
      (fun a b c d ha hb => htwo a b c d (.tail _ ha) (.tail _ hb)), ?_⟩
    rintro b hb c hc rfl
    obtain ⟨y', hy', hby'⟩ := mem_flatten.mp hc
    obtain ⟨x', hx', hr'⟩ := forall₂_exists_left hrest hy'
    exact htwo x x' y y' (.head _) (.tail _ hx') (fun he => hxs.1 (he ▸ hx')) hr hr' b hb hby'

theorem Spells.nodup (ht : body.TreeShaped) (h : body.Spells levels node nodes) : nodes.Nodup := by
  induction levels generalizing node nodes with
  | zero => exact absurd h not_spells_zero
  | succ levels ih =>
    have hirr := h.irrefl
    obtain ⟨parts, hparts, rfl⟩ := h.succ
    rw [nodup_cons]
    constructor
    · intro hmem
      obtain ⟨part, hpart, hx⟩ := mem_flatten.mp hmem
      obtain ⟨child, hc, hs⟩ := forall₂_exists_left hparts hpart
      exact hirr (.head' hc (hs.reaches hx))
    · exact nodup_flatten_of_forall₂ hparts ht.children_nodup (fun _ _ _ hs => ih hs)
        fun p q _ _ hp hq hne hsp hsq x hx hx' =>
          ht.disjoint_of_children hirr hp hq hne (hsp.reaches hx) (hsq.reaches hx')

theorem spells_tree (h : body.tree = .ok root) :
    body.Spells (body.exprs.size + body.stmts.size + 1) (.expr body.root) root.nodes :=
  ⟨root, h, rfl⟩

/-- In the tree of a tree-shaped body no position occurs twice. -/
theorem nodup_nodes (ht : body.TreeShaped) (h : body.tree = .ok root) : root.nodes.Nodup :=
  (spells_tree h).nodup ht

theorem Spells.lt_size (h : body.Spells levels node nodes) (hid : .expr id ∈ nodes) : id.index < body.exprs.size := by
  induction levels generalizing node nodes with
  | zero => exact absurd h not_spells_zero
  | succ levels ih =>
    have h' := h
    obtain ⟨parts, hparts, rfl⟩ := h.succ
    rcases mem_cons.mp hid with rfl | hid
    · obtain ⟨tree, hbuilt, -⟩ := h'
      by_contra hlt
      rw [exprTree, Array.getElem?_eq_none (Nat.le_of_not_lt hlt)] at hbuilt
      cases hbuilt
    · obtain ⟨part, hpart, hx⟩ := mem_flatten.mp hid
      obtain ⟨child, -, hs⟩ := forall₂_exists_left hparts hpart
      exact ih hs hx

end Body

end SsaCompiler
