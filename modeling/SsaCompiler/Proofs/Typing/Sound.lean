import SsaCompiler.Proofs.Typing.Accepted

/-!
# Checked bodies are typed

A body that is checked without a report satisfies the typing rules, and what it does to locals is
accounted for by its parts (`Check.sound_inferExpr`). Each form of expression is checked by checking
its parts one after another and then applying a rule. Its parts write at different positions, which
leaves each part its own entries and the rule the conversions of the parts (`Check.Room`).
-/

namespace SsaCompiler

open List TypingContext Stmt

namespace Check

variable {ctx : CheckContext} {units : List SourceUnit} {Γ : List Local} {depth : Nat} {site : Site}
  {s s' t : CheckState} {nodes nodes' : List Node} {cells own : Set Cell} {ids : List ExprId}
  {expr : Expr} {exprs : List Expr} {α β : Type}
variable {post : β → List Local → CheckState → CheckState → Prop} {annotated : Option Ty} {stmts : List Stmt}

/-! ## Entries -/

/-- The entries at some positions. -/
def cellsAt (nodes : List Node) : Set Cell := {cell | cell.node ∈ nodes}

/-- The entries that an expression may write before its type is recorded. -/
def innerCells (expr : Expr) : Set Cell := expr.cells \ {.type expr.id}

/-- The entries that only the rule of an expression may write. -/
def ownCells (expr : Expr) : Set Cell :=
  {cell | cell.node = .expr expr.id ∧ cell ≠ .conversion expr.id ∧ cell ≠ .type expr.id}

theorem cells_subset_cellsAt : expr.cells ⊆ cellsAt expr.nodes := fun _ h => h.1

theorem cellsAt_subset (h : nodes ⊆ nodes') : cellsAt nodes ⊆ cellsAt nodes' := fun _ hc => h hc

theorem cellsAt_subset_sdiff (h : nodes.Disjoint nodes') : cellsAt nodes' ⊆ cellsAt (nodes ++ nodes') \ cellsAt nodes :=
  fun _ hc => ⟨mem_append_right _ hc, fun hc' => h hc' hc⟩

/-- The entries at the positions inside an expression are written before its type is. -/
theorem cellsAt_subset_innerCells (h : expr.nodes.Nodup) : cellsAt expr.innerNodes ⊆ innerCells expr := by
  rw [expr.nodes_eq, nodup_cons] at h
  intro cell hc
  have hn : ∀ c : Cell, c.node = .expr expr.id → cell ≠ c := by
    rintro c hnode rfl
    exact h.1 (hnode ▸ hc)
  exact ⟨⟨expr.nodes_eq ▸ mem_cons_of_mem _ hc, hn _ rfl⟩, hn _ rfl⟩

variable {C : TypingContext} { annotation : Option TypeExpr} {infer : Check Ty} {bs : List β} {as : List α}
variable {span : FileSpan} {id : ExprId} {name : String} {inits : List Init} {parts : List (Site × Part)}
variable {type : Option TypeExpr}

/-! ## Expressions -/

theorem properIn_cons (h : (C.function.typeOf id).Proper C.decls.structs.size)
    (hn : C.ProperIn nodes) : C.ProperIn (.expr id :: nodes) := by
  intro i hi
  rcases mem_cons.mp hi with he | hi
  · obtain rfl := Node.expr.inj he
    exact h
  · exact hn i hi

theorem properIn_append (h : C.ProperIn nodes) (h' : C.ProperIn nodes') : C.ProperIn (nodes ++ nodes') :=
  fun i hi => (mem_append.mp hi).elim (h i) (h' i)

theorem properIn_nil : C.ProperIn [] := fun _ hi => nomatch hi

/-- What is known of an expression that was checked without a report. -/
structure ExprTyped (ctx : CheckContext) (Γ : List Local) (depth : Nat) (expr : Expr) (type : Ty)
    (t : CheckState) : Prop where
  typeOf : t.function.typeOf expr.id = type
  proper : type.Proper ctx.decls.structs.size
  typed : (ctx.typing t).Typed Γ depth expr
  properIn : (ctx.typing t).ProperIn expr.nodes

/-- An expression that is checked without a report is typed. -/
def Sound (ctx : CheckContext) (expr : Expr) : Prop :=
  ∀ ⦃Γ : List Local⦄ ⦃site : Site⦄ ⦃s : CheckState⦄, expr.nodes.Nodup → s.Consistent ctx Γ site.loops →
    Ensures ctx Γ site.loops expr.cells (expr.parts site) (inferExpr ctx expr) s (ExprTyped ctx Γ site.loops expr)

theorem recorded_ok {type : Ty} (h : (recorded expr infer : Check _).run s = .ok (type, s')) :
    ∃ s1 diverging, infer.run s = .ok (type, s1) ∧ s' = { s1 with function := { s1.function with
        exprTypes := s1.function.exprTypes.setIfInBounds expr.id.index type
        diverging := diverging } } := by
  obtain ⟨found, s1, h1, h⟩ := run_bind_eq_ok.mp h
  split at h
  · simp only [run_bind_eq_ok] at h
    obtain ⟨_, s2, h2, _, s3, h3, rfl, rfl⟩ := h
    obtain rfl := run_modify_eq_ok.mp h2
    obtain rfl := run_modify_eq_ok.mp h3
    exact ⟨s1, _, h1, rfl⟩
  · simp only [run_bind_eq_ok] at h
    obtain ⟨_, s3, h3, rfl, rfl⟩ := h
    obtain rfl := run_modify_eq_ok.mp h3
    exact ⟨s1, _, h1, rfl⟩

/-- An expression about which nothing but its type is recorded is a part to which nothing happens. -/
@[simp] def plainParts (site : Site) : Expr → List (Site × Part)
  | .var .. | .structLiteral .. => []
  | expr => [(site, .expr expr)]

/-- What is to be shown of the steps that infer the type of an expression. -/
def Infers (ctx : CheckContext) (Γ : List Local) (site : Site) (expr : Expr) (s : CheckState) (type : Ty)
    (Γ' : List Local) (s' t : CheckState) : Prop :=
  Γ' = Γ ∧ type.Proper ctx.decls.structs.size ∧
    (∃ parts, parts ⊆ expr.parts site ∧ expr.parts site ⊆ plainParts site expr ++ parts ∧ t.Accounts ctx parts s s') ∧
    (t.function.typeOf expr.id = type →
      (ctx.typing t).Typed Γ site.loops expr ∧ (ctx.typing t).ProperIn expr.innerNodes)

theorem infers {type : Ty} (hproper : type.Proper ctx.decls.structs.size)
    (a : t.Accounts ctx parts s s') (h : t.function.typeOf expr.id = type →
      (ctx.typing t).Typed Γ site.loops expr ∧ (ctx.typing t).ProperIn expr.innerNodes)
    (hparts : parts ⊆ expr.parts site ∧ expr.parts site ⊆ plainParts site expr ++ parts) :
    Infers ctx Γ site expr s type Γ s' t :=
  ⟨rfl, hproper, ⟨parts, hparts.1, hparts.2, a⟩, h⟩

/-- An expression is checked soundly if its type is inferred soundly before it is recorded. -/
theorem sound_of_infer (h : ∀ ⦃Γ : List Local⦄ ⦃site : Site⦄ ⦃s : CheckState⦄, expr.nodes.Nodup →
      s.Consistent ctx Γ site.loops → Declares ctx site.loops (innerCells expr) infer s (Infers ctx Γ site expr s))
    (he : inferExpr ctx expr = recorded expr infer) : Sound ctx expr := by
  intro Γ site s hnd hs type s' hrun hq hready
  rw [he] at hrun
  obtain ⟨s1, diverging, h1, rfl⟩ := recorded_ok hrun
  have hinner : innerCells expr ⊆ expr.cells := Set.sdiff_subset
  have hid : .type expr.id ∈ expr.cells := ⟨expr.id_mem_nodes, by simp⟩
  obtain ⟨Γ', hs1, hp, hpost⟩ := h hnd hs h1 hq (hready.sub hinner)
  obtain ⟨rfl, -⟩ := hpost s1 (.self ..)
  have hp' := CheckState.Progress.update (s1.function.updates_type expr.id type diverging)
  refine ⟨Γ', hs1.progress hp' hs1.shows, (hp.mono hinner).trans (hp'.mono (by simpa using hid)), fun t ht => ?_⟩
  obtain ⟨-, hproper, ⟨parts, hparts, hparts', a⟩, htyped⟩ := hpost t ((ht.sub hinner).back hp' fun _ hc => hc.2)
  have htype : t.function.typeOf expr.id = type := by
    refine Eq.trans (ht.same _ hid) ?_
    have hroom : expr.id.index < s1.function.exprTypes.size := hp.size ▸ hready.room hid
    simp [CheckedFunction.typeOf, Array.getElem?_setIfInBounds_self_of_lt hroom]
  obtain ⟨htree, hin⟩ := htyped htype
  refine ⟨rfl, ⟨htype, hproper, htree, ?_⟩, .mono (a.congr rfl rfl) (fun p hm => ?_) fun p hm => ?_⟩
  · rw [expr.nodes_eq]
    exact properIn_cons (htype ▸ hproper) hin
  · exact hparts hm
  · rcases mem_append.mp (hparts' hm) with hm | hm
    · cases expr <;> simp [plainParts] at hm <;> exact .inr (hm ▸ trivial)
    · exact .inl hm

/-! ## Forms without parts -/

theorem sound_literal {value : Literal} : Sound ctx (.literal id span value) := by
  refine sound_of_infer (fun Γ site s _ hs type s' h hq hready => ?_) (by rw [inferExpr])
  obtain ⟨rfl, hv⟩ := literal_ok h hq
  refine ⟨Γ, hs, .refl .., fun t _ => infers (proper_literal hv) (.nil rfl) (fun ht => ?_) (by simp [Expr.parts])⟩
  rw [← ht] at hv
  exact ⟨hv, properIn_nil⟩

theorem sound_var (hw : ctx.decls.WellFormed units) : Sound ctx (.var id span name) := by
  refine sound_of_infer (fun Γ site s _ hs => ?_) (by rw [inferExpr])
  refine (ensures_var hw hs).mono ?_ fun type s' t _ hv a => ?_
  · simp [innerCells, Expr.mem_cells, Cell.node, Expr.nodes]
  · have a' : t.Accounts ctx [(site, .expr (.var id span name))] s s' := a.cons hv.2.1
    exact infers hv.1 a' (fun ht => ⟨hv.2.2 ht, properIn_nil⟩) (by simp [Expr.parts])

theorem sound_leaveLoop : Sound ctx (.breakLoop id span) ∧ Sound ctx (.continueLoop id span) := by
  constructor <;> refine sound_of_infer (fun Γ site s _ hs type s' h hq _ => ?_) (by rw [inferExpr])
  all_goals
    obtain ⟨rfl, rfl, hd⟩ := expectLoop_ok hs h hq
    exact ⟨Γ, hs, .refl .., fun t _ => infers trivial (.nil rfl) (fun ht => ⟨⟨hd, ht⟩, properIn_nil⟩) (by simp [Expr.parts])⟩

/-! ## Parts one after another -/

/-- What is left for some expressions and for the rule that is applied after them: all entries at
their positions, the conversions of expressions before them and an entry of the rule's own. -/
structure Room (cells : Set Cell) (exprs : List Expr) (ids : List ExprId) (own : Set Cell) : Prop where
  nodup : (Expr.allNodes exprs).Nodup
  subset : cellsAt (Expr.allNodes exprs) ⊆ cells
  conversions : conversionsOf ids ⊆ cells
  others : ∀ id ∈ ids, .expr id ∉ Expr.allNodes exprs
  own_subset : own ⊆ cells
  apart : ∀ cell ∈ own, cell.node ∉ Expr.allNodes exprs

namespace Room

theorem of_cellsAt (h : (Expr.allNodes exprs).Nodup) : Room (cellsAt (Expr.allNodes exprs)) exprs [] ∅ :=
  ⟨h, subset_rfl, by simp [conversionsOf], by simp, Set.empty_subset _, by simp⟩

theorem of_innerNodes (h : expr.nodes.Nodup) (hn : expr.innerNodes = Expr.allNodes exprs) :
    Room (innerCells expr) exprs [] (ownCells expr) := by
  have hinner := cellsAt_subset_innerCells h
  rw [expr.nodes_eq, nodup_cons, hn] at h
  refine ⟨h.2, hn ▸ hinner, by simp [conversionsOf], by simp, fun cell hc => ?_, fun cell hc => hc.1 ▸ h.1⟩
  exact ⟨⟨hc.1 ▸ expr.id_mem_nodes, hc.2.1⟩, hc.2.2⟩

theorem of_stmt {id : StmtId} (h : (.stmt id :: expr.nodes).Nodup) :
    Room (cellsAt (.stmt id :: expr.nodes)) [expr] [] {.binding id} := by
  have hn : Expr.allNodes [expr] = expr.nodes := by simp [Expr.allNodes]
  obtain ⟨hid, hnd⟩ := nodup_cons.mp h
  refine ⟨hn ▸ hnd, hn ▸ cellsAt_subset (subset_cons_self ..), by simp [conversionsOf], by simp, ?_, ?_⟩
  · simp [cellsAt, Cell.node]
  · simpa [hn, Cell.node] using hid

theorem head (r : Room cells (expr :: exprs) ids own) : expr.nodes.Nodup :=
  (nodup_append'.mp r.nodup).1

theorem cells_subset (r : Room cells (expr :: exprs) ids own) : expr.cells ⊆ cells :=
  cells_subset_cellsAt.trans ((cellsAt_subset (subset_append_left ..)).trans r.subset)

theorem id_ne (r : Room cells (expr :: exprs) ids own) {id : ExprId} (h : id ∈ ids) : id ≠ expr.id := by
  rintro rfl
  exact r.others _ h (mem_append_left _ expr.id_mem_nodes)

theorem next (r : Room cells (expr :: exprs) ids own) : Room (cells \ expr.cells) exprs (ids ++ [expr.id]) own := by
  obtain ⟨-, hrest, hd⟩ := nodup_append'.mp r.nodup
  have hsub := r.subset
  refine ⟨hrest, fun cell hc => ⟨hsub (mem_append_right _ hc), fun hm => hd hm.1 hc⟩, ?_, ?_,
    fun cell hc => ⟨r.own_subset hc, fun hm => r.apart cell hc (mem_append_left _ hm.1)⟩,
    fun cell hc hm => r.apart cell hc (mem_append_right _ hm)⟩
  · rintro cell ⟨id, hid, rfl⟩
    rcases mem_append.mp hid with hid | hid
    · exact ⟨r.conversions ⟨id, hid, rfl⟩, fun hm => r.others id hid (mem_append_left _ hm.1)⟩
    · obtain rfl := mem_singleton.mp hid
      exact ⟨hsub (mem_append_left _ expr.id_mem_nodes), fun hm => hm.2 rfl⟩
  · intro id hid
    rcases mem_append.mp hid with hid | hid
    · exact fun hm => r.others id hid (mem_append_right _ hm)
    · obtain rfl := mem_singleton.mp hid
      exact hd expr.id_mem_nodes

theorem disjoint {other : Expr} (r : Room cells (expr :: other :: exprs) ids own) :
    ∀ cell ∈ expr.cells, cell ∉ other.cells := by
  obtain ⟨-, -, hd⟩ := nodup_append'.mp r.nodup
  exact fun _ hc hc' => hd hc.1 (mem_append_left _ hc'.1)

theorem unconverted (r : Room cells exprs ids own) (id : ExprId) (hid : id ∈ ids) {cells' : Set Cell}
    (hb : t.Blank (cells \ cells')) (hn : .conversion id ∉ cells') : t.function.coercions.get? id = none :=
  hb.unconverted ⟨r.conversions (mem_conversionsOf.mpr hid), hn⟩

end Room

theorem Room.bind {next : Ty → Check β} (r : Room cells (expr :: exprs) ids own) (h : Sound ctx expr)
    (hs : s.Consistent ctx Γ site.loops)
    (hn : ∀ type s1, s1.Consistent ctx Γ site.loops → s.Progress expr.cells s1 →
      Room (cells \ expr.cells) exprs (ids ++ [expr.id]) own → type.Proper ctx.decls.structs.size →
      Declares ctx site.loops (cells \ expr.cells) (next type) s1 fun b Γ' s' t => s1.Agrees expr.cells t →
        ExprTyped ctx Γ site.loops expr type t → t.Accounts ctx (expr.parts site) s s1 → post b Γ' s' t)
    [c : ∀ a, Cumulative (next a)] : Declares ctx site.loops cells (inferExpr ctx expr >>= next) s post :=
  (h r.head hs).bind r.cells_subset fun type s1 hs1 hp he => hn type s1 hs1 hp r.next he.proper

/-! ## Forms -/

theorem sound_binary {lhs rhs : Expr} (hL : Sound ctx lhs) (hR : Sound ctx rhs)
    {op : BinaryOp} : Sound ctx (.binary id span op lhs rhs) := by
  refine sound_of_infer (fun Γ site s hnd hs => ?_) (by rw [inferExpr])
  have r : Room _ [lhs, rhs] [] _ :=
    .of_innerNodes hnd (by simp [Expr.innerNodes, Expr.nodes, Expr.allNodes])
  refine r.bind hL hs fun left s1 hs1 _ r pl => ?_
  refine r.bind hR hs1 fun right s2 hs2 _ r' pr => ?_
  refine (ensures_binary hs2 pl pr (r.id_ne (by simp))).mono r'.conversions fun type s' t _ hb a _ ir a2 _ il a1 => ?_
  refine infers hb.1 (a1.append (a2.append a)) (fun ht => ?_) (by simp [Expr.parts])
  exact ⟨⟨il.typed, ir.typed, hb.2 il.typeOf ir.typeOf id ht⟩, properIn_append il.properIn ir.properIn⟩

theorem sound_unary (hw : ctx.decls.WellFormed units) {operand : Expr} (hO : Sound ctx operand)
    {op : UnaryOp} : Sound ctx (.unary id span op operand) := by
  refine sound_of_infer (fun Γ site s hnd hs => ?_) (by rw [inferExpr])
  have r : Room _ [operand] [] _ :=
    .of_innerNodes hnd (by simp [Expr.innerNodes, Expr.nodes, Expr.allNodes])
  refine r.bind hO hs fun type s1 hs1 _ r po => ?_
  refine (declares_unary hw hs1 po site id span op operand).mono (Set.empty_subset _)
    fun result Γ' s' t hb h hsame io a1 => ?_
  obtain ⟨rfl, hproper, h⟩ := h
  obtain ⟨hu, a⟩ := h hsame.same io.typed
  have hc := r.unconverted operand.id (by simp) hb (by simp)
  refine infers hproper (a1.append a) (fun ht => ?_) (by simp [Expr.parts])
  exact ⟨⟨io.typed, hu io.typeOf hc ht⟩, io.properIn⟩

theorem sound_field (hw : ctx.decls.WellFormed units) {base : Expr} (hB : Sound ctx base) :
    Sound ctx (.field id span base name) := by
  refine sound_of_infer (fun Γ site s hnd hs => ?_) (by rw [inferExpr])
  have r : Room _ [base] [] _ :=
    .of_innerNodes hnd (by simp [Expr.innerNodes, Expr.nodes, Expr.allNodes])
  refine r.bind hB hs fun type s1 hs1 _ r pb => ?_
  have hown : {.field id} ⊆ ownCells (.field id span base name) := by simp [ownCells, Cell.node, Expr.id]
  refine (ensures_field hw hs1 (Ty.ne_error_of_proper pb) id base name span).mono (hown.trans r.own_subset)
    fun result s' t hb hf a _ ib a1 => ?_
  have hc := r.unconverted base.id (by simp) hb (by simp)
  refine infers hf.1 (a1.append a) (fun ht => ?_) (by simp [Expr.parts])
  exact ⟨⟨ib.typed, hf.2 ib.typeOf hc ht⟩, ib.properIn⟩

theorem sound_assign (hw : ctx.decls.WellFormed units) {target value : Expr} (hT : Sound ctx target)
    (hV : Sound ctx value) : Sound ctx (.assign id span target value) := by
  refine sound_of_infer (fun Γ site s hnd hs => ?_) (by rw [inferExpr])
  have r : Room _ [target, value] [] _ :=
    .of_innerNodes hnd (by simp [Expr.innerNodes, Expr.nodes, Expr.allNodes])
  have hd := r.disjoint
  refine r.bind hT hs fun targetType s1 hs1 _ r pt => ?_
  refine r.bind hV hs1 fun valueType s2 hs2 p2 r' pv => ?_
  refine (declares_assignmentTarget hw hs2 id span target value).bind (Set.empty_subset _) fun _ Γ3 s3 hs3 p3 h3 => ?_
  obtain ⟨rfl, -⟩ := h3 s3 (.self ..)
  have hids : conversionsOf [value.id] ⊆ conversionsOf [target.id, value.id] := conversionsOf_subset (by simp)
  refine (ensures_assignable hs3 (Ty.ne_error_of_proper pv) (Ty.ne_error_of_proper pt)).bind
    (Set.subset_sdiff.mpr ⟨hids.trans r'.conversions, Set.disjoint_empty _⟩) fun _ s4 hs4 _ _ => ?_
  refine .pure hs4 fun t hb _ hv a4 ha _ iv a2 hsame it a1 => ?_
  have hcells : ∀ cell ∈ target.cells, t.function.Same s2.function cell := fun cell hc =>
    (hsame.same cell hc).trans (p2.same cell (hd cell hc)).symm
  obtain ⟨hassign, a3⟩ := (h3 t ha).2 hcells it.typed
  have hne : target.id ≠ value.id := r.id_ne (by simp)
  have hc : t.function.coercions.get? target.id = none :=
    hb.unconverted ⟨⟨r'.conversions (by simp), Set.notMem_empty _⟩, by simpa using hne⟩
  refine ⟨rfl, pt, ⟨_, ?_, ?_, a1.append (a2.append (a3.append a4))⟩, fun ht => ?_⟩
  · simp [Expr.parts]
  · intro p hp
    simp only [Expr.parts, mem_cons, mem_append] at hp ⊢
    tauto
  have htarget : (ctx.typing t).typeOf target = targetType := it.typeOf
  refine ⟨⟨it.typed, iv.typed, hc, hassign, ?_, ht.trans htarget.symm⟩, properIn_append it.properIn iv.properIn⟩
  rw [htarget]
  exact hv value rfl iv.typeOf

theorem sound_cond_none {condition thenBranch : Expr} (hC : Sound ctx condition) (hT : Sound ctx thenBranch) :
    Sound ctx (.cond id span condition thenBranch none) := by
  refine sound_of_infer (fun Γ site s hnd hs => ?_) (by rw [inferExpr])
  have r : Room _ [condition, thenBranch] [] _ :=
    .of_innerNodes hnd (by simp [Expr.innerNodes, Expr.nodes, Expr.allNodes])
  refine r.bind hC hs fun found s1 hs1 _ r pc => ?_
  refine .asking (expectBool_ok · · (Ty.ne_error_of_proper pc)) fun _ hfound => ?_
  subst hfound
  refine r.bind hT hs1 fun _ s2 hs2 _ r _ => ?_
  refine .pure hs2 fun t hb _ it a2 _ ic a1 => ?_
  have hunconverted : ∀ id ∈ [condition.id, thenBranch.id], t.function.coercions.get? id = none :=
    fun id hid => hb.unconverted (r.conversions (mem_conversionsOf.mpr hid))
  refine infers trivial (a1.append a2) (fun ht => ?_) (by simp [Expr.parts])
  exact ⟨⟨ic.typed, it.typed, usedAs_of_unconverted ic.typeOf (hunconverted _ (by simp)),
    hunconverted _ (by simp), ht⟩, properIn_append ic.properIn it.properIn⟩

theorem sound_cond_some {condition thenBranch elseBranch : Expr} (hC : Sound ctx condition)
    (hT : Sound ctx thenBranch) (hE : Sound ctx elseBranch) :
    Sound ctx (.cond id span condition thenBranch (some elseBranch)) := by
  refine sound_of_infer (fun Γ site s hnd hs => ?_) (by rw [inferExpr])
  have r : Room _ [condition, thenBranch, elseBranch] [] _ :=
    .of_innerNodes hnd (by simp [Expr.innerNodes, Expr.nodes, Expr.allNodes])
  refine r.bind hC hs fun found s1 hs1 _ r pc => ?_
  refine .asking (expectBool_ok · · (Ty.ne_error_of_proper pc)) fun _ hfound => ?_
  subst hfound
  refine r.bind hT hs1 fun thenType s2 hs2 _ r' pt => ?_
  refine r'.bind hE hs2 fun elseType s3 hs3 _ r'' pe => ?_
  have hids : conversionsOf [thenBranch.id, elseBranch.id] ⊆
      conversionsOf [condition.id, thenBranch.id, elseBranch.id] := conversionsOf_subset (by simp)
  refine (ensures_branches hs3 pt pe (r'.id_ne (by simp))).mono (hids.trans r''.conversions)
    fun type s' t hb h a _ ie a3 _ it a2 _ ic a1 => ?_
  obtain ⟨hproper, hdiverge, hbranches⟩ := h
  have hc := r''.unconverted condition.id (by simp) hb (by simp [r.id_ne, r'.id_ne])
  refine infers hproper (a1.append (a2.append (a3.append a))) (fun ht => ?_) (by simp [Expr.parts])
  obtain ⟨bt, be⟩ := hbranches it.typeOf ie.typeOf
  refine ⟨⟨ic.typed, it.typed, ie.typed, usedAs_of_unconverted ic.typeOf hc, ?_, ?_, ?_⟩,
    properIn_append ic.properIn (properIn_append it.properIn ie.properIn)⟩
  · exact ht ▸ bt
  · exact ht ▸ be
  · exact fun dt de => ht.trans (hdiverge dt de)

/-! ## Scopes -/

/-- What is checked in a new scope starts with the same locals in view, and afterwards they are in
view again. -/
theorem Ensures.inScope {kind : ScopeKind} {inside : Check α}
    {post : α → CheckState → Prop} (hs : s.Consistent ctx Γ depth)
    (h : ∀ s1, s1.Consistent ctx Γ (kind.depth depth) → Declares ctx (kind.depth depth) cells inside s1
      fun a _ s' t => post a t ∧ t.Accounts ctx parts s1 s') :
    Ensures ctx Γ depth cells parts (Check.inScope kind inside) s post := by
  intro a s' hrun hq hready
  obtain ⟨s2, outer, hin, hout, rfl⟩ := within_eq_ok.mp hrun
  have hsize := hs.shows.lt_size
  have hroot : ∀ name, (s.symbols.enter kind).tree.declaredAtRoot? name = s.symbols.tree.declaredAtRoot? name :=
    SymbolTable.declaredAtRoot?_enterOwned hs.shows.size_pos kind none
  have hs1 : CheckState.Consistent ctx Γ (kind.depth depth) { s with symbols := s.symbols.enter kind } :=
    ⟨hs.index, hs.result, SymbolTable.shows_enterOwned hs.shows,
      Nat.lt_of_le_of_lt (Nat.zero_le _) hsize, fun {name entry} he => hs.items ((hroot name).symm.trans he),
      hs.locals, hs.distinct⟩
  obtain ⟨Γ1, -, hp, hpost⟩ := h _ hs1 hin hq ⟨⟨hready.unconverted, hready.finite⟩, hready.room⟩
  have hp' := progress_inScope hp hout
  have hback : s2.symbols.tree.Shows s.symbols.current Γ depth :=
    hp.symbols.shows (SymbolTable.shows_enterOwned_outer hs.shows) hsize
  have hout' : outer.current = s.symbols.current ∧ outer.tree = s2.symbols.tree ∧
      outer.locals = s2.symbols.locals ∧ outer.unit = s2.symbols.unit := by
    have hcur := hp'.symbols.current
    simp only [SymbolTable.exit, bind_eq_ok] at hout
    obtain ⟨scope, -, hout⟩ := hout
    split at hout <;> simp only [Pure.pure, Except.pure, Except.ok.injEq, reduceCtorEq] at hout
    subst hout
    exact ⟨hcur, rfl, rfl, rfl⟩
  refine ⟨Γ, hs.progress hp' ?_, hp', fun t ht => ?_⟩
  · rw [hout'.1, hout'.2.1]
    exact hback
  · obtain ⟨ha, a⟩ := hpost t ⟨ht.unit.trans hout'.2.2.2, ht.result, ht.same, ht.memory, fun index hi => by
      simpa only [hout'.2.2.2] using ht.known index (hout'.2.2.1 ▸ hi)⟩
    exact ⟨rfl, ha, .congr a rfl rfl⟩

theorem sound_loop {condition body : Expr} (hC : Sound ctx condition) (hB : Sound ctx body) :
    Sound ctx (.loop id span condition body) := by
  refine sound_of_infer (fun Γ site s hnd hs => ?_) (by rw [inferExpr])
  have hr : Room _ [condition, body] [] _ :=
    .of_innerNodes hnd (by simp [Expr.innerNodes, Expr.nodes, Expr.allNodes])
  have hinside : ∀ s1, s1.Consistent ctx Γ (ScopeKind.depth .loop site.loops) →
      Declares ctx (ScopeKind.depth .loop site.loops) (cellsAt (Expr.allNodes [condition, body])) (do
        let type ← inferExpr ctx condition
        expectBool ctx condition type
        let _ ← inferExpr ctx body) s1 fun _ _ s' t =>
          ((ctx.typing t).Typed Γ (site.loops + 1) condition ∧ (ctx.typing t).Typed Γ (site.loops + 1) body ∧
            (ctx.typing t).UsedAs condition .bool ∧ (ctx.typing t).Unconverted body ∧
            (ctx.typing t).ProperIn (condition.nodes ++ body.nodes)) ∧
          t.Accounts ctx (condition.parts site.inLoop ++ body.parts site.inLoop) s1 s' := by
    intro s1 (hs1 : s1.Consistent ctx Γ site.inLoop.loops)
    refine (Room.of_cellsAt hr.nodup).bind hC hs1 fun found s2 hs2 _ r pc => ?_
    refine .asking (expectBool_ok · · (Ty.ne_error_of_proper pc)) fun _ hfound => ?_
    subst hfound
    refine r.bind hB hs2 fun _ s3 hs3 _ r _ => ?_
    refine .pure hs3 fun t hb _ ib a2 _ ic a1 => ?_
    have hunconverted : ∀ id ∈ [condition.id, body.id], t.function.coercions.get? id = none :=
      fun id hid => hb.unconverted (r.conversions (mem_conversionsOf.mpr hid))
    exact ⟨⟨ic.typed, ib.typed, usedAs_of_unconverted ic.typeOf (hunconverted _ (by simp)),
      hunconverted _ (by simp), properIn_append ic.properIn ib.properIn⟩, a1.append a2⟩
  refine (Ensures.inScope hs hinside).bind (c := fun _ => ?_) hr.subset fun _ s1 hs1 _ _ => ?_
  rotate_left
  · split <;> infer_instance
  · have hown : .infinite id ∈ innerCells (.loop id span condition body) \
        cellsAt (Expr.allNodes [condition, body]) :=
      ⟨hr.own_subset ⟨rfl, by simp, by simp⟩, hr.apart _ ⟨rfl, by simp, by simp⟩⟩
    split
    · rename_i htrue
      refine (Ensures.note hs1 (s1.function.updates_infinite id)).bind (by simpa using hown)
        fun _ s2 hs2 _ _ => .pure hs2 fun t _ _ hnote a2 _ h a1 => ?_
      have hinf : t.function.infiniteLoops.contains id = condition.isTrue := by
        rw [htrue]
        exact Eq.trans (hnote (.infinite id) rfl) (by simp)
      refine infers trivial (a1.append a2) (fun ht => ?_) (by simp [Expr.parts])
      exact ⟨⟨h.1, h.2.1, h.2.2.1, h.2.2.2.1, ht, hinf⟩, h.2.2.2.2⟩
    · rename_i hfalse
      refine .pure hs1 fun t hb _ h a1 => ?_
      have hinf : t.function.infiniteLoops.contains id = condition.isTrue := by
        rw [hb.finite hown, Bool.eq_false_iff.mpr hfalse]
      refine infers trivial a1 (fun ht => ?_) (by simp [Expr.parts])
      exact ⟨⟨h.1, h.2.1, h.2.2.1, h.2.2.2.1, ht, hinf⟩, h.2.2.2.2⟩

/-! ## Lists of expressions -/

theorem id_mem_allNodes (h : expr ∈ exprs) : .expr expr.id ∈ Expr.allNodes exprs := by
  rw [Expr.allNodes_eq_flatMap]
  exact mem_flatMap.mpr ⟨expr, h, expr.id_mem_nodes⟩

theorem nodup_ids (h : (Expr.allNodes exprs).Nodup) : (exprs.map Expr.id).Nodup := by
  induction exprs with
  | nil => exact nodup_nil
  | cons expr rest ih =>
    rw [Expr.allNodes, nodup_append'] at h
    rw [map_cons, nodup_cons]
    refine ⟨fun hm => ?_, ih h.2.1⟩
    obtain ⟨other, ho, he⟩ := mem_map.mp hm
    exact h.2.2 expr.id_mem_nodes (he ▸ id_mem_allNodes ho)

theorem allTyped_of_forall₂ {types : List Ty}
    (h : Forall₂ (fun expr type => ExprTyped ctx Γ depth expr type t) exprs types) :
    (ctx.typing t).AllTyped Γ depth exprs ∧ (ctx.typing t).ProperIn (Expr.allNodes exprs) := by
  induction h with
  | nil => exact ⟨trivial, properIn_nil⟩
  | cons he _ ih => exact ⟨⟨he.typed, ih.1⟩, properIn_append he.properIn ih.2⟩

theorem Room.bindAll {next : List Ty → Check β} (h : ∀ expr ∈ exprs, Sound ctx expr) (r : Room cells exprs ids own)
    (hs : s.Consistent ctx Γ site.loops)
    (hn : ∀ types s1 cells', s1.Consistent ctx Γ site.loops → Room cells' [] (ids ++ exprs.map Expr.id) own →
      Forall₂ (fun _ type => type.Proper ctx.decls.structs.size) exprs types →
      Declares ctx site.loops cells' (next types) s1 fun b Γ' s' t =>
        Forall₂ (fun expr type => ExprTyped ctx Γ site.loops expr type t) exprs types →
        t.Accounts ctx (Expr.allParts site exprs) s s1 → post b Γ' s' t)
    [c : ∀ a, Cumulative (next a)] : Declares ctx site.loops cells (inferExprs ctx exprs >>= next) s post := by
  induction exprs generalizing cells ids s next post with
  | nil =>
    refine (hn [] s cells hs (by simpa using r) .nil).mono subset_rfl fun _ _ _ _ _ h => ?_
    exact h .nil (.nil rfl)
  | cons expr exprs ih =>
    rw [inferExprs, bind_assoc]
    refine r.bind (h expr (by simp)) hs fun type s1 hs1 _ r pe => ?_
    rw [bind_assoc]
    refine ih (fun e he => h e (by simp [he])) r hs1 fun types s2 cells' hs2 r' ps => ?_
    refine (hn (type :: types) s2 cells' hs2 (by simpa using r') (.cons pe ps)).mono subset_rfl ?_
    exact fun _ _ _ _ _ h hs a2 _ he a1 => h (.cons he hs) (a1.append a2)

theorem of_mem_zip {R : α → β → Prop} (h : Forall₂ R as bs) {pair : α × β} (hp : pair ∈ as.zip bs) : R pair.1 pair.2 :=
  (List.forall₂_iff_zip.mp h).2 hp

theorem map_zip_fst {γ : Type} (f : α → γ) (h : as.length = bs.length) :
    (as.zip bs).map (fun pair => f pair.1) = as.map f := by
  conv_rhs => rw [← map_fst_zip h.le, map_map]
  rfl

theorem sound_call {callee : Expr} {args : List Expr} (hC : Sound ctx callee) (hA : ∀ arg ∈ args, Sound ctx arg) :
    Sound ctx (.call id span callee args) := by
  refine sound_of_infer (fun Γ site s hnd hs => ?_) (by rw [inferExpr])
  have r : Room _ (callee :: args) [] _ :=
    .of_innerNodes hnd (by simp [Expr.innerNodes, Expr.nodes, Expr.allNodes])
  refine r.bind hC hs fun calleeType s1 hs1 _ r pc => ?_
  refine r.bindAll hA hs1 fun types s2 cells' hs2 r' pa => ?_
  have hids : (args.zip types).map (·.1.id) = args.map Expr.id := map_zip_fst Expr.id pa.length_eq
  have hne : ∀ arg ∈ args.zip types, arg.2 ≠ .error := fun _ ha => Ty.ne_error_of_proper (of_mem_zip pa ha)
  refine (ensures_call hs2 pc hne (hids ▸ nodup_ids r.nodup)).mono ?_ fun type s' t hb hcall a it a2 _ ic a1 => ?_
  · rw [hids]
    exact (conversionsOf_subset (by simp)).trans r'.conversions
  have hc := r'.unconverted callee.id (by simp) hb ?_
  · refine infers hcall.1 (a1.append (a2.append a)) (fun ht => ?_) (by simp [Expr.parts])
    obtain ⟨ha, pr⟩ := allTyped_of_forall₂ it
    have := hcall.2 ic.typeOf hc (fun _ ha => (of_mem_zip it ha).typeOf) id ht
    rw [map_fst_zip pa.length_eq.le] at this
    exact ⟨⟨ic.typed, ha, this⟩, properIn_append ic.properIn pr⟩
  · rw [hids, mem_conversionsOf]
    intro hm
    obtain ⟨arg, ha, he⟩ := mem_map.mp hm
    exact r.others callee.id (by simp) (he ▸ id_mem_allNodes ha)

/-! ## Struct literals -/

theorem inferInits_eq : (inferInits ctx inits : Check _) = inferExprs ctx (inits.map Init.value) := by
  induction inits with
  | nil => rw [inferInits, map_nil, inferExprs]
  | cons init rest ih =>
    cases init
    rw [inferInits, ih]
    rfl

theorem allNodes_inits : Init.allNodes inits = Expr.allNodes (inits.map Init.value) := by
  induction inits with
  | nil => rw [Init.allNodes, map_nil, Expr.allNodes]
  | cons init rest ih =>
    cases init
    rw [Init.allNodes, ih]
    rfl

theorem allParts_inits : Init.allParts site inits = Expr.allParts site (inits.map Init.value) := by
  induction inits with
  | nil => rw [Init.allParts, map_nil, Expr.allParts]
  | cons init rest ih =>
    cases init
    rw [Init.allParts, ih]
    rfl

theorem initsTyped_iff : C.InitsTyped Γ depth inits ↔ C.AllTyped Γ depth (inits.map Init.value) := by
  induction inits with
  | nil => rw [InitsTyped, map_nil, AllTyped]
  | cons init rest ih =>
    cases init
    rw [InitsTyped, ih]
    rfl

theorem sound_structLiteral (hw : ctx.decls.WellFormed units) {fields : List Init}
    (hF : ∀ value ∈ fields.map Init.value, Sound ctx value) : Sound ctx (.structLiteral id span name fields) := by
  refine sound_of_infer (fun Γ site s hnd hs => ?_) (by rw [inferExpr])
  have r : Room _ (fields.map Init.value) [] _ :=
    .of_innerNodes hnd (by simp [Expr.innerNodes, Expr.nodes, allNodes_inits])
  rw [inferInits_eq]
  refine r.bindAll hF hs fun types s1 cells' hs1 r' pf => ?_
  rw [List.forall₂_map_left_iff] at pf
  have hids : (fields.zip types).map (·.1.value.id) = (fields.map Init.value).map Expr.id := by
    rw [map_map]
    exact map_zip_fst (fun init : Init => init.value.id) pf.length_eq
  have hne : ∀ init ∈ fields.zip types, init.2 ≠ .error :=
    fun _ hi => Ty.ne_error_of_proper (of_mem_zip pf hi)
  refine (ensures_structLiteral hw hs1 hne (hids ▸ nodup_ids r.nodup)).mono ?_ fun type s' t _ hlit a it a1 => ?_
  · rw [hids]
    refine Set.union_subset r'.conversions (subset_trans ?_ r'.own_subset)
    simp [ownCells, Cell.node, Expr.id]
  · obtain ⟨hv, pv⟩ := allTyped_of_forall₂ it
    rw [List.forall₂_map_left_iff] at it
    have hrecorded := hlit.2 fun _ hi => (of_mem_zip it hi).typeOf
    rw [map_fst_zip pf.length_eq.le] at hrecorded
    have hpart : t.PartRecorded ctx site.loops (.expr (.structLiteral id span name fields)) := hrecorded.1
    refine ⟨rfl, hlit.1, ⟨(site, .expr (.structLiteral id span name fields)) :: _, ?_, ?_, (a1.append a).cons hpart⟩,
      fun ht => ⟨⟨initsTyped_iff.mpr hv, hrecorded.2 ht⟩, ?_⟩⟩
    · simp [Expr.parts, allParts_inits]
    · simp [Expr.parts, allParts_inits]
    · simpa [Expr.innerNodes, Expr.nodes, allNodes_inits] using pv

/-! ## Statements -/

/-- A statement is checked soundly; it may declare a local. -/
def SoundStmt (ctx : CheckContext) (stmt : Stmt) : Prop :=
  ∀ ⦃Γ : List Local⦄ ⦃site : Site⦄ ⦃s : CheckState⦄, stmt.nodes.Nodup → s.Consistent ctx Γ site.loops →
    Declares ctx site.loops (cellsAt stmt.nodes) (checkStmt ctx stmt) s fun _ Γ' s' t =>
      Γ' = Γ ++ (ctx.typing t).declared site.loops stmt ∧ (ctx.typing t).StmtTyped Γ site.loops stmt ∧
        (ctx.typing t).ProperIn stmt.nodes ∧ t.Accounts ctx (stmt.parts site) s s'

/-- Statements are checked soundly, each with the locals of those before it in view. -/
def SoundStmts (ctx : CheckContext) (stmts : List Stmt) : Prop :=
  ∀ ⦃Γ : List Local⦄ ⦃site : Site⦄ ⦃s : CheckState⦄ (before : List Stmt), (allNodes stmts).Nodup →
    s.Consistent ctx Γ site.loops →
    Declares ctx site.loops (cellsAt (allNodes stmts)) (checkStmts ctx stmts) s fun _ Γ' s' t =>
      Γ' = Γ ++ (ctx.typing t).declaredAll site.loops stmts ∧
        (ctx.typing t).StmtsTyped Γ site.loops stmts ∧ (ctx.typing t).ProperIn (allNodes stmts) ∧
        t.Accounts ctx (allParts site before stmts) s s'

theorem properIn_stmt {id : StmtId} (h : C.ProperIn nodes) : C.ProperIn (.stmt id :: nodes) := by
  intro i hi
  rcases mem_cons.mp hi with he | hi
  · cases he
  · exact h i hi

theorem annotation_ok (hw : ctx.decls.WellFormed units)
    (h : ( annotation.mapM (annotatedType ctx) : Check _).run s = .ok (annotated, s')) (hq : s'.errors = []) :
    s' = s ∧ (∀ type ∈ annotated, type.Proper ctx.decls.structs.size) ∧
      ∀ (t : CheckState) (type : Ty) (init : Option Expr), (∀ a ∈ annotated, a = type) →
        (annotated = none → ∃ expr ∈ init, (ctx.typing t).typeOf expr = type) →
        (ctx.typing t).DeclaredType type annotation init := by
  cases annotation with
  | none =>
    obtain ⟨rfl, rfl⟩ := run_pure_eq_ok.mp h
    exact ⟨rfl, by simp, fun t type init _ hi => hi rfl⟩
  | some annotation =>
    simp only [Option.mapM_some, map_eq_pure_bind, run_bind_eq_ok] at h
    obtain ⟨found, s1, h1, rfl, rfl⟩ := h
    rcases annotatedType_cases h1 with ⟨rfl, hr⟩ | herror
    · refine ⟨rfl, fun type ht => ?_, fun t type init ha _ => ?_⟩
      · obtain rfl := Option.some.inj ht
        exact hw.resolveType hr
      · exact ha found rfl ▸ hr
    · exact absurd hq herror

theorem declares_let (init : Option Expr) (found : Ty)
    (hs : s.Consistent ctx Γ site.loops) (ha : ∀ type ∈ annotated, type.Proper ctx.decls.structs.size)
    (hf : ∀ expr ∈ init, found.Proper ctx.decls.structs.size)
    (hdeclared : ∀ (t : CheckState) (type : Ty), (∀ a ∈ annotated, a = type) →
      (annotated = none → ∃ expr ∈ init, (ctx.typing t).typeOf expr = type) →
      (ctx.typing t).DeclaredType type annotation init)
    (id : StmtId) (name : String) (span : FileSpan) :
    Declares ctx site.loops (conversionsOf (init.toList.map Expr.id) ∪ {.binding id})
      (letBinding ctx id name annotated (init.map fun expr => (expr.id, found)) span) s fun _ Γ' s' t =>
        Γ' = Γ ++ (ctx.typing t).declared site.loops (.bind id span name annotation init) ∧ t.Accounts ctx [] s s' ∧
        ((∀ expr ∈ init, (ctx.typing t).typeOf expr = found) → (ctx.typing t).LetTyped Γ id init ∧
          t.PartRecorded ctx site.loops (.stmt (.bind id span name annotation init))) := by
  refine (declares_letBinding hs ha hf).mono subset_rfl fun _ Γ' s' t _ h => ?_
  obtain ⟨index, type, rfl, hlet, htype, hd, htyped, a⟩ := h
  refine ⟨by simp [declared, hlet], a, fun ht => ⟨htyped ht, ?_⟩⟩
  refine ⟨index, type, hlet, htype.1, htype.2, hdeclared t type hd.1 fun hn => ?_⟩
  obtain ⟨expr, he, rfl⟩ := hd.2 hn
  exact ⟨expr, he, ht expr he⟩

theorem soundStmt_bind_none (hw : ctx.decls.WellFormed units) {id : StmtId} :
    SoundStmt ctx (.bind id span name type none) := by
  intro Γ site s hnd hs
  refine .asking (annotation_ok hw) fun annotated ha => ?_
  refine (declares_let none .unit hs ha.1 (by simp) (fun t type => ha.2 t type none) id name span).mono
    ?_ fun _ Γ' s' t _ h => ?_
  · simp [conversionsOf, cellsAt, Cell.node, nodes]
  · obtain ⟨hΓ, a, h⟩ := h
    obtain ⟨hlet, hr⟩ := h (by simp)
    exact ⟨hΓ, hlet, properIn_stmt properIn_nil, a.cons hr⟩

theorem soundStmt_bind_some (hw : ctx.decls.WellFormed units) {init : Expr} (hI : Sound ctx init) {id : StmtId} :
    SoundStmt ctx (.bind id span name type (some init)) := by
  intro Γ site s hnd hs
  have r : Room (cellsAt (.stmt id :: init.nodes)) [init] [] {.binding id} := .of_stmt hnd
  refine .asking (annotation_ok hw) fun annotated ha => ?_
  refine r.bind hI hs fun found s1 hs1 _ r pi => ?_
  refine (declares_let (some init) found hs1 ha.1 (fun _ _ => pi) (fun t type => ha.2 t type (some init))
    id name span).mono (Set.union_subset r.conversions r.own_subset) fun _ Γ' s' t _ h _ ii a1 => ?_
  obtain ⟨hΓ, a, h⟩ := h
  obtain ⟨hlet, hr⟩ := h fun expr he => Option.some.inj he ▸ ii.typeOf
  exact ⟨hΓ, ⟨ii.typed, hlet⟩, properIn_stmt ii.properIn, by simpa [parts] using (a1.append a).cons hr⟩

theorem soundStmt_eval (hE : Sound ctx expr) {id : StmtId} : SoundStmt ctx (.eval id span expr) := by
  intro Γ site s hnd hs
  refine (Room.of_stmt hnd).bind hE hs fun _ s1 hs1 _ r _ => ?_
  refine .pure hs1 fun t hb _ ie a1 => ?_
  exact ⟨by simp [declared], ⟨ie.typed, hb.unconverted (r.conversions (by simp))⟩,
    properIn_stmt ie.properIn, a1.cons trivial⟩

theorem soundStmt_ret_none (hres : ctx.result ≠ .error) {id : StmtId} : SoundStmt ctx (.ret id span none) := by
  intro Γ site s _ hs
  rw [checkStmt, emptyReturn]
  split
  · exact .report
  · rename_i hunit
    have hresult : ctx.result = .unit := by simpa [Ty.isError_eq_false hres, Ty.isUnit_eq_true] using hunit
    intro _ s' h _ _
    obtain ⟨-, rfl⟩ := run_pure_eq_ok.mp h
    refine ⟨Γ, hs, .refl .., fun t ht => ?_⟩
    exact ⟨by simp [declared], ht.result.trans (hs.result.trans hresult),
      properIn_stmt properIn_nil, (CheckState.Accounts.nil rfl).cons trivial⟩

theorem soundStmt_ret_some (hres : ctx.result ≠ .error) {value : Expr} (hV : Sound ctx value)
    {id : StmtId} : SoundStmt ctx (.ret id span (some value)) := by
  intro Γ site s hnd hs
  refine (Room.of_stmt hnd).bind hV hs fun found s1 hs1 _ r pv => ?_
  refine (ensures_assignable hs1 (Ty.ne_error_of_proper pv) hres).mono r.conversions fun _ s' t _ hv a ht iv a1 => ?_
  have a := a1.append a
  rw [append_nil] at a
  refine ⟨by simp [declared], ⟨iv.typed, ?_⟩, properIn_stmt iv.properIn, a.cons trivial⟩
  rw [show t.function.result = ctx.result from ht.result.trans hs1.result]
  exact hv value rfl iv.typeOf

theorem soundStmts_nil : SoundStmts ctx [] := by
  intro Γ site s before _ hs
  exact .pure hs fun t _ => ⟨by simp [declaredAll], trivial, properIn_nil, .nil rfl⟩

theorem soundStmts_cons {stmt : Stmt} {rest : List Stmt} (hS : SoundStmt ctx stmt)
    (hR : SoundStmts ctx rest) : SoundStmts ctx (stmt :: rest) := by
  intro Γ site s before hnd hs
  rw [allNodes, nodup_append'] at hnd
  obtain ⟨hnds, hndr, hd⟩ := hnd
  have hs : s.Consistent ctx Γ (site.inBlock before).loops := hs
  refine (hS hnds hs).bind (cellsAt_subset (subset_append_left ..)) fun _ Γ1 s1 hs1 _ h1 => ?_
  have hs1 : s1.Consistent ctx Γ1 site.loops := hs1
  refine (hR (before ++ [stmt]) hndr hs1).mono (cellsAt_subset_sdiff hd) fun _ Γ' s' t _ h2 ht => ?_
  obtain ⟨rfl, t1, pr1, a1⟩ := h1 t ht
  obtain ⟨rfl, t2, pr2, a2⟩ := h2
  exact ⟨by simp [declaredAll, Site.inBlock], ⟨t1, t2⟩, properIn_append pr1 pr2, a1.append a2⟩

/-! ## Blocks -/

theorem sound_block_none (hS : SoundStmts ctx stmts) : Sound ctx (.block id span stmts none) := by
  refine sound_of_infer (fun Γ site s hnd hs => ?_) (by rw [inferExpr])
  have hinner := cellsAt_subset_innerCells hnd
  rw [Expr.nodes_eq, nodup_cons] at hnd
  have hinside : ∀ s1, s1.Consistent ctx Γ (ScopeKind.depth .block site.loops) →
      Declares ctx (ScopeKind.depth .block site.loops) (cellsAt (allNodes stmts))
        (checkStmts ctx stmts) s1 fun _ _ s' t =>
          ((ctx.typing t).StmtsTyped Γ site.loops stmts ∧ (ctx.typing t).ProperIn (allNodes stmts)) ∧
          t.Accounts ctx (allParts site [] stmts) s1 s' := fun s1 (hs1 : s1.Consistent ctx Γ site.loops) =>
    (hS [] hnd.2 hs1).mono subset_rfl fun _ _ _ _ _ h => ⟨⟨h.2.1, h.2.2.1⟩, h.2.2.2⟩
  refine (Ensures.inScope hs hinside).bind hinner fun _ s1 hs1 _ _ => .pure hs1 fun t _ _ h a => ?_
  exact infers trivial a (fun ht => ⟨⟨h.1, ht⟩, h.2⟩) (by simp [Expr.parts])

theorem sound_block_some {tail : Expr} (hS : SoundStmts ctx stmts) (hT : Sound ctx tail) :
    Sound ctx (.block id span stmts (some tail)) := by
  refine sound_of_infer (fun Γ site s hnd hs => ?_) (by rw [inferExpr])
  have hi : (Expr.block id span stmts (some tail)).innerNodes = allNodes stmts ++ tail.nodes := by
    simp [Expr.innerNodes, Expr.nodes]
  have hinner := cellsAt_subset_innerCells hnd
  rw [Expr.nodes_eq, hi, nodup_cons, nodup_append'] at hnd
  obtain ⟨-, hnds, hndt, hd⟩ := hnd
  have hinside : ∀ s1, s1.Consistent ctx Γ (ScopeKind.depth .block site.loops) →
      Declares ctx (ScopeKind.depth .block site.loops) (cellsAt (allNodes stmts ++ tail.nodes)) (do
        checkStmts ctx stmts
        inferExpr ctx tail) s1 fun type _ s' t =>
          (type.Proper ctx.decls.structs.size ∧ (ctx.typing t).StmtsTyped Γ site.loops stmts ∧
            (ctx.typing t).Typed (Γ ++ (ctx.typing t).declaredAll site.loops stmts) site.loops tail ∧
            (ctx.typing t).Unconverted tail ∧ (ctx.typing t).typeOf tail = type ∧
            (ctx.typing t).ProperIn (allNodes stmts ++ tail.nodes)) ∧
          t.Accounts ctx (allParts site [] stmts ++ tail.parts (site.inBlock stmts)) s1 s' := by
    intro s1 (hs1 : s1.Consistent ctx Γ site.loops)
    refine (hS [] hnds hs1).bind (cellsAt_subset (subset_append_left ..)) fun _ Γ1 s2 hs2 _ h1 => ?_
    have hs2 : s2.Consistent ctx Γ1 (site.inBlock stmts).loops := hs2
    have ht := hT hndt hs2
    have htail := cellsAt_subset_sdiff hd
    refine Ensures.mono ht (cells_subset_cellsAt.trans htail) fun type s' t hb it a2 ht => ?_
    obtain ⟨rfl, ts, ps, a1⟩ := h1 t ht
    have hc : t.function.coercions.get? tail.id = none :=
      hb.unconverted ⟨htail tail.id_mem_nodes, fun hm => hm.2 rfl⟩
    exact ⟨⟨it.proper, ts, it.typed, hc, it.typeOf, properIn_append ps it.properIn⟩, a1.append a2⟩
  refine Ensures.mono (Ensures.inScope hs hinside) hinner fun type s' t _ h a => ?_
  obtain ⟨hproper, ts, tt, hc, htail, hin⟩ := h
  exact infers hproper a (fun ht => ⟨⟨ts, tt, hc, ht.trans htail.symm⟩, hin⟩) (by simp [Expr.parts])

/-! ## Bodies -/

mutual
/-- A body that is checked without a report is typed. -/
theorem sound_inferExpr (hw : ctx.decls.WellFormed units) (hres : ctx.result ≠ .error) : ∀ expr : Expr, Sound ctx expr
  | .literal .. => sound_literal
  | .var .. => sound_var hw
  | .binary _ _ _ lhs rhs => sound_binary (sound_inferExpr hw hres lhs) (sound_inferExpr hw hres rhs)
  | .unary _ _ _ operand => sound_unary hw (sound_inferExpr hw hres operand)
  | .call _ _ callee args => sound_call (sound_inferExpr hw hres callee) (sound_inferExprs hw hres args)
  | .assign _ _ target value => sound_assign hw (sound_inferExpr hw hres target) (sound_inferExpr hw hres value)
  | .cond _ _ condition thenBranch none =>
    sound_cond_none (sound_inferExpr hw hres condition) (sound_inferExpr hw hres thenBranch)
  | .cond _ _ condition thenBranch (some elseBranch) =>
    sound_cond_some (sound_inferExpr hw hres condition) (sound_inferExpr hw hres thenBranch)
      (sound_inferExpr hw hres elseBranch)
  | .loop _ _ condition body => sound_loop (sound_inferExpr hw hres condition) (sound_inferExpr hw hres body)
  | .block _ _ stmts none => sound_block_none (soundStmts_checkStmts hw hres stmts)
  | .block _ _ stmts (some tail) =>
    sound_block_some (soundStmts_checkStmts hw hres stmts) (sound_inferExpr hw hres tail)
  | .field _ _ base _ => sound_field hw (sound_inferExpr hw hres base)
  | .structLiteral _ _ _ fields => sound_structLiteral hw (sound_inferInits hw hres fields)
  | .breakLoop .. => sound_leaveLoop.1
  | .continueLoop .. => sound_leaveLoop.2

theorem sound_inferExprs (hw : ctx.decls.WellFormed units) (hres : ctx.result ≠ .error) :
    ∀ exprs : List Expr, ∀ expr ∈ exprs, Sound ctx expr
  | expr :: rest, _, h => (mem_cons.mp h).elim (· ▸ sound_inferExpr hw hres expr)
      (sound_inferExprs hw hres rest _)

theorem sound_inferInits (hw : ctx.decls.WellFormed units) (hres : ctx.result ≠ .error) :
    ∀ inits : List Init, ∀ expr ∈ inits.map Init.value, Sound ctx expr
  | .mk _ _ value :: rest, _, h => (mem_cons.mp h).elim (· ▸ sound_inferExpr hw hres value)
      (sound_inferInits hw hres rest _)

theorem soundStmt_checkStmt (hw : ctx.decls.WellFormed units) (hres : ctx.result ≠ .error) :
    ∀ stmt : Stmt, SoundStmt ctx stmt
  | .bind _ _ _ _ none => soundStmt_bind_none hw
  | .bind _ _ _ _ (some init) => soundStmt_bind_some hw (sound_inferExpr hw hres init)
  | .eval _ _ expr => soundStmt_eval (sound_inferExpr hw hres expr)
  | .ret _ _ none => soundStmt_ret_none hres
  | .ret _ _ (some value) => soundStmt_ret_some hres (sound_inferExpr hw hres value)

theorem soundStmts_checkStmts (hw : ctx.decls.WellFormed units) (hres : ctx.result ≠ .error) :
    ∀ stmts : List Stmt, SoundStmts ctx stmts
  | [] => soundStmts_nil
  | stmt :: rest => soundStmts_cons (soundStmt_checkStmt hw hres stmt) (soundStmts_checkStmts hw hres rest)
end

end Check

end SsaCompiler
