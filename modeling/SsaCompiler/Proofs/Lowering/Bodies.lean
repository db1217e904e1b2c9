import SsaCompiler.Proofs.Lowering.Expressions
import SsaCompiler.Proofs.Syntax.Sites

/-!
# Lowering bodies

Every typed expression is lowered as its record says (`World.lowersOk`), by induction on its tree.
-/

namespace SsaCompiler

open List TypingContext

namespace TypingContext

variable {C : TypingContext}

theorem ProperIn.mono {nodes more : List Node} (h : C.ProperIn more) (hs : nodes ⊆ more) : C.ProperIn nodes :=
  fun id hid => h id (hs hid)

theorem ProperIn.typeOf {expr : Expr} (h : C.ProperIn expr.nodes) :
    (C.typeOf expr).Proper C.decls.structs.size := h expr.id expr.id_mem_nodes

theorem Assignable.stored {Γ : List Local} {depth : Nat} {target : Expr} (h : C.Assignable Γ depth target)
    (hne : ∀ id span name, target ≠ .var id span name) : C.Stored Γ target := by
  cases target with
  | var id span name => exact absurd rfl (hne id span name)
  | _ => exact h

end TypingContext

namespace Setting

variable {X : Setting} {expr : Expr}
variable {id : ExprId} {units : List SourceUnit} {inits : List Init} {type : Ty}

theorem converts_of_unconverted (h : X.typing.Unconverted expr) : X.Converts expr := by
  intro target ht
  have h : X.function.coercions.get? expr.id = none := h
  rw [h] at ht
  cases ht

theorem converts_of_usedAs (h : X.typing.UsedAs expr type) (hp : X.typing.ProperIn expr.nodes)
    (ht : type.Proper X.decls.structs.size) : X.Converts expr := by
  intro target hco
  obtain ⟨hused, hun | hw⟩ := h
  · exact converts_of_unconverted hun target hco
  · unfold usedType at hused
    rw [show X.typing.function.coercions.get? expr.id = some target from hco, Option.getD_some] at hused
    exact hused ▸ .of_widensTo hw hp.typeOf ht

theorem converts_of_branchTyped (h : X.typing.BranchTyped type expr)
    (hp : X.typing.ProperIn expr.nodes) (ht : type.Proper X.decls.structs.size) : X.Converts expr :=
  h.elim (fun hused => converts_of_usedAs hused hp ht) fun h => converts_of_unconverted h.2

theorem converts_of_passedExtra (h : X.typing.PassedExtra expr) : X.Converts expr := by
  intro target hco
  unfold PassedExtra at h
  rw [show X.typing.function.coercions.get? expr.id = some target from hco] at h
  exact .of_extraArgument? h

theorem converts_of_argsTyped {varargs : Bool} {args : List Expr} {params : List Ty}
    (h : X.typing.ArgsTyped varargs args params) (hp : X.typing.ProperIn (Expr.allNodes args))
    (ht : Ty.AllProper X.decls.structs.size params) : ∀ arg ∈ args, X.Converts arg := by
  induction args generalizing params with
  | nil => simp
  | cons arg rest ih =>
    have hp1 : X.typing.ProperIn arg.nodes := hp.mono (subset_append_left ..)
    have hp2 : X.typing.ProperIn (Expr.allNodes rest) := hp.mono (subset_append_right ..)
    intro arg' hmem
    cases params with
    | nil =>
      rcases mem_cons.mp hmem with rfl | hmem
      · exact converts_of_passedExtra h.2.1
      · exact ih h.2.2 hp2 ht arg' hmem
    | cons param params =>
      rcases mem_cons.mp hmem with rfl | hmem
      · exact converts_of_usedAs h.1 hp1 ht.1
      · exact ih h.2 hp2 ht.2 arg' hmem

theorem converts_of_binaryTyped {op : BinaryOp} {lhs rhs : Expr} (h : X.typing.BinaryTyped id op lhs rhs)
    (hl : X.typing.ProperIn lhs.nodes) (hr : X.typing.ProperIn rhs.nodes) : X.Converts lhs ∧ X.Converts rhs := by
  unfold BinaryTyped at h
  split at h
  · exact ⟨converts_of_usedAs h.1 hl trivial, converts_of_usedAs h.2.1 hr trivial⟩
  · obtain ⟨type, hlhs, hrhs, htype, -⟩ := h
    have hp : type.Proper X.decls.structs.size := htype.elim (fun h => h ▸ hl.typeOf) fun h => h ▸ hr.typeOf
    exact ⟨converts_of_usedAs hlhs hl hp, converts_of_usedAs hrhs hr hp⟩

theorem converts_of_literalTyped (hX : X.Fits units) (h : X.typing.LiteralTyped id inits)
    (hp : X.typing.ProperIn (Init.allNodes inits)) : ∀ init ∈ inits, X.Converts init.value := by
  obtain ⟨ref, struct, -, hs, -, -, -, hin⟩ := h
  intro init hmem
  obtain ⟨position, -, field, hf, hused⟩ := forall₂_exists_right hin hmem
  refine converts_of_usedAs hused (hp.mono fun node hnode => ?_) (hX.wellFormed.struct? hs hf).1
  rw [Init.allNodes_eq_flatMap]
  refine mem_flatMap.mpr ⟨init, hmem, ?_⟩
  cases init
  exact hnode

theorem Converts.typeOf_eq_unit (h : X.Converts expr) (hu : X.typing.usedType expr = .unit) :
    X.typing.typeOf expr = .unit := by
  unfold usedType at hu
  cases hco : X.typing.function.coercions.get? expr.id with
  | none => rwa [hco] at hu
  | some target =>
    rw [hco, Option.getD_some] at hu
    exact absurd hu (h target hco).ne_unit.2

/-- The types recorded at some positions are proper, and every argument among some parts has a value, or it
is known that one may not. -/
structure Ready (X : Setting) (nodes : List Node) (parts : List (Site × Part)) : Prop where
  proper : X.typing.ProperIn nodes
  passes : ∀ p ∈ parts, ∀ arg, (.argument, arg) ∈ p.2.asks → X.typing.typeOf arg = .unit → X.passesUnit

theorem Ready.mono {nodes nodes' : List Node} {parts parts' : List (Site × Part)} (h : X.Ready nodes' parts')
    (hn : nodes ⊆ nodes' := by exact fun _ hn => by simp [Expr.nodes, Stmt.nodes, hn])
    (hs : parts ⊆ parts' := by exact fun _ hp => by simp [Expr.parts, Stmt.parts, hp]) : X.Ready nodes parts :=
  ⟨h.proper.mono hn, fun p hp => h.passes p (hs hp)⟩

abbrev ReadyFor (X : Setting) (site : Site) (expr : Expr) : Prop := X.Ready expr.nodes (expr.parts site)

/-- Initializers have values, since fields do. -/
theorem usedType_ne_unit_of_literalTyped (hX : X.Fits units) (h : X.typing.LiteralTyped id inits) :
    ∀ init ∈ inits, X.typing.usedType init.value ≠ .unit := by
  obtain ⟨ref, struct, -, hs, -, -, -, hin⟩ := h
  intro init hmem
  obtain ⟨position, -, field, hf, hused⟩ := forall₂_exists_right hin hmem
  rw [hused.1]
  exact (hX.wellFormed.struct? hs hf).2

end Setting

namespace World

open Setting

variable {units : List SourceUnit} {X : Setting}

mutual
theorem lowersOk (hX : X.Fits units) : ∀ {Γ : List Local} {depth : Nat} {site : Site} (expr : Expr),
    X.typing.Typed Γ depth expr → X.ReadyFor site expr → X.Converts expr → LowersOk X Γ depth expr
  | _, _, _, .literal id span value, ht, _, hc => by
    exact fun w breaks h _ => .coerced hc ((h.yields_literal ht).mono fun _ _ hq => ⟨hq, rfl⟩)
  | _, _, _, .var id span name, ht, _, hc => by
    exact fun w breaks h _ => .coerced hc ((h.yields_var hX ht).mono fun _ _ hq => ⟨hq, rfl⟩)
  | _, _, site, .binary id span op lhs rhs, ht, hp, hc => by
    obtain ⟨hl, hr, ht⟩ := ht
    have hp1 : X.ReadyFor site lhs := hp.mono
    have hp2 : X.ReadyFor site rhs := hp.mono
    obtain ⟨hc1, hc2⟩ := converts_of_binaryTyped ht hp1.proper hp2.proper
    exact lowersOk_binary hX hc (lowersOk hX lhs hl hp1 hc1) (lowersOk hX rhs hr hp2 hc2) ht
  | _, _, site, .unary id span op operand, ht, hp, hc => by
    obtain ⟨ho, ht⟩ := ht
    have hp1 : X.ReadyFor site operand := hp.mono
    refine lowersOk_unary hX hc hp.proper.typeOf
      (fun _ => lowersOk hX operand ho hp1 (converts_of_unconverted ht.1)) ?_ ht
    rintro rfl
    exact placesOk hX operand ho hp1 ht.2.1 fun _ => ht.2.2.1
  | _, _, site, .call id span callee args, ht, hp, hc => by
    obtain ⟨hcallee, hargs, ht⟩ := ht
    have hp1 : X.ReadyFor site callee := hp.mono
    have hp2 : X.Ready (Expr.allNodes args) (Expr.allParts site args) := hp.mono
    have hun := ht.1
    obtain ⟨params, varargs, htype, hat⟩ := ht.2
    have hparams := hp1.proper.typeOf
    rw [htype] at hparams
    have hpasses : ∀ arg ∈ args, X.typing.typeOf arg = .unit → X.passesUnit := fun arg ha =>
      hp.passes (site, .expr (.call id span callee args)) (.head _) arg (.tail _ (mem_map_of_mem ha))
    exact lowersOk_call hX hc (lowersOk hX callee hcallee hp1 (converts_of_unconverted hun))
      (valuesOk hX args hargs hp2 hpasses (converts_of_argsTyped hat hp2.proper hparams.1)) hcallee hp1.proper.typeOf ht
  | _, _, site, .assign id span target value, ht, hp, hc => by
    obtain ⟨htarget, hvalue, hun, ha, hused, ht⟩ := ht
    have hp1 : X.ReadyFor site target := hp.mono
    have hp2 : X.ReadyFor site value := hp.mono
    refine lowersOk_assign hX hc
      (lowersOk hX value hvalue hp2 (converts_of_usedAs hused hp2.proper hp1.proper.typeOf))
      (fun hne => placesOk hX target htarget hp1 (ha.stored hne) ?_) htarget ha hused ht
    rintro ⟨id, span, name, rfl⟩
    exact absurd rfl (hne id span name)
  | _, _, site, .cond id span condition thenBranch none, ht, hp, hc => by
    obtain ⟨hcond, hthen, hbool, hun, ht⟩ := ht
    have hp1 : X.ReadyFor site condition := hp.mono
    have hp2 : X.ReadyFor site thenBranch := hp.mono
    exact lowersOk_ifThen hX hc (lowersOk hX condition hcond hp1 (converts_of_usedAs hbool hp1.proper trivial))
      (lowersOk hX thenBranch hthen hp2 (converts_of_unconverted hun)) hbool ht
  | _, _, site, .cond id span condition thenBranch (some elseBranch), ht, hp, hc => by
    obtain ⟨hcond, hthen, helse, hbool, ht1, ht2, -⟩ := ht
    have hp1 : X.ReadyFor site condition := hp.mono
    have hp2 : X.ReadyFor site thenBranch := hp.mono
    have hp3 : X.ReadyFor site elseBranch := hp.mono
    exact lowersOk_ifThenElse hX hc hp.proper.typeOf
      (lowersOk hX condition hcond hp1 (converts_of_usedAs hbool hp1.proper trivial))
      (lowersOk hX thenBranch hthen hp2 (converts_of_branchTyped ht1 hp2.proper hp.proper.typeOf))
      (lowersOk hX elseBranch helse hp3 (converts_of_branchTyped ht2 hp3.proper hp.proper.typeOf)) hbool ht1 ht2
  | _, _, site, .loop id span condition body, ht, hp, hc => by
    obtain ⟨hcond, hbody, hbool, hun, ht, hinf⟩ := ht
    have hp1 : X.ReadyFor site.inLoop condition := hp.mono
    have hp2 : X.ReadyFor site.inLoop body := hp.mono
    exact lowersOk_loop hc (lowersOk hX condition hcond hp1 (converts_of_usedAs hbool hp1.proper trivial))
      (lowersOk hX body hbody hp2 (converts_of_unconverted hun)) hbool ht hinf
  | _, _, site, .block id span stmts none, ht, hp, hc => by
    have hp1 : X.Ready (Stmt.allNodes stmts) (Stmt.allParts site [] stmts) := hp.mono
    exact lowersOk_block hc (stmtsOk hX stmts ht.1 hp1) (by simp) fun _ => ht.2
  | _, _, site, .block id span stmts (some tail), ht, hp, hc => by
    obtain ⟨hs, htail, hun, ht⟩ := ht
    have hp1 : X.Ready (Stmt.allNodes stmts) (Stmt.allParts site [] stmts) := hp.mono
    have hp2 : X.ReadyFor (site.inBlock stmts) tail := hp.mono
    refine lowersOk_block hc (stmtsOk hX stmts hs hp1) ?_ (by simp)
    rintro expr hexpr
    cases hexpr
    exact ⟨lowersOk hX tail htail hp2 (converts_of_unconverted hun), hun, ht⟩
  | _, _, site, .field id span base name, ht, hp, hc => by
    obtain ⟨hbase, ht⟩ := ht
    have hp1 : X.ReadyFor site base := hp.mono
    exact lowersOk_field hX hc (lowersOk hX base hbase hp1 (converts_of_unconverted ht.1))
      (fun hs hu => placesOk hX base hbase hp1 hs fun _ => hu) hbase ht
  | _, _, site, .structLiteral id span name fields, ht, hp, hc => by
    obtain ⟨hinits, ht⟩ := ht
    have hp1 : X.Ready (Init.allNodes fields) (Init.allParts site fields) := hp.mono
    exact lowersOk_structLiteral hX hc (initsOk hX fields hinits hp1 (usedType_ne_unit_of_literalTyped hX ht)
        (converts_of_literalTyped hX ht hp1.proper)) ht
  | _, _, _, .breakLoop id span, ht, _, hc => by
    intro w breaks h hb
    obtain rfl := hb rfl
    exact .coerced hc (h.yields_break ht.1)
  | _, _, _, .continueLoop id span, ht, _, hc => by
    exact fun w breaks h _ => .coerced hc (h.yields_continue ht.1)

theorem placesOk (hX : X.Fits units) : ∀ {Γ : List Local} {depth : Nat} {site : Site} (expr : Expr),
    X.typing.Typed Γ depth expr → X.ReadyFor site expr → X.typing.Stored Γ expr →
    ((∃ id span name, expr = .var id span name) → X.typing.typeOf expr ≠ .unit) → PlacesOk X Γ depth expr
  | _, _, _, .var id span name, ht, _, hs, hu => by
    have hu := hu ⟨id, span, name, rfl⟩
    exact fun w breaks h _ => (h.yields_variablePlace hX ht hs hu).mono fun _ _ hq => ⟨hq, rfl⟩
  | _, _, site, .field id span base name, ht, hp, hs, _ => by
    obtain ⟨hbase, ht⟩ := ht
    have hp1 : X.ReadyFor site base := hp.mono
    exact placesOk_field hX (lowersOk hX base hbase hp1 (converts_of_unconverted ht.1))
      (fun hs hu => placesOk hX base hbase hp1 hs fun _ => hu) ht hs
  | _, _, site, .unary id span .deref operand, ht, hp, _, _ => by
    obtain ⟨ho, ht⟩ := ht
    have hp1 : X.ReadyFor site operand := hp.mono
    exact placesOk_deref (lowersOk hX operand ho hp1 (converts_of_unconverted ht.1)) ht
  | _, _, _, .literal .., _, _, hs, _ | _, _, _, .binary .., _, _, hs, _ | _, _, _, .unary _ _ .neg _, _, _, hs, _
  | _, _, _, .unary _ _ .not _, _, _, hs, _ | _, _, _, .unary _ _ .addrOf _, _, _, hs, _
  | _, _, _, .call .., _, _, hs, _ | _, _, _, .assign .., _, _, hs, _ | _, _, _, .cond .., _, _, hs, _
  | _, _, _, .loop .., _, _, hs, _ | _, _, _, .block .., _, _, hs, _ | _, _, _, .structLiteral .., _, _, hs, _
  | _, _, _, .breakLoop .., _, _, hs, _ | _, _, _, .continueLoop .., _, _, hs, _ => by simp only [Stored] at hs

theorem valuesOk (hX : X.Fits units) : ∀ {Γ : List Local} {depth : Nat} {site : Site} (exprs : List Expr),
    X.typing.AllTyped Γ depth exprs → X.Ready (Expr.allNodes exprs) (Expr.allParts site exprs) →
    (∀ expr ∈ exprs, X.typing.typeOf expr = .unit → X.passesUnit) →
    (∀ expr ∈ exprs, X.Converts expr) → ValuesOk X Γ depth exprs
  | _, _, _, [], _, _, _, _ => valuesOk_nil
  | _, _, site, expr :: rest, ht, hp, hu, hc => by
    exact valuesOk_cons (lowersOk hX expr ht.1 (hp.mono (subset_append_left ..) (subset_append_left ..))
        (hc expr (.head _)))
      (fun he => hu expr (.head _) ((hc expr (.head _)).typeOf_eq_unit he))
      (valuesOk hX rest ht.2 (hp.mono (subset_append_right ..) (subset_append_right ..))
        (fun e he => hu e (.tail _ he)) fun e he => hc e (.tail _ he))

theorem initsOk (hX : X.Fits units) : ∀ {Γ : List Local} {depth : Nat} {site : Site} (inits : List Init),
    X.typing.InitsTyped Γ depth inits → X.Ready (Init.allNodes inits) (Init.allParts site inits) →
    (∀ init ∈ inits, X.typing.usedType init.value ≠ .unit) →
    (∀ init ∈ inits, X.Converts init.value) → InitsOk X Γ depth inits
  | _, _, _, [], _, _, _, _ => initsOk_nil
  | _, _, site, .mk name span value :: rest, ht, hp, hu, hc => by
    exact initsOk_cons (lowersOk hX value ht.1 (hp.mono (subset_append_left ..) (subset_append_left ..))
        (hc _ (.head _))) (hu _ (.head _))
      (initsOk hX rest ht.2 (hp.mono (subset_append_right ..) (subset_append_right ..))
        (fun e he => hu e (.tail _ he)) fun e he => hc e (.tail _ he))

theorem stmtOk (hX : X.Fits units) : ∀ {Γ : List Local} {depth : Nat} {site : Site} (stmt : Stmt),
    X.typing.StmtTyped Γ depth stmt → X.Ready stmt.nodes (stmt.parts site) → StmtOk X Γ depth stmt
  | _, _, _, .bind id span name type none, ht, _ => by
    exact stmtOk_bind hX (by simp) ht
  | _, _, site, .bind id span name type (some init), ht, hp => by
    obtain ⟨hinit, ht⟩ := ht
    have hp1 : X.ReadyFor site init := hp.mono
    refine stmtOk_bind hX ?_ ht
    rintro expr hexpr
    cases hexpr
    obtain ⟨-, -, type, -, -, -, hproper, hused⟩ := ht
    exact lowersOk hX init hinit hp1 (converts_of_usedAs (hused init rfl) hp1.proper hproper)
  | _, _, site, .eval id span expr, ht, hp => by
    have hp1 : X.ReadyFor site expr := hp.mono
    exact stmtOk_eval (lowersOk hX expr ht.1 hp1 (converts_of_unconverted ht.2))
  | _, _, _, .ret id span none, ht, _ => by
    exact stmtOk_ret hX (by simp) (fun _ => ht) (by simp)
  | _, _, site, .ret id span (some value), ht, hp => by
    obtain ⟨hvalue, hused⟩ := ht
    have hp1 : X.ReadyFor site value := hp.mono
    refine stmtOk_ret hX ?_ (by simp) ?_
    · rintro expr hexpr
      cases hexpr
      exact lowersOk hX value hvalue hp1 (converts_of_usedAs hused hp1.proper hX.properResult)
    · rintro expr hexpr
      cases hexpr
      exact hused

theorem stmtsOk (hX : X.Fits units) : ∀ {Γ : List Local} {depth : Nat} {site : Site} {before : List Stmt} (stmts : List Stmt),
    X.typing.StmtsTyped Γ depth stmts → X.Ready (Stmt.allNodes stmts) (Stmt.allParts site before stmts) →
    StmtsOk X Γ depth stmts
  | _, _, _, _, [], _, _ => stmtsOk_nil
  | _, _, site, before, stmt :: rest, ht, hp => by
    exact stmtsOk_cons (stmtOk hX stmt ht.1 (hp.mono (subset_append_left ..) (subset_append_left ..)))
      (stmtsOk hX rest ht.2 (hp.mono (subset_append_right ..) (subset_append_right ..)))
end

end World

end SsaCompiler
