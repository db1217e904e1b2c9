import SsaCompiler.Proofs.Checking.Compared
import SsaCompiler.Proofs.Syntax.Tree
import SsaCompiler.Proofs.Table
import Mathlib.Order.BooleanAlgebra.Set

/-!
# What checking leaves alone

The record of a function is looked at entry by entry (`Cell`). A run of checking that ends in the
scope it started in may change some entries and declare locals, and leaves the rest of the record and
every scope but the current one as it is (`CheckState.Progress`). No step takes back an error
(`Check.Cumulative`), so a run that ends without one had none on the way.
-/

namespace SsaCompiler

open List

/-- A symbol table after steps that end in the scope they started in. -/
structure SymbolTable.Extends {τ : Type} (t t' : SymbolTable τ) : Prop where
  index : t'.index = t.index
  unit : t'.unit = t.unit
  current : t'.current = t.current
  locals : t.locals.toList <+: t'.locals.toList
  scopes : ∀ {i : Nat} {scope : Scope}, t.tree.scopes[i]? = some scope → ∃ entries,
    t'.tree.scopes[i]? = some { scope with entries := entries } ∧ (i ≠ t.current.index → entries = scope.entries)

namespace SymbolTable.Extends

variable {τ : Type} {t t' t'' : SymbolTable τ}

theorem refl (t : SymbolTable τ) : t.Extends t :=
  ⟨rfl, rfl, rfl, prefix_rfl, fun {_ scope} h => ⟨scope.entries, h, fun _ => rfl⟩⟩

theorem trans (h : t.Extends t') (h' : t'.Extends t'') : t.Extends t'' where
  index := h'.index.trans h.index
  unit := h'.unit.trans h.unit
  current := h'.current.trans h.current
  locals := h.locals.trans h'.locals
  scopes := by
    intro i scope hs
    obtain ⟨entries, h1, e1⟩ := h.scopes hs
    obtain ⟨entries', h2, e2⟩ := h'.scopes h1
    refine ⟨entries', h2, fun hi => ?_⟩
    rw [e2 (by rw [h.current]; exact hi), e1 hi]

theorem size_le (h : t.Extends t') : t.locals.size ≤ t'.locals.size := by simpa using h.locals.length_le

end SymbolTable.Extends

/-! ## Entries of a record -/

/-- An entry of the record of a function. -/
inductive Cell where
  | type (id : ExprId)
  | ref (id : ExprId)
  | field (id : ExprId)
  | literal (id : ExprId)
  | infinite (id : ExprId)
  | conversion (id : ExprId)
  | binding (id : StmtId)

def Cell.node : Cell → Node
  | .type id | .ref id | .field id | .literal id | .infinite id | .conversion id => .expr id
  | .binding id => .stmt id

/-- The entries that checking an expression may write: those of its positions, without its own
conversion, which is left to the expression around it. -/
def Expr.cells (expr : Expr) : Set Cell := {cell | cell.node ∈ expr.nodes ∧ cell ≠ .conversion expr.id}

theorem Expr.mem_cells {expr : Expr} {cell : Cell} :
    cell ∈ expr.cells ↔ cell.node ∈ expr.nodes ∧ cell ≠ .conversion expr.id :=
  Iff.rfl

namespace CheckedFunction

variable {F G H : CheckedFunction} {cells : Set Cell} {cell : Cell}

/-- Two records have the same entry. -/
def Same (F G : CheckedFunction) : Cell → Prop
  | .type id => F.typeOf id = G.typeOf id
  | .ref id => F.refs.get? id = G.refs.get? id
  | .field id => F.fields.get? id = G.fields.get? id
  | .literal id => F.structLiterals.get? id = G.structLiterals.get? id
  | .infinite id => F.infiniteLoops.contains id = G.infiniteLoops.contains id
  | .conversion id => F.coercions.get? id = G.coercions.get? id
  | .binding id => F.lets.get? id = G.lets.get? id

theorem Same.refl (F : CheckedFunction) (cell : Cell) : F.Same F cell := by cases cell <;> rfl

theorem Same.symm (h : F.Same G cell) : G.Same F cell := by cases cell <;> exact Eq.symm h

theorem Same.trans (h : F.Same G cell) (h' : G.Same H cell) : F.Same H cell := by cases cell <;> exact Eq.trans h h'

/-- A record comes from another one by changes of some entries. -/
structure Updates (cells : Set Cell) (F G : CheckedFunction) : Prop where
  size : G.exprTypes.size = F.exprTypes.size
  binding : G.binding = F.binding
  itemIndex : G.itemIndex = F.itemIndex
  result : G.result = F.result
  params : G.params = F.params
  localTypes : G.localTypes = F.localTypes
  memory : G.memoryResident = F.memoryResident
  same : ∀ cell ∉ cells, G.Same F cell

/-- An insertion changes no other entry. -/
theorem updates_insert (F : CheckedFunction) :
    (∀ id type, F.Updates {.conversion id} { F with coercions := F.coercions.insert id type }) ∧
    (∀ id binding, F.Updates {.ref id} { F with refs := F.refs.insert id binding }) ∧
    (∀ id field, F.Updates {.field id} { F with fields := F.fields.insert id field }) ∧
    (∀ id ref, F.Updates {.literal id} { F with structLiterals := F.structLiterals.insert id ref }) ∧
    ∀ id binding, F.Updates {.binding id} { F with lets := F.lets.insert id binding } := by
  refine ⟨?_, ?_, ?_, ?_, ?_⟩ <;> refine fun id _ => ⟨rfl, rfl, rfl, rfl, rfl, rfl, rfl, fun cell h => ?_⟩
  all_goals
    cases cell <;> try rfl
    refine Table.get?_insert_of_ne _ ?_ _
    rintro rfl
    exact h rfl

theorem updates_infinite (F : CheckedFunction) (id : ExprId) :
    F.Updates {.infinite id} { F with infiniteLoops := F.infiniteLoops.insert id } :=
  ⟨rfl, rfl, rfl, rfl, rfl, rfl, rfl, fun cell h => by
    cases cell with
    | infinite i =>
      have hne : i ≠ id := fun he => h (he ▸ rfl)
      simp only [Same, contains_eq_mem, decide_eq_decide]
      exact mem_insert_iff.trans (or_iff_right hne)
    | _ => rfl⟩

theorem updates_type (F : CheckedFunction) (id : ExprId) (type : Ty) (diverging : List ExprId) : F.Updates {.type id}
      { F with exprTypes := F.exprTypes.setIfInBounds id.index type, diverging := diverging } :=
  ⟨by simp, rfl, rfl, rfl, rfl, rfl, rfl, fun cell h => by
    cases cell with
    | type i =>
      have hne : id.index ≠ i.index := by
        intro he
        cases i; cases id; simp_all
      simp [Same, typeOf, Array.getElem?_setIfInBounds_ne hne]
    | _ => rfl⟩

theorem isMemoryResident_keepInMemory (F : CheckedFunction) (binding : BindingId) :
    (F.keepInMemory binding).isMemoryResident binding = true := by simp [isMemoryResident, keepInMemory]

end CheckedFunction

/-! ## Runs -/

/-- How far apart two states of checking are if only `cells` were changed. -/
structure CheckState.Progress (cells : Set Cell) (s s' : CheckState) : Prop where
  symbols : s.symbols.Extends s'.symbols
  size : s'.function.exprTypes.size = s.function.exprTypes.size
  binding : s'.function.binding = s.function.binding
  itemIndex : s'.function.itemIndex = s.function.itemIndex
  result : s'.function.result = s.function.result
  params : s'.function.params = s.function.params
  same : ∀ cell ∉ cells, s'.function.Same s.function cell
  memory : ∀ binding, s.function.isMemoryResident binding = true → s'.function.isMemoryResident binding = true
  known : ∀ index < s.symbols.locals.size, s'.function.localTypes.get? (.local s.symbols.unit index) =
        s.function.localTypes.get? (.local s.symbols.unit index) ∧
      s'.depths.get? (.local s.symbols.unit index) = s.depths.get? (.local s.symbols.unit index)

namespace CheckState.Progress

variable {cells cells' : Set Cell} {s s' s'' : CheckState}

theorem refl (cells : Set Cell) (s : CheckState) : s.Progress cells s :=
  ⟨.refl _, rfl, rfl, rfl, rfl, rfl, fun _ _ => .refl .., fun _ h => h, fun _ _ => ⟨rfl, rfl⟩⟩

theorem trans (h : s.Progress cells s') (h' : s'.Progress cells s'') : s.Progress cells s'' where
  symbols := h.symbols.trans h'.symbols
  size := h'.size.trans h.size
  binding := h'.binding.trans h.binding
  itemIndex := h'.itemIndex.trans h.itemIndex
  result := h'.result.trans h.result
  params := h'.params.trans h.params
  same cell hc := (h'.same cell hc).trans (h.same cell hc)
  memory b hb := h'.memory b (h.memory b hb)
  known index hi := by
    have h1 := h.known index hi
    have h2 := h'.known index (Nat.lt_of_lt_of_le hi h.symbols.size_le)
    rw [h.symbols.unit] at h2
    exact ⟨h2.1.trans h1.1, h2.2.trans h1.2⟩

theorem mono (h : s.Progress cells s') (hc : cells ⊆ cells') : s.Progress cells' s' :=
  { h with same := fun cell hcell => h.same cell fun hm => hcell (hc hm) }

theorem update {F : CheckedFunction} (h : s.function.Updates cells F) : s.Progress cells { s with function := F } where
  symbols := .refl _
  size := h.size
  binding := h.binding
  itemIndex := h.itemIndex
  result := h.result
  params := h.params
  same := h.same
  memory b hb := by rwa [CheckedFunction.isMemoryResident, h.memory]
  known _ _ := ⟨by rw [h.localTypes], rfl⟩

theorem keepInMemory (cells : Set Cell) (s : CheckState) (binding : BindingId) :
    s.Progress cells { s with function := s.function.keepInMemory binding } := by
  refine { refl cells s with same := fun cell _ => ?_, memory := fun b hb => ?_ }
  · cases cell <;> rfl
  · simp only [CheckedFunction.isMemoryResident, contains_eq_mem, decide_eq_true_eq] at hb ⊢
    exact mem_insert_of_mem hb

end CheckState.Progress

namespace Check

variable {α β : Type} {cells : Set Cell} {s s' : CheckState}
variable {step : Check α} {name : String} {binding : BindingId} {storage : Storage} {span : FileSpan}
variable {τ : Type}

theorem extends_of_define {t : SymbolTable τ} {entry : ScopeEntry} {tree : ScopeTree}
    {binding : Binding τ} (h : t.tree.define t.current name entry = .ok (.ok (), tree)) :
    t.Extends { t with tree := tree, locals := t.locals.push binding } where
  index := rfl
  unit := rfl
  current := rfl
  locals := by simp
  scopes := by
    intro i scope hs
    obtain ⟨found, hf, -, rfl⟩ := ScopeTree.define_eq_ok.mp h
    by_cases hi : i = t.current.index
    · subst hi
      obtain rfl : scope = found := Option.some.inj (hs.symm.trans hf)
      have hlt := lt_of_getElem? hs
      exact ⟨scope.entries.insert name entry, Array.getElem?_setIfInBounds_self_of_lt hlt, fun hne => absurd rfl hne⟩
    · exact ⟨scope.entries, by simpa [Array.getElem?_setIfInBounds_ne (Ne.symm hi)] using hs, fun _ => rfl⟩

/-- A local that is declared has a type and a depth; nothing else is recorded. -/
theorem progress_declareLocal {type : Ty} {symbols : SymbolTable Ty}
    (h : s.symbols.declare name type storage span = (.ok (.ok binding, symbols) : Except Fault _)) (depth : Nat)
    (cells : Set Cell) : s.Progress cells (s.withLocal symbols binding type depth) := by
  obtain ⟨rfl, tree, _, _, hdef, -, -, rfl⟩ := SymbolTable.declare_eq_ok.mp h
  refine { CheckState.Progress.refl cells s with
    symbols := extends_of_define hdef, same := fun cell _ => ?_, known := fun index hi => ?_ }
  · cases cell <;> rfl
  · have hne : (BindingId.local s.symbols.unit index) ≠ .local s.symbols.unit s.symbols.locals.size := by
      simp only [ne_eq, BindingId.local.injEq]; omega
    exact ⟨Table.get?_insert_of_ne _ hne _, Table.get?_insert_of_ne _ hne _⟩

/-- What is checked inside a scope leaves all scopes around it alone. -/
theorem progress_inScope {kind : ScopeKind} {outer : SymbolTable Ty}
    (h : CheckState.Progress cells { s with symbols := s.symbols.enter kind } s')
    (hout : s'.symbols.exit = .ok outer) : s.Progress cells { s' with symbols := outer } := by
  have hsym := h.symbols
  have hentered : (s.symbols.enter kind).tree.scopes[s.symbols.tree.scopes.size]? =
      some ⟨some s.symbols.current, kind, none, .empty⟩ := by
    simp [SymbolTable.enter, SymbolTable.enterOwned, ScopeTree.addChild]
  obtain ⟨entries, hnew, -⟩ := hsym.scopes hentered
  have hcur : s'.symbols.current = ⟨s.symbols.tree.scopes.size⟩ := hsym.current
  simp only [SymbolTable.exit, bind_eq_ok, ScopeTree.scope, hcur, hnew, Except.ok.injEq,
    exists_eq_left', pure, Except.pure] at hout
  subst hout
  refine { h with symbols := ⟨hsym.index, hsym.unit, rfl, hsym.locals, ?_⟩ }
  intro i scope hs
  have hlt := lt_of_getElem? hs
  have hkept : (s.symbols.enter kind).tree.scopes[i]? = some scope := by
    simp only [SymbolTable.enter, SymbolTable.enterOwned, ScopeTree.addChild]
    rw [Array.getElem?_push_lt hlt, ← hs, Array.getElem?_eq_getElem hlt]
  obtain ⟨entries', h', he'⟩ := hsym.scopes hkept
  refine ⟨entries', h', fun _ => he' ?_⟩
  show i ≠ s.symbols.tree.scopes.size
  omega

/-! ## Errors -/

/-- A step of checking takes back no error, and leaves the record that of its function. -/
class Cumulative (step : Check α) : Prop where
  errors : ∀ {s s' : CheckState} {a : α}, step.run s = .ok (a, s') → s.errors <+: s'.errors
  owner : ∀ {s s' : CheckState} {a : α}, step.run s = .ok (a, s') → s'.function.owner = s.function.owner

theorem Cumulative.clean [hstep : Cumulative step] {a : α} (h : step.run s = .ok (a, s')) (hq : s'.errors = []) :
    s.errors = [] :=
  prefix_nil.mp (hq ▸ hstep.errors h)

theorem Cumulative.of_eq
    (h : ∀ {s s' : CheckState} {a : α}, step.run s = .ok (a, s') →
      s'.errors = s.errors ∧ s'.function.owner = s.function.owner) :
    Cumulative step :=
  ⟨fun hr => (h hr).1 ▸ prefix_rfl, fun hr => (h hr).2⟩

instance (a : α) : Cumulative (pure a : Check α) :=
  .of_eq fun h => (run_pure_eq_ok.mp h).2 ▸ ⟨rfl, rfl⟩

instance (x : Except Fault α) : Cumulative (liftM x : Check α) :=
  .of_eq fun h => (run_lift_eq_ok.mp h).2 ▸ ⟨rfl, rfl⟩

instance : Cumulative (get : Check CheckState) :=
  .of_eq fun h => (run_get_eq_ok.mp h).2 ▸ ⟨rfl, rfl⟩

theorem Cumulative.note {change : CheckedFunction → CheckedFunction} (hc : ∀ f, (change f).owner = f.owner) :
    Cumulative (note change : Check Unit) :=
  .of_eq fun h => run_modify_eq_ok.mp h ▸ ⟨rfl, hc _⟩

instance (id : ExprId) (binding : BindingId) :
    Cumulative (note fun f => { f with refs := f.refs.insert id binding } : Check Unit) :=
  .note fun _ => rfl

instance (id : ExprId) (ref : StructLiteralRef) :
    Cumulative (note fun f => { f with structLiterals := f.structLiterals.insert id ref } : Check Unit) :=
  .note fun _ => rfl

instance (id : StmtId) (binding : BindingId) :
    Cumulative (note fun f => { f with lets := f.lets.insert id binding } : Check Unit) :=
  .note fun _ => rfl

instance (id : ExprId) :
    Cumulative (note fun f => { f with infiniteLoops := f.infiniteLoops.insert id } : Check Unit) :=
  .note fun _ => rfl

instance (binding : BindingId) : Cumulative (note (·.keepInMemory binding) : Check Unit) :=
  .note fun _ => rfl

instance (error : TypeError) : Cumulative (report error : Check Unit) :=
  ⟨fun h => run_modify_eq_ok.mp h ▸ prefix_append .., fun h => run_modify_eq_ok.mp h ▸ rfl⟩

theorem Cumulative.bind {next : α → Check β} (hs : Cumulative step) (hn : ∀ a, Cumulative (next a)) :
    Cumulative (step >>= next) where
  errors h := by
    obtain ⟨a, s1, h1, h2⟩ := run_bind_eq_ok.mp h
    exact (hs.errors h1).trans ((hn a).errors h2)
  owner h := by
    obtain ⟨a, s1, h1, h2⟩ := run_bind_eq_ok.mp h
    exact ((hn a).owner h2).trans (hs.owner h1)

instance {step : Check α} {next : α → Check β} [hs : Cumulative step] [hn : ∀ a, Cumulative (next a)] :
    Cumulative (step >>= next) :=
  hs.bind hn

instance {c : Prop} [Decidable c] {x y : Check α} [hx : Cumulative x] [hy : Cumulative y] :
    Cumulative (if c then x else y) := by
  split
  · exact hx
  · exact hy

instance (error : TypeError) : Cumulative (fail error : Check Ty) := by
  unfold fail
  infer_instance

theorem Cumulative.within {inside : Check α} (hi : Cumulative inside) {kind : ScopeKind} {owner : Option String} :
    Cumulative (within kind owner inside) := by
  constructor <;> intro s s' a hr <;> obtain ⟨s1, outer, hin, -, rfl⟩ := within_eq_ok.mp hr
  · have herrors := hi.errors hin
    exact herrors
  · have howner := hi.owner hin
    exact howner

instance (kind : ScopeKind) (inside : Check α) [hi : Cumulative inside] : Cumulative (inScope kind inside) := hi.within

instance (name : String) (type : Ty) (storage : Storage) (span : FileSpan) :
    Cumulative (declareLocal name type storage span) := by
  refine ⟨fun h => ?_, fun h => ?_⟩ <;>
    rcases declareLocal_eq_ok.mp h with ⟨_, _, _, -, -, -, rfl⟩ | ⟨_, -, -, rfl⟩
  · exact prefix_rfl
  · exact prefix_append ..
  · rfl
  · rfl

/-- The steps that look at names and scopes take back no error, so no step does. -/
theorem cumulative (ctx : CheckContext) :
    Comparison ctx ctx (fun _ => True) fun {α} _ (x _ : Check α) => Cumulative x where
  stable := Ty.stable_true
  result := rfl
  callee h := h
  pure _ := inferInstance
  bind {_ _ k _ _ _ _ _} hx hf := .bind hx fun a => hf a (k.holds_true a)
  some h := by
    rw [map_eq_pure_bind]
    infer_instance
  report _ := inferInstance
  note _ hc := .note fun f => (hc f).2
  inScope _ _ _ hx := hx.within
  inFunction _ _ _ hx := hx.within
  declareLocal _ _ _ _ := inferInstance
  annotatedType _ := by
    refine .bind inferInstance fun outcome => ?_
    split <;> infer_instance
  var _ _ _ := by
    refine .bind inferInstance fun s => .bind inferInstance fun outcome => ?_
    split <;> infer_instance
  place _ := by
    unfold place
    infer_instance
  crossesLoop _ := by
    unfold crossesLoop
    infer_instance
  inLoop := by
    unfold inLoop
    infer_instance
  struct _ h := by
    split
    · infer_instance
    · exact h _ fun _ _ => trivial

section

variable (ctx : CheckContext)

instance (id : ExprId) (found expected : Ty) (site : FileSpan) :
    Cumulative (expectAssignable ctx id found expected site : Check _) :=
  (cumulative ctx).expectAssignable ..

instance (expr : Expr) (found : Ty) : Cumulative (expectBool ctx expr found : Check _) :=
  (cumulative ctx).expectBool ..

instance (id : ExprId) (found : Ty) (site : FileSpan) : Cumulative (expectResult ctx id found site : Check _) :=
  (cumulative ctx).expectResult ..

instance (target : Expr) : Cumulative (assignmentTarget target : Check _) :=
  (cumulative ⟨.empty, "", .unit⟩).assignmentTarget ..

instance (seen : Table Nat FileSpan) (span : FileSpan) (fields : List (FieldDef × Nat)) :
    Cumulative (missingFields seen span fields : Check _) :=
  (cumulative ⟨.empty, "", .unit⟩).missingFields ..

instance (id : ExprId) (source target : Ty) : Cumulative (coerce id source target : Check _) :=
  (cumulative ⟨.empty, "", .unit⟩).coerce ..

instance (op : BinaryOp) (lhs rhs : Expr) (left right : Ty) (span : FileSpan) :
    Cumulative (binary ctx op lhs rhs left right span : Check _) :=
  (cumulative ctx).binary _ _ _ trivial trivial _

instance (op : UnaryOp) (operand : Expr) (type : Ty) : Cumulative (unary ctx op operand type : Check _) :=
  (cumulative ctx).unary _ _ trivial

instance (callee : Expr) (type : Ty) (args : List (Expr × Ty)) (span : FileSpan) :
    Cumulative (call ctx callee type args span : Check _) :=
  (cumulative ctx).call _ trivial _ _

instance (thenBranch elseBranch : Expr) (thenType elseType : Ty) :
    Cumulative (branches ctx thenBranch elseBranch thenType elseType : Check _) :=
  (cumulative ctx).branches _ _ trivial trivial

instance (id : ExprId) (base : Ty) (name : String) (span : FileSpan) :
    Cumulative (field ctx id base name span : Check _) :=
  (cumulative ctx).field _ trivial _ _

instance (id : ExprId) (name : String) (inits : List (Init × Ty)) (span : FileSpan) :
    Cumulative (structLiteral ctx id name inits span : Check _) :=
  (cumulative ctx).structLiteral ..

instance (id : StmtId) (name : String) (annotated : Option Ty) (init : Option (ExprId × Ty))
    (span : FileSpan) : Cumulative (letBinding ctx id name annotated init span : Check _) := by
  have ha := (@AnswerKind.rel_same (fun _ => True) _ .written annotated annotated).mpr ⟨rfl, fun _ _ => trivial⟩
  have h := (cumulative ctx).lockstep.letBinding id name (init.map fun p => (p.1, p.2, p.2)) span ha fun p hp => ?_
  · cases init <;> exact h
  · obtain ⟨_, -, rfl⟩ := Option.map_eq_some_iff.mp hp
    exact ⟨rfl, trivial⟩

instance (expr : Expr) : Cumulative (inferExpr ctx expr : Check _) :=
  (cumulative ctx).lockstep.inferExpr expr fun _ _ => trivial

instance (exprs : List Expr) : Cumulative (inferExprs ctx exprs : Check _) :=
  (cumulative ctx).lockstep.inferExprs exprs fun _ _ => trivial

instance (stmts : List Stmt) : Cumulative (checkStmts ctx stmts : Check _) :=
  (cumulative ctx).lockstep.checkStmts stmts fun _ _ => trivial

instance (params : List (Param × Ty)) : Cumulative (declareParams params : Check _) :=
  zip_unzip params ▸ (cumulative ⟨.empty, "", .unit⟩).lockstep.declareParams _
    (AnswerKind.types.rel_same.mpr ⟨rfl, fun _ _ => trivial⟩)

instance (args : List (Expr × Ty)) (params : List Ty) : Cumulative (arguments ctx args params : Check _) :=
  (cumulative ctx).arguments ..

instance (id : StructId) (struct : StructDef) (inits : List (Init × Ty)) (positions : List Nat)
    (seen : Table Nat FileSpan) : Cumulative (initializers ctx id struct inits positions seen : Check _) :=
  (cumulative ctx).initializers ..

end

end Check

end SsaCompiler
