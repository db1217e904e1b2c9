import SsaCompiler.Proofs.Checking.Compared
import SsaCompiler.Proofs.Declarations.Items
import SsaCompiler.Proofs.Symbols.Stack
import SsaCompiler.Proofs.Syntax.Acyclic

/-!
# Checking ends with an answer

Collecting the declarations of units and checking each of them always gives an answer, if no body
contains itself (`collect_and_check_total`). A step of checking, from a symbol table that stands for a
stack of scopes, succeeds and leaves the scopes around the current one as they are, whatever it
reports (`Check.Runs`); so a function that is checked ends in the scope it started in. The types it
finds are over the structs of the module, so every struct that is looked up is there.
-/

namespace SsaCompiler

open List

variable {stack : ScopeStack Ty} {table : SymbolTable Ty} {count : Nat} {unitName : String}

/-- All bindings that can be seen have types over the first `count` structs. -/
structure ScopeStack.Over (count : Nat) (stack : ScopeStack Ty) : Prop where
  frames : ∀ frame ∈ stack.frames, ∀ entry ∈ frame.bindings.entries, entry.2.type.Over count
  items : ∀ item ∈ stack.index.items.toList, item.type.Over count

namespace ScopeStack.Over

variable {count : Nat} {span : FileSpan} {name : String}

theorem enter (h : stack.Over count) {kind : ScopeKind} {owner : Option String} : (stack.enter kind owner).Over count where
  frames frame hf := by
    rcases mem_cons.mp hf with rfl | hf
    · exact fun entry he => nomatch he
    · exact h.frames frame hf
  items := h.items

theorem resolve (h : stack.Over count) {binding : Binding Ty}
    (hr : stack.resolve name span = .ok binding) : binding.type.Over count := by
  unfold ScopeStack.resolve at hr
  split at hr
  · split at hr <;> cases hr
    rename_i hfound
    exact h.items _ (Array.mem_toList_iff.mpr (Array.mem_of_find?_eq_some hfound))
  · split at hr <;> cases hr
    rename_i hfound
    obtain ⟨frame, hf, hb⟩ := exists_of_findSome?_eq_some hfound
    exact h.frames frame hf _ (Table.mem_of_find? hb)

theorem declare (h : stack.Over count) {type : Ty} (ht : type.Over count) {storage : Storage} :
    (stack.declare name type storage span).2.Over count := by
  unfold ScopeStack.declare
  split
  · exact h
  · rename_i hnone
    refine ⟨fun frame hf entry he => ?_, h.items⟩
    rcases mem_cons.mp hf with rfl | hf
    · have he : entry ∈ (stack.top.bindings.insert name (stack.newBinding name type storage span)).entries := he
      rw [Table.entries_insert hnone, mem_append, mem_singleton] at he
      rcases he with he | rfl
      · exact h.frames _ (.head _) entry he
      · exact ht
    · exact h.frames frame (.tail _ hf) entry he

theorem start {index : ModuleIndex Ty} (h : ∀ item ∈ index.items.toList, item.type.Over count) {unit : UnitId}
    {unitName : String} : (ScopeStack.start index unit unitName).Over count where
  frames frame hf entry he := by
    cases mem_singleton.mp hf
    obtain ⟨item, hi, rfl⟩ := mem_map.mp he
    exact h item (mem_of_mem_filter hi)
  items := h

end ScopeStack.Over

theorem Literal.over_type {value : Literal} {span : FileSpan} {type : Ty} (h : value.type span = .ok type) :
    type.Over count := by
  cases value with
  | int value bits =>
    simp only [Literal.type] at h
    split at h
    · split at h <;> cases h
      trivial
    · cases h
  | float value bits =>
    simp only [Literal.type] at h
    split at h <;> cases h
    trivial
  | bool | unit | cString =>
    cases h
    trivial

theorem Ty.over_stable : Ty.Stable (Ty.Over count) where
  unit := trivial
  bool := trivial
  error := trivial
  literal h := Literal.over_type h
  ptr := .rfl
  result h := h.2

/-- A type written in a body is over the structs of the module, or a name in it is unknown. -/
theorem Declarations.Bounded.resolveType {names : Array String} {decls : Declarations}
    (hd : decls.Bounded names count) {expr : TypeExpr} : ∃ result,
      decls.resolveType unitName expr = (.ok result : Except Fault _) ∧ OfOk (Ty.Over count) result := by
  obtain ⟨result, hresult, ha⟩ := decls.resolveType_answers
  refine ⟨result, hresult, ?_⟩
  cases result with
  | ok type => exact TypeExpr.type?_closed Ty.over_closed (fun _ _ h => Ty.over_builtin? h) (fun _ _ => hd.types) ha
  | error => trivial

theorem SymbolTable.Represents.inLoop_ok (h : table.Represents stack) : ∃ inLoop, table.inLoop = .ok inLoop := by
  obtain ⟨_, hchain, -⟩ := h.stacked.views fun holds => holds.kind
  exact ⟨_, bind_eq_ok.mpr ⟨_, hchain.findUp (Nat.lt_succ_of_lt hchain.lt_size), rfl⟩⟩

namespace Check

variable {α β : Type} {count : Nat}

/-- A step of checking succeeds with an answer of some kind, in the same scope. -/
def Runs (count : Nat) (x : Check α) (post : α → Prop) : Prop :=
  ∀ (s : CheckState) (stack : ScopeStack Ty), s.symbols.Represents stack → stack.Over count →
    ∃ a s' stack', x.run s = .ok (a, s') ∧ s'.symbols.Represents stack' ∧ stack'.Over count ∧
      stack'.outer = stack.outer ∧ post a

namespace Runs

variable {post : α → Prop} {post' : β → Prop} {x : Check α} {error : TypeError} {kind : ScopeKind}
variable {type : Ty}

theorem pure {a : α} (h : post a) : Runs count (Pure.pure a) post :=
  fun s stack hs ho => ⟨a, s, stack, rfl, hs, ho, rfl, h⟩

theorem bind {f : α → Check β} (hx : Runs count x post)
    (hf : ∀ a, post a → Runs count (f a) post') : Runs count (x >>= f) post' := by
  intro s stack hs ho
  obtain ⟨a, s1, stack1, h1, hs1, ho1, houter1, ha⟩ := hx s stack hs ho
  obtain ⟨b, s2, stack2, h2, hs2, ho2, houter2, hb⟩ := hf a ha s1 stack1 hs1 ho1
  exact ⟨b, s2, stack2, run_bind_eq_ok.mpr ⟨a, s1, h1, h2⟩, hs2, ho2, houter2.trans houter1, hb⟩

theorem get {f : CheckState → Check β}
    (hf : ∀ s stack, s.symbols.Represents stack → stack.Over count → Runs count (f s) post') :
    Runs count (MonadState.get >>= f) post' :=
  fun s stack hs ho => hf s stack hs ho s stack hs ho

theorem lift {y : Except Fault α} {a : α} (hy : y = .ok a) : Runs count (liftM y : Check α) (· = a) :=
  fun s stack hs ho => ⟨a, s, stack, run_lift_eq_ok.mpr ⟨hy, rfl⟩, hs, ho, rfl, rfl⟩

theorem report : Runs count (report error) fun _ => True :=
  fun _ stack hs ho => ⟨(), _, stack, rfl, hs, ho, rfl, trivial⟩

theorem note {change : CheckedFunction → CheckedFunction} : Runs count (note change) fun _ => True :=
  fun _ stack hs ho => ⟨(), _, stack, rfl, hs, ho, rfl, trivial⟩

theorem fail : Runs count (fail error) (Ty.Over count) :=
  report.bind fun _ _ => pure trivial

theorem within (hx : Runs count x post) {owner : Option String} : Runs count (within kind owner x) post := by
  intro s stack hs ho
  obtain ⟨a, s', stack1, hrun, hs1, ho1, houter, ha⟩ :=
    hx { s with symbols := s.symbols.enterOwned kind owner } _ hs.enterOwned ho.enter
  obtain ⟨table, hexit, htable⟩ := hs1.exit houter
  exact ⟨a, _, _, within_eq_ok.mpr ⟨s', table, hrun, hexit, rfl⟩, htable, ⟨ho.frames, ho1.items⟩, rfl, ha⟩

theorem declareLocal {name : String} (ht : type.Over count) {storage : Storage} {span : FileSpan} :
    Runs count (declareLocal name type storage span) fun _ => True := by
  intro s stack hs ho
  have houter : (stack.declare name type storage span).2.outer = stack.outer := by
    unfold ScopeStack.declare
    split <;> rfl
  obtain ⟨table, hdeclare, htable⟩ := hs.declare
  cases hresult : (stack.declare name type storage span).1 with
  | error error =>
    rw [hresult] at hdeclare
    obtain ⟨_, _, -, -, -, rfl⟩ := SymbolTable.declare_eq_error.mp hdeclare
    exact ⟨none, _, _, declareLocal_eq_ok.mpr (.inr ⟨error, hdeclare, rfl, rfl⟩), htable, ho.declare ht, houter,
      trivial⟩
  | ok id =>
    rw [hresult] at hdeclare
    exact ⟨some id, _, _, declareLocal_eq_ok.mpr (.inl ⟨id, table, _, hdeclare, htable.loopDepth, rfl, rfl⟩), htable,
      ho.declare ht, houter, trivial⟩

theorem var (id : ExprId) (name : String) (span : FileSpan) : Runs count (var id name span) (Ty.Over count) := by
  refine get fun s stack hs ho => ?_
  refine (lift hs.resolve).bind fun result hr => ?_
  cases result with
  | ok binding => exact note.bind fun _ _ => pure (ho.resolve hr.symm)
  | error error => exact fail

theorem place (expr : Expr) : Runs count (place expr) fun _ => True := get fun _ _ _ _ => pure trivial

theorem crossesLoop (binding : BindingId) : Runs count (crossesLoop binding) fun _ => True :=
  get fun _ _ hs _ => (lift hs.loopDepth).bind fun _ _ => pure trivial

theorem inLoop : Runs count inLoop fun _ => True := by
  intro s stack hs ho
  obtain ⟨inLoop, hin⟩ := hs.inLoop_ok
  exact ⟨inLoop, s, stack, run_bind_eq_ok.mpr ⟨s, s, rfl, run_lift_eq_ok.mpr ⟨hin, rfl⟩⟩, hs, ho, rfl, trivial⟩

end Runs

variable {ctx : CheckContext} {names : Array String}

theorem Runs.annotatedType (hd : ctx.decls.Bounded names count) (expr : TypeExpr) :
    Runs count (annotatedType ctx expr) (Ty.Over count) := by
  obtain ⟨result, hresult, hover⟩ := hd.resolveType
  refine (lift hresult).bind fun found hfound => ?_
  subst hfound
  cases found with
  | ok type => exact pure hover
  | error error => exact fail

/-- Each step of checking runs, and gives a type over the structs of the module. -/
theorem runs_comparison (hd : ctx.decls.Bounded names count) :
    Comparison ctx ctx (Ty.Over count) fun {α} k (x _ : Check α) => Runs count x (k.Holds (Ty.Over count)) where
  stable := Ty.over_stable
  result := rfl
  callee h := h
  pure := .pure
  bind := .bind
  some {x x'} hx := by exact .bind hx fun type ht => .pure fun _ h => Option.some.inj h ▸ ht
  report error := .report
  note change _ := .note
  inScope kind _ _ hx := .within hx
  inFunction name _ _ hx := .within hx
  declareLocal name _ storage span ht := .declareLocal ht
  annotatedType := .annotatedType hd
  var := .var
  place := .place
  crossesLoop := .crossesLoop
  inLoop := .inLoop
  struct {_ _ id _ _} hid hf := by
    have hid : id.index < ctx.decls.structs.size := hd.structs ▸ hid
    have hstruct : ctx.decls.struct? id = some ctx.decls.structs[id.index] := Array.getElem?_eq_getElem hid
    rw [hstruct]
    exact hf _ (hd.fields _ (Array.mem_toList_iff.mpr (Array.getElem_mem hid)))

theorem runs_function (ctx : CheckContext) (hd : ctx.decls.Bounded names count) {item : FunctionItem}
    (hitem : item.type.Over count) (decl : FunctionDecl) (root : Expr) :
    Runs count (function ctx item decl root) fun _ => True :=
  (runs_comparison hd).function (Ty.allOver_iff.mp hitem.1) decl root

end Check

/-! ## Units -/

/-- A table that stands for a single scope is at the scope of the unit. -/
theorem SymbolTable.Represents.current_eq_root (h : table.Represents stack) (houter : stack.outer = []) :
    table.current = ScopeTree.root := by
  have hs := h.stacked
  rw [ScopeStack.frames, houter] at hs
  generalize table.current = id at hs
  cases hs with
  | unit => rfl
  | inner outer => cases outer

variable {decls : Declarations} {names : Array String} {count : Nat}

theorem checkFunctions_total (hd : decls.Bounded names count) {unit : UnitId}
    {functions : List (Nat × FunctionDecl)} (hbodies : ∀ f ∈ functions, ∀ body ∈ f.2.body, body.Acyclic)
    {symbols : SymbolTable Ty} (hs : symbols.Represents stack) (ho : stack.Over count) :
    ∃ errors checked symbols' stack', checkFunctions decls unit unitName functions symbols =
        (.ok (errors, checked, symbols') : Except Fault _) ∧
      symbols'.Represents stack' ∧ stack'.outer = stack.outer := by
  induction functions generalizing symbols stack with
  | nil => exact ⟨[], [], symbols, stack, rfl, hs, rfl⟩
  | cons f rest ih =>
    obtain ⟨itemIndex, decl⟩ := f
    have hrest : ∀ f ∈ rest, ∀ body ∈ f.2.body, body.Acyclic := fun f hf => hbodies f (.tail _ hf)
    rw [checkFunctions]
    split
    · rename_i body item hbody hitem
      obtain ⟨root, hroot⟩ := (hbodies _ (.head _) body hbody).tree_ok
      have hover := hd.functions item (Array.mem_toList_iff.mpr (Array.mem_of_find?_eq_some hitem))
      obtain ⟨_, s, stack1, hrun, hs1, ho1, houter1, -⟩ := Check.runs_function ⟨decls, unitName, item.result⟩ hd hover
        decl root ⟨symbols, .start item body.exprs.size, [], .empty⟩ stack hs ho
      obtain ⟨errors, checked, symbols', stack', hothers, hs', houter'⟩ := ih hrest hs1 ho1
      refine ⟨s.errors ++ errors, s.function :: checked, symbols', stack', ?_, hs', houter'.trans houter1⟩
      exact bind_eq_ok.mpr ⟨root, hroot, bind_eq_ok.mpr ⟨((), s), hrun, bind_eq_ok.mpr ⟨_, hothers, rfl⟩⟩⟩
    · exact ih hrest hs ho

/-- The units of a module whose bodies do not contain themselves are collected and checked to the end:
there are declarations and an answer for each unit, and after any number of its functions the symbol
table is back at the scope of the unit. Collecting expands aliases, which may name each other, up to a
bound; it is not the bound that ends this, as any greater one gives the same. -/
theorem collect_and_check_total {units : List SourceUnit}
    (h : ∀ source ∈ units, ∀ f ∈ source.functions, ∀ body ∈ f.2.body, body.Acyclic) :
    (∃ decls, Declarations.collect units = .ok decls ∧
      ∀ (i : Nat) (source : SourceUnit), units[i]? = some source →
        (∃ answer, checkUnit decls ⟨i⟩ source = .ok answer) ∧
        ∃ symbols, SymbolTable.forUnit decls.index ⟨i⟩ = .ok symbols ∧ ∀ n, ∃ errors checked after,
          checkFunctions decls ⟨i⟩ source.name (source.functions.take n) symbols =
            (.ok (errors, checked, after) : Except Fault _) ∧ after.current = ScopeTree.root) ∧
    ∀ (c : Collector) (key : String) (fuel : Nat), c.aliases.size < fuel →
      (Collect.expandAlias fuel key : Collect Ty) c = Collect.expand key c := by
  refine ⟨?_, fun c key fuel hf => Collect.expandAlias_eq_expand hf⟩
  obtain ⟨decls, hcollect, hd⟩ := Declarations.collect_bounded
  refine ⟨decls, hcollect, fun i source hsource => ?_⟩
  have hname : decls.index.units[i]? = some source.name := by simp [hd.units, hsource]
  obtain ⟨symbols, hsymbols, hs⟩ := SymbolTable.forUnit_represents hd.sound hname
  have hfunctions : ∀ n, ∃ errors checked after stack, checkFunctions decls ⟨i⟩ source.name
      (source.functions.take n) symbols = (.ok (errors, checked, after) : Except Fault _) ∧
      after.Represents stack ∧ stack.outer = [] := fun n =>
    checkFunctions_total hd (fun f hf => h source (List.mem_of_getElem? hsource) f
      (List.mem_of_mem_take hf)) hs (.start hd.items)
  constructor
  · obtain ⟨errors, checked, after, -, hrun, -⟩ := hfunctions source.functions.length
    rw [List.take_length] at hrun
    have hunit : decls.index.unitName ⟨i⟩ = .ok source.name := by simp [ModuleIndex.unitName, hname]
    rw [checkUnit_eq]
    cases herrors : decls.errorsOf ⟨i⟩ ++ errors with
    | nil =>
      exact ⟨.ok ⟨⟨i⟩, checked, after.locals.toList⟩, bind_eq_ok.mpr ⟨symbols, hsymbols, bind_eq_ok.mpr
        ⟨source.name, hunit, bind_eq_ok.mpr ⟨(errors, checked, after), hrun, by simp only [herrors]; rfl⟩⟩⟩⟩
    | cons first others =>
      exact ⟨.error (first :: others), bind_eq_ok.mpr ⟨symbols, hsymbols, bind_eq_ok.mpr
        ⟨source.name, hunit, bind_eq_ok.mpr ⟨(errors, checked, after), hrun, by simp only [herrors]; rfl⟩⟩⟩⟩
  · refine ⟨symbols, hsymbols, fun n => ?_⟩
    obtain ⟨errors, checked, after, stack, hrun, hafter, houter⟩ := hfunctions n
    exact ⟨errors, checked, after, hrun, hafter.current_eq_root houter⟩

namespace SharedNodes

/-- `-{ missing + missing; missing + missing }`, the sum and its operand each written once, the operand
behind what uses it, and a literal that nothing uses. -/
def body : Body where
  exprs := #[.binary .add ⟨3⟩ ⟨3⟩ default, .unary .neg ⟨2⟩ default, .block [⟨0⟩] (some ⟨0⟩) default,
    .var "missing" default, .literal (.bool true) default]
  stmts := #[.eval ⟨0⟩ default]
  root := ⟨1⟩

def program : SourceUnit := ⟨"m", ⟨0⟩, none, [.function ⟨"f", [], none, some body, [], default⟩]⟩

def number : Node → Nat
  | .expr id => [2, 5, 4, 1, 0].getD id.index 0
  | .stmt _ => 3

theorem body_acyclic : body.Acyclic where
  root := by decide
  references := by decide
  irreflexive := Body.irreflexive_of_number number (by decide) (by decide)

end SharedNodes

theorem collect_and_check_total_shared :
    (∀ source ∈ [SharedNodes.program], ∀ f ∈ source.functions, ∀ body ∈ f.2.body, body.Acyclic) ∧
    ∃ decls answer, Declarations.collect [SharedNodes.program] = .ok decls ∧
      checkUnit decls ⟨0⟩ SharedNodes.program = .ok answer := by
  have hbodies : ∀ source ∈ [SharedNodes.program], ∀ f ∈ source.functions, ∀ body ∈ f.2.body, body.Acyclic := by
    simp [SharedNodes.program, SourceUnit.functions, SharedNodes.body_acyclic]
  obtain ⟨⟨decls, hcollect, hunits⟩, -⟩ := collect_and_check_total hbodies
  obtain ⟨⟨answer, hanswer⟩, -⟩ := hunits 0 SharedNodes.program rfl
  exact ⟨hbodies, decls, answer, hcollect, hanswer⟩

end SsaCompiler
