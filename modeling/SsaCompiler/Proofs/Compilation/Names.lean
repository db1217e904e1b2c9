import SsaCompiler.Proofs.Compilation.Accepted
import SsaCompiler.Proofs.Typing.Lexical

/-!
# Names in accepted functions

A variable of an accepted function stands for what lexical scoping says (`TypingContext.Resolves`): the
`let` of its name in the innermost block around it that has one before it, else the parameter of its
name, else the item of the unit of its name. A qualified name stands for the item with that name. The
type recorded for the variable is the one declared there (`AcceptedUnit.resolves_lexically`).
-/

namespace SsaCompiler

open List

variable {name : String} {depths : Table BindingId Nat} {unitName : String}

/-- What a name stands for at a site of a function, and the type declared for it. -/
inductive TypingContext.Resolves (C : TypingContext) (item : FunctionItem) (decl : FunctionDecl)
    (site : Site) (name : String) : BindingId → Ty → Prop
  | qualified {found : Binding Ty} (written : Name.isQualified name = true)
      (declared : C.decls.index.lookup? name = some found) :
      C.Resolves item decl site name found.id found.type
  | bound {id : StmtId} {span : FileSpan} {asked : Option TypeExpr} {init : Option Expr}
      {binding : BindingId} {type : Ty} (written : Name.isQualified name = false)
      (innermost : site.let? name = some (.bind id span name asked init))
      (recorded : C.function.lets.get? id = some binding)
      (declared : C.DeclaredType type asked init) : C.Resolves item decl site name binding type
  | param {i : Nat} {param : Param} {binding : BindingId} {type : Ty}
      (written : Name.isQualified name = false) (unbound : site.let? name = none)
      (found : decl.params[i]? = some param) (named : param.name = name)
      (last : ∀ {j : Nat} {other : Param}, i < j → decl.params[j]? = some other → other.name ≠ name)
      (recorded : C.function.params[i]? = some binding) (declared : item.params[i]? = some type) :
      C.Resolves item decl site name binding type
  | item {found : Binding Ty} (written : Name.isQualified name = false) (unbound : site.let? name = none)
      (notParam : ∀ param ∈ decl.params, param.name ≠ name)
      (declared : C.decls.index.lookup? (Name.path [C.unitName, name]) = some found)
      (own : found.unit = item.unit) (named : found.name = name) : C.Resolves item decl site name found.id found.type

/-! ## Parameters -/

def paramLocals (params : List Param) (bindings : List BindingId) : List Local :=
  List.zipWith (fun param binding => ⟨param.name, binding, 0⟩) params bindings

theorem not_param_of_find? : ∀ {params : List Param} {bindings : List BindingId},
    Local.find? name (paramLocals params bindings) = none → bindings.length = params.length →
    ∀ param ∈ params, param.name ≠ name
  | [], _, _, _ => by simp
  | first :: rest, binding :: bindings, h, hl => by
    simp only [paramLocals, zipWith_cons_cons, Local.find?] at h
    split at h
    · cases h
    · rename_i hrest
      refine forall_mem_cons.mpr ⟨by simpa using h, ?_⟩
      exact not_param_of_find? hrest (by simpa using hl)

theorem param_of_find? {x : Local} : ∀ {params : List Param} {bindings : List BindingId},
    Local.find? name (paramLocals params bindings) = some x → bindings.length = params.length →
    ∃ i param, params[i]? = some param ∧ param.name = name ∧ bindings[i]? = some x.binding ∧
      ∀ {j : Nat} {other : Param}, i < j → params[j]? = some other → other.name ≠ name
  | first :: rest, binding :: bindings, h, hl => by
    have hrest : bindings.length = rest.length := by simpa using hl
    simp only [paramLocals, zipWith_cons_cons, Local.find?] at h
    split at h
    · rename_i found hfound
      cases h
      obtain ⟨i, param, hparam, hname, hbinding, hlast⟩ := param_of_find? hfound hrest
      refine ⟨i + 1, param, by simpa using hparam, hname, by simpa using hbinding, fun {j other} hj ho => ?_⟩
      obtain ⟨j, rfl⟩ : ∃ k, j = k + 1 := ⟨j - 1, by omega⟩
      exact hlast (show i < j by omega) (by simpa using ho)
    · rename_i hnone
      split at h <;> cases h
      rename_i hname
      refine ⟨0, first, rfl, hname, rfl, fun {j other} hj ho => ?_⟩
      obtain ⟨j, rfl⟩ : ∃ k, j = k + 1 := ⟨j - 1, by omega⟩
      exact not_param_of_find? hnone hrest other (mem_of_getElem? (by simpa using ho))

theorem forall₂_exists_getElem? {α β : Type} {R : α → β → Prop} {xs : List α} {ys : List β}
    (h : Forall₂ R xs ys) {i : Nat} {x : α} (hx : xs[i]? = some x) : ∃ y, ys[i]? = some y ∧ R x y := by
  have hrel := forall₂_getElem? h i
  rw [hx] at hrel
  generalize ys[i]? = found at hrel
  cases hrel with
  | some hr => exact ⟨_, rfl, hr⟩

/-! ## Variables -/

variable {moduleName : String} {units : List SourceUnit} {decls : Declarations} {unit : UnitId}
  {source : SourceUnit} {checked : CheckedUnit} {F : CheckedFunction} {decl : FunctionDecl} {body : Body}
  {root : Expr} {p : Site × Part} {owner : UnitId} {stmt : Stmt}

theorem CheckedFunction.LocalsRecorded.allBound (h : F.LocalsRecorded decls unitName root owner depths)
    (hp : p ∈ root.parts .top) {block : EnclosingBlock} (hb : block ∈ p.1.blocks) :
    TypingContext.AllBound ⟨decls, unitName, F⟩ block := by
  intro stmt hstmt name hname
  obtain ⟨q, hq, hpart, -⟩ := Expr.listed_of_mem_parts hp hb stmt hstmt
  obtain ⟨site, part⟩ := q
  cases stmt with
  | bind id span bound annotation init =>
    obtain rfl : part = .stmt (.bind id span bound annotation init) := hpart
    obtain ⟨index, type, hlet, -⟩ := h.lets hq
    simp [TypingContext.boundBy, hlet]
  | eval => simp [Stmt.binds] at hname
  | ret => simp [Stmt.binds] at hname

theorem EnclosingBlock.binds_of_let? {blocks : List EnclosingBlock} (h : blocks.findSome? (·.let? name) = some stmt) :
    ∃ block ∈ blocks, stmt ∈ block.before ∧ stmt.binds name = true := by
  obtain ⟨block, hb, hl⟩ := exists_of_findSome?_eq_some h
  exact ⟨block, hb, mem_reverse.mp (mem_of_find?_eq_some hl), find?_some hl⟩

namespace TypingContext

variable {C : TypingContext} {outer : List Local} {site : Site} {id : ExprId}

variable {Γ : List Local} (h : C.VarTyped Γ id name)
include h

theorem VarTyped.local {binding : BindingId} (hq : Name.isQualified name = false)
    (hf : (Local.find? name Γ).map (·.binding) = some binding) :
    C.function.refs.get? id = some binding ∧ C.function.localTypes.get? binding = some (C.function.typeOf id) := by
  obtain ⟨x, hx, rfl⟩ := Option.map_eq_some_iff.mp hf
  simpa [VarTyped, local?, hq, hx] using h

theorem VarTyped.item (hq : Name.isQualified name = false) (hf : (Local.find? name Γ).map (·.binding) = none) :
    ∃ found, C.decls.index.lookup? (Name.path [C.unitName, name]) = some found ∧
        C.function.refs.get? id = some found.id ∧ C.function.typeOf id = found.type := by
  simpa [VarTyped, local?, hq, Option.map_eq_none_iff.mp hf, item?] using h

theorem VarTyped.qualified (hq : Name.isQualified name = true) : ∃ found, C.decls.index.lookup? name = some found ∧
      C.function.refs.get? id = some found.id ∧ C.function.typeOf id = found.type := by
  simpa [VarTyped, local?, hq, item?] using h

end TypingContext

/-- The `let` that a name refers to has a binding of its declared type. -/
theorem CheckedFunction.LocalsRecorded.let? (h : F.LocalsRecorded decls unitName root owner depths)
    (hp : p ∈ root.parts .top) (hl : p.1.let? name = some stmt) :
    ∃ id span annotation init binding type,
      stmt = .bind id span name annotation init ∧ F.lets.get? id = some binding ∧
      F.localTypes.get? binding = some type ∧
      TypingContext.DeclaredType ⟨decls, unitName, F⟩ type annotation init := by
  obtain ⟨block, hb, hstmt, hbinds⟩ := EnclosingBlock.binds_of_let? hl
  obtain ⟨⟨site, part⟩, hq, hpart, -⟩ := Expr.listed_of_mem_parts hp hb stmt hstmt
  obtain rfl : part = .stmt stmt := hpart
  cases stmt with
  | eval => simp [Stmt.binds] at hbinds
  | ret => simp [Stmt.binds] at hbinds
  | bind id span bound annotation init =>
    obtain rfl : bound = name := by simpa [Stmt.binds] using hbinds
    obtain ⟨index, type, hlet, htype, -, hdeclared⟩ := h.lets hq
    exact ⟨id, span, annotation, init, _, type, rfl, hlet, htype, hdeclared⟩

/-- A variable of an accepted function is recorded to stand for what lexical scoping says, and to have
the type declared for that. -/
theorem AcceptedUnit.resolves_lexically (h : AcceptedUnit units decls unit source checked)
    (hc : Collected units decls) (hF : F ∈ checked.functions)
    (hdecl : source.items[F.itemIndex]? = some (.function decl)) (hbody : decl.body = some body)
    (hroot : body.tree = .ok root) {site : Site} {id : ExprId} {span : FileSpan} {name : String}
    (hp : (site, .expr (.var id span name)) ∈ root.parts .top) :
    ∃ item binding, decls.functionAt? unit F.itemIndex = some item ∧
      F.refs.get? id = some binding ∧
      TypingContext.Resolves ⟨decls, source.name, F⟩ item decl site name binding (F.typeOf id) := by
  obtain ⟨⟨item, hitem, htyped⟩, depths, hlocals⟩ := h.recorded hc hF hdecl hbody hroot
  have hvar : TypingContext.VarTyped ⟨decls, source.name, F⟩ _ id name :=
    TypingContext.partTyped_of_mem_parts htyped.body hp
  have hfind := TypingContext.find?_visible (fun block hb => hlocals.allBound hp hb)
    (TypingContext.params ⟨decls, source.name, F⟩ decl) name
  refine ⟨item, ?_⟩
  cases hq : Name.isQualified name with
  | true =>
    obtain ⟨found, hfound, href, htype⟩ := hvar.qualified hq
    exact ⟨found.id, hitem, href, htype ▸ .qualified hq hfound⟩
  | false =>
    cases hlet : site.let? name with
    | some stmt =>
      obtain ⟨letId, letSpan, annotation, init, binding, type, rfl, hrecorded, htype, hdeclared⟩ :=
        hlocals.let? hp hlet
      simp only [hlet, Option.bind_some, TypingContext.boundBy, hrecorded] at hfind
      obtain ⟨href, htype'⟩ := hvar.local hq hfind
      rw [htype] at htype'
      cases htype'
      exact ⟨binding, hitem, href, .bound hq hlet hrecorded hdeclared⟩
    | none =>
      rw [hlet, Option.bind_none, Option.none_or] at hfind
      cases hparam : Local.find? name (paramLocals decl.params F.params) with
      | some x =>
        obtain ⟨i, param, hi, hname, hbinding, hlast⟩ := param_of_find? hparam htyped.arity
        obtain ⟨href, htype⟩ := hvar.local hq (hfind.trans (congrArg _ hparam))
        obtain ⟨type, htype', -, hlocal⟩ := forall₂_exists_getElem? htyped.paramTypes hbinding
        have hsame : type = F.typeOf id := Option.some.inj (hlocal.symm.trans htype)
        exact ⟨x.binding, hitem, href, .param hq hlet hi hname hlast hbinding (hsame ▸ htype')⟩
      | none =>
        obtain ⟨found, hfound, href, htype⟩ := hvar.item hq (hfind.trans (congrArg _ hparam))
        have hself := hc.wellFormed.item?_id (Declarations.WellFormed.mem_of_lookup? hfound)
        obtain ⟨hown, hnamed⟩ := hlocals.items hp hq href hself
        exact ⟨found.id, hitem, href, htype ▸ .item hq hlet (not_param_of_find? hparam htyped.arity) hfound
          (hown.trans (Check.functionAt?_ok hitem).2.1.symm) hnamed⟩

/-! ## A program

A local that hides the parameter of the same name inside a loop, and one that the loop assigns. -/

theorem SourceUnit.bodyAt?_eq_some {itemIndex : Nat} (h : source.bodyAt? itemIndex = some body) :
    ∃ decl, source.items[itemIndex]? = some (.function decl) ∧ decl.body = some body := by
  unfold SourceUnit.bodyAt? at h
  split at h
  · rename_i decl hdecl
    exact ⟨decl, hdecl, h⟩
  · cases h

/-- A program is accepted, and so are the parts of a function by a test that runs. -/
theorem accepted_parts (source : SourceUnit) (ht : source.TreeShaped)
    (test : CheckedFunction → List (Site × Part) → Bool)
    (hrun : runsOn "m" source (fun _ _ checked => checked.functions.any fun F =>
      (source.bodyAt? F.itemIndex).any fun body => body.tree.toOption.any fun root =>
        test F (root.parts .top)) = true) : ∃ decls checked F decl body root, Collected [source] decls ∧
    AcceptedUnit [source] decls ⟨0⟩ source checked ∧ F ∈ checked.functions ∧
    source.items[F.itemIndex]? = some (.function decl) ∧ decl.body = some body ∧ body.tree = .ok root ∧
    test F (root.parts .top) = true := by
  obtain ⟨decls, declaring, checked, hd, hu, hrun⟩ := accepted_of_runsOn ht hrun
  obtain ⟨F, hF, htest⟩ := any_eq_true.mp hrun
  obtain ⟨body, hbodyAt, htest⟩ := (Option.any_eq_true _ _).mp htest
  obtain ⟨root, hroot, htest⟩ := exists_ok htest
  obtain ⟨decl, hdecl, hbody⟩ := SourceUnit.bodyAt?_eq_some hbodyAt
  exact ⟨decls, checked, F, decl, body, root, hd.toCollected, hu, hF, hdecl, hbody, hroot, htest⟩

namespace Hiding

/-- `fn pick(n: i32) -> i32 { let x = n; while x > 0 { let n = x - 1; x = n; } n }` -/
def pick : Build FunctionDecl := do
  let n ← .param "n" (← .type (.named "i32"))
  let result ← .type (.named "i32")
  let init ← .expr (.var "n")
  let start ← .stmt (.bind "x" none (some init))
  let x ← .expr (.var "x")
  let zero ← .expr (.literal (.int 0 none))
  let condition ← .expr (.binary .gt x zero)
  let x ← .expr (.var "x")
  let one ← .expr (.literal (.int 1 none))
  let less ← .expr (.binary .sub x one)
  let hide ← .stmt (.bind "n" none (some less))
  let target ← .expr (.var "x")
  let value ← .expr (.var "n")
  let step ← .expr (.assign target value)
  let step ← .stmt (.eval step)
  let body ← .expr (.block [hide, step] none)
  let loop ← .expr (.loop condition body)
  let loop ← .stmt (.eval loop)
  let tail ← .expr (.var "n")
  .finishFunction "pick" [n] (some result) [start, loop] (some tail)

def program : SourceUnit := ⟨"m", ⟨0⟩, none, [.function (pick.run (.new ⟨0⟩ 0)).1]⟩

/-- Whether a part is a variable of a name that a `let` before it binds. -/
def isHidden (name : String) : Site × Part → Bool
  | (site, .expr (.var _ _ found)) => found = name && (site.let? name).isSome
  | _ => false

theorem exists_var_of_isHidden (h : isHidden name p = true) :
    ∃ site id span, p = (site, .expr (.var id span name)) ∧ (site.let? name).isSome = true := by
  unfold isHidden at h
  split at h
  · rename_i site id span found
    obtain ⟨hn, hl⟩ := Bool.and_eq_true_iff.mp h
    obtain rfl : found = name := by simpa using hn
    exact ⟨site, id, span, rfl, hl⟩
  · cases h

end Hiding

theorem AcceptedUnit.resolves_lexically_hiding : ∃ decls checked F decl root site id span item binding,
    AcceptedUnit [Hiding.program] decls ⟨0⟩ Hiding.program checked ∧ F ∈ checked.functions ∧
    (site, .expr (.var id span "n")) ∈ Expr.parts .top root ∧ (site.let? "n").isSome = true ∧
    F.refs.get? id = some binding ∧ TypingContext.Resolves ⟨decls, Hiding.program.name, F⟩ item decl site
      "n" binding (F.typeOf id) := by
  obtain ⟨decls, checked, F, decl, body, root, hc, hu, hF, hdecl, hbody, hroot, htest⟩ :=
    accepted_parts Hiding.program (by decide +kernel) (fun _ parts => parts.any (Hiding.isHidden "n"))
      (by decide +kernel)
  obtain ⟨p, hp, hhidden⟩ := List.any_eq_true.mp htest
  obtain ⟨site, id, span, rfl, hlet⟩ := Hiding.exists_var_of_isHidden hhidden
  obtain ⟨item, binding, -, href, hresolves⟩ :=
    AcceptedUnit.resolves_lexically hu hc hF hdecl hbody hroot hp
  exact ⟨decls, checked, F, decl, root, site, id, span, item, binding, hu, hF, hp, hlet, href, hresolves⟩

end SsaCompiler
