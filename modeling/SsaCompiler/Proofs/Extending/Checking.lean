import SsaCompiler.Proofs.Extending.Collecting
import SsaCompiler.Proofs.Typing.Accepted

/-!
# Checking against further declarations

A function that is checked without mistakes is checked with the same answers against declarations
among which its own stand (`Check.follows_function`): names, types and structs that are found are
found there as well. So a unit that is accepted stays accepted, with the same record, if further
units are added (`checkUnit_partOf`).
-/

namespace SsaCompiler

open List SymbolTable

/-- The items that a function refers to are those of an index. -/
def CheckedFunction.RefersTo (F : CheckedFunction) (index : ModuleIndex Ty) : Prop :=
  ∀ {id : ExprId} {position : Nat}, F.refs.get? id = some (.item position) → position < index.items.size

namespace CheckState

def withIndex (s : CheckState) (index : ModuleIndex Ty) : CheckState :=
  { s with symbols := { s.symbols with index } }

/-- The names in scope are those of an index and locals; a reference is to one of them. -/
structure Refers (index : ModuleIndex Ty) (s : CheckState) : Prop where
  table : s.symbols.index = index
  refs : s.function.RefersTo index
  locals : ∀ binding ∈ s.symbols.locals.toList, ∃ unit position, binding.id = .local unit position

end CheckState

namespace Check

variable {α β : Type} {decls decls' : Declarations}
variable {index index' : ModuleIndex Ty} {t : SymbolTable Ty}

/-- A step that ends without mistakes started without, and does the same against other declarations. -/
def Follows (decls decls' : Declarations) (step step' : Check α) : Prop :=
  ∀ ⦃s a s₁⦄, step.run s = .ok (a, s₁) → s₁.errors = [] →
    s.errors = [] ∧ (s.Refers decls.index → s₁.Refers decls.index ∧
      step'.run (s.withIndex decls'.index) = .ok (a, s₁.withIndex decls'.index))

namespace Follows

theorem pure (a : α) : Follows decls decls' (Pure.pure a) (Pure.pure a) := by
  intro s a' s1 hr hs
  obtain ⟨rfl, rfl⟩ := run_pure_eq_ok.mp hr
  exact ⟨hs, fun h => ⟨h, rfl⟩⟩

theorem bind {x x' : Check α} {f f' : α → Check β} (hx : Follows decls decls' x x')
    (hf : ∀ a, Follows decls decls' (f a) (f' a)) : Follows decls decls' (x >>= f) (x' >>= f') := by
  intro s b s2 hr hs
  obtain ⟨a, s1, hr1, hr2⟩ := run_bind_eq_ok.mp hr
  obtain ⟨hs1, hf⟩ := hf a hr2 hs
  obtain ⟨hs0, hx⟩ := hx hr1 hs1
  refine ⟨hs0, fun h => ?_⟩
  obtain ⟨h1, hx'⟩ := hx h
  obtain ⟨h2, hf'⟩ := hf h1
  exact ⟨h2, run_bind_eq_ok.mpr ⟨a, _, hx', hf'⟩⟩

theorem report {error error' : TypeError} : Follows decls decls' (report error) (report error') := by
  intro s a s1 hr hs
  obtain rfl := run_modify_eq_ok.mp hr
  have hnil : s.errors ++ [error] = [] := hs
  simp at hnil

theorem modify {change : CheckState → CheckState} (hc : ∀ s, (change s).errors = s.errors)
    (hk : ∀ s, s.Refers decls.index → (change s).Refers decls.index)
    (hi : ∀ s, change (s.withIndex decls'.index) = (change s).withIndex decls'.index) :
    Follows decls decls' (modify change) (modify change) := by
  intro s a s1 hr hs
  obtain rfl := run_modify_eq_ok.mp hr
  refine ⟨(hc s).symm.trans hs, fun h => ⟨hk s h, ?_⟩⟩
  exact run_modify_eq_ok.mpr (hi s)

theorem lift {x : Except Fault α} : Follows decls decls' (liftM x) (liftM x) := by
  intro s a s1 hr hs
  obtain ⟨hx, rfl⟩ := run_lift_eq_ok.mp hr
  exact ⟨hs, fun h => ⟨h, run_lift_eq_ok.mpr ⟨hx, rfl⟩⟩⟩

theorem get {f : CheckState → Check α} (hf : ∀ s, Follows decls decls' (f s) (f s))
    (hi : ∀ s, s.Refers decls.index → f (s.withIndex decls'.index) = f s) :
    Follows decls decls' (MonadState.get >>= f) (MonadState.get >>= f) := by
  intro s a s1 hr hs
  simp only [run_bind_eq_ok, run_get_eq_ok] at hr ⊢
  obtain ⟨_, _, ⟨rfl, rfl⟩, hr⟩ := hr
  obtain ⟨hs0, h1⟩ := hf _ hr hs
  exact ⟨hs0, fun h => ⟨(h1 h).1, _, _, ⟨rfl, rfl⟩, by rw [hi _ h]; exact (h1 h).2⟩⟩

theorem note {change : CheckedFunction → CheckedFunction} (hc : ∀ f, (change f).refs = f.refs) :
    Follows decls decls' (note change) (note change) :=
  modify (fun _ => rfl) (fun s h => ⟨h.table, fun hr => h.refs (hc s.function ▸ hr), h.locals⟩) fun _ => rfl

end Follows

variable {name : String} {span : FileSpan} {binding : Binding Ty} {s : CheckState}
variable {position : Nat} {type : Ty} {unitName : String} {storage : Storage}

/-! ## Scopes -/

theorem exit_withIndex {outer : SymbolTable Ty} (h : t.exit = .ok outer) :
    outer.index = t.index ∧ outer.locals = t.locals ∧
      ({ t with index } : SymbolTable Ty).exit = .ok { outer with index } := by
  simp only [exit, bind_eq_ok] at h ⊢
  obtain ⟨scope, hscope, h⟩ := h
  split at h <;> cases h
  rename_i hparent
  exact ⟨rfl, rfl, scope, hscope, by rw [hparent]; rfl⟩

theorem follows_within {kind : ScopeKind} {owner : Option String} {x x' : Check α} (hx : Follows decls decls' x x') :
    Follows decls decls' (within kind owner x) (within kind owner x') := by
  intro s a s1 hr hs
  obtain ⟨s2, outer, hin, hexit, rfl⟩ := within_eq_ok.mp hr
  obtain ⟨hs0, hx⟩ := hx hin hs
  refine ⟨hs0, fun h => ?_⟩
  obtain ⟨h2, hin'⟩ := hx ⟨h.table, h.refs, h.locals⟩
  obtain ⟨hindex, hlocals, hexit'⟩ := exit_withIndex hexit
  exact ⟨⟨hindex.trans h2.table, h2.refs, by rw [hlocals]; exact h2.locals⟩,
    within_eq_ok.mpr ⟨_, _, hin', hexit', rfl⟩⟩

theorem declare_withIndex {t' : SymbolTable Ty}
    {binding : BindingId} (h : t.declare name type storage span = (.ok (.ok binding, t') : Except Fault _))
    (hu : t.index.units.toList <+: index.units.toList) :
    ({ t with index } : SymbolTable Ty).declare name type storage span =
      (.ok (.ok binding, { t' with index }) : Except Fault _) := by
  obtain ⟨rfl, tree, unitName, owner, hdef, hunit, howner, rfl⟩ := declare_eq_ok.mp h
  exact declare_eq_ok.mpr ⟨rfl, tree, unitName, owner, hdef, Collect.unitName_of_isPrefix hu hunit, howner, rfl⟩

theorem follows_declareLocal (hp : decls.PartOf decls') :
    Follows decls decls' (declareLocal name type storage span) (declareLocal name type storage span) := by
  intro s r s1 hr hs
  obtain ⟨binding, symbols, depth, hdeclare, hdepth, rfl, rfl⟩ := declareLocal_ok hr hs
  refine ⟨hs, fun h => ?_⟩
  have hdeclare' := declare_withIndex hdeclare (h.table ▸ hp.units)
  obtain ⟨rfl, tree, _, _, -, -, -, rfl⟩ := declare_eq_ok.mp hdeclare
  refine ⟨⟨h.table, h.refs, fun found hf => ?_⟩,
    declareLocal_eq_ok.mpr (.inl ⟨_, _, depth, hdeclare', hdepth, rfl, rfl⟩)⟩
  have hf : found ∈ (s.symbols.locals.push _).toList := hf
  rw [Array.toList_push, mem_append, mem_singleton] at hf
  rcases hf with hf | rfl
  · exact h.locals found hf
  · exact ⟨_, _, rfl⟩

/-! ## Names -/

theorem item?_of_isPrefix (h : index.items.toList <+: index'.items.toList) (hlt : position < index.items.size) :
    index'.item? (.item position) = index.item? (.item position) := by
  have hfound : index.items.toList[position]? = some index.items[position] := by
    rw [Array.getElem?_toList, Array.getElem?_eq_getElem hlt]
  have hfound' := getElem?_of_isPrefix h hfound
  rw [Array.getElem?_toList] at hfound hfound'
  exact hfound'.trans hfound.symm

theorem lookup?_of_isPrefix (h : index.items.toList <+: index'.items.toList) (hl : index.lookup? name = some binding) :
    index'.lookup? name = some binding := by
  unfold ModuleIndex.lookup? at hl ⊢
  rw [← Array.find?_toList] at hl ⊢
  obtain ⟨more, hmore⟩ := h
  rw [← hmore, find?_append, hl]
  rfl

theorem binding?_of_isPrefix (h : t.index.items.toList <+: index'.items.toList)
    {id : BindingId} (hb : t.binding? id = some binding) :
    ({ t with index := index' } : SymbolTable Ty).binding? id = some binding := by
  cases id with
  | «local» => exact hb
  | item position =>
    have hlt : position < t.index.items.size := lt_of_getElem? hb
    exact (item?_of_isPrefix h hlt).trans hb

theorem resolve_of_isPrefix (h : t.index.items.toList <+: index'.items.toList)
    (hr : t.resolve name span = (.ok (.ok binding) : Except Fault _)) :
    ({ t with index := index' } : SymbolTable Ty).resolve name span = (.ok (.ok binding) : Except Fault _) := by
  unfold resolve item? visible?
  rcases found_of_resolve hr with ⟨hqual, hfound⟩ | ⟨hqual, entry, hentry, hrecord⟩
  · simp only [hqual, Names.find?, pure_bind, Option.bind_some, lookup?_of_isPrefix h hfound]
    rfl
  · simp only [hqual, Bool.false_eq_true, if_false, Names.find?, pure_bind, bind_eq_ok]
    exact ⟨some binding, ⟨some entry, hentry, congrArg Except.ok (binding?_of_isPrefix h hrecord)⟩, rfl⟩

/-- A binding that is found is a local or one of the items. -/
theorem item_of_resolve (hd : decls.index.Sound) (h : s.Refers decls.index)
    (hr : s.symbols.resolve name span = (.ok (.ok binding) : Except Fault _)) (hb : binding.id = .item position) :
    position < decls.index.items.size := by
  have hitem : binding ∈ decls.index.items.toList → position < decls.index.items.size := by
    intro hm
    have hi := hd.item?_id hm
    rw [hb] at hi
    exact lt_of_getElem? hi
  rcases found_of_resolve hr with ⟨-, hfound⟩ | ⟨-, entry, -, hrecord⟩
  · rw [h.table] at hfound
    exact hitem (Array.mem_toList_iff.mpr (Array.mem_of_find?_eq_some hfound))
  · cases he : entry.binding with
    | item found =>
      rw [he] at hrecord
      have hrecord : s.symbols.index.items[found]? = some binding := hrecord
      rw [h.table] at hrecord
      exact hitem (Array.mem_toList_iff.mpr (Array.mem_of_getElem? hrecord))
    | «local» unit found =>
      rw [he] at hrecord
      have hrecord : (if unit = s.symbols.unit then s.symbols.locals[found]? else none) = some binding := hrecord
      split at hrecord
      · obtain ⟨_, _, hid⟩ := h.locals binding (Array.mem_toList_iff.mpr (Array.mem_of_getElem? hrecord))
        rw [hid] at hb
        cases hb
      · cases hrecord

theorem follows_var (hp : decls.PartOf decls') (hd : decls.index.Sound) (id : ExprId) (name : String)
    (span : FileSpan) : Follows decls decls' (var id name span) (var id name span) := by
  intro s type s1 hr hs
  obtain ⟨binding, hresolve, rfl, rfl⟩ := var_ok hr hs
  simp only [var, run_bind_eq_ok, run_get_eq_ok, run_lift_eq_ok]
  refine ⟨hs, fun h => ⟨⟨h.table, fun {other position} ho => ?_, h.locals⟩, _, _, ⟨rfl, rfl⟩, _, _,
    ⟨resolve_of_isPrefix (h.table ▸ hp.items) hresolve, rfl⟩, rfl⟩⟩
  rw [Table.get?_insert] at ho
  split at ho
  · exact item_of_resolve hd h hresolve (Option.some.inj ho)
  · exact h.refs ho

/-! ## Places -/

theorem binding?_withIndex (hp : decls.PartOf decls') (h : s.Refers decls.index) {id : ExprId}
    {binding : BindingId} (hr : s.function.refs.get? id = some binding) :
    (s.withIndex decls'.index).symbols.binding? binding = s.symbols.binding? binding := by
  cases binding with
  | «local» => rfl
  | item position =>
    show decls'.index.item? (.item position) = s.symbols.index.item? (.item position)
    rw [h.table]
    exact item?_of_isPrefix hp.items (h.refs hr)

theorem placeRoot_withIndex (hp : decls.PartOf decls') (h : s.Refers decls.index) :
    ∀ expr : Expr, placeRoot (s.withIndex decls'.index) expr = placeRoot s expr
  | .var id span name => by
    rw [placeRoot, placeRoot]
    rw [show (s.withIndex decls'.index).function = s.function from rfl]
    cases hr : s.function.refs.get? id with
    | none => rfl
    | some binding =>
      dsimp only
      rw [binding?_withIndex hp h hr]
  | .field id span base name => by
    rw [placeRoot, placeRoot_withIndex hp h base]
    rfl
  | .unary id span op operand => by cases op <;> rfl
  | .literal .. | .binary .. | .call .. | .assign .. | .cond .. | .loop .. | .block .. | .structLiteral ..
  | .breakLoop .. | .continueLoop .. => by rw [placeRoot, placeRoot] <;> simp

/-! ## Types -/

theorem resolveType_partOf (hp : decls.PartOf decls') {expr : TypeExpr}
    (h : decls.resolveType unitName expr = (.ok (.ok type) : Except Fault _)) :
    decls'.resolveType unitName expr = (.ok (.ok type) : Except Fault _) :=
  Declarations.resolveType_eq_ok.mpr (TypeExpr.type?_mono (fun _ _ => hp.types) (Declarations.resolveType_eq_ok.mp h))

theorem follows_annotatedType (hp : decls.PartOf decls') (unitName : String) (result : Ty) (expr : TypeExpr) :
    Follows decls decls' (annotatedType ⟨decls, unitName, result⟩ expr)
      (annotatedType ⟨decls', unitName, result⟩ expr) := by
  intro s type s1 hr hs
  rcases annotatedType_cases hr with ⟨rfl, hresolved⟩ | herror
  · refine ⟨hs, fun h => ⟨h, ?_⟩⟩
    simp only [annotatedType, run_bind_eq_ok, run_lift_eq_ok]
    exact ⟨_, _, ⟨resolveType_partOf hp hresolved, rfl⟩, rfl⟩
  · exact absurd hs herror

/-! ## Functions -/

/-- Checking a function without mistakes does the same against declarations among which its own stand. -/
theorem comparison (hp : decls.PartOf decls') (hd : decls.index.Sound) {result : Ty} :
    Comparison ⟨decls, unitName, result⟩ ⟨decls', unitName, result⟩ (fun _ => True)
      fun {α} _ (x x' : Check α) => Follows decls decls' x x' where
  stable := Ty.stable_true
  result := rfl
  callee h := h
  pure _ := .pure _
  bind {_ _ k _ _ _ _ _} hx hf := .bind hx fun a => hf a (k.holds_true a)
  some hx := hx.bind fun a => .pure _
  report _ := .report
  note _ hc := .note fun f => (hc f).1
  inScope kind _ _ hx := follows_within hx
  inFunction name _ _ hx := follows_within hx
  declareLocal name type storage span _ := follows_declareLocal hp
  annotatedType := follows_annotatedType hp unitName result
  var := follows_var hp hd
  place expr := .get (fun _ => .pure _) fun s h => by rw [placeRoot_withIndex hp h]
  crossesLoop binding := .get (fun _ => .bind .lift fun _ => .pure _) fun _ _ => rfl
  inLoop := .get (fun _ => .lift) fun _ _ => rfl
  struct := by
    intro α k id f f' _ hf
    cases hs : decls.struct? id with
    | none =>
      intro s a s1 hr
      obtain ⟨hfault, -⟩ := run_lift_eq_ok.mp hr
      cases hfault
    | some struct =>
      have hs' : decls'.struct? id = some struct := by
        unfold Declarations.struct? at hs ⊢
        rw [← Array.getElem?_toList] at hs ⊢
        exact getElem?_of_isPrefix hp.structs hs
      rw [hs']
      exact hf struct fun _ _ => trivial

end Check

/-! ## Units -/

section

variable {decls decls' : Declarations} {unit : UnitId}

theorem checkFunctions_partOf (hp : decls.PartOf decls') (hd : decls.index.Sound)
    (hu : unit.index < decls.index.units.size) {unitName : String} {written : List (Nat × FunctionDecl)}
    {symbols symbols' : SymbolTable Ty} {functions : List CheckedFunction} (hi : symbols.index = decls.index)
    (hl : ∀ binding ∈ symbols.locals.toList, ∃ unit position, binding.id = .local unit position)
    (h : checkFunctions decls unit unitName written symbols = (.ok ([], functions, symbols') : Except Fault _)) :
    checkFunctions decls' unit unitName written { symbols with index := decls'.index } =
      (.ok ([], functions, { symbols' with index := decls'.index }) : Except Fault _) ∧
      ∀ F ∈ functions, F.RefersTo decls.index := by
  induction written generalizing symbols functions with
  | nil =>
    cases h
    exact ⟨rfl, by simp⟩
  | cons written rest ih =>
    obtain ⟨itemIndex, decl⟩ := written
    unfold checkFunctions at h ⊢
    rw [hp.functionAt hu]
    revert h
    cases decl.body with
    | none => exact ih hi hl
    | some body =>
      cases decls.functionAt? unit itemIndex with
      | none => exact ih hi hl
      | some item =>
        intro h
        simp only [bind_eq_ok] at h ⊢
        obtain ⟨root, hroot, ⟨_, s⟩, hrun, ⟨errors, others, after⟩, hrest, h⟩ := h
        simp only [pure_eq_ok, Prod.mk.injEq, append_eq_nil_iff] at h
        obtain ⟨⟨hs, rfl⟩, rfl, rfl⟩ := h
        obtain ⟨hrefers, hrun'⟩ := ((Check.comparison hp hd).function (fun _ _ => trivial) decl root hrun hs).2
          ⟨hi, fun hr => by simp [CheckedFunction.start] at hr, hl⟩
        obtain ⟨hrest', hothers⟩ := ih hrefers.table hrefers.locals hrest
        refine ⟨⟨root, hroot, _, hrun', _, hrest', ?_⟩, forall_mem_cons.mpr ⟨hrefers.refs, hothers⟩⟩
        simp [CheckState.withIndex, hs, pure, Except.pure]

/-- A unit that is accepted is accepted, with the same record, if further units are declared. -/
theorem checkUnit_partOf (hp : decls.PartOf decls') (hd : decls.index.Sound)
    (hu : unit.index < decls.index.units.size) (he : decls'.errorsOf unit = []) {source : SourceUnit}
    {checked : CheckedUnit} (h : checkUnit decls unit source = .ok (.ok checked)) :
    checkUnit decls' unit source = .ok (.ok checked) ∧ ∀ F ∈ checked.functions, F.RefersTo decls.index := by
  rw [checkUnit_eq] at h ⊢
  simp only [bind_eq_ok] at h ⊢
  obtain ⟨symbols, hsymbols, unitName, hname, ⟨errors, functions, after⟩, hfunctions, h⟩ := h
  simp only [forUnit, bind_eq_ok, pure_eq_ok] at hsymbols
  obtain ⟨tree, htree, rfl⟩ := hsymbols
  split at h <;> cases h
  rename_i hnone
  obtain ⟨-, rfl⟩ := append_eq_nil_iff.mp hnone
  have hsymbols' : forUnit decls'.index unit = .ok ⟨decls'.index, unit, tree, ScopeTree.root, #[]⟩ := by
    simp only [forUnit, bind_eq_ok]
    exact ⟨tree, by rw [hp.unitItems hu]; exact htree, rfl⟩
  obtain ⟨hfunctions', hrefers⟩ := checkFunctions_partOf hp hd hu rfl (by simp) hfunctions
  refine ⟨⟨_, hsymbols', unitName, Collect.unitName_of_isPrefix hp.units hname, _, hfunctions', ?_⟩, hrefers⟩
  rw [he]
  rfl

end

end SsaCompiler
