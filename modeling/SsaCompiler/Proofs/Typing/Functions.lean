import SsaCompiler.Proofs.Typing.Sound

/-!
# Checked units are typed

A unit that is checked without a mistake has a record for each of its functions with a body, and the
record types that body and tells the storage of its locals (`checkUnit_ok`). The functions are checked
one after another, each from the outermost scope of the unit, which shows the items of the unit and
nothing else (`SymbolTable.AtUnit`).
-/

namespace SsaCompiler

open List TypingContext
open ScopeTree (root)

/-- A symbol table at the outermost scope of a unit, which shows the items of the unit. -/
structure SymbolTable.AtUnit (decls : Declarations) (unit : UnitId) (unitName : String) (t : SymbolTable Ty) :
    Prop where
  index : t.index = decls.index
  unit : t.unit = unit
  outermost : t.current = root
  shows : t.tree.Shows root [] 0
  items : ∀ {name : String} {entry : ScopeEntry}, t.tree.declaredAtRoot? name = some entry →
    ∃ item, decls.index.lookup? (Name.path [unitName, name]) = some item ∧
      decls.index.item? entry.binding = some item ∧ item.unit = t.unit ∧ item.name = name

namespace SymbolTable

variable {decls : Declarations} {unit : UnitId} {unitName : String} {t t' outer : SymbolTable Ty}

theorem AtUnit.leave (h : t.AtUnit decls unit unitName) {function : String}
    (he : (t.enterFunction function).Extends t') (hout : t'.exit = .ok outer) : outer.AtUnit decls unit unitName := by
  have hentered : (t.enterFunction function).tree.scopes[t.tree.scopes.size]? =
      some ⟨some t.current, .function, some function, .empty⟩ := by
    simp [enterFunction, enterOwned, ScopeTree.addChild]
  obtain ⟨entries, hscope, -⟩ := he.scopes hentered
  have hcur : t'.current = ⟨t.tree.scopes.size⟩ := he.current
  simp only [exit, bind_eq_ok, ScopeTree.scope, hcur, hscope, Except.ok.injEq, exists_eq_left', pure,
    Except.pure] at hout
  subst hout
  have hpos : 0 < (t.enterFunction function).current.index := h.shows.size_pos
  refine ⟨he.index.trans h.index, he.unit.trans h.unit, h.outermost, ?_, fun {name entry} hd => he.unit ▸ h.items ?_⟩
  · exact he.shows (shows_enterOwned_outer h.shows) hpos
  · rw [← hd, he.declaredAtRoot? hpos (shows_enterOwned_outer h.shows).size_pos]
    exact (declaredAtRoot?_enterOwned h.shows.size_pos _ _ _).symm

theorem shows_define_root {tree tree' : ScopeTree} {name : String} {entry : ScopeEntry} (hs : tree.Shows root [] 0)
    (h : tree.define root name entry = .ok (.ok (), tree')) :
    tree'.Shows root [] 0 ∧ ∀ {other : String} {found : ScopeEntry}, tree'.declaredAtRoot? other = some found →
        tree.declaredAtRoot? other = some found ∨ name = other ∧ found = entry := by
  obtain ⟨scope, found, outermost, kind⟩ := hs.at_root
  obtain ⟨_, found', -, rfl⟩ := ScopeTree.define_eq_ok.mp h
  obtain rfl := Option.some.inj (found.symm.trans found')
  have hsize := lt_of_getElem? found
  have hnew : (tree.scopes.setIfInBounds 0 { scope with entries := scope.entries.insert name entry })[0]? =
      some { scope with entries := scope.entries.insert name entry } :=
    Array.getElem?_setIfInBounds_self_of_lt hsize
  refine ⟨.unit hnew outermost kind, fun {other found'} hd => ?_⟩
  simp only [ScopeTree.declaredAtRoot?, root, hnew, found, Option.bind_some] at hd ⊢
  by_cases hn : other = name
  · subst hn
    rw [Table.get?_insert_self] at hd
    exact .inr ⟨rfl, (Option.some.inj hd).symm⟩
  · rw [Table.get?_insert_of_ne _ hn] at hd
    exact .inl hd

/-- The unit scope declares the given items, besides what it declared before. -/
theorem defineItems_ok {items : List (Binding Ty)} {tree tree' : ScopeTree} (h : defineItems items tree = .ok tree')
    (hs : tree.Shows root [] 0) : tree'.Shows root [] 0 ∧ ∀ {name : String} {entry : ScopeEntry},
      tree'.declaredAtRoot? name = some entry → tree.declaredAtRoot? name = some entry ∨
        ∃ item ∈ items, item.name = name ∧ entry.binding = item.id := by
  induction items generalizing tree with
  | nil =>
    cases h
    exact ⟨hs, .inl⟩
  | cons item rest ih =>
    simp only [defineItems, bind_eq_ok] at h
    obtain ⟨⟨defined, tree1⟩, hdef, h⟩ := h
    cases defined with
    | error existing => cases h
    | ok done =>
      obtain ⟨hs1, hentries⟩ := shows_define_root hs hdef
      obtain ⟨hs', hitems⟩ := ih h hs1
      refine ⟨hs', fun {name entry} he => ?_⟩
      rcases hitems he with he | ⟨other, ho, hn⟩
      · rcases hentries he with he | ⟨hn, rfl⟩
        · exact .inl he
        · exact .inr ⟨item, mem_cons_self, hn, rfl⟩
      · exact .inr ⟨other, .tail _ ho, hn⟩

theorem forUnit_ok {units : List SourceUnit} (hw : decls.WellFormed units)
    (hname : decls.index.unitName unit = .ok unitName) (h : forUnit decls.index unit = .ok t) :
    t.AtUnit decls unit unitName := by
  simp only [forUnit, bind_eq_ok, pure_eq_ok] at h
  obtain ⟨tree, htree, rfl⟩ := h
  have hnew : ScopeTree.new.Shows root [] 0 := .unit rfl rfl rfl
  obtain ⟨hshows, hitems⟩ := defineItems_ok htree hnew
  refine ⟨rfl, rfl, rfl, hshows, fun {name entry} he => ?_⟩
  rcases hitems he with hn | ⟨item, hi, rfl, hb⟩
  · cases hn
  · obtain ⟨hi, hu⟩ := mem_filter.mp hi
    obtain ⟨found, hfound, hq⟩ := hw.qualified item hi
    have hu : item.unit = unit := by simpa using hu
    rw [hu, hname] at hfound
    cases hfound
    exact ⟨item, hq ▸ hw.lookup? hi, hb ▸ hw.item?_id hi, hu, rfl⟩

end SymbolTable

/-- In the scope of a function no local is in view yet. -/
theorem SymbolTable.AtUnit.consistent_enterFunction {decls : Declarations} {unit : UnitId} {unitName : String}
    {symbols : SymbolTable Ty} (h : symbols.AtUnit decls unit unitName) {item : FunctionItem} {count : Nat}
    {name : String} : CheckState.Consistent ⟨decls, unitName, item.result⟩ [] 0
      ⟨symbols.enterFunction name, .start item count, [], .empty⟩ := by
  refine ⟨h.index, rfl, ?_, h.shows.size_pos, fun {name entry} he => ?_, by simp, by simp⟩
  · exact SymbolTable.shows_enterOwned (h.outermost ▸ h.shows)
  · exact h.items ((SymbolTable.declaredAtRoot?_enterOwned h.shows.size_pos _ _ _).symm.trans he)

/-- What is recorded about the parameters and locals of a function: `depths` has the number of loops
around the declaration of each. -/
structure CheckedFunction.LocalsRecorded (decls : Declarations) (unitName : String) (F : CheckedFunction)
    (root : Expr) (unit : UnitId) (depths : Table BindingId Nat) : Prop where
  lets : ∀ {site id span name annotation init},
    (site, .stmt (.bind id span name annotation init)) ∈ root.parts .top → ∃ index type,
      F.lets.get? id = some (.local unit index) ∧ F.localTypes.get? (.local unit index) = some type ∧
      depths.get? (.local unit index) = some site.loops ∧
      DeclaredType ⟨decls, unitName, F⟩ type annotation init
  items : ∀ {site id span name}, (site, .expr (.var id span name)) ∈ root.parts .top → F.ItemNamed decls unit id name
  literals : ∀ {site id span name inits}, (site, .expr (.structLiteral id span name inits)) ∈ root.parts .top →
    F.LiteralNamed decls id inits
  params : ∀ binding ∈ F.params, (∃ index, binding = .local unit index) ∧ depths.get? binding = some 0
  memory : ∀ {index depth}, depths.get? (.local unit index) = some depth → .local unit index ∈ F.memoryResident →
    ∃ p ∈ root.parts .top, F.Needs (.local unit index) depth p.1 p.2

namespace Check

variable {ctx : CheckContext} {units : List SourceUnit} {Γ : List Local} {depth : Nat} {s s' : CheckState}
variable {u : Unit} {item : FunctionItem} {decl : FunctionDecl} {root : Expr}

/-! ## Parameters -/

theorem declareParams_cons {param : Param × Ty} {rest : List (Param × Ty)}
    (h : (declareParams (param :: rest) : Check _).run s = .ok (u, s')) : ∃ declared s1,
      (declareLocal param.1.name param.2 .parameter param.1.span : Check _).run s = .ok (declared, s1) ∧
      (declareParams rest : Check _).run { s1 with function := { s1.function with
        params := s1.function.params ++ declared.toList } } = .ok (u, s') := by
  obtain ⟨declared, s1, h1, h2⟩ := run_bind_eq_ok.mp h
  refine ⟨declared, s1, h1, ?_⟩
  cases declared with
  | none => simpa using h2
  | some binding =>
    obtain ⟨_, s2, hnote, h3⟩ := run_bind_eq_ok.mp h2
    obtain rfl := run_modify_eq_ok.mp hnote
    exact h3

/-- Parameters are declared in order, each as a new local; apart from that nothing is recorded. -/
theorem declareParams_ok {params : List (Param × Ty)} (hs : s.Consistent ctx Γ depth)
    (h : (declareParams params : Check _).run s = .ok (u, s')) (hq : s'.errors = [])
    (hproper : ∀ param ∈ params, param.2.Proper ctx.decls.structs.size) :
    ∃ bindings, s'.function.params = s.function.params ++ bindings ∧
      s.Progress ∅ { s' with function := { s'.function with params := s.function.params } } ∧
      s'.Consistent ctx (Γ ++ zipWith (fun param binding => ⟨param.1.name, binding, depth⟩)
        params bindings) depth ∧
      (∀ binding, s'.function.isMemoryResident binding = true → s.function.isMemoryResident binding = true) ∧
      ∀ t, s'.Agrees ∅ t → Forall₂ (fun binding param => (∃ i, binding = .local t.symbols.unit i) ∧
        t.function.localTypes.get? binding = some param.2 ∧ t.depths.get? binding = some depth) bindings params := by
  induction params generalizing Γ s with
  | nil =>
    obtain ⟨-, rfl⟩ := run_pure_eq_ok.mp h
    exact ⟨[], by simp, .refl _ _, by simpa using hs, fun _ hb => hb, fun _ _ => .nil⟩
  | cons param rest ih =>
    obtain ⟨declared, s1, h1, h2⟩ := declareParams_cons h
    have hclean := Cumulative.clean h2 hq
    have q1 : s1.errors = [] := hclean
    obtain ⟨Γ1, hs1, p1, h1⟩ := declares_declareLocal hs (hproper param (.head _)) (.inr rfl)
      param.1.name param.1.span ∅ h1 q1 ⟨⟨fun h => h.elim, fun h => h.elim⟩, fun h => h.elim⟩
    obtain ⟨index, rfl, rfl, -, -, a1⟩ := h1 s1 (.self ..)
    obtain ⟨bindings, hparams, p2, hs', hmemory, htypes⟩ := ih
      (by exact ⟨hs1.index, hs1.result, hs1.shows, hs1.inFunction, hs1.items, hs1.locals, hs1.distinct⟩) h2
      fun param hp => hproper param (.tail _ hp)
    have p2' : s1.Progress ∅ { s' with function := { s'.function with params := s1.function.params } } :=
      { p2 with params := rfl }
    refine ⟨.local s1.symbols.unit index :: bindings, ?_, ?_, ?_, fun binding hb => ?_, fun t ht => ?_⟩
    · simp [hparams, p1.params]
    · have := p1.trans p2'
      rwa [p1.params] at this
    · simpa using hs'
    · simpa using a1.memory binding (hmemory binding hb)
    · have ht' : CheckState.Agrees ∅ { s' with function := { s'.function with params := s1.function.params } } t :=
        ⟨ht.unit, ht.result, by simp, ht.memory, ht.known⟩
      obtain ⟨index', hindex, -, htype, -⟩ := h1 t (ht'.back p2' (by simp))
      rw [Option.some.inj hindex]
      exact .cons ⟨⟨index', rfl⟩, htype⟩ (htypes t ht)

/-! ## Functions -/

/-- The steps of checking a function: parameters, body, the value of the body if control gets to its
end, and out of the scope again. -/
theorem function_steps (h : (function ctx item decl root : Check _).run s = .ok (u, s')) : ∃ s1 found s2 s3 outer,
      (declareParams (decl.params.zip item.params) : Check _).run
        { s with symbols := s.symbols.enterFunction decl.name } = .ok ((), s1) ∧
      (inferExpr ctx root : Check _).run s1 = .ok (found, s2) ∧
      (root.diverges = true ∧ s3 = s2 ∨
        (expectResult ctx root.id found (resultSite decl root) : Check _).run s2 = .ok ((), s3)) ∧
      s3.symbols.exit = .ok outer ∧ s' = { s3 with symbols := outer } := by
  obtain ⟨s3, outer, hin, hout, rfl⟩ := within_eq_ok.mp h
  simp only [functionBody, run_bind_eq_ok] at hin
  obtain ⟨_, s1, h1, found, s2, h2, h3⟩ := hin
  refine ⟨s1, found, s2, s3, outer, h1, h2, ?_, hout, rfl⟩
  split at h3
  · exact .inr h3
  · rename_i hd
    exact .inl ⟨by simpa using hd, (run_pure_eq_ok.mp h3).2.symm⟩

theorem function_ok {decls : Declarations} {unit : UnitId} {unitName : String} {symbols : SymbolTable Ty} {count : Nat}
    (hw : decls.WellFormed units) (hsym : symbols.AtUnit decls unit unitName)
    (hproper : item.type.Proper decls.structs.size) (harity : item.params.length = decl.params.length)
    (hnd : root.nodes.Nodup) (hroom : ∀ id, .expr id ∈ root.nodes → id.index < count)
    (h : (function ⟨decls, unitName, item.result⟩ item decl root : Check _).run
      ⟨symbols, .start item count, [], .empty⟩ = .ok (u, s'))
    (hq : s'.errors = []) : FunctionTyped ⟨decls, unitName, s'.function⟩ item decl root ∧
      s'.function.LocalsRecorded decls unitName root unit s'.depths ∧ s'.symbols.AtUnit decls unit unitName := by
  obtain ⟨hparams, hresult⟩ := hproper
  obtain ⟨s1, found, s2, s3, outer, h1, h2, h3, hout, rfl⟩ := function_steps h
  have q2 : s2.errors = [] := by
    rcases h3 with ⟨-, rfl⟩ | h3
    · exact hq
    · exact Cumulative.clean h3 hq
  obtain ⟨bindings, hb, p1, hs1, hmemory, htypes⟩ :=
    declareParams_ok hsym.consistent_enterFunction h1 (Cumulative.clean h2 q2)
      fun param hp => Ty.allProper_iff.mp hparams _ (List.of_mem_zip hp).2
  have hr0 : CheckState.Ready (cellsAt root.nodes) ⟨symbols.enterFunction decl.name, .start item count, [], .empty⟩ :=
    ⟨⟨fun _ => rfl, fun _ => rfl⟩, fun {id} hid => by simpa [CheckedFunction.start] using hroom id hid⟩
  have hr1 : s1.Ready (cellsAt root.nodes) := by
    have := hr0.progress p1
    exact ⟨⟨fun hc => this.unconverted ⟨hc, by simp⟩, fun hc => this.finite ⟨hc, by simp⟩⟩,
      fun hc => this.room ⟨hc, by simp⟩⟩
  have htop : CheckState.Consistent ⟨decls, unitName, item.result⟩ _ Site.top.loops s1 := hs1
  obtain ⟨Γ2, hs2, p2, h2⟩ := sound_inferExpr hw (Ty.ne_error_of_proper hresult) root hnd htop
    h2 q2 (hr1.sub cells_subset_cellsAt)
  obtain ⟨rfl, i2, -⟩ := h2 s2 (.self ..)
  have hr2 : s2.Ready (conversionsOf [root.id]) := by
    refine (hr1.progress p2).sub ?_
    simp [conversionsOf, cellsAt, Cell.node, Expr.mem_cells, root.id_mem_nodes]
  have hend : s2.Progress (conversionsOf [root.id]) s3 ∧ (s3.function.typeOf root.id = found →
      BranchTyped ⟨decls, unitName, s3.function⟩ item.result root) ∧
      s3.Accounts ⟨decls, unitName, item.result⟩ [] s2 s3 := by
    rcases h3 with ⟨hd, rfl⟩ | h3
    · exact ⟨.refl .., fun _ => .inr ⟨hd, hr2.unconverted (by simp)⟩, .nil rfl⟩
    · obtain ⟨_, -, p3, h3⟩ := ensures_assignable hs2 (Ty.ne_error_of_proper i2.proper)
        (Ty.ne_error_of_proper hresult) h3 hq hr2
      obtain ⟨-, hused, a3⟩ := h3 s3 (.self ..)
      exact ⟨p3, fun ht => .inl (hused root rfl ht), a3⟩
  obtain ⟨p3, hreturned, a3⟩ := hend
  have p23 : s1.Progress Set.univ s3 := (p2.mono (Set.subset_univ _)).trans (p3.mono (Set.subset_univ _))
  obtain ⟨-, i3, a2⟩ := h2 s3 (CheckState.Agrees.self.back p3 fun cell hc => by
    rintro ⟨id, hid, rfl⟩
    exact hc.2 (congrArg _ (mem_singleton.mp hid)))
  have htypes := htypes s3 (CheckState.Agrees.self.back p23 (by simp))
  have hfirst : (decl.params.zip item.params).map (·.1) = decl.params :=
    map_fst_zip (Nat.le_of_eq harity.symm)
  have hsecond : (decl.params.zip item.params).map (·.2) = item.params :=
    map_snd_zip (Nat.le_of_eq harity)
  have hF : s3.function.params = bindings := by
    rw [p23.params, hb]
    rfl
  have hlocals : params ⟨decls, unitName, s3.function⟩ decl = [] ++ zipWith
      (fun param binding => (⟨param.1.name, binding, 0⟩ : Local)) (decl.params.zip item.params) bindings := by
    simp only [params, hF, nil_append]
    conv_lhs => rw [← hfirst, zipWith_map_left]
  have hnodup : bindings.Nodup := by
    have hlength : bindings.length ≤ (decl.params.zip item.params).length := Nat.le_of_eq htypes.length_eq
    have := hs1.distinct
    rwa [nil_append, ← map_uncurry_zip_eq_zipWith, map_map,
      show (fun x : Local => x.binding) ∘ Function.uncurry (fun param binding =>
        (⟨param.1.name, binding, 0⟩ : Local)) = (Prod.snd : (Param × Ty) × BindingId → BindingId) from rfl,
      map_snd_zip hlength] at this
  have hunit : unit = s3.symbols.unit := hsym.unit.symm.trans (p1.symbols.trans p23.symbols).unit.symm
  refine ⟨⟨p23.binding.trans p1.binding, p23.itemIndex.trans p1.itemIndex, p23.result.trans p1.result,
    ?_, hF ▸ hnodup, ?_, i3.properIn, hlocals ▸ i3.typed, hreturned i3.typeOf⟩,
    ⟨?_, fun hp => hunit ▸ a2.recorded _ hp, fun hp => a2.recorded _ hp, ?_, ?_⟩, ?_⟩
  · show s3.function.params.length = _
    rw [hF, htypes.length_eq, length_zip, harity, Nat.min_self]
  · show Forall₂ _ s3.function.params _
    rw [hF, ← hsecond, forall₂_map_right_iff]
    refine htypes.imp fun binding param h => ?_
    obtain ⟨⟨i, hl⟩, htype, -⟩ := h
    exact ⟨⟨_, _, hl⟩, htype⟩
  · intro site id span name annotation init hp
    exact hunit ▸ a2.recorded _ hp
  · intro binding hbinding
    obtain ⟨param, -, ⟨i, hi⟩, -, hdepth⟩ := forall₂_exists_right htypes (hF ▸ hbinding)
    exact ⟨⟨i, hunit ▸ hi⟩, hdepth⟩
  · intro index depth hd hm
    have hin : s3.function.isMemoryResident (.local s3.symbols.unit index) = true := by
      simpa [CheckedFunction.isMemoryResident, hunit] using hm
    rcases (a2.append a3).memory _ hin with hnone | ⟨p, hp, hn⟩
    · have := hmemory _ hnone
      simp [CheckedFunction.isMemoryResident, CheckedFunction.start] at this
    · rw [hunit] at hd ⊢
      rw [hd] at hn
      exact ⟨p, by simpa using hp, hn⟩
  · exact hsym.leave (p1.symbols.trans p23.symbols) hout

end Check

/-! ## Units -/

theorem SourceUnit.mem_functions {source : SourceUnit} {f : Nat × FunctionDecl} :
    f ∈ source.functions ↔ source.items[f.1]? = some (.function f.2) := by
  obtain ⟨index, decl⟩ := f
  simp only [SourceUnit.functions, mem_filterMap, Prod.exists]
  constructor
  · rintro ⟨item, i, hm, he⟩
    cases item <;> cases he
    simpa [mem_zipIdx_iff_getElem?] using hm
  · intro h
    exact ⟨.function decl, index, by simpa [mem_zipIdx_iff_getElem?] using h, rfl⟩

/-- The functions of a unit that are checked: those with a body that were not rejected. -/
def SourceUnit.checkedFunctions (source : SourceUnit) (decls : Declarations) (unit : UnitId) :
    List (Nat × FunctionDecl) :=
  source.functions.filter fun f => f.2.body.isSome && (decls.functionAt? unit f.1).isSome

/-- A record is that of a function of a unit, and types its body. -/
structure CheckedFunction.Describes (decls : Declarations) (unit : UnitId) (unitName : String)
    (F : CheckedFunction) (itemIndex : Nat) (decl : FunctionDecl) : Prop where
  position : F.itemIndex = itemIndex
  locals : ∀ {body : Body} {root : Expr}, decl.body = some body → body.tree = .ok root →
    ∃ depths, F.LocalsRecorded decls unitName root unit depths
  typed : ∃ item body root, decls.functionAt? unit itemIndex = some item ∧ decl.body = some body ∧
    body.tree = .ok root ∧ root.nodes.Nodup ∧
    FunctionTyped ⟨decls, unitName, F⟩ item decl root

namespace Check

variable {units : List SourceUnit} {decls : Declarations} {unit : UnitId} {unitName : String}
variable {source : SourceUnit}

theorem functionAt?_ok {itemIndex : Nat} {item : FunctionItem} (h : decls.functionAt? unit itemIndex = some item) :
    item ∈ decls.functions.toList ∧ item.unit = unit ∧ item.itemIndex = itemIndex := by
  have hm := Array.mem_of_find?_eq_some h
  have hp := Array.find?_some h
  simp only [Bool.and_eq_true, decide_eq_true_eq] at hp
  exact ⟨Array.mem_toList_iff.mpr hm, hp.1, hp.2⟩

theorem checkFunctions_ok (hw : decls.WellFormed units) (hsource : units[unit.index]? = some source)
    {fs : List (Nat × FunctionDecl)} (hfs : ∀ f ∈ fs, source.items[f.1]? = some (.function f.2))
    (htrees : ∀ f ∈ fs, ∀ body ∈ f.2.body, body.TreeShaped)
    {symbols symbols' : SymbolTable Ty} {functions : List CheckedFunction}
    (hsym : symbols.AtUnit decls unit unitName)
    (h : checkFunctions decls unit unitName fs symbols = (.ok ([], functions, symbols') : Except Fault _)) :
    Forall₂ (fun F (f : Nat × FunctionDecl) => F.Describes decls unit unitName f.1 f.2) functions
      (fs.filter fun f => f.2.body.isSome && (decls.functionAt? unit f.1).isSome) := by
  induction fs generalizing symbols functions with
  | nil =>
    cases h
    exact .nil
  | cons f rest ih =>
    obtain ⟨itemIndex, decl⟩ := f
    have hfs' := fun f hf => hfs f (.tail _ hf)
    have htrees' := fun f hf => htrees f (.tail _ hf)
    rw [checkFunctions] at h
    split at h
    · rename_i body item hbody hitem
      simp only [bind_eq_ok] at h
      obtain ⟨root, hroot, ⟨_, s⟩, hcheck, ⟨errors, others, symbols1⟩, hrest, h⟩ := h
      simp only [pure_eq_ok, Prod.mk.injEq, append_eq_nil_iff] at h
      obtain ⟨⟨hq, rfl⟩, rfl, rfl⟩ := h
      obtain ⟨hmem, hunit, hindex⟩ := functionAt?_ok hitem
      obtain ⟨source', decl', hsource', hdecl', harity, -⟩ := hw.declared item hmem
      obtain rfl : decl' = decl := by
        rw [hunit, hsource] at hsource'
        cases hsource'
        rw [hindex, hfs _ mem_cons_self] at hdecl'
        cases hdecl'
        rfl
      have hnd := Body.nodup_nodes (htrees _ (.head _) body hbody) hroot
      obtain ⟨htyped, hlocals, hsym'⟩ := function_ok hw hsym (hw.functions item hmem).1 harity hnd
        (fun id hid => (Body.spells_tree hroot).lt_size hid) hcheck hq
      rw [filter_cons_of_pos (by simp [hbody, hitem])]
      refine .cons ⟨htyped.itemIndex.trans hindex, fun {body' root'} hb hr => ?_,
        item, body, root, hitem, hbody, hroot, hnd, htyped⟩ (ih hfs' htrees' hsym' hrest)
      obtain rfl : body' = body := Option.some.inj (hb.symm.trans hbody)
      obtain rfl : root' = root := Except.ok.inj (hr.symm.trans hroot)
      exact ⟨_, hlocals⟩
    · rename_i hnone
      have hdropped : ¬ (decl.body.isSome && (decls.functionAt? unit itemIndex).isSome) = true := by
        rw [Bool.and_eq_true, Option.isSome_iff_exists, Option.isSome_iff_exists]
        rintro ⟨⟨body, hbody⟩, item, hitem⟩
        exact hnone body item hbody hitem
      rw [filter_cons_of_neg (by exact hdropped)]
      exact ih hfs' htrees' hsym h

theorem checkUnit_ok (hw : decls.WellFormed units) (hsource : units[unit.index]? = some source)
    (htrees : ∀ f ∈ source.functions, ∀ body ∈ f.2.body, body.TreeShaped) {checked : CheckedUnit}
    (h : checkUnit decls unit source = .ok (.ok checked)) :
    Forall₂ (fun F (f : Nat × FunctionDecl) => F.Describes decls unit source.name f.1 f.2)
      checked.functions (source.checkedFunctions decls unit) := by
  simp only [checkUnit_eq, bind_eq_ok] at h
  obtain ⟨symbols, hsymbols, unitName, hname, ⟨errors, functions, symbols'⟩, hfunctions, h⟩ := h
  obtain rfl : unitName = source.name := by
    rw [ModuleIndex.unitName, hw.unitNames] at hname
    simpa [hsource] using hname.symm
  split at h
  · rename_i herrors
    cases h
    obtain ⟨-, rfl⟩ := append_eq_nil_iff.mp herrors
    refine checkFunctions_ok hw hsource (fun f hf => ?_) htrees (SymbolTable.forUnit_ok hw hname hsymbols) hfunctions
    exact SourceUnit.mem_functions.mp hf
  · cases h

end Check

end SsaCompiler
