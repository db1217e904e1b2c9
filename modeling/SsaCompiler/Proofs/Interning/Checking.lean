import SsaCompiler.Compilation
import SsaCompiler.Proofs.Checking.Compared
import SsaCompiler.Proofs.Interning.Collecting

/-!
# Checking by symbols

A unit is checked by a job with the mistakes that are found by texts, in the same order and with the
same suggestions, and what is recorded is the same (`gives_checkUnitWith`). So the work on a unit ends
with the same diagnostics and bodies (`Compilation.gives_checkAndLower`).
-/

namespace SsaCompiler

open Job CheckState

variable {names names' : Interner}
variable {decls' : Declarations Symbol} {decls : Declarations} {start : Interner}

/-! ## States -/

namespace CheckState

/-- A state of checking is the same with its names as texts and as symbols. -/
structure Keyed (names : Interner) (s : CheckState) (s' : CheckState Symbol) : Prop where
  symbols : s.symbols.Keyed names s'.symbols
  function : s'.function = s.function
  errors : s'.errors = s.errors
  depths : s'.depths = s.depths

theorem Keyed.grow {s : CheckState} {s' : CheckState Symbol} (h : s.Keyed names s') (hg : names.Grows names') :
    s.Keyed names' s' :=
  { h with symbols := h.symbols.grow hg }

def keyed : StateRel CheckState (CheckState Symbol) := ⟨Keyed, Keyed.grow⟩

end CheckState

namespace Check

variable {α β : Type}

/-- From some time on a job does what a step by texts does. -/
def Same (start : Interner) (step : Check α) (step' : CheckWith Symbol Job α) : Prop :=
  ∀ names, start.Grows names → GivesFrom keyed step (fun _ => (· = ·)) step' names

namespace Same

variable {x : Check α} {x' : CheckWith Symbol Job α} {error : TypeError} {type : Ty}

theorem pure {a : α} : Same start (Pure.pure a) (Pure.pure a) := fun _ _ => GivesFrom.pure fun _ _ => rfl

theorem now (h : Same names x x') : GivesFrom keyed x (fun _ => (· = ·)) x' names :=
  h names (.refl _)

theorem lift {x : Except Fault α} : Same start (liftM x) (liftM x) :=
  fun _ _ => GivesFrom.lift (gives_lift ((Alike.refl x).imp fun _ _ he _ _ => he))

theorem bind {f : α → Check β} {f' : α → CheckWith Symbol Job β}
    (hx : Same start x x') (hf : ∀ a, Same start (f a) (f' a)) : Same start (x >>= f) (x' >>= f') :=
  fun names hn => (hx names hn).bind fun later hg a _ he => he ▸ hf a later (hn.trans hg)

theorem map {f : α → β} (hx : Same start x x') : Same start (f <$> x) (f <$> x') := by exact hx.bind fun _ => pure

theorem changes {change : CheckState → CheckState} {change' : CheckState Symbol → CheckState Symbol}
    (h : ∀ names s s', Keyed names s s' → (change s).Keyed names (change' s')) :
    Same start (modify change) (modify change') :=
  fun _ _ => GivesFrom.modify fun later _ s s' hs => h later s s' hs

theorem report : Same start (report error) (report error) :=
  changes fun _ _ _ h => { h with errors := by rw [h.errors] }

theorem note {change : CheckedFunction → CheckedFunction} : Same start (note change) (note change) :=
  changes fun _ _ _ h => { h with function := by rw [h.function] }

theorem fail : Same start (fail error) (fail error) := report.bind fun _ => pure

theorem get {f : CheckState → Check α} {f' : CheckState Symbol → CheckWith Symbol Job α}
    (h : ∀ names, start.Grows names → ∀ s s', Keyed names s s' →
      GivesFrom keyed (f s) (fun _ => (· = ·)) (f' s') names) :
    Same start (MonadState.get >>= f) (MonadState.get >>= f') :=
  fun _ hn => GivesFrom.get.bind fun later hg s s' hs => h later (hn.trans hg) s s' hs

/-! ## Scopes -/

theorem within {kind : ScopeKind} {owner : Option String} {owner' : Option Symbol}
    (ho : Option.Rel start.Holds owner owner') (hx : Same start x x') :
    Same start (within kind owner x) (within kind owner' x') := by
  intro names hn
  refine (GivesFrom.modify fun later hg s s' hs => ?_).bind fun names1 hg1 _ _ _ =>
    (hx names1 (hn.trans hg1)).bind fun names2 hg2 a _ he => ?_
  · refine { hs with symbols := hs.symbols.enterOwned ?_ }
    cases ho with
    | none => exact .none
    | some hk => exact .some (hk.grow (hn.trans hg))
  · subst he
    refine GivesFrom.get.bind fun names3 hg3 s s' hs => ?_
    refine (GivesFrom.lift (R := fun later => SymbolTable.Keyed later) (gives_lift ?_)).bind ?_
    · exact hs.symbols.exit.imp fun _ _ ho _ hg => ho.grow hg
    · intro names4 hg4 outer outer' ho
      refine (GivesFrom.set fun later hg => ?_).bind fun later _ _ _ _ => pure.now
      exact { hs.grow (hg4.trans hg) with symbols := ho.grow hg }

theorem inFunction (name : String) {x : Check Unit} {x' : CheckWith Symbol Job Unit} (hx : Same start x x') :
    Same start (inFunction name x) (inFunction name x') := by
  intro names hn
  refine (GivesFrom.lift (gives_intern name)).bind ?_
  rintro names1 hg1 _ key ⟨rfl, hk⟩
  exact within (.some hk) (fun later hg => hx later ((hn.trans hg1).trans hg)) names1 (.refl _)

theorem declareLocal {name : String} {storage : Storage} {span : FileSpan} :
    Same start (declareLocal name type storage span) (declareLocal name type storage span) := by
  refine get fun names hn s s' hs => ?_
  refine (GivesFrom.lift (SymbolTable.gives_declare hs.symbols)).bind ?_
  rintro names1 hg1 ⟨result, symbols⟩ ⟨_, symbols'⟩ ⟨rfl, hsymbols⟩
  cases result with
  | error error =>
    refine (GivesFrom.set fun later hg => ?_).bind fun later _ _ _ _ => (report.bind fun _ => pure).now
    exact ⟨hsymbols.grow hg, hs.function, hs.errors, hs.depths⟩
  | ok binding =>
    dsimp only
    rw [← hsymbols.loopDepth]
    refine lift.now.bind ?_
    rintro names2 hg2 depth _ rfl
    refine (GivesFrom.set fun later hg => ?_).bind fun later _ _ _ _ => pure.now
    simp only [CheckState.withLocal, hs.function, hs.depths]
    exact ⟨hsymbols.grow (hg2.trans hg), rfl, hs.errors, rfl⟩

/-! ## Names -/

theorem var (id : ExprId) (name : String) (span : FileSpan) : Same start (var id name span) (var id name span) := by
  refine get fun names hn s s' hs => ?_
  refine (GivesFrom.lift (SymbolTable.gives_resolve hs.symbols)).bind ?_
  intro names1 hg1 result result' hr
  rcases hr.cases with ⟨error, rfl, rfl⟩ | ⟨binding, binding', rfl, rfl, hb⟩
  · exact fail.now
  · dsimp only
    rw [← hb.id, ← hb.type]
    exact (note.bind fun _ => pure).now

theorem placeRoot_eq {s : CheckState} {s' : CheckState Symbol} (h : s.Keyed names s') :
    ∀ expr : Expr, placeRoot s' expr = placeRoot s expr
  | .var id span name => by
    rw [placeRoot, placeRoot, h.function]
    cases s.function.refs.get? id with
    | none => rfl
    | some binding =>
      have hb := h.symbols.binding? binding
      dsimp only
      generalize s.symbols.binding? binding = found, s'.symbols.binding? binding = found' at hb
      cases hb with
      | none => rfl
      | some hb =>
        dsimp only
        rw [hb.storage]
  | .field id span base name => by rw [placeRoot, placeRoot, h.function, placeRoot_eq h base]
  | .unary id span op operand => by cases op <;> rfl
  | .literal .. | .binary .. | .call .. | .assign .. | .cond .. | .loop .. | .block .. | .structLiteral ..
  | .breakLoop .. | .continueLoop .. => by rw [placeRoot, placeRoot] <;> simp

theorem place (expr : Expr) : Same start (place expr) (place expr) := by
  refine get fun names hn s s' hs => ?_
  rw [placeRoot_eq hs]
  exact pure.now

theorem crossesLoop (binding : BindingId) : Same start (crossesLoop binding) (crossesLoop binding) := by
  refine get fun names hn s s' hs => ?_
  rw [hs.depths, ← hs.symbols.loopDepth]
  exact (lift.bind fun _ => pure).now

theorem inLoop : Same start inLoop inLoop := by
  refine get fun names hn s s' hs => ?_
  rw [← hs.symbols.inLoop]
  exact lift.now

end Same

end Check

/-! ## Types -/

/-- The type of a type expression is the same, or the same name in it is not known. -/
theorem Declarations.gives_resolveType (h : decls.Keyed names decls') {unitName : String} {type : TypeExpr} :
    Gives (decls.resolveType unitName type) (fun _ => (· = ·)) (decls'.resolveType (m := Job) unitName type) names := by
  refine TypeExpr.typeWith_rel (fun {α} (x : ExceptT TypeError (Except Fault) α) (x' : ExceptT TypeError Job α) =>
    ∀ later, names.Grows later → Gives x.run (fun _ => (· = ·)) x'.run later) ?_ ?_ _ _ ?_ type names (.refl _)
  · exact fun a later _ => .pure fun _ _ => rfl
  · intro α β x x' f f' hx hf later hl
    refine (hx later hl).bind fun last hg result _ he => ?_
    subst he
    cases result with
    | ok a => exact hf a last (hl.trans hg)
    | error e => exact .pure fun _ _ => rfl
  · intro name span later hl
    have hlift : ∀ {α : Type} (x : Except Fault α) (f : α → ExceptT TypeError (Except Fault) Ty),
        ((liftM x : ExceptT TypeError (Except Fault) α) >>= f).run = x >>= fun a => (f a).run := ExceptT.run_bind_lift
    have hlift' : ∀ {α : Type} (x : Job α) (f : α → ExceptT TypeError Job Ty),
        ((liftM x : ExceptT TypeError Job α) >>= f).run = x >>= fun a => (f a).run := ExceptT.run_bind_lift
    rw [hlift, hlift']
    refine (gives_lookupType? (h.grow hl) unitName name).bind ?_
    rintro last hg found _ rfl
    cases found with
    | some type => exact .pure fun _ _ => rfl
    | none =>
      rw [hlift, hlift']
      refine (gives_unboundType (h.grow (hl.trans hg))).bind ?_
      rintro _ _ error _ rfl
      exact .pure fun _ _ => rfl

theorem Check.Same.annotatedType {ctx : CheckContext} {ctx' : CheckContext Symbol}
    (hd : ctx.decls.Keyed start ctx'.decls) (hu : ctx'.unitName = ctx.unitName) (type : TypeExpr) :
    Same start (annotatedType ctx type) (annotatedType ctx' type) := by
  intro names hn
  unfold Check.annotatedType
  rw [hu]
  refine (GivesFrom.lift (Declarations.gives_resolveType (hd.grow hn))).bind ?_
  rintro later hg result _ rfl
  cases result with
  | ok type => exact Same.pure.now
  | error error => exact Same.fail.now

/-- By texts and by symbols a function is checked in the same steps. -/
theorem Check.comparison_keyed (hd : decls.Keyed start decls') (unitName : String) (result : Ty) :
    Comparison (⟨decls, unitName, result⟩ : CheckContext) (⟨decls', unitName, result⟩ : CheckContext Symbol)
      (fun _ => True) fun {α} _ (x : Check α) x' => Same start x x' where
  stable := Ty.stable_true
  result := rfl
  callee h := h
  pure _ := .pure
  bind {_ _ k _ _ _ _ _} hx hf := .bind hx fun a => hf a (k.holds_true a)
  some := .map
  report error := by
    rw [hd.describe]
    exact .report
  note change _ := .note
  inScope kind _ _ hx := .within .none hx
  inFunction := .inFunction
  declareLocal name type storage span _ := .declareLocal
  annotatedType := .annotatedType hd rfl
  var := .var
  place := .place
  crossesLoop := .crossesLoop
  inLoop := .inLoop
  struct {_ _ id _ _} _ hf := by
    rw [hd.struct?]
    cases decls.struct? id with
    | none => exact .lift
    | some struct => exact hf struct fun _ _ => trivial

/-! ## Units -/

section

variable {unit : UnitId}

theorem gives_checkFunctions (hd : decls.Keyed names decls') {unitName : String}
    {functions : List (Nat × FunctionDecl)} {symbols : SymbolTable Ty} {symbols' : SymbolTable Ty Symbol}
    (hs : symbols.Keyed names symbols') : Gives (checkFunctions decls unit unitName functions symbols)
      (fun later p q => q.1 = p.1 ∧ q.2.1 = p.2.1 ∧ p.2.2.Keyed later q.2.2)
      (checkFunctions (m := Job) decls' unit unitName functions symbols') names := by
  induction functions generalizing names symbols symbols' with
  | nil => exact .pure fun later hg => ⟨rfl, rfl, hs.grow hg⟩
  | cons function rest ih =>
    obtain ⟨itemIndex, decl⟩ := function
    have hitem : decls'.functionAt? unit itemIndex = decls.functionAt? unit itemIndex := by
      unfold Declarations.functionAt?
      rw [hd.functions]
    unfold checkFunctions
    rw [hitem]
    cases decl.body with
    | none => exact ih hd hs
    | some body =>
      cases decls.functionAt? unit itemIndex with
      | none => exact ih hd hs
      | some item =>
        refine (gives_lift (R := fun _ => (· = ·)) ((Alike.refl body.tree).imp fun _ _ he _ _ => he)).bind ?_
        rintro names1 hg1 root _ rfl
        have hfunction := (Check.comparison_keyed (hd.grow hg1) unitName item.result).function
          (show ∀ param ∈ item.params, True from fun _ _ => trivial) decl root
        refine (hfunction names1 (.refl _) ⟨hs.grow hg1, rfl, rfl, rfl⟩).bind ?_
        rintro names2 hg2 ⟨_, s⟩ ⟨_, s'⟩ ⟨-, hstate⟩
        refine (ih (hd.grow (hg1.trans hg2)) hstate.symbols).bind ?_
        rintro names3 hg3 ⟨errors, others, after⟩ ⟨_, _, after'⟩ ⟨rfl, rfl, hafter⟩
        exact .pure fun later hg => ⟨by rw [hstate.errors], by rw [hstate.function], hafter.grow hg⟩

variable {source : SourceUnit}

theorem gives_checkUnitWith (hd : decls.Keyed names decls') : Gives (checkUnit decls unit source)
      (fun _ => Alike fun checked checked' => checked'.functions = checked.functions)
      (checkUnitWith (m := Job) decls' unit source) names := by
  refine (gives_lift ((SymbolTable.forUnit_keyed hd.index).imp fun _ _ ht _ hg => ht.grow hg)).bind ?_
  intro names1 hg1 symbols symbols' hs
  refine (SymbolTable.gives_unitName (hd.index.grow hg1)).bind ?_
  intro names2 hg2 unitKey unitKey' hk
  refine (gives_text hk).bind ?_
  rintro names3 hg3 _ unitName ⟨rfl, rfl⟩
  refine (gives_checkFunctions (hd.grow ((hg1.trans hg2).trans hg3)) (hs.grow (hg2.trans hg3))).bind ?_
  rintro names4 hg4 ⟨errors, functions, after⟩ ⟨_, _, after'⟩ ⟨rfl, rfl, hafter⟩
  rw [hd.errorsOf]
  dsimp only
  split
  · exact .pure fun _ _ => rfl
  · exact .pure fun _ _ => rfl

theorem lower_keyed (hd : decls.Keyed names decls') {checked : CheckedUnit} {checked' : CheckedUnit Symbol}
    (hc : checked'.functions = checked.functions) {items : ItemMap} :
    checked'.lower decls' items source = checked.lower decls items source := by
  have hfunction : decls'.function? = decls.function? := by
    funext binding
    rw [Declarations.function?, Declarations.function?, hd.functions]
  unfold CheckedUnit.lower CheckedUnit.lowerFunction
  rw [hc, hfunction]

end

namespace Compilation

structure Keyed (names : Interner) (compilation : Compilation) (compilation' : Compilation Symbol) : Prop where
  decls : compilation.decls.Keyed names compilation'.decls
  items : compilation'.items = compilation.items
  builder : compilation'.builder = compilation.builder

variable {compilation : Compilation} {compilation' : Compilation Symbol}

theorem gives_checkAndLower (hd : compilation.decls.Keyed names compilation'.decls)
    (hi : compilation'.items = compilation.items) {unit : UnitId} {source : SourceUnit} :
    Gives (compilation.checkAndLower unit source) (fun _ => (· = ·))
      (compilation'.checkAndLower (m := Job) unit source) names := by
  refine (gives_checkUnitWith hd).bind ?_
  intro names1 hg1 result result' hr
  rcases hr.cases with ⟨errors, rfl, rfl⟩ | ⟨checked, checked', rfl, rfl, hc⟩
  · exact .pure fun _ _ => rfl
  · dsimp only
    rw [hi]
    cases compilation.items with
    | none => exact .pure fun _ _ => rfl
    | some items =>
      dsimp only
      rw [lower_keyed hd hc]
      refine (gives_lift (R := fun _ => (· = ·)) ((Alike.refl _).imp fun _ _ he _ _ => he)).bind ?_
      rintro names2 hg2 bodies _ rfl
      exact .pure fun _ _ => rfl

theorem declareItems_keyed (hd : decls.Keyed names decls') (moduleName : String) (units : List SourceUnit) :
    Alike (fun p q => p.1.Keyed names q.1 ∧ q.2 = p.2) (declareItems moduleName units decls)
      (declareItems moduleName units decls') := by
  have hall : ItemMap.declareAll decls' (.new moduleName) = ItemMap.declareAll decls (.new moduleName) := by
    unfold ItemMap.declareAll
    rw [hd.structs, hd.globals, hd.functions]
  have herrors : decls'.hasErrors = decls.hasErrors := by rw [Declarations.hasErrors, Declarations.hasErrors, hd.errors]
  unfold declareItems
  dsimp only
  rw [hall, herrors]
  split
  · exact ⟨⟨hd, rfl, rfl⟩, rfl⟩
  · refine (Alike.refl _).bind ?_
    rintro progress _ rfl
    split
    · exact ⟨⟨hd, rfl, rfl⟩, rfl⟩
    · refine (Alike.refl _).bind ?_
      rintro diagnostics _ rfl
      exact ⟨⟨hd, rfl, rfl⟩, rfl⟩

end Compilation

end SsaCompiler
