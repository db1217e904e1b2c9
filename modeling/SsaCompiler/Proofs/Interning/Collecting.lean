import SsaCompiler.Proofs.Declarations.Naming
import SsaCompiler.Proofs.Interning.Tables

/-!
# Collecting declarations by symbols

The items of units are collected by a job in the same way as by texts: whatever the interner knows
before, the declarations are the same with symbols for texts (`Declarations.gives_collectWith`).
-/

namespace SsaCompiler

open Declarations

variable {names names' : Interner} {text : String} {symbol : Symbol} {symbols : List Symbol}
variable {texts : List String} {units : List SourceUnit}

instance : Collect.Faultless Job Job := ⟨fun job => job⟩

/-! ## Declarations -/

namespace Declarations

structure Keyed (names : Interner) (decls : Declarations) (decls' : Declarations Symbol) : Prop where
  index : decls.index.Keyed names decls'.index
  structs : decls'.structs = decls.structs
  functions : decls'.functions = decls.functions
  globals : decls'.globals = decls.globals
  types : decls.types.Keyed names decls'.types
  typeSpans : decls.typeSpans.Keyed names decls'.typeSpans
  errors : decls'.errors = decls.errors

variable {decls : Declarations} {decls' : Declarations Symbol}

section

variable (h : decls.Keyed names decls')
include h

theorem Keyed.grow (hg : names.Grows names') : decls.Keyed names' decls' :=
  { h with index := h.index.grow hg, types := h.types.grow hg, typeSpans := h.typeSpans.grow hg }

theorem Keyed.struct? : decls'.struct? = decls.struct? := struct?_congr h.structs

theorem Keyed.describe : decls'.describe = decls.describe := by
  funext type
  rw [Declarations.describe, Declarations.describe, h.struct?]

theorem Keyed.errorsOf : decls'.errorsOf = decls.errorsOf := by
  funext unit
  rw [Declarations.errorsOf, Declarations.errorsOf, h.errors]

end

open Job

theorem gives_lookupType? (h : decls.Keyed names decls') (unitName name : String) :
    Gives (decls.lookupType? unitName name) (fun _ => (· = ·)) (decls'.lookupType? (m := Job) unitName name)
      names := by
  unfold lookupType?
  cases Ty.builtin? name with
  | some type => exact .pure fun _ _ => rfl
  | none =>
    refine (gives_find _).bind ?_
    rintro names1 hg1 _ key' ⟨rfl, asked, hg, hlater, rfl⟩
    exact .pure fun _ _ => (h.types.grow hg).get?_eq _

theorem gives_unboundType (h : decls.Keyed names decls') {unitName name : String} {span : FileSpan} :
    Gives (decls.unboundType unitName name span) (fun _ => (· = ·))
      (decls'.unboundType (m := Job) unitName name span) names := by
  refine (gives_texts h.types.keys).bind ?_
  rintro names1 hg1 types listed ⟨rfl, hp⟩
  exact .pure fun _ _ => congrArg TypeError.ofSymbolError
    (SymbolError.unbound_perm (hp.symm.map (Name.relativeTo unitName)))

end Declarations

/-! ## Collectors -/

namespace Collector

structure Keyed (names : Interner) (c : Collector) (c' : Collector Symbol) : Prop where
  decls : c.decls.Keyed names c'.decls
  aliases : c.aliases.Keyed names c'.aliases
  expanding : List.Forall₂ names.Holds c.expanding c'.expanding

variable {c : Collector} {c' : Collector Symbol}

theorem Keyed.grow (h : c.Keyed names c') (hg : names.Grows names') : c.Keyed names' c' :=
  ⟨h.decls.grow hg, h.aliases.grow hg, h.expanding.imp fun _ _ hk => hk.grow hg⟩

open Job

theorem gives_pending? (h : c.Keyed names c') {name : String} :
    Gives (.ok (c.pending? (m := Id) name)) (fun later => Option.Rel later.Holds) (c'.pending? (m := Job) name)
      names := by
  refine Gives.bind (x := .ok (some name)) (f := fun key => .ok (key.filter c.aliases.contains)) (gives_find name) ?_
  rintro names1 hg1 _ key' ⟨rfl, asked, hg, hlater, rfl⟩
  refine .pure fun names2 hg2 => ?_
  cases hkey : asked.get? name with
  | none =>
    have hnone : c.aliases.contains name = false := by
      rw [Table.contains, (h.aliases.grow hg).get?_eq, hkey]
      rfl
    simp only [Option.filter, hnone]
    exact .none
  | some key =>
    have hheld : asked.Holds name key := hkey
    simp only [Option.filter, (h.aliases.grow hg).contains hheld]
    split
    · exact .some (hheld.grow (hlater.trans hg2))
    · exact .none

def keyed : StateRel Collector (Collector Symbol) := ⟨Keyed, Keyed.grow⟩

end Collector

theorem forall₂_contains (h : List.Forall₂ names.Holds texts symbols)
    (ht : names.Holds text symbol) : texts.contains text = symbols.contains symbol := by
  induction h with
  | nil => rfl
  | @cons other other' _ _ ho _ ih =>
    have hiff : text = other ↔ symbol = other' := ht.eq_iff ho
    rw [List.contains_cons, List.contains_cons, ih]
    simp only [beq_eq_decide, hiff]

theorem forall₂_erase (h : List.Forall₂ names.Holds texts symbols)
    (ht : names.Holds text symbol) : List.Forall₂ names.Holds (texts.erase text) (symbols.erase symbol) := by
  induction h with
  | nil => exact .nil
  | @cons other other' _ _ ho hrest ih =>
    have hiff : other = text ↔ other' = symbol := ho.eq_iff ht
    rw [List.erase_cons, List.erase_cons]
    simp only [beq_iff_eq, hiff]
    split
    · exact hrest
    · exact .cons ho ih

namespace Collect

open Job

variable {α β γ δ : Type}
variable {g : α → CollectWith Symbol Job (ForInStep PUnit)} {f : α → Collect (ForInStep PUnit)}
  {x' : CollectWith Symbol Job α} {R : Interner → α → β → Prop} {key' : Symbol} {key : String} {xs : List α}
variable {x : Collect α} {unit : UnitRef} {units : List (UnitRef × SourceUnit)} {span : FileSpan}
variable {name : String} {decl : StructDecl} {type : TypeExpr}

/-- A step by texts that cannot fail is done by a job as well. -/
def Gives (step : Collect α) (R : Interner → α → β → Prop) (step' : CollectWith Symbol Job β) (names : Interner) :
    Prop :=
  GivesFrom Collector.keyed (lift step) R step' names

abbrev Same (step : Collect α) (step' : CollectWith Symbol Job α) : Prop :=
  ∀ names, Gives step (fun _ => (· = ·)) step' names

theorem Gives.bind {f : α → Collect γ} {x' : CollectWith Symbol Job β}
    {g : β → CollectWith Symbol Job δ} {S : Interner → γ → δ → Prop} (h : Gives x R x' names)
    (hf : ∀ later, names.Grows later → ∀ a b, R later a b → Gives (f a) S (g b) later) :
    Gives (x >>= f) S (x' >>= g) names :=
  GivesFrom.bind h hf

theorem Gives.lift {x : Id α} {t : Job β} (h : Job.Gives (.ok x) R t names) : Gives (liftM x) R (liftM t) names :=
  GivesFrom.lift h

theorem Same.pure (a : α) : Same (Pure.pure a) (Pure.pure a) := fun _ => GivesFrom.pure fun _ _ => rfl

theorem Same.bind {f : α → Collect β} {g : α → CollectWith Symbol Job β} (h : Same x x')
    (hf : ∀ a, Same (f a) (g a)) : Same (x >>= f) (x' >>= g) :=
  fun names => (h names).bind fun later _ a _ he => he ▸ hf a later

theorem Gives.modifyDecls {change : Declarations → Declarations} {change' : Declarations Symbol → Declarations Symbol}
    (h : ∀ later, names.Grows later → ∀ decls decls', Declarations.Keyed later decls decls' →
      (change decls).Keyed later (change' decls')) :
    Gives (modifyDecls change) (fun _ => (· = ·)) (modifyDecls change') names :=
  GivesFrom.modify fun later hg _ _ hc => { hc with decls := h later hg _ _ hc.decls }

theorem Same.report {unit : UnitId} {error : TypeError} : Same (report unit error) (report unit error) :=
  fun _ => .modifyDecls fun _ _ _ _ h => { h with errors := by rw [h.errors] }

theorem Same.mapM {f : α → Collect β} {f' : α → CollectWith Symbol Job β} (h : ∀ x ∈ xs, Same (f x) (f' x)) :
    Same (xs.mapM f) (xs.mapM f') := by
  rw [← List.mapM'_eq_mapM, ← List.mapM'_eq_mapM]
  induction xs with
  | nil => exact .pure _
  | cons x xs ih =>
    exact (h x List.mem_cons_self).bind fun _ => (ih fun y hy => h y (List.mem_cons_of_mem _ hy)).bind fun _ => .pure _

theorem Gives.forIn {T : Interner → α → β → Prop}
    (hT : ∀ {names later : Interner} {a : α} {b : β}, T names a b → names.Grows later → T later a b)
    {g : β → CollectWith Symbol Job (ForInStep PUnit)}
    (hf : ∀ {names : Interner} {a : α} {b : β}, T names a b → Gives (f a) (fun _ => (· = ·)) (g b) names)
    {ys : List β} (h : List.Forall₂ (T names) xs ys) :
    Gives (ForIn.forIn xs PUnit.unit fun x _ => f x) (fun _ => (· = ·)) (ForIn.forIn ys PUnit.unit fun y _ => g y)
      names := by
  induction xs generalizing names ys with
  | nil =>
    cases h
    exact Same.pure _ names
  | cons x xs ih =>
    cases h with
    | cons hx hxs =>
      rw [List.forIn_cons, List.forIn_cons]
      refine (hf hx).bind fun later hg r _ hr => ?_
      subst hr
      cases r with
      | done => exact Same.pure _ later
      | yield => exact ih (hxs.imp fun _ _ ht => hT ht hg)

theorem Same.forIn (hf : ∀ a, Same (f a) (g a)) (xs : List α) :
    Same (ForIn.forIn xs PUnit.unit fun x _ => f x) (ForIn.forIn xs PUnit.unit fun x _ => g x) :=
  fun _ => .forIn (T := fun _ => (· = ·)) (fun h _ => h) (fun {names _ _} h => h ▸ hf _ names) (List.forall₂_refl xs)

theorem Same.foldlM {f : β → α → Collect β} {f' : β → α → CollectWith Symbol Job β} (h : ∀ b a, Same (f b a) (f' b a))
    (xs : List α) (b : β) : Same (xs.foldlM f b) (xs.foldlM f' b) := by
  induction xs generalizing b with
  | nil => exact .pure _
  | cons x xs ih => exact (h b x).bind fun b => ih b

/-! ## Type names -/

theorem gives_claimTypeName :
    Gives (claimTypeName unit name span) (fun later => Option.Rel later.Holds) (claimTypeName unit name span)
      names := by
  refine (Gives.lift (gives_intern _)).bind ?_
  rintro names1 hg1 _ key' ⟨rfl, hk⟩
  refine Gives.bind GivesFrom.get ?_
  intro names2 hg2 c c' hc
  rw [← hc.decls.typeSpans.get? (hk.grow hg2)]
  cases c.decls.typeSpans.get? (qualify unit.name name) with
  | some first => exact (Same.report names2).bind fun _ _ _ _ _ => GivesFrom.pure fun _ _ => .none
  | none =>
    refine Gives.bind (.modifyDecls fun later hg _ _ h => ?_) fun later hg _ _ _ => GivesFrom.pure fun last hlast =>
      .some (hk.grow ((hg2.trans hg).trans hlast))
    exact { h with typeSpans := h.typeSpans.insert (hk.grow (hg2.trans hg)) }

theorem Same.declareStruct : Same (declareStruct unit decl) (declareStruct unit decl) := by
  intro names
  refine gives_claimTypeName.bind ?_
  intro names1 hg1 key key' hk
  cases hk with
  | none => exact Same.pure none names1
  | some hk =>
    refine Gives.bind GivesFrom.get ?_
    intro names2 hg2 c c' hc
    rw [hc.decls.structs]
    refine Gives.bind (.modifyDecls fun later hg _ _ h => ?_) fun later _ _ _ _ => Same.pure _ later
    exact { h with structs := by rw [h.structs], types := h.types.insert (hk.grow (hg2.trans hg)) }

theorem Same.declareAlias {decl : AliasDecl} : Same (declareAlias unit decl) (declareAlias unit decl) := by
  intro names
  refine gives_claimTypeName.bind ?_
  intro names1 hg1 key key' hk
  cases hk with
  | none => exact Same.pure () names1
  | some hk => exact GivesFrom.modify fun later hg _ _ hc => { hc with aliases := hc.aliases.insert (hk.grow hg) }

/-! ## Types -/

theorem namedType_run {κ : Type} {m : Type → Type} [Monad m] [LawfulMonad m] [Names κ m] [DecidableEq κ]
    {expand : κ → CollectWith κ m Ty} :
    (namedType expand unit name span).run = (do
      let c ← get
      match ← c.decls.lookupType? (m := m) unit.name name with
      | some type => return .ok type
      | none =>
        match ← c.pending? (m := m) (qualify unit.name name) with
        | some key =>
          let type ← expand key
          return .ok type
        | none =>
          let error ← c.decls.unboundType (m := m) unit.name name span
          return .error error) := by
  unfold namedType
  have hget : ∀ f : Collector κ → ExceptT TypeError (CollectWith κ m) Ty,
      (getThe (Collector κ) >>= f).run = get >>= fun c => (f c).run := by
    intro f
    exact ExceptT.run_bind_lift (m := CollectWith κ m) get f
  have hlift : ∀ {α : Type} (x : m α) (f : α → ExceptT TypeError (CollectWith κ m) Ty),
      ((liftM x : ExceptT TypeError (CollectWith κ m) α) >>= f).run = liftM x >>= fun a => (f a).run := by
    intro α x f
    exact ExceptT.run_bind_lift _ _
  rw [hget]
  congr 1
  funext c
  rw [hlift]
  congr 1
  funext found
  cases found with
  | some type => rfl
  | none =>
    rw [hlift]
    congr 1
    funext found
    cases found with
    | some key => exact (bind_pure_comp Except.ok (expand key)).symm
    | none => exact hlift _ _

section

variable {expand : String → Collect Ty} {expand' : Symbol → CollectWith Symbol Job Ty}
  (hexpand : ∀ {names : Interner} {key : String} {key' : Symbol}, names.Holds key key' →
    Gives (expand key) (fun _ => (· = ·)) (expand' key') names)

include hexpand

theorem Same.namedType (unit : UnitRef) (name : String) (span : FileSpan) :
    Same (namedType expand unit name span).run (namedType expand' unit name span).run := by
  intro names
  rw [namedType_run, namedType_run]
  refine Gives.bind GivesFrom.get ?_
  intro names1 hg1 c c' hc
  have hlookup := gives_lookupType? hc.decls unit.name name
  rw [lookupType?_eq] at hlookup ⊢
  refine (Gives.lift hlookup).bind ?_
  rintro names2 hg2 found _ rfl
  cases found with
  | some type => exact Same.pure _ names2
  | none =>
    refine (Gives.lift (Collector.gives_pending? (Collector.Keyed.grow hc hg2))).bind ?_
    intro names3 hg3 key key' hk
    cases hk with
    | some hk =>
      refine (hexpand hk).bind fun later _ type _ he => ?_
      obtain rfl := he
      exact Same.pure _ later
    | none =>
      refine (Gives.lift (gives_unboundType (Declarations.Keyed.grow hc.decls (hg2.trans hg3)))).bind ?_
      rintro names4 hg4 error _ rfl
      exact Same.pure _ names4

theorem Same.lowerTypeWith {unit : UnitRef} {type : TypeExpr} :
    Same (lowerTypeWith expand unit type) (lowerTypeWith expand' unit type) := by
  refine Same.bind ?_ fun result => ?_
  · refine TypeExpr.typeWith_rel (fun {α} x x' => Same (ExceptT.run x) (ExceptT.run x')) ?_ ?_ _ _ ?_ type
    · exact fun a => .pure _
    · intro α β x x' f f' hx hf
      show Same (ExceptT.run x >>= ExceptT.bindCont f) (ExceptT.run x' >>= ExceptT.bindCont f')
      refine Same.bind hx fun result => ?_
      cases result with
      | ok a => exact hf a
      | error e => exact .pure _
    · exact Same.namedType hexpand unit
  · cases result with
    | ok type => exact .pure _
    | error error => exact Same.report.bind fun _ => .pure _

end

theorem gives_expandAlias {fuel : Nat} (hk : names.Holds key key') :
    Gives (expandAlias fuel key) (fun _ => (· = ·)) (expandAlias fuel key') names := by
  induction fuel generalizing names key key' with
  | zero => exact Same.pure _ names
  | succ fuel ih =>
    refine Gives.bind GivesFrom.get ?_
    intro names1 hg1 c c' hc
    have hk1 := hk.grow hg1
    rw [← hc.decls.types.get? hk1]
    cases c.decls.types.get? key with
    | some type => exact Same.pure _ names1
    | none =>
      rw [← hc.aliases.get? hk1]
      cases c.aliases.get? key with
      | none => exact Same.pure _ names1
      | some found =>
        dsimp only
        rw [← forall₂_contains hc.expanding hk1]
        split
        · refine (Same.report names1).bind fun names2 hg2 _ _ _ => ?_
          refine Gives.bind (.modifyDecls fun later hg _ _ h => ?_) fun later _ _ _ _ => Same.pure _ later
          exact { h with types := h.types.insert (hk1.grow (hg2.trans hg)) }
        · refine Gives.bind (GivesFrom.set fun later hg => ?_) fun names2 hg2 _ _ _ => ?_
          · have hc := Collector.Keyed.grow hc hg
            exact { hc with expanding := .cons (hk1.grow hg) hc.expanding }
          refine (Same.lowerTypeWith ih names2).bind ?_
          rintro names3 hg3 type _ rfl
          have hk3 := hk1.grow (hg2.trans hg3)
          refine Gives.bind (GivesFrom.modify fun later hg _ _ hc => ?_) fun names4 hg4 _ _ _ => ?_
          · exact { hc with expanding := forall₂_erase hc.expanding (hk3.grow hg) }
          refine Gives.bind GivesFrom.get ?_
          intro names5 hg5 c c' hc
          have hk5 := hk3.grow (hg4.trans hg5)
          rw [← hc.decls.types.get? hk5]
          cases c.decls.types.get? key with
          | some known => exact Same.pure _ names5
          | none =>
            refine Gives.bind (.modifyDecls fun later hg _ _ h => ?_) fun later _ _ _ _ => Same.pure _ later
            exact { h with types := h.types.insert (hk5.grow hg) }

theorem gives_expand (hk : names.Holds key key') : Gives (expand key) (fun _ => (· = ·)) (expand key') names := by
  refine Gives.bind GivesFrom.get ?_
  intro names1 hg1 c c' hc
  rw [← hc.aliases.size]
  exact gives_expandAlias (hk.grow hg1)

theorem Same.lowerType : Same (lowerType unit type) (lowerType unit type) :=
  Same.lowerTypeWith gives_expand

theorem Same.lowerResult {type : Option TypeExpr} : Same (lowerResult unit type) (lowerResult unit type) := by
  cases type with
  | none => exact .pure _
  | some type => exact .lowerType

theorem Same.lowerValueType : Same (lowerValueType unit type) (lowerValueType unit type) := by
  refine Same.lowerType.bind fun lowered => ?_
  split
  · exact Same.report.bind fun _ => .pure _
  · exact .pure _

theorem Same.addField (unit : UnitRef) (fields : List FieldDef) (field : FieldDecl) :
    Same (addField unit fields field) (addField unit fields field) := by
  unfold Collect.addField
  split
  · exact Same.report.bind fun _ => .pure _
  · exact Same.lowerValueType.bind fun _ => .pure _

theorem Same.fillStruct {id : StructId} : Same (fillStruct unit id decl) (fillStruct unit id decl) :=
  (Same.foldlM (Same.addField unit) _ _).bind fun fields _ =>
    .modifyDecls fun _ _ _ _ h => { h with structs := by rw [h.structs] }

theorem Same.checkContainment (unit : UnitRef) (id : StructId) :
    Same (checkContainment unit id) (checkContainment unit id) := by
  intro names
  refine Gives.bind GivesFrom.get ?_
  intro names1 hg1 c c' hc
  simp only [reachable_congr hc.decls.structs, hc.decls.struct?]
  split
  · cases c.decls.struct? id with
    | none => exact Same.pure _ names1
    | some struct => exact Same.report.bind (fun _ => .pure _) names1
  · exact Same.pure _ names1

theorem Same.checkContainments (structs : List (UnitRef × StructId)) (reported : List StructId) :
    Same (checkContainments structs reported) (checkContainments structs reported) := by
  induction structs generalizing reported with
  | nil => exact .pure _
  | cons struct rest ih =>
    obtain ⟨unit, id⟩ := struct
    unfold Collect.checkContainments
    split
    · exact ih _
    · exact (Same.checkContainment unit id).bind fun _ => ih _

/-! ## Units -/

theorem Same.declareTypeNames {items : List Item} :
    Same (declareTypeNames unit items) (declareTypeNames unit items) := by
  induction items with
  | nil => exact .pure _
  | cons item rest ih =>
    cases item with
    | function decl => exact ih
    | global decl => exact ih
    | struct decl =>
      refine Same.declareStruct.bind fun id => ?_
      cases id with
      | some id => exact ih.bind fun _ => .pure _
      | none => exact ih
    | typeAlias decl => exact Same.declareAlias.bind fun _ => ih

variable {decl : GlobalDecl} {type : Ty}

theorem Same.checkInitializer : Same (checkInitializer unit decl type) (checkInitializer unit decl type) := by
  unfold Collect.checkInitializer
  split
  · exact .pure _
  · split
    · exact .report
    · split
      · exact .pure _
      · intro names
        refine Gives.bind GivesFrom.get ?_
        intro names1 hg1 c c' hc
        dsimp only
        rw [hc.decls.describe]
        exact Same.report names1

theorem Same.declareTypes : Same (declareTypes units) (declareTypes units) := by
  refine Same.bind (Same.mapM fun x _ => Same.declareTypeNames) fun structs names => ?_
  refine Gives.bind GivesFrom.get ?_
  intro names1 hg1 c c' hc
  have hkeys : List.Forall₂ names1.Holds c.aliases.keys c'.aliases.keys := Table.Keyed.keys (Collector.Keyed.aliases hc)
  refine (Gives.forIn (T := Interner.Holds) Interner.Holds.grow
    (fun hk => (gives_expand hk).bind fun later _ _ _ _ => Same.pure _ later) hkeys).bind fun names2 _ _ _ _ => ?_
  exact (Same.forIn (fun _ => Same.fillStruct.bind fun _ => .pure _) structs.flatten).bind
    (fun _ => .checkContainments _ _) names2

/-! ## Globals and functions -/

abbrev SameT (step : CollectWith String (Except Fault) α) (step' : CollectWith Symbol Job α) : Prop :=
  ∀ names, GivesFrom Collector.keyed step (fun _ => (· = ·)) step' names

theorem SameT.pure {a : α} : SameT (Pure.pure a) (Pure.pure a) := fun _ => GivesFrom.pure fun _ _ => rfl

theorem SameT.bind {x : CollectWith String (Except Fault) α} {f : α → CollectWith String (Except Fault) β}
    {g : α → CollectWith Symbol Job β} (h : SameT x x') (hf : ∀ a, SameT (f a) (g a)) : SameT (x >>= f) (x' >>= g) :=
  fun names => (h names).bind fun later _ a _ he => he ▸ hf a later

theorem SameT.forIn {f : α → CollectWith String (Except Fault) (ForInStep PUnit)} (hf : ∀ a, SameT (f a) (g a)) :
    SameT (ForIn.forIn xs PUnit.unit fun x _ => f x) (ForIn.forIn xs PUnit.unit fun x _ => g x) := by
  induction xs with
  | nil => exact .pure
  | cons x xs ih =>
    rw [List.forIn_cons, List.forIn_cons]
    refine (hf x).bind fun r => ?_
    cases r with
    | done => exact .pure
    | yield => exact ih

theorem SameT.lift {step : Collect α} {step' : CollectWith Symbol Job α} (h : Same step step') :
    SameT (lift step) (lift step') :=
  h

theorem SameT.declareItem {storage : Storage} :
    SameT (declareItem unit name type storage span) (declareItem unit name type storage span) := by
  intro names
  refine GivesFrom.bind GivesFrom.get ?_
  intro names1 hg1 c c' hc
  refine GivesFrom.bind (GivesFrom.lift (ModuleIndex.gives_declareItem hc.decls.index)) ?_
  rintro names2 hg2 ⟨result, index⟩ ⟨_, index'⟩ ⟨rfl, hindex⟩
  have hc2 := Collector.Keyed.grow hc hg2
  cases result with
  | error error =>
    refine GivesFrom.bind (GivesFrom.set fun later hg => ?_) fun later _ _ _ _ => SameT.pure later
    have hc3 := hc2.grow hg
    exact { hc3 with decls := { hc3.decls with index := hindex.grow hg, errors := by rw [hc.decls.errors] } }
  | ok id =>
    refine GivesFrom.bind (GivesFrom.set fun later hg => ?_) fun later _ _ _ _ => SameT.pure later
    have hc3 := hc2.grow hg
    exact { hc3 with decls := { hc3.decls with index := hindex.grow hg } }

theorem SameT.declareGlobal : SameT (declareGlobal unit decl) (declareGlobal unit decl) := by
  refine SameT.bind (.lift .lowerValueType) fun type => ?_
  refine SameT.bind (.lift .checkInitializer) fun _ => ?_
  refine SameT.bind .declareItem fun binding => ?_
  cases binding with
  | none => exact .pure
  | some binding => exact .lift fun _ => .modifyDecls fun _ _ _ _ h => { h with globals := by rw [h.globals] }

theorem SameT.declareFunction {itemIndex : Nat} {decl : FunctionDecl} :
    SameT (declareFunction unit itemIndex decl) (declareFunction unit itemIndex decl) := by
  refine SameT.bind (.lift (.mapM fun param _ => .lowerValueType)) fun params => ?_
  refine SameT.bind (.lift .lowerResult) fun result => SameT.bind .declareItem fun binding => ?_
  cases binding with
  | none => exact .pure
  | some binding => exact .lift fun _ => .modifyDecls fun _ _ _ _ h => { h with functions := by rw [h.functions] }

theorem SameT.declareValues {items : List (Item × Nat)} :
    SameT (declareValues unit items) (declareValues unit items) := by
  induction items with
  | nil => exact .pure
  | cons item rest ih =>
    obtain ⟨item, itemIndex⟩ := item
    cases item with
    | function decl => exact SameT.declareFunction.bind fun _ => ih
    | global decl => exact SameT.declareGlobal.bind fun _ => ih
    | struct decl => exact ih
    | typeAlias decl => exact ih

theorem SameT.run : SameT (run units) (run units) := by
  refine SameT.bind (.lift .declareTypes) fun _ => ?_
  refine SameT.bind (.forIn fun x => ?_) fun _ => .pure
  exact SameT.declareValues.bind fun _ => .pure

end Collect

/-! ## All units -/

open Job in
theorem gives_internAll (names : Interner) :
    Gives (units.mapM fun unit => Names.intern unit.name) (fun later => List.Forall₂ later.Holds)
      (units.mapM fun unit => (Names.intern unit.name : Job Symbol)) names := by
  induction units generalizing names with
  | nil => exact .pure fun _ _ => .nil
  | cons unit rest ih =>
    rw [List.mapM_cons, List.mapM_cons]
    refine (gives_intern unit.name).bind ?_
    rintro names1 hg1 _ key ⟨rfl, hk⟩
    refine (ih names1).bind fun names2 hg2 texts keys hrest => ?_
    exact .pure fun names3 hg3 => .cons (hk.grow (hg2.trans hg3)) (hrest.imp fun _ _ h => h.grow hg3)

open Job in
/-- Whatever has been interned before, the declarations of units are the same by texts and by symbols. -/
theorem Declarations.gives_collectWith :
    Gives (collect units) (fun later => Keyed later) (collectWith (n := Job) units) names := by
  refine (gives_internAll names).bind fun names1 hg1 texts keys hkeys => ?_
  refine (Collect.SameT.run names1 ?_).bind fun names2 hg2 p q hpq => .pure fun later hg => hpq.2.decls.grow hg
  exact ⟨⟨⟨by simpa using hkeys, .nil⟩, rfl, rfl, rfl, .empty, .empty, rfl⟩, .empty, .nil⟩

end SsaCompiler
