import SsaCompiler.Proofs.Compilation.Defined

/-!
# Compilation is all or nothing

Unless a fault stops it, compiling a program gives a module or a list of diagnostics
(`compile_complete`). It gives a module exactly if nothing is wrong with the items, the link symbols
and the bodies; the module then has an entry for each function that is declared, with a body if the
declaration has one. Otherwise the diagnostics are all that is wrong, in the order of the units.
-/

namespace SsaCompiler

open List Diagnostic

variable {moduleName : String} {units : List SourceUnit} {decls : Declarations}
  {declaring : ItemMap.Declaring} {unit : UnitId} {source : SourceUnit} {builder : ModuleBuilder}
variable {compilation : Compilation} {clashes : List Diagnostic}

/-! ## What is wrong with units -/

def bodyErrors (decls : Declarations) (unit : UnitId) (source : SourceUnit) : Except Fault (List TypeError) := do
  let symbols ← SymbolTable.forUnit decls.index unit
  let unitName ← decls.index.unitName unit
  let (errors, _, _) ← checkFunctions decls unit unitName source.functions symbols
  return errors

/-- A list of diagnostics is what is wrong with a unit: first its items, then its bodies. -/
def UnitReport (decls : Declarations) (unit : UnitId) (source : SourceUnit) (report : List Diagnostic) :
    Prop :=
  ∃ errors, bodyErrors decls unit source = .ok errors ∧
    report = (decls.errorsOf unit ++ errors).map (ofTypeError source.name)

theorem checkUnit_report {result : Except (List TypeError) CheckedUnit}
    (h : checkUnit decls unit source = .ok result) : ∃ report, UnitReport decls unit source report ∧
      ((∃ checked, result = .ok checked) ∧ report = [] ∨ ∃ errors, result = .error errors ∧
        report = errors.map (ofTypeError source.name) ∧ report ≠ []) := by
  simp only [checkUnit_eq, bind_eq_ok] at h
  obtain ⟨symbols, hsymbols, unitName, hname, ⟨errors, functions, symbols'⟩, hfunctions, h⟩ := h
  have hbody : bodyErrors decls unit source = .ok errors := by
    simp only [bodyErrors, hsymbols, hname, hfunctions, bind, Except.bind]
    rfl
  refine ⟨_, ⟨errors, hbody, rfl⟩, ?_⟩
  split at h
  · rename_i hnone
    cases h
    exact .inl ⟨⟨_, rfl⟩, by rw [hnone]; rfl⟩
  · rename_i hsome
    cases h
    exact .inr ⟨_, rfl, rfl, by simpa using hsome⟩

/-! ## Link symbols -/

/-- Diagnostics for the items of units that cannot be declared in one module. Nothing is declared if
there are mistakes in the items. -/
inductive LinkClashes (moduleName : String) (units : List SourceUnit) (decls : Declarations) :
    List Diagnostic → Prop
  | skipped : decls.hasErrors = true → LinkClashes moduleName units decls []
  | found {declaring : ItemMap.Declaring} {clashes : List Diagnostic} : decls.hasErrors = false →
    ItemMap.declareAll decls (.new moduleName) = .ok declaring →
    Forall₂ (fun error clash => ∃ source, units[error.unit.index]? = some source ∧
      ofDeclareError source.name error = .ok clash) declaring.errors clashes →
    LinkClashes moduleName units decls clashes

theorem Compilation.start_clashes (h : Compilation.start moduleName units = .ok (compilation, clashes)) :
    Declarations.collect units = .ok compilation.decls ∧ LinkClashes moduleName units compilation.decls clashes ∧
      (compilation.items = none ∧ (compilation.decls.hasErrors = true ∨ clashes ≠ []) ∨
        clashes = [] ∧ ∃ declaring, Declared moduleName units compilation.decls declaring ∧
          compilation.items = some declaring.items ∧ compilation.builder = declaring.builder) := by
  simp only [start, declareItems, bind_eq_ok] at h
  obtain ⟨decls, hcollect, h⟩ := h
  split at h
  · rename_i herrors
    cases h
    exact ⟨hcollect, .skipped herrors, .inl ⟨rfl, .inl herrors⟩⟩
  · rename_i hclean
    have hclean : decls.hasErrors = false := by simpa using hclean
    obtain ⟨declaring, hdeclare, h⟩ := bind_eq_ok.mp h
    split at h
    · rename_i hnone
      cases h
      refine ⟨hcollect, .found hclean hdeclare (by rw [hnone]; exact .nil), .inr ⟨rfl, declaring, ?_, rfl, rfl⟩⟩
      exact ⟨⟨hcollect, hclean⟩, hdeclare, hnone⟩
    · rename_i hsome
      simp only [bind_eq_ok] at h
      obtain ⟨diagnostics, hdiagnostics, rfl, rfl⟩ := h
      have hall := mapM_eq_ok hdiagnostics
      refine ⟨hcollect, .found hclean hdeclare (hall.imp ?_), .inl ⟨rfl, .inr ?_⟩⟩
      · intro error clash he
        obtain ⟨name, hname, he⟩ := bind_eq_ok.mp he
        unfold unitName at hname
        split at hname
        · rename_i source hs
          cases hname
          exact ⟨source, hs, he⟩
        · cases hname
      · rintro rfl
        rw [forall₂_nil_right_iff] at hall
        exact hsome hall

namespace ItemMap

def Declaring.OnlyDuplicates (p : Declaring) : Prop := ∀ e ∈ p.errors, ∃ name, e.error = .duplicate name

theorem Declaring.OnlyDuplicates.push {p : Declaring} (hp : p.OnlyDuplicates) {name : String} {unit : UnitId}
    {span : FileSpan} : ({ p with errors := p.errors ++ [⟨.duplicate name, unit, span⟩] } : Declaring).OnlyDuplicates := by
  intro e he
  rcases mem_append.mp he with he | he
  · exact hp e he
  · exact ⟨name, by rw [mem_singleton.mp he]⟩

theorem declareGlobal_duplicates {p p' : Declaring} {g : GlobalItem} (h : declareGlobal p g = .ok p')
    (hp : p.OnlyDuplicates) : p'.OnlyDuplicates := by
  simp only [declareGlobal, bind_eq_ok] at h
  obtain ⟨type, -, h⟩ := h
  have ha := p.builder.attempt_declareGlobal g.name type (globalInit g.type g.init)
  generalize p.builder.declareGlobal g.name type (globalInit g.type g.init) = result at ha h
  cases ha with
  | made =>
    cases h
    exact hp
  | refused =>
    cases h
    exact hp.push

theorem declareFunction_duplicates {p p' : Declaring} {f : FunctionItem} (h : declareFunction p f = .ok p')
    (hp : p.OnlyDuplicates) : p'.OnlyDuplicates := by
  obtain ⟨sig, -, ⟨error, rfl⟩ | ⟨herrors, -⟩⟩ := declareFunction_cases h
  · exact hp.push
  · intro e he
    exact hp e (herrors ▸ he)

theorem declareAll_duplicates {p : Declaring} (h : declareAll decls (.new moduleName) = .ok p) : p.OnlyDuplicates := by
  simp only [declareAll, bind_eq_ok] at h
  obtain ⟨builder, -, p1, hglobals, hfunctions⟩ := h
  have hp1 : p1.OnlyDuplicates := foldlM_keeps (fun _ => Declaring.OnlyDuplicates)
    (fun _ _ _ _ hp hstep => declareGlobal_duplicates hstep hp) (fun e he => by cases he) hglobals
  exact foldlM_keeps (fun _ => Declaring.OnlyDuplicates)
    (fun _ _ _ _ hp hstep => declareFunction_duplicates hstep hp) hp1 hfunctions

end ItemMap

theorem LinkClashes.kind_ne (h : LinkClashes moduleName units decls clashes) :
    ∀ d ∈ clashes, d.kind ≠ .incompleteModule := by
  cases h with
  | skipped => simp
  | @found declaring _ hclean hdeclare hall =>
    intro d hd
    obtain ⟨error, he, source, -, hclash⟩ := forall₂_exists_left hall hd
    obtain ⟨name, hname⟩ := ItemMap.declareAll_duplicates hdeclare error he
    simp only [ofDeclareError, hname, ofModuleError, bind, Except.bind, pure, Except.pure, Except.ok.injEq] at hclash
    subst hclash
    simp

theorem UnitReport.kind_ne {report : List Diagnostic} (h : UnitReport decls unit source report) :
    ∀ d ∈ report, d.kind ≠ .incompleteModule := by
  obtain ⟨errors, -, rfl⟩ := h
  intro d hd
  obtain ⟨error, -, rfl⟩ := mem_map.mp hd
  cases error <;> simp [ofTypeError, TypeError.kind]

/-! ## All units -/

namespace Compilation

variable {compilation' : Compilation} {diagnostics : List Diagnostic}

theorem addUnit_ok (h : compilation.addUnit unit source = .ok (diagnostics, compilation')) :
    (∃ errors, checkUnit compilation.decls unit source = .ok (.error errors) ∧
      diagnostics = errors.map (ofTypeError source.name) ∧ compilation' = compilation) ∨
    ∃ checked, checkUnit compilation.decls unit source = .ok (.ok checked) ∧ diagnostics = [] ∧
      (compilation.items = none ∧ compilation' = compilation ∨ ∃ items bodies builder, compilation.items = some items ∧
          checked.lower compilation.decls items source = .ok bodies ∧ define bodies compilation.builder = .ok builder ∧
          compilation' = { compilation with builder := builder }) := by
  simp only [addUnit, bind_eq_ok] at h
  obtain ⟨⟨found, bodies⟩, hwork, builder, hdefine, h⟩ := h
  obtain ⟨result, hcheck, hwork⟩ := bind_eq_ok.mp hwork
  cases result with
  | error errors =>
    cases hwork
    cases hdefine
    cases h
    exact .inl ⟨errors, hcheck, rfl, rfl⟩
  | ok checked =>
    refine .inr ⟨checked, hcheck, ?_⟩
    cases hitems : compilation.items with
    | none =>
      simp only [hitems] at hwork
      cases hwork
      cases hdefine
      cases h
      exact ⟨rfl, .inl ⟨rfl, rfl⟩⟩
    | some items =>
      simp only [hitems] at hwork
      obtain ⟨lowered, hlower, hwork⟩ := bind_eq_ok.mp hwork
      cases hwork
      cases h
      exact ⟨rfl, .inr ⟨items, bodies, builder, rfl, hlower, hdefine, by rw [hitems]⟩⟩

theorem addUnit_accepted {items : ItemMap}
    (h : addUnit ⟨decls, some items, builder⟩ unit source = .ok ([], compilation')) : ∃ checked bodies builder',
      checkUnit decls unit source = .ok (.ok checked) ∧ checked.lower decls items source = .ok bodies ∧
      define bodies builder = .ok builder' ∧ compilation' = ⟨decls, some items, builder'⟩ := by
  rcases addUnit_ok h with ⟨errors, hcheck, he, -⟩ |
      ⟨checked, hcheck, -, ⟨hitems, -⟩ | ⟨_, bodies, builder', hitems, hlower, hdefine, rfl⟩⟩
  · obtain ⟨report, -, ⟨⟨_, hr⟩, -⟩ | ⟨_, hr, rfl, hne⟩⟩ := checkUnit_report hcheck
    · cases hr
    · cases hr
      exact absurd he.symm hne
  · cases hitems
  · cases hitems
    exact ⟨checked, bodies, builder', hcheck, hlower, hdefine, rfl⟩

theorem addUnits_reports {sources : List (SourceUnit × Nat)}
    (h : addUnits sources compilation = .ok (diagnostics, compilation')) : ∃ reports,
      Forall₂ (fun p report => UnitReport compilation.decls ⟨p.2⟩ p.1 report ∧
        (report = [] ↔ ∃ checked, checkUnit compilation.decls ⟨p.2⟩ p.1 = .ok (.ok checked)))
        sources reports ∧ diagnostics = reports.flatten := by
  induction sources generalizing compilation diagnostics with
  | nil =>
    cases h
    exact ⟨[], .nil, rfl⟩
  | cons p rest ih =>
    simp only [addUnits, bind_eq_ok] at h
    obtain ⟨⟨found, compilation1⟩, hadd, ⟨others, compilation2⟩, hrest, rfl, rfl⟩ := h
    have hdecls : compilation1.decls = compilation.decls := by
      rcases addUnit_ok hadd with ⟨_, -, -, rfl⟩ | ⟨_, -, -, ⟨-, rfl⟩ | ⟨_, _, _, -, -, -, rfl⟩⟩ <;> rfl
    obtain ⟨reports, hreports, rfl⟩ := ih hrest
    rw [hdecls] at hreports
    refine ⟨found :: reports, .cons ?_ hreports, rfl⟩
    rcases addUnit_ok hadd with ⟨errors, hcheck, rfl, -⟩ | ⟨checked, hcheck, rfl, -⟩
    · obtain ⟨report, hreport, ⟨⟨_, hr⟩, -⟩ | ⟨_, hr, rfl, hne⟩⟩ := checkUnit_report hcheck
      · cases hr
      · cases hr
        refine ⟨hreport, fun he => absurd he hne, ?_⟩
        rintro ⟨checked, hok⟩
        rw [hcheck] at hok
        cases hok
    · obtain ⟨report, hreport, ⟨-, rfl⟩ | ⟨_, hr, -⟩⟩ := checkUnit_report hcheck
      · exact ⟨hreport, fun _ => ⟨checked, hcheck⟩, fun _ => rfl⟩
      · cases hr

end Compilation

/-- If no unit reports anything, all of them add their bodies. -/
theorem Declared.addUnits (h : Declared moduleName units decls declaring) {sources : List (SourceUnit × Nat)}
    (hsources : ∀ p ∈ sources, units[p.2]? = some p.1) {before : List Nat}
    (hb : builder.Defines declaring.builder.mod declaring.items (decls.definedIn before))
    (hpositions : (before ++ sources.map (·.2)).Nodup)
    (hrun : Compilation.addUnits sources ⟨decls, some declaring.items, builder⟩ = .ok ([], compilation)) :
    compilation.builder.Defines declaring.builder.mod declaring.items
      (decls.definedIn (before ++ sources.map (·.2))) := by
  induction sources generalizing builder before with
  | nil =>
    cases hrun
    simpa using hb
  | cons p rest ih =>
    obtain ⟨source, index⟩ := p
    simp only [Compilation.addUnits, bind_eq_ok, pure_eq_ok, Prod.mk.injEq, append_eq_nil_iff] at hrun
    obtain ⟨⟨found, compilation1⟩, hadd, ⟨others, compilation2⟩, hrest, ⟨rfl, rfl⟩, rfl⟩ := hrun
    have hbefore : index ∉ before := fun hm =>
      (nodup_append.mp hpositions).2.2 _ hm _ (.head _) rfl
    obtain ⟨checked, bodies, -, hcheck, hlower, -⟩ := Compilation.addUnit_accepted hadd
    obtain ⟨builder1, hadd', hb1⟩ := h.addUnit (hsources _ (.head _)) hcheck hb hbefore hlower
    rw [hadd] at hadd'
    cases hadd'
    have hrest := ih (fun p hp => hsources p (.tail _ hp)) hb1 (by simpa using hpositions) hrest
    simpa using hrest

theorem exists_report_ne_nil {reports : List (List Diagnostic)}
    (hcollect : Declarations.collect units = .ok decls) (herrors : decls.hasErrors = true)
    (hreports : Forall₂ (fun (p : SourceUnit × Nat) report => UnitReport decls ⟨p.2⟩ p.1 report)
      units.zipIdx reports) : ∃ report ∈ reports, report ≠ [] := by
  obtain ⟨e, he⟩ : ∃ e, e ∈ decls.errors.toList := by
    apply exists_mem_of_ne_nil
    intro hnil
    simp [Declarations.hasErrors, ← Array.toList_eq_nil_iff, hnil] at herrors
  have hlt := Declarations.collect_errors hcollect e he
  have hp : (units[e.1.index], e.1.index) ∈ units.zipIdx :=
    mk_mem_zipIdx_iff_getElem?.mpr (getElem?_eq_getElem hlt)
  obtain ⟨report, hr, errors, -, rfl⟩ := forall₂_exists_right hreports hp
  refine ⟨_, hr, ?_⟩
  have hmem : e.2 ∈ decls.errorsOf ⟨e.1.index⟩ :=
    mem_filterMap.mpr ⟨e, he, if_pos rfl⟩
  intro hnil
  rw [map_eq_nil_iff, append_eq_nil_iff] at hnil
  rw [hnil.1] at hmem
  cases hmem

/-- The functions of a module are those that units declare, in order: an entry for each declaration,
except for external functions that repeat the symbol and the signature of an earlier one, and a body
for each entry that is not external. -/
structure IrModule.Lists (units : List SourceUnit) (decls : Declarations) (declaring : ItemMap.Declaring)
    (mod : IrModule) : Prop where
  entries : ∃ entries, Forall₂ (fun written entry => ∃ item ∈ decls.functions.toList,
      item.Declares written ∧ item.Entry declaring.items declaring.builder entry)
      (writtenFunctions (unitRefs units)) entries ∧
    mod.functions.toList.map IrFunction.declaration = IrFunction.withoutRepeats entries
  bodies : ∀ function ∈ mod.functions.toList, function.body.isSome = !function.isExternal

theorem Declared.lists (h : Declared moduleName units decls declaring)
    (hb : builder.Defines declaring.builder.mod declaring.items (decls.definedIn (range units.length))) :
    builder.mod.Lists units decls declaring := by
  obtain ⟨-, hok⟩ := ItemMap.declareAll_ok h.wellFormed h.declared h.apart
  obtain ⟨-, hdeclares, -⟩ := Declarations.collect_ok h.collected h.clean
  constructor
  · obtain ⟨entries, hentries, hfunctions⟩ := hok.entries
    refine ⟨entries, ?_, ?_⟩
    · have hmem : Forall₂ (fun (w : WrittenFunction) item => item ∈ decls.functions.toList ∧
          item.Declares w) (writtenFunctions (unitRefs units)) decls.functions.toList := by
        refine forall₂_iff_get.mpr ⟨hdeclares.length_eq.symm, fun i h1 h2 => ⟨get_mem _ _, ?_⟩⟩
        exact hdeclares.get h2 h1
      exact (forall₂_comp hmem hentries).imp fun w entry ⟨item, ⟨hm, hd⟩, he⟩ => ⟨item, hm, hd, he⟩
    · rw [← hfunctions, ← hb.functions, Array.toList_map]
  · intro function hf
    obtain ⟨i, hi⟩ := mem_iff_getElem?.mp hf
    rw [Array.getElem?_toList] at hi
    have hbase : declaring.builder.mod.functions[i]? = some function.declaration := by
      rw [← hb.functions, Array.getElem?_map, hi]
      rfl
    have hexternal : ∀ g ∈ decls.functions.toList, declaring.items.functions.get? g.binding = some ⟨i⟩ →
        function.isExternal = g.isExternal := by
      intro g hg hget
      obtain ⟨id, found, hget', hat, hx, -⟩ := hok.functions g hg
      rw [hget] at hget'
      cases hget'
      rw [hbase] at hat
      cases hat
      exact hx
    rw [Bool.eq_iff_iff, hb.defined hi]
    constructor
    · rintro ⟨g, ⟨hg, hx, -⟩, hget⟩
      rw [hexternal g hg hget, hx]
      rfl
    · intro hx
      obtain ⟨g, hg, hget⟩ := hok.covered i (lt_of_getElem? hbase)
      obtain ⟨source, decl, hs, -⟩ := h.wellFormed.declared g hg
      rw [hexternal g hg hget] at hx
      exact ⟨g, ⟨hg, by simpa using hx, List.mem_range.mpr (List.getElem?_eq_some_iff.mp hs).1⟩, hget⟩

/-- Unless a fault stops it, a compilation gives a module exactly if the items, the link symbols and
the bodies of all units are without mistakes. Otherwise it gives what is wrong: the clashes, then the
reports of the units in order. It is never that a body is missing, and the module lists all functions
that are declared. -/
theorem compile_complete {result : Except (List Diagnostic) IrModule}
    (h : compile moduleName units = .ok result) : ∃ decls clashes reports,
      Declarations.collect units = .ok decls ∧ LinkClashes moduleName units decls clashes ∧
      List.Forall₂ (fun (p : SourceUnit × Nat) report => UnitReport decls ⟨p.2⟩ p.1 report)
        units.zipIdx reports ∧
      ((∃ mod, result = .ok mod) ↔ decls.hasErrors = false ∧ clashes = [] ∧
        ∀ i source, units[i]? = some source → ∃ checked, checkUnit decls ⟨i⟩ source = .ok (.ok checked)) ∧
      (∀ errors, result = .error errors → errors ≠ [] ∧ errors = clashes ++ reports.flatten ∧
        ∀ d ∈ errors, d.kind ≠ .incompleteModule) ∧
      ∀ mod, result = .ok mod → ∃ declaring, Declared moduleName units decls declaring ∧
        mod.Lists units decls declaring := by
  simp only [compile, bind_eq_ok] at h
  obtain ⟨⟨compilation, clashes⟩, hstart, ⟨diagnostics, compilation'⟩, hunits, h⟩ := h
  obtain ⟨hcollect, hclashes, hitems⟩ := Compilation.start_clashes hstart
  obtain ⟨reports, hreports, rfl⟩ := Compilation.addUnits_reports hunits
  have hreport : List.Forall₂ (fun (p : SourceUnit × Nat) report =>
      UnitReport compilation.decls ⟨p.2⟩ p.1 report) units.zipIdx reports := hreports.imp fun _ _ h => h.1
  refine ⟨compilation.decls, clashes, reports, hcollect, hclashes, hreport, ?_⟩
  have hchecked : (∀ i source, units[i]? = some source →
      ∃ checked, checkUnit compilation.decls ⟨i⟩ source = .ok (.ok checked)) ↔ reports.flatten = [] := by
    rw [List.flatten_eq_nil_iff]
    constructor
    · intro hall report hr
      obtain ⟨p, hp, -, hiff⟩ := forall₂_exists_left hreports hr
      exact hiff.mpr (hall p.2 p.1 (List.mk_mem_zipIdx_iff_getElem?.mp hp))
    · intro hall i source hs
      obtain ⟨report, hr, -, hiff⟩ := forall₂_exists_right hreports
        (List.mk_mem_zipIdx_iff_getElem?.mpr hs : (source, i) ∈ units.zipIdx)
      exact hiff.mp (hall report hr)
  split at h
  · rename_i hnone
    obtain ⟨rfl, hflat⟩ := List.append_eq_nil_iff.mp hnone
    rcases hitems with ⟨-, herrors | hne⟩ | ⟨-, declaring, hd, hsome, hbuilder⟩
    · obtain ⟨report, hr, hne⟩ := exists_report_ne_nil hcollect herrors hreport
      exact absurd (List.flatten_eq_nil_iff.mp hflat report hr) hne
    · exact absurd rfl hne
    · have hrun : Compilation.addUnits units.zipIdx
          ⟨compilation.decls, some declaring.items, declaring.builder⟩ = .ok ([], compilation') := by
        rw [← hsome, ← hbuilder, ← hflat]
        exact hunits
      have hb := hd.addUnits (fun p hp => List.mk_mem_zipIdx_iff_getElem?.mp hp) hd.definesNone
        (by rw [zipIdx_positions]; exact List.nodup_range) hrun
      rw [zipIdx_positions] at hb
      simp only [Compilation.finish, hd.finish hb, bind, Except.bind, pure, Except.pure,
        Except.ok.injEq] at h
      subst h
      refine ⟨⟨fun _ => ⟨hd.clean, rfl, hchecked.mpr hflat⟩, fun _ => ⟨_, rfl⟩⟩, by simp, ?_⟩
      rintro mod ⟨⟩
      exact ⟨declaring, hd, hd.lists hb⟩
  · rename_i hsome
    cases h
    refine ⟨⟨by simp, ?_⟩, ?_, by simp⟩
    · rintro ⟨-, rfl, hall⟩
      exact absurd (List.append_eq_nil_iff.mpr ⟨rfl, hchecked.mp hall⟩) hsome
    · rintro errors ⟨⟩
      refine ⟨hsome, rfl, fun d hd => ?_⟩
      rcases List.mem_append.mp hd with hd | hd
      · exact hclashes.kind_ne d hd
      · obtain ⟨report, hr, hd⟩ := List.mem_flatten.mp hd
        obtain ⟨p, -, hp⟩ := forall₂_exists_left hreport hr
        exact hp.kind_ne d hd

theorem compile_complete_countdown : ∃ mod decls declaring,
    compile "m" [Countdown.program] = .ok (.ok mod) ∧ Declared "m" [Countdown.program] decls declaring ∧
    mod.Lists [Countdown.program] decls declaring := by
  have hrun : ((compile "m" [Countdown.program]).toOption.any fun result =>
      result.toOption.any fun _ => true) = true := by decide +kernel
  obtain ⟨result, hcompile, hrun⟩ := exists_ok hrun
  obtain ⟨mod, rfl, -⟩ := exists_ok hrun
  obtain ⟨decls, clashes, reports, -, -, -, -, -, hlists⟩ := compile_complete hcompile
  obtain ⟨declaring, hd, hmod⟩ := hlists mod rfl
  exact ⟨mod, decls, declaring, hcompile, hd, hmod⟩

end SsaCompiler
