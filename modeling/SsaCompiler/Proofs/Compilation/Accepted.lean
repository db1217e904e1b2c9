import SsaCompiler.Proofs.Declarations.Items
import SsaCompiler.Proofs.Lowering.Declaring
import SsaCompiler.Proofs.Lowering.Graph.Bodies
import SsaCompiler.Proofs.Typing.Functions
import SsaCompiler.Syntax.Builder

/-!
# Accepted programs

A program is accepted if its items are collected and declared without a mistake (`Declared`) and its
units are checked without one (`AcceptedUnit`). Each function of an accepted unit is typed
(`AcceptedUnit.functions_typed`), and its body is lowered to one that is well typed
(`AcceptedUnit.lowered_wellTyped`) and in single assignment form (`AcceptedUnit.lowered_ssa`), with an
exact control flow graph (`CheckedUnit.lowered_exact`), unless lowering asks for a value where there is
none.
-/

namespace SsaCompiler

open List CheckedUnit

def SourceUnit.TreeShaped (source : SourceUnit) : Prop :=
  ∀ f ∈ source.functions, ∀ body ∈ f.2.body, body.TreeShaped

instance (source : SourceUnit) : Decidable source.TreeShaped :=
  inferInstanceAs (Decidable (∀ f ∈ source.functions, ∀ body ∈ f.2.body, body.TreeShaped))

/-- The items of units were collected without a mistake. -/
structure Collected (units : List SourceUnit) (decls : Declarations) : Prop where
  collected : Declarations.collect units = .ok decls
  clean : decls.hasErrors = false

/-- The items of units were also declared in a module, without a clash. -/
structure Declared (moduleName : String) (units : List SourceUnit) (decls : Declarations)
    (declaring : ItemMap.Declaring) : Prop extends Collected units decls where
  declared : ItemMap.declareAll decls (.new moduleName) = .ok declaring
  apart : declaring.errors = []

/-- A unit whose bodies are trees was checked without a mistake. -/
structure AcceptedUnit (units : List SourceUnit) (decls : Declarations) (unit : UnitId)
    (source : SourceUnit) (checked : CheckedUnit) : Prop where
  found : units[unit.index]? = some source
  trees : source.TreeShaped
  checked : checkUnit decls unit source = .ok (.ok checked)

variable {moduleName : String} {units : List SourceUnit} {decls : Declarations}
  {declaring : ItemMap.Declaring} {unit : UnitId} {source : SourceUnit} {checked : CheckedUnit}
variable {F : CheckedFunction} {items : ItemMap}

theorem Collected.wellFormed (h : Collected units decls) : decls.WellFormed units :=
  (Declarations.collect_ok h.collected h.clean).1

theorem Declarations.WellFormed.function?_binding (h : decls.WellFormed units) {f : FunctionItem}
    (hf : f ∈ decls.functions.toList) : decls.function? f.binding = some f := by
  obtain ⟨g, hg⟩ : ∃ g, decls.function? f.binding = some g := by
    rw [← Option.isSome_iff_exists, function?, Array.find?_isSome]
    exact ⟨f, Array.mem_toList_iff.mp hf, by simp⟩
  have hmem : g ∈ decls.functions.toList := Array.mem_toList_iff.mpr (Array.mem_of_find?_eq_some hg)
  have hbinding : g.binding = f.binding := by simpa using Array.find?_some hg
  rw [hg, inj_on_of_nodup_map h.bindings hmem hf hbinding]

theorem ItemMap.lowerSig_result {params : List Ty} {result : Ty} {varargs : Bool} {sig : FunctionSig}
    (h : items.lowerSig params result varargs = .ok sig) : items.lowerType result = .ok sig.result := by
  simp only [lowerSig, bind_eq_ok, pure_eq_ok] at h
  obtain ⟨types, -, type, htype, rfl⟩ := h
  exact htype

theorem Declared.realizes (h : Declared moduleName units decls declaring) :
    declaring.items.Realizes decls declaring.builder.mod :=
  (ItemMap.declareAll_ok h.wellFormed h.declared h.apart).1

theorem AcceptedUnit.describes (h : AcceptedUnit units decls unit source checked) (hc : Collected units decls)
    (hF : F ∈ checked.functions) : ∃ decl, source.items[F.itemIndex]? = some (.function decl) ∧
      F.Describes decls unit source.name F.itemIndex decl := by
  obtain ⟨f, hf, hd⟩ := forall₂_exists_right (Check.checkUnit_ok hc.wellFormed h.found h.trees h.checked) hF
  refine ⟨f.2, ?_, hd.position ▸ hd⟩
  rw [hd.position]
  exact SourceUnit.mem_functions.mp (mem_filter.mp hf).1

/-- What is recorded about a function of an accepted unit: it is typed, and so are its locals. -/
theorem AcceptedUnit.recorded (h : AcceptedUnit units decls unit source checked)
    (hc : Collected units decls) (hF : F ∈ checked.functions) {decl : FunctionDecl} {body : Body} {root : Expr}
    (hdecl : source.items[F.itemIndex]? = some (.function decl)) (hbody : decl.body = some body)
    (hroot : body.tree = .ok root) : (∃ item, decls.functionAt? unit F.itemIndex = some item ∧
        TypingContext.FunctionTyped ⟨decls, source.name, F⟩ item decl root) ∧
      ∃ depths, F.LocalsRecorded decls source.name root unit depths := by
  obtain ⟨decl', hdecl', hdescribes⟩ := h.describes hc hF
  cases hdecl.symm.trans hdecl'
  obtain ⟨item, body', root', hitem, hbody', hroot', -, htyped⟩ := hdescribes.typed
  cases hbody.symm.trans hbody'
  cases hroot.symm.trans hroot'
  exact ⟨⟨item, hitem, htyped⟩, hdescribes.locals hbody hroot⟩

/-- A call in a body passes an argument that has no value. -/
def CheckedFunction.PassesUnit (F : CheckedFunction) (root : Expr) : Prop :=
  ∃ arg, (.argument, arg) ∈ root.valueUses ∧ F.typeOf arg.id = .unit

theorem CheckedUnit.lowerFunction_eq_ok {id : FuncId}
    {body : FunctionBody} : lowerFunction decls items source F = .ok (id, body) ↔
      ∃ written item sig root, items.functions.get? F.binding = some id ∧
        source.bodyAt? F.itemIndex = some written ∧ decls.function? F.binding = some item ∧
        items.lowerSig item.params item.result item.varargs = .ok sig ∧ written.tree = .ok root ∧
        F.lower items sig root = .ok body := by
  unfold lowerFunction
  constructor
  · intro h
    split at h
    · cases h
    · split at h
      · cases h
      · cases h
      · simp only [bind_eq_ok] at h
        obtain ⟨sig, hsig, root, hroot, _, hlower, rfl, rfl⟩ := h
        exact ⟨_, _, sig, root, ‹_›, ‹_›, ‹_›, hsig, hroot, hlower⟩
  · rintro ⟨written, item, sig, root, hid, hwritten, hitem, hsig, hroot, hlower⟩
    simp only [hid, hwritten, hitem, hsig, hroot, hlower, bind, Except.bind]
    rfl

section

variable (h : AcceptedUnit units decls unit source checked) (hd : Declared moduleName units decls declaring)
include h hd

/-- A function of an accepted unit is lowered with the signature it was declared with, to a body that
is well typed and in single assignment form, or it passes an argument that has no value. -/
theorem AcceptedUnit.lowerFunction_outcome (hF : F ∈ checked.functions) :
    (lowerFunction decls declaring.items source F = .error .unitAsValue ∧
      ∃ body root, source.bodyAt? F.itemIndex = some body ∧ body.tree = .ok root ∧ F.PassesUnit root) ∨
      ∃ id function body, lowerFunction decls declaring.items source F = .ok (id, body) ∧
        declaring.items.functions.get? F.binding = some id ∧
        declaring.builder.mod.functions[id.index]? = some function ∧
        body.WellTyped declaring.builder.mod function.sig ∧ body.Ssa ∧ body.Marked := by
  have hw := hd.wellFormed
  obtain ⟨decl, hdecl, hdescribes⟩ := h.describes hd.toCollected hF
  obtain ⟨item, source', root, hitem, hbody, hroot, -, htyped⟩ := hdescribes.typed
  obtain ⟨hmem, -, -⟩ := Check.functionAt?_ok hitem
  obtain ⟨id, function, hget, hat, hsig⟩ := hd.realizes.functions item hmem
  have hbinding : F.binding = item.binding := htyped.binding
  have hresult : F.result = item.result := htyped.result
  have hfunction : decls.function? F.binding = some item := by
    rw [hbinding]
    exact hw.function?_binding hmem
  have hbodyAt : source.bodyAt? F.itemIndex = some source' := by
    rw [SourceUnit.bodyAt?, hdecl]
    exact hbody
  have hfits : Setting.Fits units
      ⟨decls, source.name, F, declaring.items, declaring.builder.mod, function.sig, F.PassesUnit root⟩ := by
    refine ⟨hw, hd.realizes, ?_, ?_⟩
    · rw [hresult]
      exact (hw.functions item hmem).1.2
    · rw [hresult]
      exact ItemMap.lowerSig_result hsig
  have hrun : lowerFunction decls declaring.items source F = do
      let lowered ← F.lower declaring.items function.sig root
      return (id, lowered) := by
    simp only [lowerFunction, hbinding ▸ hget, hbodyAt, hfunction, hsig, hroot]
    rfl
  rw [hrun]
  rcases CheckedFunction.lower_ok hfits hmem hsig htyped ⟨htyped.proper, fun p hp arg ha hu =>
      ⟨arg, mem_flatMap.mpr ⟨p, hp, ha⟩, hu⟩⟩ with
    ⟨hunit, hpasses⟩ | ⟨body, hlower, htyped, hssa⟩
  · exact .inl ⟨by simp only [hunit]; rfl, source', root, hbodyAt, hroot, hpasses⟩
  · exact .inr ⟨id, function, body, by simp only [hlower]; rfl, hbinding ▸ hget, hat, htyped, hssa⟩

theorem AcceptedUnit.lowerFunction_cases (hF : F ∈ checked.functions) :
    lowerFunction decls declaring.items source F = .error .unitAsValue ∨
      ∃ id function body, lowerFunction decls declaring.items source F = .ok (id, body) ∧
        declaring.items.functions.get? F.binding = some id ∧
        declaring.builder.mod.functions[id.index]? = some function ∧
        body.WellTyped declaring.builder.mod function.sig ∧ body.Ssa :=
  (h.lowerFunction_outcome hd hF).imp And.left fun ⟨id, function, body, hok, hget, hat, htyped, hssa, _⟩ =>
    ⟨id, function, body, hok, hget, hat, htyped, hssa⟩

theorem AcceptedUnit.lower_cases : checked.lower decls declaring.items source = .error .unitAsValue ∨
      ∃ bodies, checked.lower decls declaring.items source = .ok bodies :=
  mapM_cases fun _ hF => (h.lowerFunction_cases hd hF).imp_right fun ⟨id, _, body, hok, _⟩ => ⟨(id, body), hok⟩

end

/-- Whether a program of one unit is accepted with an outcome that passes a test. -/
def runsOn (moduleName : String) (source : SourceUnit)
    (test : Declarations → ItemMap.Declaring → CheckedUnit → Bool) : Bool :=
  (Declarations.collect [source]).toOption.any fun decls => !decls.hasErrors &&
    (ItemMap.declareAll decls (.new moduleName)).toOption.any fun declaring => declaring.errors.isEmpty &&
      (checkUnit decls ⟨0⟩ source).toOption.any fun result => result.toOption.any (test decls declaring)

theorem accepted_of_runsOn {test : Declarations → ItemMap.Declaring → CheckedUnit → Bool}
    (ht : source.TreeShaped) (h : runsOn moduleName source test = true) : ∃ decls declaring checked,
      Declared moduleName [source] decls declaring ∧ AcceptedUnit [source] decls ⟨0⟩ source checked ∧
      test decls declaring checked = true := by
  obtain ⟨decls, hcollect, h⟩ := exists_ok h
  obtain ⟨hclean, h⟩ := Bool.and_eq_true_iff.mp h
  obtain ⟨declaring, hdeclare, h⟩ := exists_ok h
  obtain ⟨hapart, h⟩ := Bool.and_eq_true_iff.mp h
  obtain ⟨result, hcheck, h⟩ := exists_ok h
  obtain ⟨checked, rfl, h⟩ := exists_ok h
  exact ⟨decls, declaring, checked, ⟨⟨hcollect, by simpa using hclean⟩, hdeclare, by simpa using hapart⟩,
    ⟨rfl, ht, hcheck⟩, h⟩

/-! ## A program

A loop with a call in its condition, that is left early for one value. -/

namespace Countdown

/-- `fn report(n: i32) -> bool;` -/
def report : Build FunctionDecl := do
  let n ← .param "n" (← .type (.named "i32"))
  let result ← .type (.named "bool")
  return ⟨"report", [n], some result, none, [], ← .span⟩

/-- `if i == 3 { break; }` -/
def leave : Build StmtId := do
  let i ← .expr (.var "i")
  let three ← .expr (.literal (.int 3 none))
  let condition ← .expr (.binary .eq i three)
  let stop ← .expr .breakLoop
  let stop ← .stmt (.eval stop)
  let branch ← .expr (.block [stop] none)
  let whole ← .expr (.cond condition branch none)
  .stmt (.eval whole)

/-- `i = i - 1;` -/
def decrease : Build StmtId := do
  let target ← .expr (.var "i")
  let i ← .expr (.var "i")
  let one ← .expr (.literal (.int 1 none))
  let value ← .expr (.binary .sub i one)
  let whole ← .expr (.assign target value)
  .stmt (.eval whole)

/-- `fn countdown(n: i32) -> i32 { let i = n; while i > 0 && report(i) { .. } i }` -/
def countdown : Build FunctionDecl := do
  let n ← .param "n" (← .type (.named "i32"))
  let result ← .type (.named "i32")
  let init ← .expr (.var "n")
  let start ← .stmt (.bind "i" none (some init))
  let i ← .expr (.var "i")
  let zero ← .expr (.literal (.int 0 none))
  let positive ← .expr (.binary .gt i zero)
  let callee ← .expr (.var "report")
  let arg ← .expr (.var "i")
  let reported ← .expr (.call callee [arg])
  let condition ← .expr (.binary .and positive reported)
  let leave ← leave
  let decrease ← decrease
  let body ← .expr (.block [leave, decrease] none)
  let loop ← .expr (.loop condition body)
  let loop ← .stmt (.eval loop)
  let tail ← .expr (.var "i")
  .finishFunction "countdown" [n] (some result) [start, loop] (some tail)

def program : SourceUnit :=
  ⟨"m", ⟨0⟩, none, [.function (report.run (.new ⟨0⟩ 0)).1, .function (countdown.run (.new ⟨0⟩ 1000)).1]⟩

theorem accepted : ∃ decls declaring checked F id body, Declared "m" [program] decls declaring ∧
    AcceptedUnit [program] decls ⟨0⟩ program checked ∧ F ∈ checked.functions ∧
    lowerFunction decls declaring.items program F = .ok (id, body) := by
  have hrun : runsOn "m" program (fun decls declaring checked => checked.functions.any fun F =>
      (lowerFunction decls declaring.items program F).toOption.isSome) = true := by
    decide +kernel
  obtain ⟨decls, declaring, checked, hd, hu, hrun⟩ := accepted_of_runsOn (by decide +kernel) hrun
  obtain ⟨F, hF, hlower⟩ := any_eq_true.mp hrun
  obtain ⟨⟨id, body⟩, hbody, -⟩ := exists_ok (p := fun _ => true) (by simpa [Option.any_true] using hlower)
  exact ⟨decls, declaring, checked, F, id, body, hd, hu, hF, hbody⟩

end Countdown

/-! ## Functions of accepted units -/

/-- Each function of an accepted unit carries a valid typing: no type in its body contains an error,
and every node meets its typing rule. -/
theorem AcceptedUnit.functions_typed (h : AcceptedUnit units decls unit source checked)
    (hc : Collected units decls) {F : CheckedFunction} (hF : F ∈ checked.functions) :
    ∃ decl body item root, source.items[F.itemIndex]? = some (.function decl) ∧ decl.body = some body ∧
      decls.functionAt? unit F.itemIndex = some item ∧ body.tree = .ok root ∧
      TypingContext.FunctionTyped ⟨decls, source.name, F⟩ item decl root := by
  obtain ⟨decl, hdecl, hdescribes⟩ := h.describes hc hF
  obtain ⟨item, body, root, hitem, hbody, hroot, -, htyped⟩ := hdescribes.typed
  exact ⟨decl, body, item, root, hdecl, hbody, hitem, hroot, htyped⟩

theorem AcceptedUnit.functions_typed_countdown : ∃ decls checked F,
    AcceptedUnit [Countdown.program] decls ⟨0⟩ Countdown.program checked ∧ F ∈ checked.functions ∧
    ∃ decl body item root, Countdown.program.items[F.itemIndex]? = some (.function decl) ∧
      decl.body = some body ∧ decls.functionAt? ⟨0⟩ F.itemIndex = some item ∧ body.tree = .ok root ∧
      TypingContext.FunctionTyped ⟨decls, Countdown.program.name, F⟩ item decl root := by
  obtain ⟨decls, declaring, checked, F, id, body, hd, hu, hF, -⟩ := Countdown.accepted
  exact ⟨decls, checked, F, hu, hF, AcceptedUnit.functions_typed hu hd.toCollected hF⟩

/-- What a function of an accepted unit is lowered to is well typed, with the signature that the
module declares for the function. -/
theorem AcceptedUnit.lowered_wellTyped (h : AcceptedUnit units decls unit source checked)
    (hd : Declared moduleName units decls declaring) {F : CheckedFunction} (hF : F ∈ checked.functions)
    {id : FuncId} {body : FunctionBody}
    (hl : CheckedUnit.lowerFunction decls declaring.items source F = .ok (id, body)) :
    ∃ function, declaring.builder.mod.functions[id.index]? = some function ∧
      body.WellTyped declaring.builder.mod function.sig := by
  rcases h.lowerFunction_cases hd hF with hunit | ⟨id', function, body', hok, -, hat, htyped, -⟩
  · rw [hunit] at hl
    cases hl
  · rw [hok] at hl
    cases hl
    exact ⟨function, hat, htyped⟩

theorem AcceptedUnit.lowered_wellTyped_countdown : ∃ decls declaring F id body function,
    Declared "m" [Countdown.program] decls declaring ∧
    CheckedUnit.lowerFunction decls declaring.items Countdown.program F = .ok (id, body) ∧
    declaring.builder.mod.functions[id.index]? = some function ∧
    body.WellTyped declaring.builder.mod function.sig := by
  obtain ⟨decls, declaring, checked, F, id, body, hd, hu, hF, hl⟩ := Countdown.accepted
  obtain ⟨function, hat, htyped⟩ := AcceptedUnit.lowered_wellTyped hu hd hF hl
  exact ⟨decls, declaring, F, id, body, function, hd, hl, hat, htyped⟩

/-- What a function of an accepted unit is lowered to is in single assignment form. -/
theorem AcceptedUnit.lowered_ssa (h : AcceptedUnit units decls unit source checked)
    (hd : Declared moduleName units decls declaring) {F : CheckedFunction} (hF : F ∈ checked.functions)
    {id : FuncId} {body : FunctionBody}
    (hl : CheckedUnit.lowerFunction decls declaring.items source F = .ok (id, body)) : body.Ssa := by
  rcases h.lowerFunction_cases hd hF with hunit | ⟨id', function, body', hok, -, -, -, hssa⟩
  · rw [hunit] at hl
    cases hl
  · rw [hok] at hl
    cases hl
    exact hssa

theorem AcceptedUnit.lowered_ssa_countdown : ∃ decls declaring F id body,
    Declared "m" [Countdown.program] decls declaring ∧
    CheckedUnit.lowerFunction decls declaring.items Countdown.program F = .ok (id, body) ∧ body.Ssa := by
  obtain ⟨decls, declaring, checked, F, id, body, hd, hu, hF, hl⟩ := Countdown.accepted
  exact ⟨decls, declaring, F, id, body, hd, hl, AcceptedUnit.lowered_ssa hu hd hF hl⟩

/-- What a function is lowered to has an exact control flow graph, whether or not it is accepted. -/
theorem CheckedUnit.lowered_exact {items : ItemMap} {F : CheckedFunction} {id : FuncId}
    {body : FunctionBody} (hl : CheckedUnit.lowerFunction decls items source F = .ok (id, body)) :
    body.Exact := by
  unfold CheckedUnit.lowerFunction at hl
  split at hl
  · cases hl
  · split at hl
    · cases hl
    · cases hl
    · obtain ⟨sig, -, hl⟩ := bind_eq_ok.mp hl
      obtain ⟨root, -, hl⟩ := bind_eq_ok.mp hl
      obtain ⟨lowered, hlower, hl⟩ := bind_eq_ok.mp hl
      cases hl
      exact CheckedFunction.exact_of_lower hlower

theorem CheckedUnit.lowered_exact_countdown : ∃ decls declaring F id body,
    Declared "m" [Countdown.program] decls declaring ∧
    CheckedUnit.lowerFunction decls declaring.items Countdown.program F = .ok (id, body) ∧ body.Exact := by
  obtain ⟨decls, declaring, checked, F, id, body, hd, hu, hF, hl⟩ := Countdown.accepted
  exact ⟨decls, declaring, F, id, body, hd, hl, CheckedUnit.lowered_exact hl⟩

end SsaCompiler
