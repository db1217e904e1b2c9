import SsaCompiler.Proofs.Compilation.Accepted
import SsaCompiler.Proofs.Typing.Lexical

/-!
# Values where they are asked for

Checking makes sure that what lowering asks a value of has one: an operand is a number, a condition is
a truth value, a field has a type with values. The one place where an expression of type `unit` gets
through is an argument, because a function type may have a parameter of type `unit`
(`TypingContext.Typed.takesUnit_of_asks`). A unit that calls no such function is lowered
(`AcceptedUnit.lower_of_valued`); one that does is accepted all the same, and is not
(`UnitArgument.lower_fails`).
-/

namespace SsaCompiler

open List

/-- Whether a type is that of functions with a parameter that has no value. -/
def Ty.takesUnit : Ty → Bool
  | .function params _ _ => params.any (·.isUnit)
  | _ => false

namespace TypingContext

variable {units : List SourceUnit} {C : TypingContext} {Γ : List Local} {depth : Nat}
variable {id : ExprId}

theorem UsedAs.typeOf_ne_unit {expr : Expr} {type : Ty} (h : C.UsedAs expr type) (hu : type ≠ .unit) :
    C.typeOf expr ≠ .unit := by
  intro he
  obtain ⟨hused, hun | hw⟩ := h
  · unfold usedType at hused
    rw [show C.function.coercions.get? expr.id = none from hun, he] at hused
    exact hu hused.symm
  · rw [he] at hw
    cases hw

theorem ArgsTyped.unit_mem {varargs : Bool} {args : List Expr} {params : List Ty}
    (h : C.ArgsTyped varargs args params) {arg : Expr} (ha : arg ∈ args) (hu : C.typeOf arg = .unit) :
    .unit ∈ params := by
  induction args generalizing params with
  | nil => cases ha
  | cons first rest ih =>
    cases params with
    | nil =>
      obtain ⟨-, hextra, hrest⟩ := h
      rcases mem_cons.mp ha with rfl | ha
      · unfold PassedExtra at hextra
        rw [hu] at hextra
        split at hextra
        · exact absurd rfl hextra.2
        · cases hextra
      · exact ih hrest ha
    | cons param params =>
      rcases mem_cons.mp ha with rfl | ha
      · by_cases hp : param = .unit
        · exact hp ▸ .head _
        · exact absurd hu (h.1.typeOf_ne_unit hp)
      · exact .tail _ (ih h.2 ha)

theorem UnaryTyped.typeOf_ne_unit {op : UnaryOp} {operand : Expr} (h : C.UnaryTyped Γ id op operand)
    (hop : op ≠ .addrOf) : C.typeOf operand ≠ .unit := by
  obtain ⟨-, h⟩ := h
  intro hu
  rw [hu] at h
  cases op with
  | neg => cases h.1
  | not => rcases h.1 with h | h <;> cases h
  | deref => cases h
  | addrOf => exact hop rfl

theorem BinaryTyped.typeOf_ne_unit {op : BinaryOp} {lhs rhs : Expr} (h : C.BinaryTyped id op lhs rhs) :
    C.typeOf lhs ≠ .unit ∧ C.typeOf rhs ≠ .unit := by
  unfold BinaryTyped at h
  split at h
  · exact ⟨h.1.typeOf_ne_unit (by simp), h.2.1.typeOf_ne_unit (by simp)⟩
  · obtain ⟨type, hl, hr, -, ht⟩ := h
    have hu := World.ne_unit_of_operator ht
    exact ⟨hl.typeOf_ne_unit hu, hr.typeOf_ne_unit hu⟩

theorem FieldTyped.typeOf_ne_unit {base : Expr} (h : C.FieldTyped id base) : C.typeOf base ≠ .unit := by
  obtain ⟨-, ref, struct, field, -, hbase, -⟩ := h
  rw [hbase]
  split <;> simp

theorem LiteralTyped.typeOf_ne_unit (hw : C.decls.WellFormed units) {inits : List Init} (h : C.LiteralTyped id inits) :
    ∀ init ∈ inits, C.typeOf init.value ≠ .unit := by
  obtain ⟨ref, struct, -, hs, -, -, -, hin⟩ := h
  intro init hmem
  obtain ⟨position, -, field, hf, hused⟩ := forall₂_exists_right hin hmem
  exact hused.typeOf_ne_unit (hw.struct? hs hf).2

/-- If a typed expression asks a value of what has type `unit`, it calls a function that takes it. -/
theorem Typed.takesUnit_of_asks (hw : C.decls.WellFormed units) {expr : Expr} (h : C.Typed Γ depth expr)
    {use : ValueUse × Expr} (hm : use ∈ expr.asks) (hu : C.typeOf use.2 = .unit) :
    ∃ callee, (.callee, callee) ∈ expr.asks ∧ (C.typeOf callee).takesUnit = true := by
  cases expr with
  | literal | var | assign | block | breakLoop | continueLoop => cases hm
  | binary id span op lhs rhs =>
    obtain ⟨hl, hr⟩ := h.2.2.typeOf_ne_unit
    rcases mem_pair.mp hm with rfl | rfl
    · exact absurd hu hl
    · exact absurd hu hr
  | unary id span op operand =>
    obtain ⟨kind, hop, rfl⟩ := mem_map.mp hm
    exact absurd hu (h.2.typeOf_ne_unit (by rintro rfl; cases hop))
  | call id span callee args =>
    obtain ⟨-, params, varargs, htype, hargs⟩ := h.2.2
    refine ⟨callee, .head _, ?_⟩
    rcases mem_cons.mp hm with rfl | hm
    · rw [htype] at hu
      cases hu
    · obtain ⟨arg, ha, rfl⟩ := mem_map.mp hm
      rw [htype]
      exact any_eq_true.mpr ⟨.unit, hargs.unit_mem ha hu, rfl⟩
  | cond id span condition thenBranch elseBranch =>
    obtain rfl := mem_singleton.mp hm
    cases elseBranch with
    | none => exact absurd hu (h.2.2.1.typeOf_ne_unit (by simp))
    | some => exact absurd hu (h.2.2.2.1.typeOf_ne_unit (by simp))
  | loop id span condition body =>
    obtain rfl := mem_singleton.mp hm
    exact absurd hu (h.2.2.1.typeOf_ne_unit (by simp))
  | field id span base name =>
    obtain rfl := mem_singleton.mp hm
    exact absurd hu h.2.typeOf_ne_unit
  | structLiteral id span name fields =>
    obtain ⟨init, hi, rfl⟩ := mem_map.mp hm
    exact absurd hu (h.2.typeOf_ne_unit hw init hi)

end TypingContext

/-! ## Accepted units -/

variable {units : List SourceUnit} {decls : Declarations} {unit : UnitId} {source : SourceUnit}
  {checked : CheckedUnit}

/-- No function is called in a body that takes an argument without a value. -/
def CheckedFunction.CallsValued (F : CheckedFunction) (root : Expr) : Prop :=
  ∀ callee, (.callee, callee) ∈ root.valueUses → (F.typeOf callee.id).takesUnit = false

instance (F : CheckedFunction) (root : Expr) : Decidable (F.CallsValued root) :=
  decidable_of_iff (∀ use ∈ root.valueUses, use.1 = .callee → (F.typeOf use.2.id).takesUnit = false)
    ⟨fun h _ hc => h _ hc rfl, fun h use hu he => h use.2 (he ▸ hu)⟩

/-- Everything in a body that has to have a value has one. -/
def CheckedFunction.Valued (F : CheckedFunction) (root : Expr) : Prop :=
  ∀ use ∈ root.valueUses, F.typeOf use.2.id ≠ .unit

theorem AcceptedUnit.valued (h : AcceptedUnit units decls unit source checked) (hc : Collected units decls)
    {F : CheckedFunction} (hF : F ∈ checked.functions) {body : Body} {root : Expr}
    (hbody : source.bodyAt? F.itemIndex = some body) (hroot : body.tree = .ok root)
    (hcalls : F.CallsValued root) : F.Valued root := by
  obtain ⟨decl, hdecl, -⟩ := h.describes hc hF
  rw [SourceUnit.bodyAt?, hdecl] at hbody
  obtain ⟨⟨item, -, htyped⟩, -⟩ := h.recorded hc hF hdecl hbody hroot
  intro use hm hu
  obtain ⟨⟨site, part⟩, hp, hm⟩ := mem_flatMap.mp hm
  cases part with
  | stmt => cases hm
  | expr expr =>
    have htyped : TypingContext.Typed _ _ _ expr := TypingContext.partTyped_of_mem_parts htyped.body hp
    obtain ⟨callee, hcallee, htakes⟩ := htyped.takesUnit_of_asks hc.wellFormed hm hu
    have hvalued := hcalls callee (mem_flatMap.mpr ⟨_, hp, hcallee⟩)
    rw [show (F.typeOf callee.id).takesUnit = true from htakes] at hvalued
    cases hvalued

/-- In a unit without mistakes that calls no function with a parameter of type `unit`, everything that
lowering asks a value of has one, so it is lowered. -/
theorem AcceptedUnit.lower_of_valued (h : AcceptedUnit units decls unit source checked)
    (hc : Collected units decls) (hcalls : ∀ F ∈ checked.functions, ∀ body root,
      source.bodyAt? F.itemIndex = some body → body.tree = .ok root → F.CallsValued root) :
    (∀ F ∈ checked.functions, ∀ body root, source.bodyAt? F.itemIndex = some body → body.tree = .ok root →
      F.Valued root) ∧
    ∀ moduleName declaring, Declared moduleName units decls declaring →
      ∃ bodies, checked.lower decls declaring.items source = .ok bodies := by
  have hvalued : ∀ F ∈ checked.functions, ∀ body root, source.bodyAt? F.itemIndex = some body →
      body.tree = .ok root → F.Valued root := fun F hF body root hbody hroot =>
    h.valued hc hF hbody hroot (hcalls F hF body root hbody hroot)
  refine ⟨hvalued, fun moduleName declaring hd => ?_⟩
  have hlowered : ∀ F ∈ checked.functions, ∃ lowered,
      CheckedUnit.lowerFunction decls declaring.items source F = .ok lowered := by
    intro F hF
    rcases h.lowerFunction_outcome hd hF with ⟨-, body, root, hbody, hroot, arg, harg, hunit⟩ |
      ⟨id, -, body, hok, -⟩
    · exact absurd hunit (hvalued F hF body root hbody hroot _ harg)
    · exact ⟨(id, body), hok⟩
  obtain ⟨bodies, hbodies⟩ := exists_forall₂ hlowered
  exact ⟨bodies, mapM_of_forall₂ hbodies⟩

theorem AcceptedUnit.lower_of_valued_countdown : ∃ decls declaring checked,
    Declared "m" [Countdown.program] decls declaring ∧
    AcceptedUnit [Countdown.program] decls ⟨0⟩ Countdown.program checked ∧
    ∃ bodies, checked.lower decls (ItemMap.Declaring.items declaring) Countdown.program = .ok bodies := by
  have hrun : runsOn "m" Countdown.program (fun _ _ checked => checked.functions.all fun F =>
      (Countdown.program.bodyAt? F.itemIndex).all fun body => body.tree.toOption.all fun root =>
        decide (F.CallsValued root)) = true := by
    decide +kernel
  obtain ⟨decls, declaring, checked, hd, hu, hcalls⟩ := accepted_of_runsOn (by decide +kernel) hrun
  refine ⟨decls, declaring, checked, hd, hu, (AcceptedUnit.lower_of_valued hu hd.toCollected ?_).2 _ _ hd⟩
  intro F hF body root hbody hroot
  have hF := List.all_eq_true.mp hcalls F hF
  rw [hbody, Option.all_some, hroot] at hF
  exact of_decide_eq_true hF

/-! ## A program that is not lowered -/

namespace UnitArgument

/-- `fn apply(g: fn(unit) -> i32) -> i32 { g(()) }` -/
def apply : Build FunctionDecl := do
  let unit ← .type (.named "unit")
  let i32 ← .type (.named "i32")
  let function ← .type (.function [unit] (some i32) false)
  let g ← .param "g" function
  let result ← .type (.named "i32")
  let callee ← .expr (.var "g")
  let nothing ← .expr (.literal .unit)
  let call ← .expr (.call callee [nothing])
  .finishFunction "apply" [g] (some result) [] (some call)

def program : SourceUnit := ⟨"main", ⟨0⟩, none, [.function (apply.run (.new ⟨0⟩ 0)).1]⟩

/-- A unit without mistakes is not lowered: a value is asked for where there is none. -/
theorem lower_fails : ∃ decls declaring checked, Declared "acorn" [program] decls declaring ∧
    AcceptedUnit [program] decls ⟨0⟩ program checked ∧
    checked.lower decls declaring.items program = .error .unitAsValue := by
  have hrun : runsOn "acorn" program (fun decls declaring checked =>
      (checked.lower decls declaring.items program).toOption.isNone) = true := by
    decide +kernel
  obtain ⟨decls, declaring, checked, hd, hu, hnone⟩ := accepted_of_runsOn (by decide +kernel) hrun
  refine ⟨decls, declaring, checked, hd, hu, ?_⟩
  refine (hu.lower_cases hd).resolve_right ?_
  rintro ⟨bodies, hbodies⟩
  rw [hbodies] at hnone
  cases hnone

end UnitArgument

end SsaCompiler
