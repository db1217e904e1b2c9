import SsaCompiler.Proofs.Compilation.Names

/-!
# Constants

A literal that a `let` binds becomes a constant of its own type, converted to the declared one
(`AcceptedUnit.let_constant`). A global that is declared with the same literal starts with the same constant,
but for one case: a float of 32 bits is rounded before it is converted, while the initial value of a global is
rounded to the declared type only (`RoundedTwice.differs`).
-/

namespace SsaCompiler

/-- What a value that is no result of an instruction starts a global with. -/
def FunctionBuilder.initial? (b : FunctionBuilder) (v : ValueId) : Option GlobalInit :=
  match b.values[v.index]? with
  | some ⟨.const constant, _⟩ => some (.const constant)
  | some ⟨.string index, _⟩ => b.strings[index]?.map .cString
  | _ => none

theorem FunctionBuilder.initial?_withValue {b : FunctionBuilder} {constant : Constant} {type : IrType} :
    (b.withValue (.const constant) type).initial? ⟨b.values.size⟩ = some (.const constant) := by simp [initial?]

variable {span : FileSpan} {bits : Option Nat} {own : Ty} {x : Binary64}

theorem Literal.type_int {n : Int} (h : (Literal.int n bits).type span = .ok own) : own = .int (bits.getD 32) := by
  simp only [Literal.type] at h
  split at h <;> [split at h; skip] <;> cases h
  rfl

theorem Literal.type_float (h : (Literal.float x bits).type span = .ok own) : own = .float 32 ∨ own = .float 64 := by
  simp only [Literal.type] at h
  split at h <;> cases h
  rename_i hbits
  simpa using hbits

theorem floatConstant_of_ne {bits : Nat} (h : bits ≠ 32) : floatConstant x (.float bits) = x := by
  unfold floatConstant
  split
  · rename_i heq
    exact absurd (Ty.float.inj heq) h
  · rfl

/-- A literal starts a global of another type with the same as one of its own type, unless it is rounded to
32 bits in one of them only. -/
theorem globalInit_eq_iff {value : Literal} {type : Ty} (hown : value.type span = .ok own)
    (ht : own = type ∨ own.widensTo type = true) : globalInit type (some value) = globalInit own (some value) ↔
      ∀ x bits, value = .float x bits → own = .float 32 → type ≠ own → x.toSingle = x := by
  cases value with
  | float x bits =>
    rcases ht with rfl | hw
    · simp
    obtain ⟨wide, rfl⟩ : ∃ wide, type = .float wide := by
      rcases Literal.type_float hown with rfl | rfl <;> cases type <;> simp [Ty.widensTo] at hw ⊢
    simp only [globalInit, GlobalInit.const.injEq, Constant.float.injEq, Literal.float.injEq]
    rcases Literal.type_float hown with rfl | rfl <;> simp only [Ty.widensTo, decide_eq_true_eq] at hw
    · rw [floatConstant_of_ne (by omega)]
      constructor
      · rintro h _ _ ⟨rfl, -⟩ - -
        exact h.symm
      · exact fun h => (h x bits ⟨rfl, rfl⟩ rfl fun he => by simp only [Ty.float.injEq] at he; omega).symm
    · rw [floatConstant_of_ne (by omega), floatConstant_of_ne (by omega)]
      simp
  | _ => simp [globalInit]

namespace Lower

variable {ctx : LowerContext} {id : ExprId} {span : FileSpan} {value : Literal} {s s1 : LowerState}
variable {step : Lower Lowered} {b : FunctionBuilder} {v : ValueId}

theorem runs_coerced_none (h : Runs step s (some (.value v)) s1)
    (hc : ctx.function.coercions.get? id = none) : Runs (coerced ctx id step) s (some (.value v)) s1 := by
  refine runs_bind.mpr (.inl ⟨_, _, h, ?_⟩)
  simp only [hc]
  exact runs_pure.mpr ⟨rfl, rfl⟩

theorem runs_coerced_some {v' : ValueId} {target : Ty} {lowered : IrType}
    (h : Runs step s (some (.value v)) s1) (hc : ctx.function.coercions.get? id = some target)
    (hl : ctx.items.lowerType target = .ok lowered) (hw : (widen v lowered).run s1.builder = .ok (v', b)) :
    Runs (coerced ctx id step) s (some (.value v')) { s1 with builder := b } := by
  refine runs_bind.mpr (.inl ⟨_, _, h, ?_⟩)
  simp only [hc]
  exact runs_answer_bind.mpr ⟨lowered, hl, runs_emit_bind.mpr ⟨v', b, hw, runs_pure.mpr ⟨rfl, rfl⟩⟩⟩

theorem run_widen {constant : Constant} (ha : b.asConstant v = .ok (some constant)) {target : IrType}
    (ht : (∃ n bits, constant = .int n ∧ target = .int bits) ∨ ∃ x bits, constant = .float x ∧ target = .float bits) :
    (widen v target).run b = .ok (⟨b.values.size⟩, b.withValue (.const constant) target) := by
  refine run_bind_eq_ok.mpr ⟨some constant, b, Emit.run_ask ha, ?_⟩
  rcases ht with ⟨n, bits, rfl, rfl⟩ | ⟨x, bits, rfl, rfl⟩ <;> rfl

/-- A literal becomes a constant of its own type, whatever it is converted to. -/
theorem runs_literal (hv : value ≠ .unit) (ht : value.type span = .ok (ctx.function.typeOf id))
    (hc : ∀ type ∈ ctx.function.coercions.get? id, (ctx.function.typeOf id).widensTo type = true) (s : LowerState) :
    ∃ v s', Runs (lowerExpr ctx (.literal id span value)) s (some (.value v)) s' ∧
      s'.builder.initial? v = some (globalInit (ctx.function.typeOf id) (some value)) := by
  -- a number is a new constant of its own type, and after a conversion another one
  have hnumber : ∀ {constant : Constant} {type : IrType}, (∀ target, (ctx.function.typeOf id).widensTo target = true →
      ∃ lowered, ctx.items.lowerType target = .ok lowered ∧ ((∃ n bits, constant = .int n ∧ lowered = .int bits) ∨
        ∃ x bits, constant = .float x ∧ lowered = .float bits)) →
      literal ctx id value = (do
        let type ← typeOf ctx id
        let value ← emit (.constant constant type)
        return .value value) → ctx.items.lowerType (ctx.function.typeOf id) = .ok type →
      ∃ v s', Runs (coerced ctx id (literal ctx id value)) s (some (.value v)) s' ∧
        s'.builder.initial? v = some (.const constant) := by
    intro constant type hwide heq htype
    have hrun : Runs (literal ctx id value) s (some (.value ⟨s.builder.values.size⟩))
        { s with builder := s.builder.withValue (.const constant) type } := by
      rw [heq]
      exact runs_answer_bind.mpr ⟨type, htype, runs_emit_bind.mpr ⟨_, _, rfl, runs_pure.mpr ⟨rfl, rfl⟩⟩⟩
    cases hget : ctx.function.coercions.get? id with
    | none => exact ⟨_, _, runs_coerced_none hrun hget, FunctionBuilder.initial?_withValue ..⟩
    | some target =>
      obtain ⟨lowered, hlowered, hnumber⟩ := hwide target (hc target hget)
      have hasked : (s.builder.withValue (.const constant) type).asConstant ⟨s.builder.values.size⟩ =
          .ok (some constant) := by
        simp [FunctionBuilder.asConstant, FunctionBuilder.value, bind, Except.bind, pure, Except.pure]
      exact ⟨_, _, runs_coerced_some hrun hget hlowered (run_widen hasked hnumber), FunctionBuilder.initial?_withValue ..⟩
  have hplain : (∀ target, (ctx.function.typeOf id).widensTo target = false) →
      ctx.function.coercions.get? id = none := fun hw => Option.eq_none_iff_forall_not_mem.mpr fun target hm => by
    exact absurd (hc target hm) (by rw [hw]; simp)
  cases value with
  | unit => exact absurd rfl hv
  | int n bits =>
    rw [Literal.type_int ht] at hnumber ⊢
    refine hnumber (fun target hw => ?_) rfl rfl
    cases target <;> simp only [Ty.widensTo, Bool.false_eq_true] at hw
    exact ⟨_, rfl, .inl ⟨n, _, rfl, rfl⟩⟩
  | float x bits =>
    obtain ⟨width, hwidth⟩ : ∃ width, ctx.function.typeOf id = .float width := by
      rcases Literal.type_float ht with h | h <;> exact ⟨_, h⟩
    refine hnumber (fun target hw => ?_) rfl (by rw [hwidth]; rfl)
    rw [hwidth] at hw
    cases target <;> simp only [Ty.widensTo, Bool.false_eq_true] at hw
    exact ⟨_, rfl, .inr ⟨_, _, rfl, rfl⟩⟩
  | bool b =>
    have hown : ctx.function.typeOf id = .bool := (Except.ok.inj ht).symm
    exact ⟨_, _, runs_coerced_none (runs_emit_bind.mpr ⟨_, _, rfl, runs_pure.mpr ⟨rfl, rfl⟩⟩)
      (hplain fun target => by rw [hown]; rfl), FunctionBuilder.initial?_withValue ..⟩
  | cString text =>
    have hown : ctx.function.typeOf id = .cString := (Except.ok.inj ht).symm
    refine ⟨_, _, runs_coerced_none (runs_emit_bind.mpr ⟨_, _, rfl, runs_pure.mpr ⟨rfl, rfl⟩⟩)
      (hplain fun target => by rw [hown]; rfl), ?_⟩
    simp [FunctionBuilder.initial?, globalInit]

end Lower

variable {units : List SourceUnit} {decls : Declarations} {unit : UnitId} {source : SourceUnit} {checked : CheckedUnit}
  {F : CheckedFunction} {decl : FunctionDecl} {body : Body} {root : Expr}

/-- A `let` of an accepted function with a declared type and a literal declares its binding with a constant:
the one that a global of the type of the literal starts with. A global of the declared type starts with the
same, unless the literal is a float of 32 bits that is not exact and the declared type has 64. -/
theorem AcceptedUnit.let_constant (h : AcceptedUnit units decls unit source checked) (hc : Collected units decls)
    (hF : F ∈ checked.functions) (hdecl : source.items[F.itemIndex]? = some (.function decl))
    (hbody : decl.body = some body) (hroot : body.tree = .ok root) {site : Site} {id : StmtId} {span : FileSpan}
    {name : String} {written : TypeExpr} {expr : ExprId} {exprSpan : FileSpan} {value : Literal}
    (hp : (site, .stmt (.bind id span name (some written) (some (.literal expr exprSpan value)))) ∈ root.parts .top)
    (hv : value ≠ .unit) : ∃ own type binding, value.type exprSpan = .ok own ∧
      decls.resolveType source.name written = (.ok (.ok type) : Except Fault _) ∧
      (own = type ∨ own.widensTo type = true) ∧ F.lets.get? id = some binding ∧
      (∀ (items : ItemMap) (s : LowerState), ∃ v s1,
        Lower.Runs (Lower.lowerExpr ⟨items, F⟩ (.literal expr exprSpan value)) s (some (.value v)) s1 ∧
        s1.builder.initial? v = some (globalInit own (some value)) ∧
        ∀ r s', Lower.Runs (Lower.lowerStmt ⟨items, F⟩
            (.bind id span name (some written) (some (.literal expr exprSpan value)))) s r s' ↔
          Lower.Runs (Lower.declare ⟨items, F⟩ binding (some (.value v))) s1 r s') ∧
      (globalInit type (some value) = globalInit own (some value) ↔
        ∀ x bits, value = .float x bits → own = .float 32 → type ≠ own → x.toSingle = x) := by
  obtain ⟨⟨item, hitem, htyped⟩, depths, hlocals⟩ := h.recorded hc hF hdecl hbody hroot
  obtain ⟨hliteral, hlet⟩ : TypingContext.StmtTyped ⟨decls, source.name, F⟩ _ _ _ :=
    TypingContext.partTyped_of_mem_parts htyped.body hp
  obtain ⟨index, type, hget, htype, -, hdeclared⟩ := hlocals.lets hp
  obtain ⟨_, _, _, hget', -, htype', -, hinit⟩ := hlet
  cases hget.symm.trans hget'
  cases htype.symm.trans htype'
  obtain ⟨hused, hwidens⟩ := hinit _ rfl
  have hused : (F.coercions.get? expr).getD (F.typeOf expr) = type := hused
  have hwidens : F.coercions.get? expr = none ∨ (F.typeOf expr).widensTo type = true := hwidens
  have hconverted : ∀ target ∈ F.coercions.get? expr, (F.typeOf expr).widensTo target = true := by
    intro target hm
    rw [hm] at hused hwidens
    obtain rfl : target = type := hused
    exact hwidens.resolve_left (by simp)
  have hown : F.typeOf expr = type ∨ (F.typeOf expr).widensTo type = true :=
    hwidens.imp_left fun hnone => by rw [← hused, hnone]; rfl
  refine ⟨F.typeOf expr, type, _, hliteral, hdeclared, hown, hget, fun items s => ?_, globalInit_eq_iff hliteral hown⟩
  obtain ⟨v, s1, hrun, hinitial⟩ := @Lower.runs_literal ⟨items, F⟩ expr exprSpan value hv hliteral hconverted s
  refine ⟨v, s1, hrun, hinitial, fun r s' => ?_⟩
  rw [Lower.lowerStmt, Lower.letBinding, hget]
  exact (Lower.Runs.bind_iff (Lower.runs_answer.mpr ⟨_, rfl, rfl, rfl⟩)).trans hrun.bind_iff

namespace RoundedTwice

/-- The number nearest to a tenth. -/
def tenth : Binary64 := ⟨4591870180066957722⟩

/-- What checking records about `0.1f32` in `let x: f64 = 0.1f32;`. -/
def record : CheckedFunction where
  __ := CheckedFunction.start ⟨.item 0, ⟨0⟩, 0, "m::run", [], .unit, false, none, false, default⟩ 1
  exprTypes := #[.float 32]
  coercions := ⟨[(⟨0⟩, .float 64)]⟩

def start : LowerState := ⟨.new ⟨[], .void, false⟩, .empty, []⟩

/-- The tenth is rounded to 32 bits in a body, and not where a global of 64 bits starts with it. -/
theorem differs : ∃ v s, Lower.Runs (Lower.asValue
    (Lower.lowerExpr ⟨.empty, record⟩ (.literal ⟨0⟩ default (.float tenth (some 32))))) start (some v) s ∧
    s.builder.initial? v = some (.const (.float tenth.toSingle)) ∧
    globalInit (.float 64) (some (.float tenth (some 32))) ≠ .const (.float tenth.toSingle) := by
  obtain ⟨⟨lowered, s⟩, hrun, htest⟩ := exists_ok (x := (Lower.asValue (Lower.lowerExpr ⟨.empty, record⟩
      (.literal ⟨0⟩ default (.float tenth (some 32))))).run.run start)
    (p := fun r => r.1.any fun v => r.2.builder.initial? v = some (.const (.float tenth.toSingle))) (by decide +kernel)
  obtain ⟨v, rfl, htest⟩ := (Option.any_eq_true _ _).mp htest
  exact ⟨v, s, hrun, of_decide_eq_true htest, by decide +kernel⟩

/-- `fn run() -> i32 { let x: f64 = 0.1f32; 0 }` -/
def run : Build FunctionDecl := do
  let result ← .type (.named "i32")
  let wide ← .type (.named "f64")
  let value ← .expr (.literal (.float tenth (some 32)))
  let bound ← .stmt (.bind "x" (some wide) (some value))
  let zero ← .expr (.literal (.int 0 none))
  .finishFunction "run" [] (some result) [bound] (some zero)

def program : SourceUnit := ⟨"m", ⟨0⟩, none, [.function (run.run (.new ⟨0⟩ 0)).1]⟩

/-- Whether a part is a `let` of a tenth. -/
def isLet : Site × Part → Bool
  | (_, .stmt (.bind _ _ _ (some _) (some (.literal _ _ value)))) => value = .float tenth (some 32)
  | _ => false

end RoundedTwice

theorem AcceptedUnit.let_constant_tenth : ∃ decls checked F id span v s,
    AcceptedUnit [RoundedTwice.program] decls ⟨0⟩ RoundedTwice.program checked ∧ F ∈ checked.functions ∧
    Lower.Runs (Lower.lowerExpr ⟨.empty, F⟩ (.literal id span (.float RoundedTwice.tenth (some 32))))
      RoundedTwice.start (some (.value v)) s ∧
    s.builder.initial? v = some (globalInit (.float 32) (some (.float RoundedTwice.tenth (some 32)))) := by
  obtain ⟨decls, checked, F, decl, body, root, hc, hu, hF, hdecl, hbody, hroot, htest⟩ :=
    accepted_parts RoundedTwice.program (by decide +kernel) (fun _ parts => parts.any RoundedTwice.isLet) (by decide +kernel)
  obtain ⟨p, hp, htest⟩ := List.any_eq_true.mp htest
  unfold RoundedTwice.isLet at htest
  split at htest
  · obtain rfl := of_decide_eq_true htest
    obtain ⟨own, type, binding, hown, -, -, -, hlowered, -⟩ :=
      AcceptedUnit.let_constant hu hc hF hdecl hbody hroot hp (by simp)
    cases hown
    obtain ⟨v, s, hrun, hinitial, -⟩ := hlowered .empty RoundedTwice.start
    exact ⟨decls, checked, F, _, _, v, s, hu, hF, hrun, hinitial⟩
  · cases htest

end SsaCompiler
