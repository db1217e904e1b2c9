import Mathlib.Data.List.Perm.Subperm
import SsaCompiler.Lowering.Body
import SsaCompiler.Proofs.Lowering.Loops

/-!
# Lowering expressions

One lemma for each form of expression: if its parts are lowered as their records say
(`World.LowersOk`), it is. Control goes on after an expression only if the checker found that it does
not diverge.
-/

namespace SsaCompiler

open SsaCompiler.Expr List TypingContext

/-- A conversion that is recorded for an expression is one that there is. -/
def Setting.Converts (X : Setting) (expr : Expr) : Prop :=
  ∀ target, X.function.coercions.get? expr.id = some target → (X.function.typeOf expr.id).ConvertsTo target

namespace World

variable {expr : Expr} {w : World} {breaks : Bool} {op : BinaryOp} {ref : FieldRef} {struct : StructDef}
  {base : Expr} {values : List (Nat × ValueId)}

open Lower

variable {units : List SourceUnit} {X : Setting} {Γ Δ : List Local} {depth : Nat} {id : ExprId}
  {span : FileSpan} {name : String} {type : Ty} {inits : List Init} {params : List Ty} {field : FieldDef}
variable {args : List Expr} {varargs : Bool} {operand : Expr} {callee : Expr} {result : Ty}

/-- Wherever something can be lowered, an expression gives what it is used as, or control does not go
on after it. -/
def LowersOk (X : Setting) (Γ : List Local) (depth : Nat) (expr : Expr) : Prop :=
  ∀ ⦃w : World⦄ ⦃breaks : Bool⦄, At w X Γ depth → (expr.breaks = true → breaks = true) →
    Yields X Γ depth breaks (lowerExpr X.lowering expr) w fun a w' =>
      AtLowered X Γ depth (X.typing.usedType expr) a w' ∧ expr.diverges = false

/-- Wherever something can be lowered, an expression gives the address of what it stands for. -/
def PlacesOk (X : Setting) (Γ : List Local) (depth : Nat) (expr : Expr) : Prop :=
  ∀ ⦃w : World⦄ ⦃breaks : Bool⦄, At w X Γ depth → (expr.breaks = true → breaks = true) →
    Yields X Γ depth breaks (lowerPlace X.lowering expr) w fun v w' =>
      AtValue X Γ depth (.ptr (X.typing.typeOf expr)) v w' ∧ expr.diverges = false

theorem LowersOk.value (h : LowersOk X Γ depth expr) (hat : At w X Γ depth) (hb : expr.breaks = true → breaks = true)
    (hu : X.typing.usedType expr = .unit → X.passesUnit) :
    Yields X Γ depth breaks (asValue (lowerExpr X.lowering expr)) w fun v w' =>
      At w' X Γ depth ∧ w'.HoldsAt X w'.here v (X.typing.usedType expr) ∧ expr.diverges = false :=
  (h hat hb).asValue (fun _ _ ⟨⟨hat, hv⟩, hd⟩ => ⟨hat, hv.of_value.2, hd⟩) fun _ ⟨⟨_, hv⟩, _⟩ => hu hv.of_unit

theorem LowersOk.valueAs (h : LowersOk X Γ depth expr) (ht : X.typing.usedType expr = type) (hu : type ≠ .unit)
    (hat : At w X Γ depth) (hb : expr.breaks = true → breaks = true) :
    Yields X Γ depth breaks (asValue (lowerExpr X.lowering expr)) w fun v w' =>
      At w' X Γ depth ∧ w'.HoldsAt X w'.here v type ∧ expr.diverges = false := by
  subst ht
  exact h.value hat hb fun he => absurd he hu

theorem breaks_or {a b : Bool} (h : (a || b) = true → breaks = true) :
    (a = true → breaks = true) ∧ (b = true → breaks = true) := by rwa [Bool.or_eq_true, or_imp] at h

theorem usedType_of_unconverted (h : X.typing.Unconverted expr) : X.typing.usedType expr = X.typing.typeOf expr := by
  unfold usedType
  rw [show X.typing.function.coercions.get? expr.id = none from h]
  rfl

/-! ## Literals, variables and operators -/

theorem At.yields_binaryStep (h : At w X Γ depth)
    {v1 v2 : ValueId} (h1 : w.HoldsAt X w.here v1 type) (h2 : w.HoldsAt X w.here v2 type)
    (hop : op.isLogical = false)
    (ht : if op.isArithmetic then type.isNumeric = true ∧ result = type
      else if op.isBitwise then type.isInt = true ∧ result = type
      else (if op = .eq ∨ op = .ne then Check.isEquatable type = true else type.isNumeric = true) ∧ result = .bool) :
    Yields X Γ depth breaks (emit (binaryStep op v1 v2)) w
      fun v w' => At w' X Γ depth ∧ w'.HoldsAt X w'.here v result ∧ result ≠ .unit := by
  have hnumeric : type.isNumeric = true → type ≠ .unit := by rintro hn rfl; cases hn
  have hint : type.isInt = true → type ≠ .unit := by rintro hn rfl; cases hn
  have hbinary : ∀ operation, type ≠ .unit → result = type →
      Yields X Γ depth breaks (emit (.binary operation v1 v2)) w
        fun v w' => At w' X Γ depth ∧ w'.HoldsAt X w'.here v result ∧ result ≠ .unit := by
    rintro operation hu rfl
    exact (h.yields_binary h1 h2 hu).mono fun _ _ hq => ⟨hq.1, hq.2, hu⟩
  have hcompare : ∀ operation, result = .bool → Yields X Γ depth breaks (emit (.compare operation v1 v2)) w
        fun v w' => At w' X Γ depth ∧ w'.HoldsAt X w'.here v result ∧ result ≠ .unit := by
    rintro operation rfl
    exact (h.yields_compare h1 h2).mono fun _ _ hq => ⟨hq.1, hq.2, by simp⟩
  cases op with
  | and | or => cases hop
  | add | sub | mul | div | rem => exact hbinary _ (hnumeric ht.1) ht.2
  | bitAnd | bitOr | bitXor | shl | shr => exact hbinary _ (hint ht.1) ht.2
  | eq | ne | lt | le | gt | ge => exact hcompare _ ht.2

theorem ne_unit_of_operator (ht : if op.isArithmetic then type.isNumeric = true ∧ result = type
      else if op.isBitwise then type.isInt = true ∧ result = type
      else (if op = .eq ∨ op = .ne then Check.isEquatable type = true else type.isNumeric = true) ∧
        result = .bool) : type ≠ .unit := by
  rintro rfl
  split at ht
  · cases ht.1
  · split at ht
    · cases ht.1
    · split at ht <;> cases ht.1

theorem lowersOk_binary (hX : X.Fits units) {lhs rhs : Expr}
    (hc : X.Converts (.binary id span op lhs rhs)) (hl : LowersOk X Γ depth lhs) (hr : LowersOk X Γ depth rhs)
    (ht : X.typing.BinaryTyped id op lhs rhs) : LowersOk X Γ depth (.binary id span op lhs rhs) := by
  intro w breaks h hb
  obtain ⟨hb1, hb2⟩ := breaks_or hb
  refine .coerced hc ?_
  unfold BinaryTyped at ht
  split at ht
  · rename_i hop
    obtain ⟨⟨hlt, -⟩, ⟨hrt, -⟩, ht⟩ := ht
    rw [if_pos hop, show X.function.typeOf id = .bool from ht]
    have hleft := hl.valueAs hlt (by simp) h hb1
    have hright := fun (w' : World) (h' : At w' X Γ depth) => hr.valueAs hrt (by simp) h' hb2
    refine (yields_logical hX hleft fun w' h' => (hright w' h').mono fun _ _ hq => ⟨hq.1, hq.2.1⟩).mono ?_
    rintro a w' ⟨hq, hd⟩
    exact ⟨hq, by simp [diverges, hd, hop]⟩
  · rename_i hop
    obtain ⟨type, ⟨hlt, -⟩, ⟨hrt, -⟩, -, ht⟩ := ht
    have hu := ne_unit_of_operator ht
    rw [if_neg hop]
    refine (hl.valueAs hlt hu h hb1).bind ?_
    rintro v1 w1 - ⟨h1, hv1, hd1⟩
    refine (hr.valueAs hrt hu h1 hb2).bind ?_
    rintro v2 w2 hf ⟨h2, hv2, hd2⟩
    refine (h2.yields_binaryStep (hf.holdsAt h1.valid hv1) hv2 (by simpa using hop) ht).bind ?_
    rintro v w3 - ⟨hat, hv, hu⟩
    exact .pure ⟨⟨hat, .value hu hv⟩, by simp [diverges, hd1, hd2]⟩

theorem lowersOk_unary {op : UnaryOp} (hX : X.Fits units)
    (hc : X.Converts (.unary id span op operand)) (hp : (X.function.typeOf id).Proper X.decls.structs.size)
    (ho : op ≠ .addrOf → LowersOk X Γ depth operand) (hplace : op = .addrOf → PlacesOk X Γ depth operand)
    (ht : X.typing.UnaryTyped Γ id op operand) : LowersOk X Γ depth (.unary id span op operand) := by
  intro w breaks h hb
  have hd : operand.diverges = false → (unary id span op operand).diverges = false := fun hd => hd
  obtain ⟨hun, ht⟩ := ht
  have hused := usedType_of_unconverted hun
  cases op with
  | neg | not =>
    obtain ⟨ht, hid⟩ := ht
    have hu : X.typing.typeOf operand ≠ .unit := by
      intro hu
      rw [hu] at ht
      simp [Ty.isNumeric, Ty.isInt, Ty.isFloat] at ht
    refine .coerced hc ((ho (by simp)).valueAs hused hu h hb |>.bind ?_)
    rintro v w1 - ⟨h1, hv, hd1⟩
    rw [show X.function.typeOf id = X.typing.typeOf operand from hid]
    exact (h1.yields_unary hv hu).bind fun v2 w2 _ hq => .pure ⟨⟨hq.1, .value hu hq.2⟩, hd hd1⟩
  | deref =>
    refine .coerced hc ((ho (by simp)).valueAs (hused.trans ht) (by simp) h hb |>.bind ?_)
    rintro v w1 - ⟨h1, hv, hd1⟩
    have hv : w1.HoldsAt X w1.here v (.ptr (X.function.typeOf id)) := hv
    obtain ⟨type, htype⟩ : ∃ type, X.function.typeOf id = type := ⟨_, rfl⟩
    simp only [Setting.lowering, htype] at hv ⊢
    split
    · rename_i hu
      rw [Ty.isUnit_eq_true.mp hu]
      exact .pure ⟨⟨h1, .unit⟩, hd hd1⟩
    · rename_i hu
      have hu : type ≠ .unit := fun he => hu (Ty.isUnit_eq_true.mpr he)
      obtain ⟨lowered, hl⟩ := hX.realized.lowerType (htype ▸ hp)
      refine .answer (by rw [htype]; exact hl) ((h1.yields_load hv hl hu).bind ?_)
      exact fun v2 w2 _ hq => .pure ⟨⟨hq.1, .value hu hq.2⟩, hd hd1⟩
  | addrOf =>
    refine .coerced hc (hplace rfl h hb |>.bind ?_)
    rintro v w1 - ⟨⟨h1, hv⟩, hd1⟩
    refine .pure ⟨⟨h1, ?_⟩, hd hd1⟩
    rw [show X.function.typeOf id = .ptr (X.typing.typeOf operand) from ht.2.2]
    exact .value (by simp) hv

/-! ## Control structures -/

theorem lowersOk_ifThen (hX : X.Fits units) {condition thenBranch : Expr}
    (hc : X.Converts (.cond id span condition thenBranch none)) (hcond : LowersOk X Γ depth condition)
    (hthen : LowersOk X Γ depth thenBranch) (hbool : X.typing.UsedAs condition .bool)
    (ht : X.function.typeOf id = .unit) : LowersOk X Γ depth (.cond id span condition thenBranch none) := by
  intro w breaks h hb
  obtain ⟨hb1, hb2⟩ := breaks_or hb
  have hvalue := hcond.valueAs hbool.1 (by simp) h hb1
  refine .coerced hc ?_
  rw [resultType_eq (ht ▸ .unit : ResultType X (X.function.typeOf id) none), ht]
  exact yields_ifThen hX hvalue fun w' h' => (hthen h' hb2).mono fun _ _ hq => hq.1.1

theorem LowersOk.branch {branch : Expr} (h : LowersOk X Γ depth branch)
    (hat : At w X Γ depth) (hb : branch.breaks = true → breaks = true) (ht : X.typing.BranchTyped type branch) :
    Yields X Γ depth breaks (lowerExpr X.lowering branch) w fun a w' =>
      At w' X Γ depth ∧ (type ≠ .unit → w'.LoweredOk X w'.here type a) ∧ branch.diverges = false := by
  refine (h hat hb).mono ?_
  rintro a w' ⟨⟨hat', ha⟩, hd⟩
  refine ⟨hat', fun _ => ?_, hd⟩
  rcases ht with hused | ⟨hdiv, -⟩
  · exact hused.1 ▸ ha
  · rw [hd] at hdiv
    cases hdiv

theorem lowersOk_ifThenElse (hX : X.Fits units) {condition thenBranch elseBranch : Expr}
    (hc : X.Converts (.cond id span condition thenBranch (some elseBranch)))
    (hp : (X.function.typeOf id).Proper X.decls.structs.size) (hcond : LowersOk X Γ depth condition)
    (hthen : LowersOk X Γ depth thenBranch) (helse : LowersOk X Γ depth elseBranch)
    (hbool : X.typing.UsedAs condition .bool) (ht1 : X.typing.BranchTyped (X.function.typeOf id) thenBranch)
    (ht2 : X.typing.BranchTyped (X.function.typeOf id) elseBranch) :
    LowersOk X Γ depth (.cond id span condition thenBranch (some elseBranch)) := by
  intro w breaks h hb
  obtain ⟨hb, hb3⟩ := breaks_or hb
  obtain ⟨hb1, hb2⟩ := breaks_or hb
  have hvalue := hcond.valueAs hbool.1 (by simp) h hb1
  obtain ⟨lowered, hl⟩ : ∃ lowered, ResultType X (X.function.typeOf id) lowered := by
    by_cases hu : X.function.typeOf id = .unit
    · exact ⟨none, hu ▸ .unit⟩
    · obtain ⟨lowered, hl⟩ := hX.realized.lowerType hp
      exact ⟨some lowered, .value hu hl⟩
  refine .coerced hc ?_
  rw [resultType_eq hl]
  refine (yields_ifThenElse hX hl hvalue (fun w' h' => hthen.branch h' hb2 ht1)
    fun w' h' => helse.branch h' hb3 ht2).mono ?_
  rintro a w' ⟨hq, hd, hd'⟩
  refine ⟨hq, ?_⟩
  rcases hd' with hd' | hd' <;> simp [diverges, hd, hd']

theorem lowersOk_loop {condition body : Expr} (hc : X.Converts (.loop id span condition body))
    (hcond : LowersOk X Γ (depth + 1) condition) (hbody : LowersOk X Γ (depth + 1) body)
    (hbool : X.typing.UsedAs condition .bool) (ht : X.function.typeOf id = .unit)
    (hinf : X.function.infiniteLoops.contains id = condition.isTrue) :
    LowersOk X Γ depth (.loop id span condition body) := by
  intro w breaks h _
  refine .coerced hc ?_
  have hvalue := fun (w' : World) (h' : At w' X Γ (depth + 1)) =>
    hcond.valueAs hbool.1 (by simp) h' fun hb : condition.breaks = true => hb
  rw [ht, show X.lowering.function.infiniteLoops.contains id = condition.isTrue from hinf]
  refine (yields_whileLoop h (fun w' _ h' => hvalue w' h') fun w' h' =>
    (hbody h' fun hb => hb).mono fun _ _ hq => hq.1.1).mono ?_
  rintro a w' ⟨hq, hG⟩
  refine ⟨hq, ?_⟩
  rcases hG with hb | hb | ⟨hi, hd⟩
  · simp [diverges, hb]
  · simp [diverges, hb]
  · simp [diverges, hi, hd]

/-! ## Fields -/

theorem struct_layout (hX : X.Fits units) {struct : StructId} {definition : StructDef}
    (hs : X.decls.struct? struct = some definition) {index : Nat} (hf : definition.fields[index]? = some field) :
    ∃ layout fields lowered, X.items.layout struct = .ok layout ∧ X.mod.fields? layout = some fields ∧
        fields[index]? = some lowered ∧ X.items.lowerType field.type = .ok lowered := by
  obtain ⟨layout, fields, hl, hfields, htypes⟩ := hX.realized.structs hs
  obtain ⟨hi, rfl⟩ := List.getElem?_eq_some_iff.mp hf
  have hi' : index < fields.length := htypes.length_eq ▸ hi
  exact ⟨layout, fields, fields[index], hl, hfields, getElem?_eq_getElem hi', htypes.get hi hi'⟩

theorem At.yields_fieldPlace (hX : X.Fits units) (h : At w X Γ depth) {pointer : ValueId}
    (hp : w.HoldsAt X w.here pointer (.ptr (.aggregate ref.struct))) (hs : X.decls.struct? ref.struct = some struct)
    (hf : struct.fields[ref.index]? = some field) :
    Yields X Γ depth breaks (fieldPlace X.lowering ref pointer) w (AtValue X Γ depth (.ptr field.type)) := by
  obtain ⟨layout, fields, lowered, hl, hfields, hi, htype⟩ := struct_layout hX hs hf
  exact .answer hl (h.yields_fieldAddr (hp.typeOf rfl) hp.2 hfields hi htype)

theorem yields_fieldBase (hun : X.typing.Unconverted base) (ht : X.typing.typeOf base =
      if ref.throughPointer then .ptr (.aggregate ref.struct) else .aggregate ref.struct)
    (hbase : LowersOk X Γ depth base) (hplace : ref.throughPointer = false → PlacesOk X Γ depth base)
    (h : At w X Γ depth) (hb : base.breaks = true → breaks = true) :
    Yields X Γ depth breaks (fieldBase ref (asValue (lowerExpr X.lowering base)) (lowerPlace X.lowering base)) w
      fun v w' => AtValue X Γ depth (.ptr (.aggregate ref.struct)) v w' ∧ base.diverges = false := by
  unfold fieldBase
  cases hptr : ref.throughPointer with
  | true =>
    rw [hptr] at ht
    exact (hbase.valueAs ((usedType_of_unconverted hun).trans ht) (by simp) h hb).mono
      fun _ _ ⟨hat, hv, hd⟩ => ⟨⟨hat, hv⟩, hd⟩
  | false =>
    rw [hptr] at ht
    have hyields := hplace hptr h hb
    rw [ht] at hyields
    exact hyields

theorem fieldRef_eq (h : X.function.fields.get? id = some ref) : fieldRef X.lowering id = .ok ref := by
  simp [fieldRef, Setting.lowering, h]

theorem lowersOk_field (hX : X.Fits units) (hc : X.Converts (.field id span base name))
    (hbase : LowersOk X Γ depth base) (hplace : X.typing.Stored Γ base → X.typing.typeOf base ≠ .unit →
      PlacesOk X Γ depth base) (htyped : X.typing.Typed Γ depth base) (ht : X.typing.FieldTyped id base) :
    LowersOk X Γ depth (.field id span base name) := by
  intro w breaks h hb
  have hd : base.diverges = false → (field id span base name).diverges = false := fun hd => hd
  obtain ⟨hun, ref, struct, field, href, hbt, hs, hf, hid⟩ := ht
  have hid : X.function.typeOf id = field.type := hid
  have hu : field.type ≠ .unit := (hX.wellFormed.struct? hs hf).2
  obtain ⟨layout, fields, lowered, hl, hfields, hi, htype⟩ := struct_layout hX hs hf
  refine .coerced hc (.answer (fieldRef_eq href) (.answer (by rw [← hid] at htype; exact htype) ?_))
  rw [hid]
  -- Whether the struct is in memory decides how the field is read.
  have hmemory : Yields X Γ depth breaks (readsMemory X.lowering ref base) w fun inMemory w' => w' = w ∧
      (inMemory = true → ref.throughPointer = false → PlacesOk X Γ depth base) ∧
      (inMemory = false → ref.throughPointer = false) := by
    unfold readsMemory
    cases hptr : ref.throughPointer with
    | true => exact .pure ⟨rfl, by simp, by simp⟩
    | false =>
      obtain ⟨inMemory, hm, hstored⟩ := h.isMemoryPlace hX htyped
      have haggregate : X.typing.typeOf base ≠ .unit := by
        rw [hbt, hptr]
        simp
      refine .get ?_
      rw [← bind_pure (answer _)]
      exact .answer hm (.pure ⟨rfl, fun hmem _ => hplace (hstored hmem) haggregate, fun _ => rfl⟩)
  refine hmemory.bind ?_
  rintro inMemory _ - ⟨rfl, hplace, hptr⟩
  cases inMemory with
  | true =>
    refine (yields_fieldBase hun hbt hbase (hplace rfl) h hb).bind fun v w1 _ ⟨⟨h1, hv⟩, hd1⟩ => ?_
    refine (h1.yields_fieldPlace hX hv hs hf).bind ?_
    rintro v2 w2 - ⟨h2, hv2⟩
    exact (h2.yields_load hv2 htype hu).bind fun v3 w3 _ hq => .pure ⟨⟨hq.1, .value hu hq.2⟩, hd hd1⟩
  | false =>
    rw [hptr rfl] at hbt
    refine (hbase.valueAs ((usedType_of_unconverted hun).trans hbt) (by simp) h hb).bind ?_
    rintro v w1 - ⟨h1, hv, hd1⟩
    have hstruct : X.items.lowerType (.aggregate ref.struct) = .ok (.struct layout) := by
      rw [ItemMap.lowerType, hl]
      rfl
    refine (h1.yields_extractField (hv.typeOf hstruct) hv.2 hfields hi htype hu).bind ?_
    exact fun v2 w2 _ hq => .pure ⟨⟨hq.1, .value hu hq.2⟩, hd hd1⟩

/-! ## Places and assignments -/

theorem placesOk_field (hX : X.Fits units) (hbase : LowersOk X Γ depth base)
    (hplace : X.typing.Stored Γ base → X.typing.typeOf base ≠ .unit → PlacesOk X Γ depth base)
    (ht : X.typing.FieldTyped id base) (hstored : X.typing.Stored Γ (.field id span base name)) :
    PlacesOk X Γ depth (.field id span base name) := by
  intro w breaks h hb
  obtain ⟨hun, ref, struct, field, href, hbt, hs, hf, hid⟩ := ht
  have hid : X.typing.typeOf (.field id span base name) = field.type := hid
  have hplace : ref.throughPointer = false → PlacesOk X Γ depth base := by
    intro hptr
    rw [hptr] at hbt
    refine hplace ?_ (by rw [hbt]; simp)
    obtain ⟨ref', href', hor⟩ := hstored
    rw [show X.typing.function.fields.get? id = some ref from href] at href'
    cases href'
    exact hor.resolve_left (by simp [hptr])
  refine .answer (fieldRef_eq href) ((yields_fieldBase hun hbt hbase hplace h hb).bind fun v w1 _ ⟨⟨h1, hv⟩, hd⟩ => ?_)
  rw [hid]
  exact (h1.yields_fieldPlace hX hv hs hf).mono fun _ _ hq => ⟨hq, hd⟩

theorem placesOk_deref (ho : LowersOk X Γ depth operand)
    (ht : X.typing.UnaryTyped Γ id .deref operand) : PlacesOk X Γ depth (.unary id span .deref operand) := by
  intro w breaks h hb
  have hvalue := ho.valueAs ((usedType_of_unconverted ht.1).trans ht.2) (by simp) h hb
  exact hvalue.mono fun _ _ hq => ⟨⟨hq.1, hq.2.1⟩, hq.2.2⟩

/-- A value that control goes on after is assigned to the place of the target. -/
theorem yields_assignPlace {target : Expr} {lowered : Lowered}
    (hplace : PlacesOk X Γ depth target) (hb : target.breaks = true → breaks = true) (h : At w X Γ depth)
    (ht : X.typing.typeOf target = type) (hl : w.LoweredOk X w.here type lowered) :
    Yields X Γ depth breaks (do
      let place ← lowerPlace X.lowering target
      match lowered with
      | .value value => do
        emit (.store place value)
        return lowered
      | .unit => return lowered) w fun a w' => AtLowered X Γ depth type a w' ∧ target.diverges = false := by
  refine (hplace h hb).bind fun v w1 hf ⟨⟨h1, hv⟩, hd⟩ => ?_
  have hl1 := hf.loweredOk h.valid hl
  cases lowered with
  | unit => exact .pure ⟨⟨h1, hl1⟩, hd⟩
  | value value =>
    rw [ht] at hv
    refine (h1.yields_store hv hl1.of_value.2).bind fun _ w2 hf2 h2 => ?_
    exact .pure ⟨⟨h2, hf2.loweredOk h1.valid hl1⟩, hd⟩

theorem lowersOk_assign (hX : X.Fits units) {target value : Expr}
    (hc : X.Converts (.assign id span target value)) (hv : LowersOk X Γ depth value)
    (hplace : (∀ id span name, target ≠ .var id span name) → PlacesOk X Γ depth target)
    (htyped : X.typing.Typed Γ depth target) (ha : X.typing.Assignable Γ depth target)
    (hused : X.typing.UsedAs value (X.typing.typeOf target)) (ht : X.function.typeOf id = X.typing.typeOf target) :
    LowersOk X Γ depth (.assign id span target value) := by
  intro w breaks h hb
  obtain ⟨hb2, hb1⟩ := breaks_or hb
  have hd : value.diverges = false → target.diverges = false →
      (assign id span target value).diverges = false := fun h1 h2 => by simp [diverges, h1, h2]
  rw [lowerExpr]
  refine .coerced hc ((hv h hb1).bind ?_)
  rintro lowered w1 - ⟨⟨h1, hl⟩, hd1⟩
  rw [hused.1] at hl
  rw [ht]
  split
  · rename_i targetId targetSpan name
    refine (h1.yields_assignVariable hX htyped ha hl).bind fun _ w2 hf h2 => ?_
    exact .pure ⟨⟨h2, hf.loweredOk h1.valid hl⟩, hd hd1 rfl⟩
  · rename_i hne
    exact (yields_assignPlace (hplace hne) hb2 h1 rfl hl).mono fun _ _ hq => ⟨hq.1, hd hd1 hq.2⟩

/-! ## Calls -/

/-- Wherever something can be lowered, expressions give the values they are used as, in order. -/
def ValuesOk (X : Setting) (Γ : List Local) (depth : Nat) (exprs : List Expr) : Prop :=
  ∀ ⦃w : World⦄ ⦃breaks : Bool⦄, At w X Γ depth → (anyBreaks exprs = true → breaks = true) →
    Yields X Γ depth breaks (lowerValues X.lowering exprs) w fun values w' => (At w' X Γ depth ∧
      Forall₂ (fun v expr => w'.HoldsAt X w'.here v (X.typing.usedType expr)) values exprs) ∧
        anyDiverges exprs = false

theorem valuesOk_nil : ValuesOk X Γ depth [] := by
  intro w breaks h _
  exact .pure ⟨⟨h, .nil⟩, rfl⟩

theorem valuesOk_cons {rest : List Expr} (he : LowersOk X Γ depth expr)
    (hu : X.typing.usedType expr = .unit → X.passesUnit) (hr : ValuesOk X Γ depth rest) :
    ValuesOk X Γ depth (expr :: rest) := by
  intro w breaks h hb
  obtain ⟨hb1, hb2⟩ := breaks_or hb
  refine (he.value h hb1 hu).bind ?_
  rintro v w1 - ⟨h1, hv, hd1⟩
  refine (hr h1 hb2).bind ?_
  rintro vs w2 hf ⟨⟨h2, hvs⟩, hd2⟩
  exact .pure ⟨⟨h2, .cons (hf.holdsAt h1.valid hv) hvs⟩, by simp [anyDiverges, hd1, hd2]⟩

theorem passedExtra_of_lowerType (h : X.typing.PassedExtra expr) {lowered : IrType}
    (hl : X.items.lowerType (X.typing.usedType expr) = .ok lowered) : lowered.PassedExtra := by
  unfold PassedExtra at h
  unfold usedType at hl
  split at h
  · rename_i hnone
    obtain ⟨h, hu⟩ := h
    rw [hnone, Option.getD_none] at hl
    cases htype : X.typing.typeOf expr with
    | int bits =>
      rw [htype] at h hl
      cases hl
      simpa [Check.extraArgument?, IrType.PassedExtra] using h
    | float bits =>
      rw [htype] at h hl
      cases hl
      rintro rfl
      cases h
    | bool =>
      rw [htype] at h
      cases h
    | unit => exact absurd htype hu
    | ptr | function =>
      rw [htype] at hl
      cases hl
      trivial
    | aggregate struct =>
      rw [htype] at hl
      simp only [ItemMap.lowerType, bind_eq_ok, pure_eq_ok] at hl
      obtain ⟨layout, -, rfl⟩ := hl
      trivial
    | error =>
      rw [htype] at hl
      cases hl
  · rename_i type hsome
    rw [hsome] at hl
    unfold Check.extraArgument? at h
    split at h
    · cases h
      cases hl
      simp [IrType.PassedExtra]
    · split at h
      · cases h
        cases hl
        exact Nat.le_refl _
      · cases h
    · cases h
      cases hl
      exact Nat.le_refl _
    · cases h

/-- Arguments have the types of the parameters, and more of them types that may be passed. -/
theorem args_lowered (h : X.typing.ArgsTyped varargs args params) {values : List ValueId} {types : List IrType}
    (hv : Forall₂ (fun v expr => w.HoldsAt X w.here v (X.typing.usedType expr)) values args)
    (hp : params.mapM X.items.lowerType = .ok types) : ∃ extra,
      Forall₂ (fun v type => w.typing.typeOf v = some type ∧ w.Known w.here v) values (types ++ extra) ∧
        (varargs = false → extra = []) ∧ ∀ type ∈ extra, type.PassedExtra := by
  induction args generalizing params values types with
  | nil =>
    cases hv
    obtain rfl : params = [] := h
    cases hp
    exact ⟨[], .nil, fun _ => rfl, by simp⟩
  | cons arg rest ih =>
    cases hv with
    | cons hv hvs =>
      cases params with
      | nil =>
        obtain ⟨hvar, hextra, hrest⟩ := h
        cases hp
        obtain ⟨extra, hall, -, hpassed⟩ := ih hrest hvs rfl
        obtain ⟨lowered, hl, ht, -⟩ := hv.1
        refine ⟨lowered :: extra, .cons ⟨ht, hv.2⟩ hall, fun hf => ?_, ?_⟩
        · rw [hvar] at hf
          cases hf
        · simpa using ⟨passedExtra_of_lowerType hextra hl, hpassed⟩
      | cons param params =>
        obtain ⟨⟨hused, -⟩, hrest⟩ := h
        cases mapM_eq_ok hp with
        | cons hl hls =>
          obtain ⟨extra, hall, hnone, hpassed⟩ := ih hrest hvs (mapM_of_forall₂ hls)
          rw [hused] at hv
          exact ⟨extra, .cons ⟨hv.typeOf hl, hv.2⟩ hall, hnone, hpassed⟩

theorem At.directCallee (hX : X.Fits units) (h : At w X Γ depth) (ht : X.typing.Typed Γ depth callee)
    (htype : X.typing.typeOf callee = .function params result varargs) {sig : FunctionSig}
    (hsig : X.items.lowerSig params result varargs = .ok sig) :
    ∃ direct, directCallee? X.lowering w.env callee = .ok direct ∧ ∀ f, direct = some f →
      callee.diverges = false ∧ (Callee.direct f).Typed X.mod w.typing sig := by
  cases callee with
  | var id span name =>
    simp only [Typed, VarTyped] at ht
    simp only [directCallee?]
    split at ht
    · rename_i x hx
      obtain ⟨-, bound, -, -, hb, -⟩ := h.env.bounds x (mem_of_local? hx)
      rw [bindingOf_eq ht.1]
      simp [bind, Except.bind, Table.contains, hb, pure, Except.pure]
    · obtain ⟨item, hi, hr, hit⟩ := ht
      obtain ⟨⟨i, hid⟩, hkind⟩ := hX.item hi
      have hnone : w.env.get? item.id = none := hid ▸ h.item_not_local
      refine ⟨X.items.functions.get? item.id, ?_, fun f hf => ⟨rfl, ?_⟩⟩
      · rw [bindingOf_eq hr]
        simp [bind, Except.bind, Table.contains, hnone, pure, Except.pure, Setting.lowering]
      · have hit : item.type = .function params result varargs := hit.symm.trans htype
        rcases hkind with ⟨-, hnone, -⟩ | ⟨-, -, params', result', varargs', id', function, htype', hget, hmod, hs⟩
        · rw [hnone] at hf
          cases hf
        · rw [hget] at hf
          cases hf
          rw [hit] at htype'
          cases htype'
          rw [hsig] at hs
          exact ⟨function, hmod, (Except.ok.inj hs).symm⟩
  | _ => exact ⟨none, rfl, by simp⟩

theorem lowersOk_call (hX : X.Fits units) (hc : X.Converts (.call id span callee args))
    (hcallee : LowersOk X Γ depth callee) (hargs : ValuesOk X Γ depth args) (htyped : X.typing.Typed Γ depth callee)
    (hp : (X.typing.typeOf callee).Proper X.decls.structs.size) (ht : X.typing.CallTyped id callee args) :
    LowersOk X Γ depth (.call id span callee args) := by
  intro w breaks h hb
  obtain ⟨hb1, hb2⟩ := breaks_or hb
  obtain ⟨hun, params, varargs, htype, hargsTyped⟩ := ht
  rw [htype] at hp
  obtain ⟨types, type, hparams, hresult, hsig⟩ := hX.realized.lowerSig hp
  obtain ⟨direct, hdirect, hfound⟩ := h.directCallee hX htyped htype hsig
  have hcalleeSig : calleeSig X.lowering callee.id = .ok ⟨types, type, varargs⟩ := by
    simp only [calleeSig]
    rw [show X.lowering.function.typeOf callee.id = _ from htype]
    exact hsig
  have htarget : Yields X Γ depth breaks (callTarget direct (asValue (lowerExpr X.lowering callee))) w
      fun target w' => At w' X Γ depth ∧ target.Typed X.mod w'.typing ⟨types, type, varargs⟩ ∧
        (∀ v, target = .indirect v → w'.Known w'.here v) ∧ callee.diverges = false := by
    cases direct with
    | some f =>
      obtain ⟨hd, hf⟩ := hfound f rfl
      exact .pure ⟨h, hf, by simp, hd⟩
    | none =>
      refine .map ((hcallee.valueAs ((usedType_of_unconverted hun).trans htype) (by simp) h hb1).mono ?_)
      rintro v w' ⟨h', hv, hd⟩
      refine ⟨h', hv.typeOf rfl, ?_, hd⟩
      rintro u hu
      cases hu
      exact hv.2
  refine .coerced hc (.answer hcalleeSig (.get (.answer hdirect (htarget.bind ?_))))
  rintro target w1 - ⟨h1, htarget, hk, hd⟩
  refine (hargs h1 hb2).bind ?_
  rintro values w2 hf ⟨⟨h2, hvalues⟩, hds⟩
  obtain ⟨extra, hall, hnone, hpassed⟩ := args_lowered hargsTyped hvalues hparams
  refine (h2.yields_call (htarget.mono (hf.grows.typing h1.valid.cells)) (fun v hv => hf.known v (hk v hv)) hall
    ⟨extra, rfl, hnone, hpassed⟩ hresult).bind ?_
  rintro result w3 - ⟨h3, hr⟩
  have hd' : (call id span callee args).diverges = false := by simp [diverges, hd, hds]
  cases result with
  | some v => exact .pure ⟨⟨h3, hr⟩, hd'⟩
  | none => exact .pure ⟨⟨h3, hr⟩, hd'⟩

/-! ## Struct literals -/

/-- Wherever something can be lowered, initializers give the values they are used as, with the
positions of their fields. -/
def InitsOk (X : Setting) (Γ : List Local) (depth : Nat) (inits : List Init) : Prop :=
  ∀ ⦃w : World⦄ ⦃breaks : Bool⦄ ⦃positions : List Nat⦄, At w X Γ depth →
    (Init.anyBreaks inits = true → breaks = true) → positions.length = inits.length →
    Yields X Γ depth breaks (lowerInits X.lowering inits positions) w fun values w' => (At w' X Γ depth ∧
      values.map (·.1) = positions ∧ Forall₂ (fun value init =>
        w'.HoldsAt X w'.here value.2 (X.typing.usedType (Init.value init))) values inits) ∧
        Init.anyDiverges inits = false

theorem initsOk_nil : InitsOk X Γ depth [] := by
  intro w breaks positions h _ hlen
  rw [lowerInits]
  · exact .pure ⟨⟨h, (length_eq_zero_iff.mp hlen).symm, .nil⟩, rfl⟩
  · rintro _ _ _ _ _ _ hnil
    cases hnil

theorem initsOk_cons {value : Expr} {rest : List Init} (hv : LowersOk X Γ depth value)
    (hu : X.typing.usedType value ≠ .unit) (hr : InitsOk X Γ depth rest) :
    InitsOk X Γ depth (.mk name span value :: rest) := by
  intro w breaks positions h hb hlen
  obtain ⟨hb1, hb2⟩ := breaks_or hb
  cases positions with
  | nil => cases hlen
  | cons position positions =>
    refine (hv.valueAs rfl hu h hb1).bind ?_
    rintro v w1 - ⟨h1, hv, hd1⟩
    refine (hr h1 hb2 (Nat.succ.inj hlen)).bind ?_
    rintro vs w2 hf ⟨⟨h2, hpos, hvs⟩, hd2⟩
    refine .pure ⟨⟨h2, by simp [hpos], .cons (hf.holdsAt h1.valid hv) hvs⟩, ?_⟩
    simp [Init.anyDiverges, Init.diverges, hd1, hd2]

/-- Values for all positions, each of which has one, stand in the order of their positions. -/
theorem inLayoutOrder_ok {count : Nat} (hd : (values.map (·.1)).Nodup) (hlen : values.length = count)
    (hlt : ∀ p ∈ values, p.1 < count) : ∃ ordered, inLayoutOrder values count = .ok ordered ∧
      Forall₂ (fun position v => (position, v) ∈ values) (range count) ordered := by
  have hsub : values.map (·.1) ⊆ range count := by
    intro position hmem
    obtain ⟨p, hp, rfl⟩ := mem_map.mp hmem
    exact mem_range.mpr (hlt p hp)
  have hperm := (hd.subperm hsub).perm_of_length_le (by simp [hlen])
  have hfind : ∀ position ∈ range count, ∃ v, (position, v) ∈ values ∧
      (values.reverse.find? fun p => p.1 = position) = some (position, v) := by
    intro position hmem
    obtain ⟨p, hp, rfl⟩ := mem_map.mp (hperm.mem_iff.mpr hmem)
    have hsome : (values.reverse.find? fun q => q.1 = p.1).isSome = true :=
      find?_isSome.mpr ⟨p, mem_reverse.mpr hp, decide_eq_true rfl⟩
    obtain ⟨q, hq⟩ := Option.isSome_iff_exists.mp hsome
    have hfst : q.1 = p.1 := by simpa using find?_some hq
    have hmem := mem_reverse.mp (mem_of_find?_eq_some hq)
    exact ⟨q.2, hfst ▸ hmem, hfst ▸ hq⟩
  obtain ⟨ordered, hordered⟩ := exists_forall₂ hfind
  refine ⟨ordered, ?_, hordered.imp fun _ _ h => h.1⟩
  unfold inLayoutOrder
  rw [if_neg]
  · refine mapM_of_forall₂ (hordered.imp fun position v h => ?_)
    rw [h.2]
  · simpa using hlt

theorem inits_lowered
    (hvs : Forall₂ (fun value init => w.HoldsAt X w.here value.2 (X.typing.usedType (Init.value init)))
      values inits) (hin : Forall₂ (fun init position => ∃ field, struct.fields[position]? = some field ∧
      X.typing.UsedAs (Init.value init) field.type) inits (values.map (·.1))) :
    ∀ p ∈ values, ∃ field, struct.fields[p.1]? = some field ∧ w.HoldsAt X w.here p.2 field.type := by
  induction hvs with
  | nil => simp
  | cons hv _ ih =>
    cases hin with
    | cons hi hin =>
      intro p hp
      rcases mem_cons.mp hp with rfl | hp
      · obtain ⟨field, hf, hused, -⟩ := hi
        exact ⟨field, hf, hused ▸ hv⟩
      · exact ih hin p hp

theorem ordered_lowered {ordered : List ValueId} {fields : List IrType}
    (hall : ∀ p ∈ values, ∃ field, struct.fields[p.1]? = some field ∧ w.HoldsAt X w.here p.2 field.type)
    (hf : Forall₂ (fun field type => X.items.lowerType field.type = .ok type) struct.fields fields)
    (ho : Forall₂ (fun position v => (position, v) ∈ values) (range struct.fields.length) ordered) :
    Forall₂ (fun v type => w.typing.typeOf v = some type ∧ w.Known w.here v) ordered fields := by
  have hlen : ordered.length = fields.length := by rw [← ho.length_eq, length_range, hf.length_eq]
  refine forall₂_iff_get.mpr ⟨hlen, fun i hi hi' => ?_⟩
  have hi0 : i < struct.fields.length := hf.length_eq ▸ hi'
  have hmem := ho.get (by simpa using hi0) hi
  obtain ⟨field, hfield, hv⟩ := hall _ hmem
  simp only [get_eq_getElem, getElem_range] at hfield hv
  rw [getElem?_eq_getElem hi0] at hfield
  have hl := hf.get hi0 hi'
  rw [get_eq_getElem, Option.some.inj hfield] at hl
  exact ⟨hv.typeOf hl, hv.2⟩

theorem lowersOk_structLiteral (hX : X.Fits units)
    (hc : X.Converts (.structLiteral id span name inits)) (hinits : InitsOk X Γ depth inits)
    (ht : X.typing.LiteralTyped id inits) : LowersOk X Γ depth (.structLiteral id span name inits) := by
  intro w breaks h hb
  obtain ⟨ref, struct, href, hs, hid, hd, hlen, hin⟩ := ht
  have href : X.function.structLiterals.get? id = some ref := href
  obtain ⟨layout, fields, hl, hfields, htypes⟩ := hX.realized.structs hs
  refine .coerced hc ?_
  simp only [Setting.lowering, href]
  refine (hinits h hb hin.length_eq.symm).bind ?_
  rintro values w1 - ⟨⟨h1, hpos, hvs⟩, hd1⟩
  rw [← hpos] at hd hlen hin
  have hall := inits_lowered hvs hin
  have hcount : values.length = struct.fields.length := by simpa using hlen
  obtain ⟨ordered, horder, hordered⟩ := inLayoutOrder_ok hd hcount fun p hp => by
    obtain ⟨field, hf, -⟩ := hall p hp
    exact (List.getElem?_eq_some_iff.mp hf).1
  have hstruct : X.items.lowerType (.aggregate ref.struct) = .ok (.struct layout) := by
    rw [ItemMap.lowerType, hl]
    rfl
  rw [show X.function.typeOf id = .aggregate ref.struct from hid]
  refine .answer (by rw [← hpos, hlen]; exact horder) (.answer hl ?_)
  refine (h1.yields_makeAggregate hfields (ordered_lowered hall htypes hordered) hstruct (by simp)).bind ?_
  exact fun v w2 _ hq => .pure ⟨⟨hq.1, .value (by simp) hq.2⟩, hd1⟩

/-! ## Statements and blocks -/

/-- Wherever something can be lowered, control goes on after a statement with its locals declared. -/
def StmtOk (X : Setting) (Γ : List Local) (depth : Nat) (stmt : Stmt) : Prop :=
  ∀ ⦃w : World⦄ ⦃breaks : Bool⦄, At w X Γ depth → (stmt.breaks = true → breaks = true) →
    Yields X Γ depth breaks (lowerStmt X.lowering stmt) w fun _ w' =>
      At w' X (Γ ++ X.typing.declared depth stmt) depth ∧ stmt.diverges = false

/-- Wherever something can be lowered, control goes on after statements with their locals declared. -/
def StmtsOk (X : Setting) (Γ : List Local) (depth : Nat) (stmts : List Stmt) : Prop :=
  ∀ ⦃w : World⦄ ⦃breaks : Bool⦄, At w X Γ depth → (Stmt.anyBreaks stmts = true → breaks = true) →
    Yields X Γ depth breaks (lowerStmts X.lowering stmts) w fun _ w' =>
      At w' X (Γ ++ X.typing.declaredAll depth stmts) depth ∧ Stmt.anyDiverges stmts = false

theorem stmtsOk_nil : StmtsOk X Γ depth [] := by
  intro w breaks h _
  rw [declaredAll, flatMap_nil, append_nil]
  exact .pure ⟨h, rfl⟩

theorem stmtsOk_cons {stmt : Stmt} {rest : List Stmt} (hs : StmtOk X Γ depth stmt)
    (hr : StmtsOk X (Γ ++ X.typing.declared depth stmt) depth rest) : StmtsOk X Γ depth (stmt :: rest) := by
  intro w breaks h hb
  obtain ⟨hb1, hb2⟩ := breaks_or hb
  refine (hs h hb1).bind ?_
  rintro - w1 - ⟨h1, hd1⟩
  refine ((hr h1 hb2).weaken (subset_append_left ..) fun hb => hb).mono ?_
  rintro - w2 ⟨h2, hd2⟩
  constructor
  · rw [declaredAll, flatMap_cons, ← append_assoc]
    exact h2
  · simp [Stmt.anyDiverges, hd1, hd2]

section Statements

variable {stmtId : StmtId} {type : Option TypeExpr}

theorem letBinding_eq {binding : BindingId} (h : X.function.lets.get? stmtId = some binding) :
    letBinding X.lowering stmtId = .ok binding := by simp [letBinding, Setting.lowering, h]

theorem stmtOk_bind (hX : X.Fits units) {init : Option Expr} (hi : ∀ expr ∈ init, LowersOk X Γ depth expr)
    (ht : X.typing.LetTyped Γ stmtId init) : StmtOk X Γ depth (.bind stmtId span name type init) := by
  intro w breaks h hb
  obtain ⟨unit, index, ty, hlet, hfresh, hty, hp, hused⟩ := ht
  have hlet : X.function.lets.get? stmtId = some (.local unit index) := hlet
  have hdeclared : X.typing.declared depth (.bind stmtId span name type init) =
      [⟨name, .local unit index, depth⟩] := by
    simp only [declared, Setting.typing, hlet]
    rfl
  rw [hdeclared]
  cases init with
  | none =>
    refine .answer (letBinding_eq hlet) ?_
    exact (h.yields_declare (x := ⟨name, .local unit index, depth⟩) hX ⟨unit, index, rfl⟩ hfresh hty hp
      (by simp)).mono fun _ _ hq => ⟨hq, rfl⟩
  | some expr =>
    refine .answer (letBinding_eq hlet) ((hi expr rfl h hb).bind ?_)
    rintro lowered w1 - ⟨⟨h1, hl⟩, hd⟩
    rw [(hused expr rfl).1] at hl
    refine (h1.yields_declare (x := ⟨name, .local unit index, depth⟩) hX ⟨unit, index, rfl⟩ hfresh hty hp
      ?_).mono fun _ _ hq => ⟨hq, hd⟩
    rintro lowered' hsome
    cases hsome
    exact hl

theorem stmtOk_eval (he : LowersOk X Γ depth expr) : StmtOk X Γ depth (.eval stmtId span expr) := by
  intro w breaks h hb
  rw [show X.typing.declared depth (.eval stmtId span expr) = [] from rfl, append_nil]
  exact (he h hb).bind fun _ w1 _ hq => .pure ⟨hq.1.1, hq.2⟩

theorem stmtOk_ret (hX : X.Fits units) {value : Option Expr} (hv : ∀ expr ∈ value, LowersOk X Γ depth expr)
    (hnone : value = none → X.function.result = .unit)
    (hsome : ∀ expr ∈ value, X.typing.UsedAs expr X.function.result) : StmtOk X Γ depth (.ret stmtId span value) := by
  intro w breaks h hb
  cases value with
  | none =>
    rw [lowerStmt]
    exact h.yields_ret hX (hnone rfl ▸ .unit)
  | some expr =>
    refine (hv expr rfl h hb).bind ?_
    rintro lowered w1 - ⟨⟨h1, hl⟩, -⟩
    rw [(hsome expr rfl).1] at hl
    exact h1.yields_ret hX hl

end Statements

theorem lowersOk_block {stmts : List Stmt} {tail : Option Expr} (hc : X.Converts (.block id span stmts tail))
    (hs : StmtsOk X Γ depth stmts)
    (htail : ∀ expr ∈ tail, LowersOk X (Γ ++ X.typing.declaredAll depth stmts) depth expr ∧
      X.typing.Unconverted expr ∧ X.function.typeOf id = X.typing.typeOf expr)
    (hnone : tail = none → X.function.typeOf id = .unit) : LowersOk X Γ depth (.block id span stmts tail) := by
  intro w breaks h hb
  -- In the scope, the locals of the statements are declared.
  have hblock : ∀ {inside : Lower Lowered}, Yields X Γ depth breaks inside w (fun a w' =>
      At w' X (Γ ++ X.typing.declaredAll depth stmts) depth ∧
        w'.LoweredOk X w'.here (X.function.typeOf id) a ∧ (block id span stmts tail).diverges = false) →
      Yields X Γ depth breaks (coerced X.lowering id (inScope inside)) w fun a w' =>
        AtLowered X Γ depth (X.typing.usedType (.block id span stmts tail)) a w' ∧
          (block id span stmts tail).diverges = false := fun hinside =>
    .coerced hc ((yields_inScope h hinside).mono fun _ _ hq => ⟨⟨hq.1, hq.2.1⟩, hq.2.2⟩)
  cases tail with
  | none => exact hblock ((hs h hb).bind fun _ w1 _ hq => .pure ⟨hq.1, hnone rfl ▸ .unit, hq.2⟩)
  | some expr =>
    obtain ⟨hb1, hb2⟩ := breaks_or hb
    obtain ⟨htail, hun, ht⟩ := htail expr rfl
    refine hblock ((hs h hb1).bind ?_)
    rintro - w1 - ⟨h1, hd1⟩
    refine ((htail h1 hb2).weaken (subset_append_left ..) fun hb => hb).mono ?_
    rintro a w2 ⟨⟨h2, hl⟩, hd2⟩
    rw [usedType_of_unconverted hun, ← ht] at hl
    exact ⟨h2, hl, by simp [diverges, hd1, hd2]⟩

end World

end SsaCompiler
