import SsaCompiler.Proofs.Blurring.Steps

/-!
# The rules of checking against blurred types

Each rule of the language lets `error` through, wherever a type that it looks at is blurred
(`Check.lenient_lockstep`).
-/

namespace SsaCompiler

open List Ty

namespace Check

/-! ## The rules on one side -/

section

variable {ctx : CheckContext} {type : Ty} {span : FileSpan} {operand : Expr}

theorem quiet_expectAssignable (expr : ExprId) (found expected : Ty) (site : FileSpan) :
    Quiet (expectAssignable ctx expr found expected site) fun _ => True := by
  unfold expectAssignable
  split
  · exact quiet_coerce
  · exact .report

theorem quiet_place (expr : Expr) : Quiet (place expr) fun _ => True := .get fun _ => .pure trivial

theorem quiet_addressOf : Quiet (addressOf operand type) fun _ => True := by
  have htype : Quiet (pointerTo operand type) fun _ => True := by
    unfold pointerTo
    split
    · exact .fail
    · exact .pure trivial
  refine .andThen (quiet_place operand) fun root => ?_
  cases root with
  | notAPlace => exact .fail
  | binding binding => exact Quiet.andThen (.note (fun _ => rfl) fun _ => rfl) fun _ => htype
  | memory => exact htype

theorem quiet_crossesLoop (binding : BindingId) : Quiet (crossesLoop binding) fun _ => True :=
  .get fun _ => .andThen .lift fun _ => .pure trivial

theorem quiet_unary {op : UnaryOp} : Quiet (unary ctx op operand type) fun _ => True := by
  unfold unary
  split
  · exact .pure trivial
  · cases op with
    | neg | not =>
      dsimp only
      split
      · exact .pure trivial
      · exact .fail
    | deref =>
      dsimp only
      split
      · exact .pure trivial
      · exact .fail
    | addrOf => exact quiet_addressOf

theorem quiet_arguments (args : List (Expr × Ty)) (params : List Ty) :
    Quiet (arguments ctx args params) fun _ => True := by
  induction args generalizing params with
  | nil => exact .pure trivial
  | cons arg rest ih =>
    cases params with
    | cons param params => exact (quiet_expectAssignable _ _ _ _).andThen fun _ => ih params
    | nil =>
      rw [arguments]
      split
      · exact Quiet.andThen .report fun _ => ih []
      · split
        · exact Quiet.andThen (.note (fun _ => rfl) fun _ => rfl) fun _ => ih []
        · exact ih []

theorem quiet_call {callee : Expr} {args : List (Expr × Ty)} :
    Quiet (call ctx callee type args span) fun _ => True := by
  unfold call
  split
  · split
    · exact Quiet.andThen .report fun _ =>
        (quiet_arguments _ _).andThen fun _ => .pure trivial
    · exact (quiet_arguments _ _).andThen fun _ => .pure trivial
  · exact .pure trivial
  · exact .fail

theorem quiet_field {id : ExprId} {base : Ty} {name : String} : Quiet (field ctx id base name span) fun _ => True := by
  unfold field
  split
  · exact .pure trivial
  · dsimp only
    split
    · exact .fail
    · split
      · exact .fault
      · split
        · exact .fail
        · exact Quiet.andThen (.note (fun _ => rfl) fun _ => rfl) fun _ => .pure trivial

end

end Check

/-! ## The rules -/

/-- A function is checked against blurred declarations, its result type kept or blurred. -/
structure CheckContext.Blurs (ctx ctx' : CheckContext) : Prop where
  decls : ctx.decls.Blurs ctx'.decls
  unitName : ctx'.unitName = ctx.unitName
  result : ctx.result.Blurs ctx'.result

/-- Things that come with types, which are kept or blurred. -/
def TypedBlurs {α : Type} (p p' : α × Ty) : Prop := p'.1 = p.1 ∧ p.2.Blurs p'.2

variable {α : Type}

theorem forall₂_zip_types (xs : List α) {types types' : List Ty} (h : Forall₂ Blurs types types') :
    Forall₂ TypedBlurs (xs.zip types) (xs.zip types') := by
  induction h generalizing xs with
  | nil => simp
  | cons ht _ ih =>
    cases xs with
    | nil => exact .nil
    | cons x xs => exact .cons ⟨rfl, ht⟩ (ih xs)

theorem forall₂_zipIdx {R : α → α → Prop} {xs xs' : List α} (h : Forall₂ R xs xs') (i : Nat) :
    Forall₂ (fun p p' : α × Nat => p'.2 = p.2) (xs.zipIdx i) (xs'.zipIdx i) := by
  induction h generalizing i with
  | nil => exact .nil
  | cons _ _ ih => exact .cons rfl (ih (i + 1))

namespace Check.Lenient

variable {valued : String → Prop} {ctx ctx' : CheckContext}
variable {inits inits' : List (Init × Ty)} {found found' : Ty} {span : FileSpan} {site : FileSpan}
variable {expr : ExprId} {operand : Expr} {name : String} {id : ExprId}

theorem coerce {source source' target target' : Ty} :
    Lenient valued (· = ·) (coerce expr source target) (coerce expr source' target') :=
  .of_quiet_unit quiet_coerce silent_coerce

theorem expectAssignable {expected expected' : Ty}
    (hf : found.Blurs found') (he : expected.Blurs expected') : Lenient valued (· = ·)
      (expectAssignable ctx expr found expected site) (expectAssignable ctx' expr found' expected' site) := by
  unfold Check.expectAssignable
  by_cases h : found.assignableTo expected = true
  · rw [if_pos h, if_pos (hf.assignableTo he h)]
    exact .coerce
  · rw [if_neg h]
    exact .report

theorem expectBool {expr : Expr} (hf : found.Blurs found') :
    Lenient valued (· = ·) (expectBool ctx expr found) (expectBool ctx' expr found') := by
  unfold Check.expectBool
  by_cases h : (found = .bool || found.isError) = true
  · have h' : (found' = .bool || found'.isError) = true := by
      rcases hf with rfl | rfl
      · exact h
      · simp [isError]
    rw [if_pos h, if_pos h']
    exact .pure rfl
  · rw [if_neg h]
    exact .report

theorem expectResult (hc : ctx.Blurs ctx') (hf : found.Blurs found') :
    Lenient valued (· = ·) (expectResult ctx expr found site) (expectResult ctx' expr found' site) := by
  unfold Check.expectResult
  by_cases h : found.assignableTo ctx.result = true
  · rw [if_pos h, if_pos (hf.assignableTo hc.result h)]
    exact .coerce
  · rw [if_neg h]
    exact .report

theorem promoted {lhs rhs : ExprId} {left left' right right' common : Ty} (hl : left.Blurs left')
    (hr : right.Blurs right') (hp : promote left right = some common) : ∃ common',
      promote left' right' = some common' ∧ Lenient valued Blurs
        (do Check.coerce lhs left common; Check.coerce rhs right common; Pure.pure common)
        (do Check.coerce lhs left' common'; Check.coerce rhs right' common'; Pure.pure common') := by
  obtain ⟨common', hp', hcommon⟩ := hl.promote hr hp
  exact ⟨common', hp', .bind .coerce fun _ _ _ => .bind .coerce fun _ _ _ => .pure hcommon⟩

theorem unify {lhs lhs' rhs rhs' : ExprId × Ty} (hl : TypedBlurs lhs lhs') (hr : TypedBlurs rhs rhs')
    {accepts : Ty → Bool} {what : String} :
    Lenient valued Blurs (unify ctx lhs rhs accepts what site) (unify ctx' lhs' rhs' accepts what site) := by
  obtain ⟨lhs, left⟩ := lhs
  obtain ⟨_, left'⟩ := lhs'
  obtain ⟨rhs, right⟩ := rhs
  obtain ⟨_, right'⟩ := rhs'
  obtain ⟨rfl, hl⟩ := hl
  obtain ⟨rfl, hr⟩ := hr
  unfold Check.unify
  cases hfind : [left, right].find? fun type => !type.isError && !accepts type with
  | some type => exact .fail
  | none =>
    -- An operand that is accepted is kept, or it is of type `error`.
    have haccepted : ∀ {type type' : Ty}, type.Blurs type' → (!type.isError && !accepts type) = false →
        (!type'.isError && !accepts type') = false := by
      rintro type type' (rfl | rfl) h
      · exact h
      · rfl
    have hfind' : ([left', right'].find? fun type => !type.isError && !accepts type) = none := by
      simp only [find?_eq_none, mem_cons, not_mem_nil, or_false, forall_eq_or_imp, forall_eq,
        Bool.not_eq_true] at hfind ⊢
      exact ⟨haccepted hl hfind.1, haccepted hr hfind.2⟩
    simp only [hfind']
    cases hp : promote left right with
    | none => exact .fail
    | some common =>
      obtain ⟨common', hp', hcommon⟩ := promoted hl hr hp
      simp only [hp']
      exact hcommon

theorem binary {op : BinaryOp} {lhs rhs : Expr} {left left' right right' : Ty}
    (hl : left.Blurs left') (hr : right.Blurs right') :
    Lenient valued Blurs (binary ctx op lhs rhs left right span) (binary ctx' op lhs rhs left' right' span) := by
  have hlhs : TypedBlurs (lhs.id, left) (lhs.id, left') := ⟨rfl, hl⟩
  have hrhs : TypedBlurs (rhs.id, right) (rhs.id, right') := ⟨rfl, hr⟩
  have hunify : ∀ accepts what, Lenient valued Blurs
      (Check.unify ctx (lhs.id, left) (rhs.id, right) accepts what span)
      (Check.unify ctx' (lhs.id, left') (rhs.id, right') accepts what span) :=
    fun accepts what => .unify hlhs hrhs
  unfold Check.binary
  split
  · exact .bind (.expectBool hl) fun _ _ _ => .bind (.expectBool hr) fun _ _ _ => .pure (.refl _)
  · split
    · exact hunify _ _
    · split
      · exact hunify _ _
      · have hcompared : ∀ common common' : Ty, common.Blurs common' →
            Blurs (if common.isError then .error else .bool) (if common'.isError then .error else .bool) := by
          rintro common common' (rfl | rfl)
          · exact .refl _
          · exact .error
        split
        · exact .bind (hunify _ _) fun _ _ h => .pure (hcompared _ _ h)
        · exact .bind (hunify _ _) fun _ _ h => .pure (hcompared _ _ h)

/-- An expression that is a place is the same place, or one in memory. -/
theorem place (expr : Expr) : Lenient valued
    (fun root root' => root = .notAPlace ∨ root' = root ∨ root' = .memory) (place expr) (place expr) :=
  .get (fun _ => .inr (.inl rfl)) (quiet_place expr) fun _ _ hblurs => .pure (placeRoot_blurs hblurs expr)

theorem crossesLoop (binding : BindingId) :
    Lenient valued (fun _ _ => True) (crossesLoop binding) (crossesLoop binding) := by
  refine .get (fun _ => trivial) (quiet_crossesLoop binding) fun s s' hblurs => ?_
  have hdepth : s'.symbols.loopDepth = s.symbols.loopDepth := by
    rw [SymbolTable.loopDepth, SymbolTable.loopDepth, hblurs.symbols.tree, hblurs.symbols.current]
  exact .bind (.lift hdepth) fun _ _ _ => .pure trivial

theorem assignmentTarget {target : Expr} :
    Lenient valued (· = ·) (assignmentTarget target) (assignmentTarget target) := by
  have hkept : ∀ (crosses : Bool) (binding : BindingId),
      Quiet (if crosses then Check.note (·.keepInMemory binding) else Pure.pure ()) fun _ => True := by
    intro crosses binding
    split
    · exact .note (fun _ => rfl) fun _ => rfl
    · exact .pure trivial
  refine .bind (.place target) fun root root' hroot => ?_
  cases root with
  | notAPlace => exact .report
  | memory =>
    obtain rfl : root' = .memory := by simpa using hroot
    exact .pure rfl
  | binding binding =>
    have hroot : root' = .binding binding ∨ root' = .memory := by simpa using hroot
    rcases hroot with rfl | rfl
    · dsimp only
      split
      · refine .bind (.crossesLoop binding) fun crosses crosses' _ => ?_
        -- Whether the local is kept in memory is of no consequence for the rules.
        refine .of_quiet_unit (hkept _ _) ?_
        split
        · exact .note (fun _ => rfl) fun _ => rfl
        · exact .pure trivial
      · exact .note (fun _ => rfl) fun _ => rfl
    · refine .of_quiet_unit ?_ (.pure trivial)
      dsimp only
      split
      · exact .andThen (quiet_crossesLoop binding) fun crosses => hkept _ _
      · exact .note (fun _ => rfl) fun _ => rfl

theorem addressOf {type : Ty} : Lenient valued Blurs (addressOf operand type) (addressOf operand type) := by
  have htype : Lenient valued Blurs (pointerTo operand type) (pointerTo operand type) := by
    unfold pointerTo
    split
    · exact .fail
    · exact .pure (.refl _)
  refine .bind (.place operand) fun root root' hroot => ?_
  cases root with
  | notAPlace => exact .fail
  | memory =>
    obtain rfl : root' = .memory := by simpa using hroot
    exact htype
  | binding binding =>
    have hroot : root' = .binding binding ∨ root' = .memory := by simpa using hroot
    rcases hroot with rfl | rfl
    · exact .bind (.note (fun _ => rfl) fun _ => rfl) fun _ _ _ => htype
    · exact .skip (.note (fun _ => rfl) fun _ => rfl) htype

theorem unary {op : UnaryOp} {type type' : Ty} (ht : type.Blurs type') :
    Lenient valued Blurs (unary ctx op operand type) (unary ctx' op operand type') := by
  rcases ht with rfl | rfl
  · unfold Check.unary
    split
    · exact .pure (.refl _)
    · cases op with
      | neg | not =>
        dsimp only
        split
        · exact .pure (.refl _)
        · exact .fail
      | deref =>
        dsimp only
        split
        · exact .pure (.refl _)
        · exact .fail
      | addrOf => exact .addressOf
  · exact .error quiet_unary

theorem arguments {args args' : List (Expr × Ty)} {params params' : List Ty} (ha : Forall₂ TypedBlurs args args')
    (hp : Forall₂ Blurs params params') :
    Lenient valued (· = ·) (arguments ctx args params) (arguments ctx' args' params') := by
  induction ha generalizing params params' with
  | nil => exact .pure rfl
  | @cons arg arg' rest rest' harg _ ih =>
    obtain ⟨arg, found⟩ := arg
    obtain ⟨_, found'⟩ := arg'
    obtain ⟨rfl, hf⟩ := harg
    cases hp with
    | cons ht hp => exact .bind (.expectAssignable hf ht) fun _ _ _ => ih hp
    | nil =>
      rw [Check.arguments, Check.arguments]
      rcases hf with rfl | rfl
      · split
        · exact .bind .report fun _ _ _ => ih .nil
        · cases extraArgument? found' with
          | some type => exact .bind (.note (fun _ => rfl) fun _ => rfl) fun _ _ _ => ih .nil
          | none => exact ih .nil
      · show Lenient valued (· = ·) _ (Check.arguments ctx' rest' [])
        split
        · exact .skip .report (ih .nil)
        · split
          · exact .skip (.note (fun _ => rfl) fun _ => rfl) (ih .nil)
          · exact ih .nil

theorem call {callee : Expr} {type type' : Ty} {args args' : List (Expr × Ty)}
    (ht : type.BlursCall type') (ha : Forall₂ TypedBlurs args args') :
    Lenient valued Blurs (call ctx callee type args span) (call ctx' callee type' args' span) := by
  have hsignature : ∀ {params params' : List Ty} {result result' : Ty} (varargs : Bool),
      Forall₂ Blurs params params' → result.Blurs result' → Lenient valued Blurs
        (Check.call ctx callee (.function params result varargs) args span)
        (Check.call ctx' callee (.function params' result' varargs) args' span) := by
    intro params params' result result' varargs hp hr
    have hpassed : Lenient valued Blurs (do Check.arguments ctx args params; Pure.pure result)
        (do Check.arguments ctx' args' params'; Pure.pure result') := .bind (.arguments ha hp) fun _ _ _ => .pure hr
    simp only [Check.call, ha.length_eq, hp.length_eq]
    split
    · exact .bind .report fun _ _ _ => hpassed
    · exact hpassed
  cases ht with
  | signature varargs params_blur result_blurs => exact hsignature varargs params_blur result_blurs
  | whole blurs =>
    rcases blurs with rfl | rfl
    · cases type' with
      | function params result varargs => exact hsignature varargs (List.forall₂_same.mpr fun _ _ => .refl _) (.refl _)
      | error => exact .pure (.refl _)
      | _ => exact .fail
    · exact .error quiet_call

theorem branches {thenBranch elseBranch : Expr} {thenType thenType' elseType elseType' : Ty}
    (ht : thenType.Blurs thenType') (he : elseType.Blurs elseType') : Lenient valued Blurs
      (branches ctx thenBranch elseBranch thenType elseType) (branches ctx' thenBranch elseBranch thenType' elseType') := by
  unfold Check.branches
  split
  · cases hp : promote thenType elseType with
    | none => exact .fail
    | some common =>
      obtain ⟨common', hp', hcommon⟩ := promoted ht he hp
      simp only [hp']
      exact hcommon
  · exact .pure ht
  · exact .pure he
  · exact .pure (.refl _)

theorem field (hc : ctx.Blurs ctx') {base base' : Ty}
    (hb : base.Blurs base') : Lenient valued Blurs (field ctx id base name span) (field ctx' id base' name span) := by
  rcases hb with rfl | rfl
  · unfold Check.field
    split
    · exact .pure (.refl _)
    · dsimp only
      split
      · exact .fail
      · rename_i struct throughPointer _
        have hstruct := hc.decls.struct? struct
        generalize ctx.decls.struct? struct = found, ctx'.decls.struct? struct = found' at hstruct
        cases hstruct with
        | none => exact .of_mistake .refl .fault
        | @some found found' hfound =>
          have hfield := hfound.field? name
          dsimp only
          generalize found.field? name = field, found'.field? name = field' at hfield
          cases hfield with
          | none => exact .fail
          | @some field field' hfield =>
            obtain ⟨index, field⟩ := field
            obtain ⟨rfl, hfield⟩ := hfield
            exact .bind (.note (fun _ => rfl) fun _ => rfl) fun _ _ _ => .pure hfield.type
  · exact .error quiet_field

theorem annotatedType (hc : ctx.Blurs ctx') {type : TypeExpr} :
    Lenient valued (· = ·) (annotatedType ctx type) (annotatedType ctx' type) := by
  have hresolve : ctx'.decls.resolveType ctx'.unitName type = (ctx.decls.resolveType ctx.unitName type : Except Fault _) := by
    rw [hc.unitName, hc.decls.resolveType]
  refine .bind (.lift hresolve) fun result _ hr => ?_
  subst hr
  cases result with
  | ok type => exact .pure rfl
  | error error => exact .of_mistake (fun _ => rfl) .fail

theorem initializers {id : StructId} {struct struct' : StructDef} (hs : struct.Blurs struct')
    (hi : Forall₂ TypedBlurs inits inits') (positions : List Nat) (seen : Table Nat FileSpan) :
    Lenient valued (· = ·) (initializers ctx id struct inits positions seen)
      (initializers ctx' id struct' inits' positions seen) := by
  induction hi generalizing positions seen with
  | nil => exact .pure rfl
  | @cons init init' rest rest' hinit _ ih =>
    obtain ⟨init, found⟩ := init
    obtain ⟨_, found'⟩ := init'
    obtain ⟨rfl, hf⟩ := hinit
    rw [Check.initializers, Check.initializers]
    have hfield := hs.field? ‹Init›.name
    generalize struct.field? _ = field, struct'.field? _ = field' at hfield ⊢
    cases hfield with
    | none => exact .bind .report fun _ _ _ => ih _ _
    | @some field field' hfield =>
      obtain ⟨index, field⟩ := field
      obtain ⟨rfl, hfield⟩ := hfield
      dsimp only
      split
      · exact .bind .report fun _ _ _ => ih _ _
      · exact .bind (.expectAssignable hf hfield.type) fun _ _ _ => ih _ _

theorem missingFields {seen : Table Nat FileSpan} {fields fields' : List (FieldDef × Nat)}
    (h : Forall₂ (fun p p' => p'.2 = p.2) fields fields') :
    Lenient valued (· = ·) (missingFields seen span fields) (missingFields seen span fields') := by
  induction h with
  | nil => exact .pure rfl
  | @cons field field' rest rest' hindex _ ih =>
    obtain ⟨field, index⟩ := field
    cases hindex
    rw [Check.missingFields, Check.missingFields]
    split
    · exact .bind .report fun _ _ _ => ih
    · exact ih

theorem structLiteral (hc : ctx.Blurs ctx') (hi : Forall₂ TypedBlurs inits inits') : Lenient valued Blurs
      (structLiteral ctx id name inits span) (structLiteral ctx' id name inits' span) := by
  refine .bind (.annotatedType hc) fun type _ ht => ?_
  subst ht
  cases type with
  | aggregate struct =>
    have hstruct := hc.decls.struct? struct
    dsimp only
    generalize ctx.decls.struct? struct = found, ctx'.decls.struct? struct = found' at hstruct ⊢
    cases hstruct with
    | none => exact .of_mistake .refl .fault
    | some hfound =>
      refine .bind (.initializers hfound hi [] .empty) fun result _ hr => ?_
      subst hr
      exact .bind (.missingFields (forall₂_zipIdx hfound.fields 0)) fun _ _ _ =>
        .bind (.note (fun _ => rfl) fun _ => rfl) fun _ _ _ => .pure (.refl _)
  | error => exact .pure (.refl _)
  | _ => exact .fail

theorem expectLoop {keyword : String} : Lenient valued Blurs (expectLoop keyword span) (expectLoop keyword span) := by
  have hinLoop : Lenient valued (· = ·) inLoop inLoop := by
    refine .get (fun _ => rfl) (.get fun _ => .lift) fun s s' hblurs => .lift ?_
    rw [SymbolTable.inLoop, SymbolTable.inLoop, hblurs.symbols.tree, hblurs.symbols.current]
  refine .bind hinLoop fun inLoop _ hr => ?_
  subst hr
  split
  · exact .bind .report fun _ _ _ => .pure (.refl _)
  · exact .pure (.refl _)

theorem emptyReturn (hc : ctx.Blurs ctx') :
    Lenient valued (· = ·) (emptyReturn ctx span) (emptyReturn ctx' span) := by
  unfold Check.emptyReturn
  split
  · exact .report
  · rename_i h
    have h' : ¬(!ctx'.result.isUnit && !ctx'.result.isError) = true := by
      rcases hc.result with hr | hr
      · rwa [hr]
      · simp [hr, isError]
    rw [if_neg h']
    exact .pure rfl

end Check.Lenient

namespace Check

variable {valued : String → Prop} {ctx ctx' : CheckContext}

/-- Each rule lets `error` through. -/
theorem lenient_lockstep (hc : ctx.Blurs ctx') : Lockstep ctx ctx' Blurs BlursCall valued
      fun {α} k (x x' : Check α) => Lenient valued (k.Rel Blurs BlursCall) x x' where
  unit := .refl _
  callee := .weaken fun _ _ => .whole
  pure := .pure
  bind := .bind
  recorded expr _ _ hx := .recorded (fun _ _ => .whole) hx
  recordedCallee expr _ _ hx := .recorded (fun _ _ h => h) hx
  fail _ := .fail
  note hc := .note fun f => (hc f).1
  inScope kind _ _ hx := .within hx
  literal value span := by
    unfold literal
    split
    · exact .pure (.refl _)
    · exact .fail
  used id name span hv := .var .refl fun _ ht => ht hv
  called id name span := .var (fun _ => .whole (.refl _)) fun hb _ => hb.type
  binary op lhs rhs _ _ _ _ span hl hr := .binary hl hr
  unary op operand _ _ ht := .unary ht
  call callee _ _ args _ _ span ht ha := .call ht (forall₂_zip_types args ha)
  assignmentTarget target := .assignmentTarget
  expectAssignable expr _ _ _ _ site hf he := .expectAssignable hf he
  expectBool expr _ _ hf := .expectBool hf
  expectResult expr _ _ site hf := .expectResult hc hf
  branches thenBranch elseBranch _ _ _ _ ht he := .branches ht he
  field id _ _ name span hb := .field hc hb
  structLiteral id name inits _ _ span hf := .structLiteral hc (forall₂_zip_types inits hf)
  expectLoop keyword span := .expectLoop
  written type := by
    cases type with
    | none => exact .pure .none
    | some type =>
      rw [Option.mapM_some, Option.mapM_some, ← bind_pure_comp, ← bind_pure_comp]
      refine .bind (.annotatedType hc) fun found _ hf => ?_
      subst hf
      exact .pure (.some (.refl _))
  declareLocal name _ _ storage span ht := .declareLocal ht
  emptyReturn span := .emptyReturn hc

end Check

end SsaCompiler
