import SsaCompiler.Proofs.Checking.Lockstep
import SsaCompiler.Proofs.Symbols.Scopes

/-!
# Two ways of checking

A function may be checked against different declarations, or with names kept in different ways. Both
do the same steps, so a relation between steps that holds of the few steps which look at names, scopes
and declarations (`Check.Comparison`) holds of the checking of whole functions
(`Check.Comparison.function`). What is reported may differ in the texts of types only. The types that
are found are `good` ones, if those of the declarations are.
-/

namespace SsaCompiler

open List

/-- The rules of checking make good types of good ones. -/
structure Ty.Stable (good : Ty → Prop) : Prop where
  unit : good .unit
  bool : good .bool
  error : good .error
  literal {value : Literal} {span : FileSpan} {type : Ty} : value.type span = .ok type → good type
  ptr {pointee : Ty} : good pointee ↔ good (.ptr pointee)
  result {params : List Ty} {result : Ty} {varargs : Bool} : good (.function params result varargs) → good result

theorem Ty.stable_true : Ty.Stable fun _ => True :=
  ⟨trivial, trivial, trivial, fun _ => trivial, .rfl, fun _ => trivial⟩

variable {good : Ty → Prop}

theorem Ty.Stable.promote (h : Ty.Stable good) {left right common : Ty}
    (hp : Ty.promote left right = some common) (hl : good left) (hr : good right) : good common := by
  unfold Ty.promote at hp
  split at hp
  · cases hp
    exact h.error
  · split at hp
    · cases hp
      exact hl
    · split at hp <;> cases hp
      exact hr

theorem Ty.Stable.accessed? (h : Ty.Stable good) {base : Ty} (hb : good base) {struct : StructId}
    {throughPointer : Bool} (ha : Check.accessed? base = some (struct, throughPointer)) : good (.aggregate struct) := by
  unfold Check.accessed? at ha
  split at ha <;> cases ha
  · exact hb
  · exact h.ptr.mpr hb

theorem StructDef.getElem?_of_field? {struct : StructDef} {name : String} {index : Nat} {field : FieldDef}
    (h : struct.field? name = some (index, field)) : struct.fields[index]? = some field ∧ field.name = name := by
  obtain ⟨i, hi, h⟩ := Option.bind_eq_some_iff.mp h
  obtain ⟨found, hf, h⟩ := Option.bind_eq_some_iff.mp h
  cases h
  obtain ⟨hlt, hname, -⟩ := findIdx?_eq_some_iff_getElem.mp hi
  refine ⟨hf, ?_⟩
  rw [getElem?_eq_getElem hlt, Option.some.injEq] at hf
  simpa [hf] using hname

namespace Check

/-- A local is recorded with its type and its depth, unless its scope has the name. -/
theorem declareLocal_eq_ok {name : String} {type : Ty} {storage : Storage} {span : FileSpan}
    {declared : Option BindingId} {s s' : CheckState} :
    (declareLocal name type storage span : Check _).run s = .ok (declared, s') ↔
      (∃ binding symbols depth, s.symbols.declare name type storage span = (.ok (.ok binding, symbols) : Except Fault _) ∧
        symbols.loopDepth = .ok depth ∧ declared = some binding ∧ s' = s.withLocal symbols binding type depth) ∨
      ∃ error, s.symbols.declare name type storage span = (.ok (.error error, s.symbols) : Except Fault _) ∧
        declared = none ∧ s' = { s with errors := s.errors ++ [.ofSymbolError error] } := by
  simp only [declareLocal, run_bind_eq_ok, run_get_eq_ok, run_lift_eq_ok]
  constructor
  · rintro ⟨_, _, ⟨rfl, rfl⟩, ⟨result, symbols⟩, _, ⟨hdeclare, rfl⟩, h⟩
    cases result with
    | ok binding =>
      simp only [run_bind_eq_ok, run_lift_eq_ok, run_set_eq_ok, run_pure_eq_ok] at h
      obtain ⟨depth, _, ⟨hdepth, rfl⟩, _, _, rfl, rfl, rfl⟩ := h
      exact .inl ⟨binding, symbols, depth, hdeclare, hdepth, rfl, rfl⟩
    | error error =>
      cases h
      obtain ⟨_, _, -, -, -, rfl⟩ := SymbolTable.declare_eq_error.mp hdeclare
      exact .inr ⟨error, hdeclare, rfl, rfl⟩
  · rintro (⟨binding, symbols, depth, hdeclare, hdepth, rfl, rfl⟩ | ⟨error, hdeclare, rfl, rfl⟩)
    · refine ⟨_, _, ⟨rfl, rfl⟩, _, _, ⟨hdeclare, rfl⟩, ?_⟩
      exact run_bind_eq_ok.mpr ⟨depth, _, run_lift_eq_ok.mpr ⟨hdepth, rfl⟩, rfl⟩
    · exact ⟨_, _, ⟨rfl, rfl⟩, _, _, ⟨hdeclare, rfl⟩, rfl⟩

/-- What is done in a scope starts inside it, and afterwards the scope around it is the current one. -/
theorem within_eq_ok {α : Type} {x : Check α} {kind : ScopeKind} {owner : Option String} {s s' : CheckState} {a : α} :
    (within kind owner x).run s = .ok (a, s') ↔ ∃ s1 outer,
      x.run { s with symbols := s.symbols.enterOwned kind owner } = .ok (a, s1) ∧ s1.symbols.exit = .ok outer ∧
      s' = { s1 with symbols := outer } := by
  simp only [within, run_bind_eq_ok, run_modify_eq_ok, run_get_eq_ok, run_lift_eq_ok, run_set_eq_ok, run_pure_eq_ok]
  constructor
  · rintro ⟨_, _, rfl, _, s1, hin, _, _, ⟨rfl, rfl⟩, outer, _, ⟨hexit, rfl⟩, _, _, rfl, rfl, rfl⟩
    exact ⟨s1, outer, hin, hexit, rfl⟩
  · rintro ⟨s1, outer, hin, hexit, rfl⟩
    exact ⟨(), _, rfl, a, s1, hin, s1, s1, ⟨rfl, rfl⟩, outer, s1, ⟨hexit, rfl⟩, (), _, rfl, rfl, rfl⟩

def AnswerKind.Holds (good : Ty → Prop) {α : Type} : AnswerKind α → α → Prop
  | .any _ => fun _ => True
  | .type | .callee => good
  | .types => fun found => ∀ type ∈ found, good type
  | .written => fun found => ∀ type ∈ found, good type

variable {α : Type}

theorem AnswerKind.holds_true (k : AnswerKind α) (a : α) : k.Holds (fun _ => True) a := by cases k <;> simp [Holds]

theorem AnswerKind.rel_same (k : AnswerKind α) {a a' : α} :
    k.Rel (fun type type' => type = type' ∧ good type) (fun type type' => type = type' ∧ good type) a a' ↔
      a = a' ∧ k.Holds good a := by
  cases k with
  | any => exact (and_true _).symm.to_iff
  | type | callee => exact .rfl
  | types =>
    constructor
    · intro h
      induction h with
      | nil => exact ⟨rfl, by simp [Holds]⟩
      | cons h _ ih => exact ⟨by rw [h.1, ih.1], forall_mem_cons.mpr ⟨h.2, ih.2⟩⟩
    · rintro ⟨rfl, h⟩
      exact forall₂_same.mpr fun type ht => ⟨rfl, h type ht⟩
  | written =>
    constructor
    · rintro (⟨⟨rfl, h⟩⟩ | _)
      · exact ⟨rfl, by simpa [Holds] using h⟩
      · exact ⟨rfl, by simp [Holds]⟩
    · rintro ⟨rfl, h⟩
      cases a with
      | none => exact .none
      | some type => exact .some ⟨rfl, h type rfl⟩

variable {κ κ' : Type} {m m' : Type → Type} [Monad m] [Monad m'] [MonadLiftT (Except Fault) m]
  [MonadLiftT (Except Fault) m'] [Names κ m] [Names κ' m'] [DecidableEq κ] [DecidableEq κ']

/-- A relation between the steps of checking a function against two sets of declarations. -/
structure Comparison (ctx : CheckContext κ) (ctx' : CheckContext κ') (good : Ty → Prop)
    (rel : ∀ {α : Type}, AnswerKind α → CheckWith κ m α → CheckWith κ' m' α → Prop) : Prop where
  stable : Ty.Stable good
  result : ctx'.result = ctx.result
  callee {x : CheckWith κ m Ty} {x' : CheckWith κ' m' Ty} : rel .type x x' → rel .callee x x'
  pure {α : Type} {k : AnswerKind α} {a : α} : k.Holds good a → rel k (pure a) (pure a)
  bind {α β : Type} {k : AnswerKind α} {l : AnswerKind β} {x : CheckWith κ m α} {x' : CheckWith κ' m' α}
    {f : α → CheckWith κ m β} {f' : α → CheckWith κ' m' β} : rel k x x' →
    (∀ a, k.Holds good a → rel l (f a) (f' a)) → rel l (x >>= f) (x' >>= f')
  some {x : CheckWith κ m Ty} {x' : CheckWith κ' m' Ty} : rel .type x x' → rel .written (some <$> x) (some <$> x')
  report (error : (Ty → String) → TypeError) :
    rel (.any Unit) (report (error ctx.decls.describe)) (report (error ctx'.decls.describe))
  note (change : CheckedFunction → CheckedFunction) : (∀ f, (change f).refs = f.refs ∧ (change f).owner = f.owner) →
    rel (.any Unit) (note change) (note change)
  inScope {α : Type} {k : AnswerKind α} (kind : ScopeKind) {x : CheckWith κ m α} {x' : CheckWith κ' m' α} :
    rel k x x' → rel k (inScope kind x) (inScope kind x')
  inFunction (name : String) {x : CheckWith κ m Unit} {x' : CheckWith κ' m' Unit} : rel (.any Unit) x x' →
    rel (.any Unit) (inFunction name x) (inFunction name x')
  declareLocal (name : String) {type : Ty} (storage : Storage) (span : FileSpan) : good type →
    rel (.any _) (declareLocal name type storage span) (declareLocal name type storage span)
  annotatedType (type : TypeExpr) : rel .type (annotatedType ctx type) (annotatedType ctx' type)
  var (id : ExprId) (name : String) (span : FileSpan) : rel .type (var id name span) (var id name span)
  place (expr : Expr) : rel (.any _) (place expr) (place expr)
  crossesLoop (binding : BindingId) : rel (.any _) (crossesLoop binding) (crossesLoop binding)
  inLoop : rel (.any _) inLoop inLoop
  /-- The declaration of a struct is looked up. -/
  struct {α : Type} {k : AnswerKind α} {id : StructId} {f : StructDef → CheckWith κ m α}
    {f' : StructDef → CheckWith κ' m' α} : good (.aggregate id) →
    (∀ struct, (∀ field ∈ struct.fields, good field.type) → rel k (f struct) (f' struct)) →
    rel k (match ctx.decls.struct? id with
      | none => liftM (m := Except Fault) (.error .outOfRange)
      | .some struct => f struct)
      (match ctx'.decls.struct? id with
      | none => liftM (m := Except Fault) (.error .outOfRange)
      | .some struct => f' struct)

namespace Comparison

variable {ctx : CheckContext κ} {ctx' : CheckContext κ'}
  {rel : ∀ {α : Type}, AnswerKind α → CheckWith κ m α → CheckWith κ' m' α → Prop} (h : Comparison ctx ctx' good rel)
variable {type : Ty}

include h

theorem fail (error : (Ty → String) → TypeError) :
    rel .type (fail (error ctx.decls.describe)) (fail (error ctx'.decls.describe)) :=
  h.bind (h.report error) fun _ _ => h.pure h.stable.error

theorem recorded {expr : Expr} {k : AnswerKind Ty} {x : CheckWith κ m Ty} {x' : CheckWith κ' m' Ty}
    (hx : rel k x x') : rel k (recorded expr x) (recorded expr x') := by
  refine h.bind hx fun type ht => ?_
  split
  · exact h.bind (h.note _ fun _ => ⟨rfl, rfl⟩) fun _ _ => h.bind (h.note _ fun _ => ⟨rfl, rfl⟩) fun _ _ => h.pure ht
  · exact h.bind (h.note _ fun _ => ⟨rfl, rfl⟩) fun _ _ => h.pure ht

theorem coerce (expr : ExprId) (source target : Ty) :
    rel (.any Unit) (coerce expr source target) (coerce expr source target) := by
  unfold Check.coerce
  split
  · exact h.note _ fun _ => ⟨rfl, rfl⟩
  · exact h.pure trivial

theorem expectAssignable (expr : ExprId) (found expected : Ty) (site : FileSpan) :
    rel (.any Unit) (expectAssignable ctx expr found expected site) (expectAssignable ctx' expr found expected site) := by
  unfold Check.expectAssignable
  split
  · exact h.coerce ..
  · exact h.report fun describe => .mismatch (describe expected) (describe found) site

theorem expectBool (expr : Expr) (found : Ty) :
    rel (.any Unit) (expectBool ctx expr found) (expectBool ctx' expr found) := by
  unfold Check.expectBool
  split
  · exact h.pure trivial
  · exact h.report fun describe => .mismatch (describe .bool) (describe found) expr.span

theorem expectResult (expr : ExprId) (found : Ty) (site : FileSpan) :
    rel (.any Unit) (expectResult ctx expr found site) (expectResult ctx' expr found site) := by
  unfold Check.expectResult
  rw [h.result]
  split
  · exact h.coerce ..
  · exact h.report fun describe => .returnMismatch (describe ctx.result) (describe found) site

theorem literal (value : Literal) (span : FileSpan) : rel .type (literal value span) (literal value span) := by
  unfold Check.literal
  split
  · rename_i ht
    exact h.pure (h.stable.literal ht)
  · exact h.fail fun _ => _

theorem unify {lhs rhs : ExprId × Ty} (hl : good lhs.2) (hr : good rhs.2) {accepts : Ty → Bool} {what : String}
    {site : FileSpan} : rel .type (unify ctx lhs rhs accepts what site) (unify ctx' lhs rhs accepts what site) := by
  unfold Check.unify
  split
  · rename_i type _
    exact h.fail fun describe => .mismatch what (describe type) site
  · split
    · rename_i hp
      exact h.bind (h.coerce ..) fun _ _ => h.bind (h.coerce ..) fun _ _ => h.pure (h.stable.promote hp hl hr)
    · exact h.fail fun describe => .mismatch (describe lhs.2) (describe rhs.2) site

theorem binary (op : BinaryOp) (lhs rhs : Expr) {left right : Ty} (hl : good left) (hr : good right) (span : FileSpan) :
    rel .type (binary ctx op lhs rhs left right span) (binary ctx' op lhs rhs left right span) := by
  unfold Check.binary
  split
  · exact h.bind (h.expectBool ..) fun _ _ => h.bind (h.expectBool ..) fun _ _ => h.pure h.stable.bool
  · split
    · exact h.unify hl hr ..
    · split
      · exact h.unify hl hr ..
      · have hbool : ∀ common : Ty, good (if common.isError = true then .error else .bool) := fun common => by
          split
          · exact h.stable.error
          · exact h.stable.bool
        split <;> exact h.bind (h.unify hl hr ..) fun common _ => h.pure (hbool common)

theorem keepInMemory (binding : BindingId) :
    rel (.any Unit) (Check.note (·.keepInMemory binding)) (Check.note (·.keepInMemory binding)) :=
  h.note _ fun _ => ⟨rfl, rfl⟩

theorem assignmentTarget (target : Expr) : rel (.any Unit) (assignmentTarget target) (assignmentTarget target) := by
  refine h.bind (h.place target) fun root _ => ?_
  split
  · split
    · refine h.bind (h.crossesLoop _) fun crosses _ => ?_
      split
      · exact h.keepInMemory _
      · exact h.pure trivial
    · exact h.keepInMemory _
  · exact h.pure trivial
  · exact h.report fun _ => .notAPlace target.span

theorem addressOf (operand : Expr) (ht : good type) :
    rel .type (addressOf operand type) (addressOf operand type) := by
  have hptr : rel .type (pointerTo operand type) (pointerTo operand type) := by
    unfold pointerTo
    split
    · exact h.fail fun _ => .mismatch "a value type" "unit" operand.span
    · exact h.pure (h.stable.ptr.mp ht)
  refine h.bind (h.place operand) fun root _ => ?_
  cases root with
  | notAPlace => exact h.fail fun _ => .notAPlace operand.span
  | binding binding => exact h.bind (h.keepInMemory binding) fun _ _ => hptr
  | memory => exact hptr

theorem expectLoop (keyword : String) (span : FileSpan) :
    rel .type (expectLoop keyword span) (expectLoop keyword span) := by
  refine h.bind h.inLoop fun inLoop _ => ?_
  split
  · exact h.bind (h.report fun _ => .outsideLoop keyword span) fun _ _ => h.pure h.stable.unit
  · exact h.pure h.stable.unit

theorem unary (op : UnaryOp) (operand : Expr) (ht : good type) :
    rel .type (unary ctx op operand type) (unary ctx' op operand type) := by
  unfold Check.unary
  split
  · exact h.pure h.stable.error
  · cases op with
    | neg =>
      dsimp only
      split
      · exact h.pure ht
      · exact h.fail fun describe => .mismatch "a numeric type" (describe type) operand.span
    | not =>
      dsimp only
      split
      · exact h.pure ht
      · exact h.fail fun describe => .mismatch "bool or an integer type" (describe type) operand.span
    | deref =>
      dsimp only
      split
      · exact h.pure (h.stable.ptr.mpr ht)
      · exact h.fail fun describe => .mismatch "a pointer" (describe type) operand.span
    | addrOf => exact h.addressOf operand ht

theorem arguments (args : List (Expr × Ty)) (params : List Ty) :
    rel (.any Unit) (arguments ctx args params) (arguments ctx' args params) := by
  induction args generalizing params with
  | nil => exact h.pure trivial
  | cons arg rest ih =>
    cases params with
    | cons param params => exact h.bind (h.expectAssignable ..) fun _ _ => ih params
    | nil =>
      rw [Check.arguments, Check.arguments]
      split
      · exact h.bind (h.report fun _ => _) fun _ _ => ih []
      · split
        · exact h.bind (h.note _ fun _ => ⟨rfl, rfl⟩) fun _ _ => ih []
        · exact ih []

theorem call (callee : Expr) (ht : good type) (args : List (Expr × Ty)) (span : FileSpan) :
    rel .type (call ctx callee type args span) (call ctx' callee type args span) := by
  unfold Check.call
  split
  · have hresult := h.stable.result ht
    split
    · exact h.bind (h.report fun _ => _) fun _ _ => h.bind (h.arguments ..) fun _ _ => h.pure hresult
    · exact h.bind (h.arguments ..) fun _ _ => h.pure hresult
  · exact h.pure h.stable.error
  · exact h.fail fun describe => .mismatch "a function" (describe type) callee.span

theorem branches (thenBranch elseBranch : Expr) {thenType elseType : Ty} (ht : good thenType) (he : good elseType) :
    rel .type (branches ctx thenBranch elseBranch thenType elseType)
      (branches ctx' thenBranch elseBranch thenType elseType) := by
  unfold Check.branches
  split
  · split
    · rename_i hp
      exact h.bind (h.coerce ..) fun _ _ => h.bind (h.coerce ..) fun _ _ => h.pure (h.stable.promote hp ht he)
    · exact h.fail fun describe => .mismatch (describe thenType) (describe elseType) elseBranch.span
  · exact h.pure ht
  · exact h.pure he
  · exact h.pure h.stable.unit

theorem field (id : ExprId) {base : Ty} (hb : good base) (name : String) (span : FileSpan) :
    rel .type (field ctx id base name span) (field ctx' id base name span) := by
  have hunknown := h.fail fun describe => .unknownField (describe base) name span
  unfold Check.field
  split
  · exact h.pure h.stable.error
  · dsimp only
    split
    · exact hunknown
    · rename_i haccessed
      refine h.struct (h.stable.accessed? hb haccessed) fun struct hfields => ?_
      split
      · exact hunknown
      · rename_i hfield
        exact h.bind (h.note _ fun _ => ⟨rfl, rfl⟩) fun _ _ =>
          h.pure (hfields _ (mem_of_getElem? (StructDef.getElem?_of_field? hfield).1))

theorem initializers (id : StructId) (struct : StructDef) (inits : List (Init × Ty)) (positions : List Nat)
    (seen : Table Nat FileSpan) : rel (.any _) (initializers ctx id struct inits positions seen)
      (initializers ctx' id struct inits positions seen) := by
  induction inits generalizing positions seen with
  | nil => exact h.pure trivial
  | cons init rest ih =>
    obtain ⟨init, found⟩ := init
    rw [Check.initializers, Check.initializers]
    split
    · exact h.bind (h.report fun describe => .unknownField (describe (.aggregate id)) init.name init.span)
        fun _ _ => ih ..
    · dsimp only
      split
      · exact h.bind (h.report fun _ => _) fun _ _ => ih ..
      · exact h.bind (h.expectAssignable ..) fun _ _ => ih ..

theorem missingFields (seen : Table Nat FileSpan) (span : FileSpan) (fields : List (FieldDef × Nat)) :
    rel (.any Unit) (missingFields seen span fields) (missingFields seen span fields) := by
  induction fields with
  | nil => exact h.pure trivial
  | cons field rest ih =>
    rw [Check.missingFields, Check.missingFields]
    split
    · exact h.bind (h.report fun _ => _) fun _ _ => ih
    · exact ih

theorem structLiteral (id : ExprId) (name : String) (inits : List (Init × Ty)) (span : FileSpan) :
    rel .type (structLiteral ctx id name inits span) (structLiteral ctx' id name inits span) := by
  refine h.bind (h.annotatedType _) fun type ht => ?_
  split
  · exact h.struct ht fun struct _ => h.bind (h.initializers ..) fun _ _ => h.bind (h.missingFields ..) fun _ _ =>
      h.bind (h.note _ fun _ => ⟨rfl, rfl⟩) fun _ _ => h.pure ht
  · exact h.pure h.stable.error
  · exact h.fail fun describe => .mismatch "a struct" (describe type) span

theorem lockstep : Lockstep ctx ctx' (fun type type' => type = type' ∧ good type)
    (fun type type' => type = type' ∧ good type) (fun _ => True) rel where
  unit := ⟨rfl, h.stable.unit⟩
  callee := h.callee
  pure := by
    intro α k a a' ha
    obtain ⟨rfl, hgood⟩ := k.rel_same.mp ha
    exact h.pure hgood
  bind := fun {_ _ k _ _ _ _ _} hx hf => h.bind hx fun a ha => hf a a (k.rel_same.mpr ⟨rfl, ha⟩)
  recorded expr _ _ hx := h.recorded hx
  recordedCallee expr _ _ hx := h.recorded hx
  fail := h.fail
  note hc _ := h.note _ hc
  inScope := h.inScope
  literal := h.literal
  used id name span _ := h.var id name span
  called id name span := h.callee (h.var id name span)
  binary op lhs rhs _ _ _ _ span hl hr := by
    obtain ⟨rfl, hl⟩ := hl
    obtain ⟨rfl, hr⟩ := hr
    exact h.binary op lhs rhs hl hr span
  unary op operand _ _ ht := by
    obtain ⟨rfl, ht⟩ := ht
    exact h.unary op operand ht
  call callee _ _ args _ _ span ht ha := by
    obtain ⟨rfl, ht⟩ := ht
    obtain ⟨rfl, -⟩ := AnswerKind.types.rel_same.mp ha
    exact h.call callee ht _ span
  assignmentTarget := h.assignmentTarget
  expectAssignable expr _ _ _ _ site hf he := by
    obtain ⟨rfl, -⟩ := hf
    obtain ⟨rfl, -⟩ := he
    exact h.expectAssignable ..
  expectBool expr _ _ hf := by
    obtain ⟨rfl, -⟩ := hf
    exact h.expectBool ..
  expectResult expr _ _ site hf := by
    obtain ⟨rfl, -⟩ := hf
    exact h.expectResult ..
  branches thenBranch elseBranch _ _ _ _ ht he := by
    obtain ⟨rfl, ht⟩ := ht
    obtain ⟨rfl, he⟩ := he
    exact h.branches thenBranch elseBranch ht he
  field id _ _ name span hb := by
    obtain ⟨rfl, hb⟩ := hb
    exact h.field id hb name span
  structLiteral id name inits _ _ span hf := by
    obtain ⟨rfl, -⟩ := AnswerKind.types.rel_same.mp hf
    exact h.structLiteral ..
  expectLoop := h.expectLoop
  written type := by
    cases type with
    | none => exact h.pure (by simp [AnswerKind.Holds])
    | some type => exact h.some (h.annotatedType type)
  declareLocal name _ _ storage span ht := by
    obtain ⟨rfl, ht⟩ := ht
    exact h.declareLocal name storage span ht
  emptyReturn span := by
    unfold emptyReturn
    rw [h.result]
    split
    · exact h.report fun describe => .returnMismatch (describe ctx.result) (describe .unit) span
    · exact h.pure trivial

theorem function {item : FunctionItem} (hitem : ∀ param ∈ item.params, good param) (decl : FunctionDecl) (root : Expr) :
    rel (.any Unit) (function ctx item decl root) (function ctx' item decl root) :=
  h.inFunction decl.name (h.lockstep.functionBody
    (forall₂_same.mpr fun param hp => ⟨rfl, hitem param hp⟩) decl fun _ _ => trivial)

end Comparison

end Check

end SsaCompiler
