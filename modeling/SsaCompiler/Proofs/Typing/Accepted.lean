import SsaCompiler.Proofs.Typing.Ensures

/-!
# Steps of checking that report nothing

For each rule of the checker: if it ran without a report, then what it recorded satisfies the typing
rule. Most rules read the types of the parts as they are recorded later, and record conversions of
the parts.
-/

namespace SsaCompiler

open List TypingContext Ty Table

namespace Ty

variable {type : Ty}

theorem widensTo_self : type.widensTo type = false := by cases type <;> simp [widensTo]

theorem ne_error_of_proper {structs : Nat} (h : type.Proper structs) : type ≠ .error := by
  rintro rfl
  exact h

theorem isError_eq_false (h : type ≠ .error) : type.isError = false := by cases type <;> simp_all [isError]

theorem promote_eq_some {a b common : Ty} (ha : a ≠ .error) (hb : b ≠ .error) (h : promote a b = some common) :
    (a = common ∨ a.widensTo common = true) ∧ (b = common ∨ b.widensTo common = true) ∧ (common = a ∨ common = b) := by
  simp only [promote, isError_eq_false ha, isError_eq_false hb, Bool.or_self, Bool.false_eq_true, if_false] at h
  split at h
  · rename_i hab
    cases h
    simp only [Bool.or_eq_true, decide_eq_true_eq] at hab
    exact ⟨.inl rfl, hab.imp_left Eq.symm, .inl rfl⟩
  · split at h
    · rename_i hw
      cases h
      exact ⟨.inr hw, .inl rfl, .inr rfl⟩
    · cases h

end Ty

/-- The conversion that is recorded for a value of one type used as another. -/
def Ty.conversion? (source target : Ty) : Option Ty :=
  if source.widensTo target then some target else none

variable {C : TypingContext} {expr : Expr}

theorem TypingContext.usedAs_of_conversion? {source target : Ty} (ht : C.typeOf expr = source)
    (hc : C.function.coercions.get? expr.id = source.conversion? target)
    (h : source = target ∨ source.widensTo target = true) : C.UsedAs expr target := by
  unfold UsedAs usedType Unconverted
  rw [hc, ht, conversion?]
  by_cases hw : source.widensTo target = true
  · simp [hw]
  · obtain rfl := h.resolve_right hw
    simp [hw]

theorem TypingContext.usedAs_of_unconverted {type : Ty}
    (ht : C.typeOf expr = type) (hc : C.Unconverted expr) : C.UsedAs expr type := by
  refine usedAs_of_conversion? ht (hc.trans ?_) (.inl rfl)
  simp [conversion?, widensTo_self]

def conversionsOf (ids : List ExprId) : Set Cell := {cell | ∃ id ∈ ids, cell = .conversion id}

@[simp] theorem mem_conversionsOf {ids : List ExprId} {id : ExprId} :
    .conversion id ∈ conversionsOf ids ↔ id ∈ ids := by simp [conversionsOf]

theorem conversionsOf_subset {ids ids' : List ExprId} (h : ids ⊆ ids') : conversionsOf ids ⊆ conversionsOf ids' := by
  rintro _ ⟨id, hid, rfl⟩
  exact ⟨id, h hid, rfl⟩

theorem conversionsOf_subset_sdiff {ids ids' ids'' : List ExprId} (h : ids ⊆ ids')
    (hd : ∀ id ∈ ids, id ∉ ids'') : conversionsOf ids ⊆ conversionsOf ids' \ conversionsOf ids'' := by
  rintro _ ⟨id, hid, rfl⟩
  exact ⟨⟨id, h hid, rfl⟩, by simpa using hd id hid⟩

namespace Check

variable {ctx : CheckContext} {units : List SourceUnit} {Γ : List Local} {depth : Nat}
  {s s' t : CheckState} {α : Type}
variable {type : Ty} {span : FileSpan}
variable {seen : Table Nat FileSpan} {inits : List (Init × Ty)} {args : List (Expr × Ty)} {structs : Nat}
  {positions : List Nat} {error : TypeError} {u : Unit} {value : Literal} {name : String} {id : ExprId}
variable {found : Ty}

/-! ## Reports and conversions -/

theorem report_not_clean (h : (report error : Check _).run s = .ok (u, s')) : s'.errors ≠ [] := by
  obtain rfl := run_modify_eq_ok.mp h
  simp

theorem fail_not_clean {a answer : α} (h : (do report error; return answer : Check _).run s = .ok (a, s')) :
    s'.errors ≠ [] := by
  obtain ⟨_, _, hr, hp⟩ := run_bind_eq_ok.mp h
  obtain ⟨-, rfl⟩ := run_pure_eq_ok.mp hp
  exact report_not_clean hr

theorem annotatedType_cases {expr : TypeExpr} (h : (annotatedType ctx expr : Check _).run s = .ok (type, s')) :
    (s = s' ∧ ctx.decls.resolveType ctx.unitName expr = (.ok (.ok type) : Except Fault _)) ∨ s'.errors ≠ [] := by
  obtain ⟨outcome, s1, hlift, hrest⟩ := run_bind_eq_ok.mp h
  obtain ⟨hr, rfl⟩ := run_lift_eq_ok.mp hlift
  cases outcome with
  | ok found =>
    obtain ⟨rfl, rfl⟩ := run_pure_eq_ok.mp hrest
    exact .inl ⟨rfl, hr⟩
  | error error => exact .inr (fail_not_clean hrest)

theorem declareLocal_ok {storage : Storage} {declared : Option BindingId}
    (h : (declareLocal name type storage span : Check _).run s = .ok (declared, s')) (hq : s'.errors = []) :
    ∃ binding symbols depth, s.symbols.declare name type storage span = (.ok (.ok binding, symbols) : Except Fault _) ∧
      symbols.loopDepth = .ok depth ∧ declared = some binding ∧ s' = s.withLocal symbols binding type depth := by
  rcases declareLocal_eq_ok.mp h with h | ⟨error, -, -, rfl⟩
  · exact h
  · exact absurd (congrArg length hq) (by simp)

theorem var_ok (h : (var id name span : Check _).run s = .ok (type, s')) (hq : s'.errors = []) :
    ∃ binding : Binding Ty, s.symbols.resolve name span = (.ok (.ok binding) : Except Fault _) ∧ type = binding.type ∧
      s' = { s with function := { s.function with refs := s.function.refs.insert id binding.id } } := by
  simp only [var, run_bind_eq_ok, run_lift_eq_ok] at h
  obtain ⟨_, _, ⟨rfl, rfl⟩, outcome, _, ⟨hr, rfl⟩, h⟩ := h
  cases outcome with
  | error error => exact absurd hq (fail_not_clean h)
  | ok binding =>
    obtain ⟨_, _, hn, hp⟩ := run_bind_eq_ok.mp h
    obtain rfl := run_modify_eq_ok.mp hn
    obtain ⟨rfl, rfl⟩ := run_pure_eq_ok.mp hp
    exact ⟨binding, hr, rfl, rfl⟩

/-- An expression, if it has the type that was found, is used as a value of another type. -/
def Converted (ctx : CheckContext) (id : ExprId) (found type : Ty) (t : CheckState) : Prop :=
  ∀ expr : Expr, expr.id = id → (ctx.typing t).typeOf expr = found → (ctx.typing t).UsedAs expr type

theorem converted_of_conversion? (h : t.function.coercions.get? id = found.conversion? type)
    (hw : found = type ∨ found.widensTo type = true) : Converted ctx id found type t := by
  rintro expr rfl ht
  exact usedAs_of_conversion? ht h hw

section

variable (hs : s.Consistent ctx Γ depth) {id : ExprId}
include hs

theorem ensures_conversion : Ensures ctx Γ depth (conversionsOf [id]) []
      (note fun f => { f with coercions := f.coercions.insert id type }) s fun _ t =>
        t.function.coercions.get? id = some type := by
  refine (Ensures.note hs (s.function.updates_insert.1 id type)).mono ?_ fun _ s' t _ h a => ?_
  · rintro _ rfl
    exact ⟨id, mem_singleton_self _, rfl⟩
  · exact ⟨rfl, Eq.trans (h (.conversion id) rfl) (get?_insert_self ..), a⟩

theorem ensures_coerce {source target : Ty} :
    Ensures ctx Γ depth (conversionsOf [id]) [] (coerce id source target) s fun _ t =>
      t.function.coercions.get? id = source.conversion? target := by
  unfold coerce conversion?
  split
  · exact ensures_conversion hs
  · exact .pure hs fun t hb => ⟨rfl, hb.unconverted (by simp), .nil rfl⟩

theorem ensures_assignable {found expected : Ty} (hf : found ≠ .error) (he : expected ≠ .error) :
    Ensures ctx Γ depth (conversionsOf [id]) []
      (if found.assignableTo expected then coerce id found expected else report error) s fun _ t =>
        Converted ctx id found expected t := by
  split
  · rename_i ha
    have hw : found = expected ∨ found.widensTo expected = true := by
      simpa [assignableTo, isError_eq_false hf, isError_eq_false he] using ha
    exact (ensures_coerce hs).mono subset_rfl fun _ _ t _ h a =>
      ⟨rfl, converted_of_conversion? h hw, a⟩
  · exact .report

theorem ensures_common {left right common : Ty} (hl : left ≠ .error)
    (hr : right ≠ .error) (hp : promote left right = some common) {lhs rhs : ExprId} (hne : lhs ≠ rhs) :
    Ensures ctx Γ depth (conversionsOf [lhs, rhs]) [] (do
      coerce lhs left common
      coerce rhs right common
      return common) s fun type t =>
        Converted ctx lhs left type t ∧ Converted ctx rhs right type t ∧ (type = left ∨ type = right) := by
  obtain ⟨hlc, hrc, hcommon⟩ := promote_eq_some hl hr hp
  refine (ensures_coerce hs).bind (conversionsOf_subset (by simp)) fun _ s1 hs1 _ _ => ?_
  refine (ensures_coerce hs1).bind
    (conversionsOf_subset_sdiff (by simp) (by simpa using hne.symm)) fun _ s2 hs2 _ _ => ?_
  exact .pure hs2 fun t _ _ hcr ar _ hcl al =>
    ⟨rfl, ⟨converted_of_conversion? hcl hlc, converted_of_conversion? hcr hrc, hcommon⟩, al.append ar⟩

end

theorem expectBool_ok (h : (expectBool ctx expr found : Check _).run s = .ok (u, s'))
    (hq : s'.errors = []) (hf : found ≠ .error) : s' = s ∧ found = .bool := by
  unfold expectBool at h
  split at h
  · rename_i hb
    obtain ⟨-, rfl⟩ := run_pure_eq_ok.mp h
    simpa [isError_eq_false hf] using hb
  · exact absurd hq (report_not_clean h)

/-! ## Literals and names -/

theorem binding?_of_item? (hs : s.Consistent ctx Γ depth) {id : BindingId} {item : Binding Ty}
    (h : ctx.decls.index.item? id = some item) : s.symbols.binding? id = some item := by
  cases id with
  | «local» => cases h
  | item =>
    rw [SymbolTable.binding?, hs.index]
    exact h

theorem literal_ok (h : (literal value span : Check _).run s = .ok (type, s')) (hq : s'.errors = []) :
    s' = s ∧ value.type span = .ok type := by
  unfold literal at h
  split at h
  · rename_i hv
    obtain ⟨rfl, rfl⟩ := run_pure_eq_ok.mp h
    exact ⟨rfl, hv⟩
  · exact absurd hq (fail_not_clean h)

theorem proper_literal (h : value.type span = .ok type) : type.Proper structs := by
  cases value with
  | int value bits =>
    simp only [Literal.type] at h
    split at h <;> [skip; cases h]
    rename_i hb
    split at h <;> cases h
    simpa [Proper] using hb
  | float value bits =>
    simp only [Literal.type] at h
    split at h <;> [skip; cases h]
    rename_i hb
    cases h
    simpa [Proper] using hb
  | bool => cases h; exact trivial
  | unit => cases h; exact trivial
  | cString => cases h; exact .inl rfl

/-- Where a name that is resolved was found. -/
theorem found_of_resolve {τ : Type} {t : SymbolTable τ}
    {binding : Binding τ} (h : t.resolve name span = (.ok (.ok binding) : Except Fault _)) :
    (Name.isQualified name = true ∧ t.index.lookup? name = some binding) ∨
      (Name.isQualified name = false ∧ ∃ entry, t.tree.lookup t.current name = .ok (some entry) ∧
        t.binding? entry.binding = some binding) := by
  unfold SymbolTable.resolve SymbolTable.item? SymbolTable.visible? at h
  by_cases hqual : Name.isQualified name = true
  · simp only [hqual, if_true, Names.find?, pure_bind] at h
    split at h
    · simp only [pure, Except.pure, Except.ok.injEq] at h
      subst h
      exact .inl ⟨hqual, by assumption⟩
    · cases h
  · simp only [hqual, Bool.false_eq_true, if_false, Names.find?, pure_bind, bind_eq_ok] at h
    obtain ⟨found, ⟨entry, hentry, hfound⟩, h⟩ := h
    cases hfound
    split at h
    · rename_i found hfound
      simp only [pure, Except.pure, Except.ok.injEq] at h
      subst h
      obtain ⟨entry, rfl, hrecord⟩ := Option.bind_eq_some_iff.mp hfound
      exact .inr ⟨by simpa using hqual, entry, hentry, hrecord⟩
    · simp only [bind_eq_ok] at h
      obtain ⟨keys, -, visible, -, h⟩ := h
      cases h

theorem resolve_ok {binding : Binding Ty} (hs : s.Consistent ctx Γ depth)
    (h : s.symbols.resolve name span = (.ok (.ok binding) : Except Fault _)) :
    (∃ x ∈ Γ, local? Γ name = some x ∧ binding.id = x.binding ∧
        s.function.localTypes.get? x.binding = some binding.type ∧
        binding.type.Proper ctx.decls.structs.size) ∨
      (local? Γ name = none ∧ binding ∈ ctx.decls.index.items.toList ∧ ctx.decls.index.lookup?
          (if Name.isQualified name then name else Name.path [ctx.unitName, name]) = some binding ∧
        (Name.isQualified name = false → binding.unit = s.symbols.unit ∧ binding.name = name)) := by
  unfold local?
  rcases found_of_resolve h with ⟨hqual, hfound⟩ | ⟨hqual, entry, hentry, hrecord⟩
  · rw [hs.index] at hfound
    simp only [hqual, if_true]
    exact .inr ⟨trivial, Declarations.WellFormed.mem_of_lookup? hfound, hfound, nofun⟩
  · simp only [hqual]
    obtain ⟨answer, hanswer, hbinding⟩ := hs.shows.lookup
    obtain rfl : answer = some entry := by
      rw [hanswer] at hentry
      exact Except.ok.inj hentry
    cases hlocal : Local.find? name Γ with
    | some x =>
      simp only [hlocal, Option.map_some, Option.some_or, Option.some.injEq] at hbinding
      have hx := Local.mem_of_find? hlocal
      obtain ⟨i, record, hb, hl, hid, -, ht, -, hproper⟩ := hs.locals x hx
      rw [hbinding, hb, SymbolTable.binding?, if_pos rfl, hl, Option.some.injEq] at hrecord
      subst hrecord
      exact .inl ⟨x, hx, rfl, hid, ht, hproper⟩
    | none =>
      simp only [hlocal] at hbinding
      obtain ⟨root, hroot, heq⟩ := Option.map_eq_some_iff.mp hbinding.symm
      obtain ⟨item, hitem, hid, hown⟩ := hs.items hroot
      rw [heq] at hid
      rw [binding?_of_item? hs hid, Option.some.injEq] at hrecord
      subst hrecord
      exact .inr ⟨rfl, Declarations.WellFormed.mem_of_lookup? hitem, hitem, fun _ => hown⟩

theorem ensures_var (hw : ctx.decls.WellFormed units) (hs : s.Consistent ctx Γ depth) :
    Ensures ctx Γ depth {.ref id} [] (var id name span) s fun type t =>
      type.Proper ctx.decls.structs.size ∧ t.function.ItemNamed ctx.decls t.symbols.unit id name ∧
        (t.function.typeOf id = type → (ctx.typing t).VarTyped Γ id name) := by
  intro type s' h hq _
  obtain ⟨binding, hr, rfl, rfl⟩ := var_ok h hq
  have hp := CheckState.Progress.update (s.function.updates_insert.2.1 id binding.id)
  refine ⟨Γ, hs.progress hp hs.shows, hp, fun t ht => ⟨rfl, ?_, .nil rfl⟩⟩
  have href : t.function.refs.get? id = some binding.id :=
    Eq.trans (ht.same (.ref id) rfl) (get?_insert_self ..)
  rcases resolve_ok hs hr with ⟨x, hx, hl, hid, hlt, hproper⟩ | ⟨hl, hmem, hitem, hown⟩
  · obtain ⟨i, record, hb, hli, -⟩ := hs.locals x hx
    refine ⟨hproper, fun _ {found item} hf hi => ?_, fun htype => ?_⟩
    · obtain rfl : binding.id = found := Option.some.inj (href.symm.trans hf)
      rw [hid, hb] at hi
      cases hi
    have hk := (ht.known i (lt_of_getElem? hli)).1
    rw [← hb] at hk
    simp only [VarTyped, hl]
    exact ⟨hid ▸ href, by rw [hk, hlt, htype]⟩
  · refine ⟨hw.proper_item hmem, fun hqual {found item} hf hi => ?_, fun htype => ?_⟩
    · obtain rfl : binding.id = found := Option.some.inj (href.symm.trans hf)
      obtain rfl : binding = item := Option.some.inj ((hw.item?_id hmem).symm.trans hi)
      exact ht.unit ▸ hown hqual
    simp only [VarTyped, hl]
    exact ⟨binding, hitem, href, htype⟩

/-! ## Operators -/

theorem ensures_unify (hs : s.Consistent ctx Γ depth) {lhs rhs : ExprId × Ty} (hl : lhs.2 ≠ .error)
    (hr : rhs.2 ≠ .error) (hne : lhs.1 ≠ rhs.1) {accepts : Ty → Bool} {what : String} {site : FileSpan} :
    Ensures ctx Γ depth (conversionsOf [lhs.1, rhs.1]) [] (unify ctx lhs rhs accepts what site) s
      fun type t => Converted ctx lhs.1 lhs.2 type t ∧ Converted ctx rhs.1 rhs.2 type t ∧
        (type = lhs.2 ∨ type = rhs.2) ∧ accepts type = true := by
  unfold unify
  split
  · exact .fail
  rename_i hacc
  have hacc' : accepts lhs.2 = true ∧ accepts rhs.2 = true := by
    simpa [isError_eq_false hl, isError_eq_false hr] using hacc
  split
  · rename_i common hp
    refine (ensures_common hs hl hr hp hne).mono subset_rfl fun type _ t _ h a => ⟨rfl, ?_, a⟩
    obtain ⟨hcl, hcr, hcommon⟩ := h
    refine ⟨hcl, hcr, hcommon, ?_⟩
    rcases hcommon with rfl | rfl
    · exact hacc'.1
    · exact hacc'.2
  · exact .fail

theorem ensures_binary (hs : s.Consistent ctx Γ depth) {left right : Ty} (hl : left.Proper structs)
    (hr : right.Proper structs) {lhs rhs : Expr} (hne : lhs.id ≠ rhs.id) {op : BinaryOp} :
    Ensures ctx Γ depth (conversionsOf [lhs.id, rhs.id]) [] (binary ctx op lhs rhs left right span) s
      fun type t => type.Proper structs ∧ ((ctx.typing t).typeOf lhs = left →
        (ctx.typing t).typeOf rhs = right → ∀ id, t.function.typeOf id = type →
          (ctx.typing t).BinaryTyped id op lhs rhs) := by
  have hle := ne_error_of_proper hl
  have hre := ne_error_of_proper hr
  -- The rules with a common type differ in what they ask of it and in the type of the result.
  have common : ∀ accepts what, Ensures ctx Γ depth (conversionsOf [lhs.id, rhs.id]) []
      (unify ctx (lhs.id, left) (rhs.id, right) accepts what span) s fun type t =>
        (type.Proper structs ∧ accepts type = true) ∧ ((ctx.typing t).typeOf lhs = left →
          (ctx.typing t).typeOf rhs = right → (ctx.typing t).UsedAs lhs type ∧ (ctx.typing t).UsedAs rhs type ∧
            (type = (ctx.typing t).typeOf lhs ∨ type = (ctx.typing t).typeOf rhs)) := by
    intro accepts what
    refine (ensures_unify hs hle hre hne).mono subset_rfl fun type _ t _ h a =>
      ⟨rfl, ⟨⟨?_, h.2.2.2⟩, fun htl htr => ⟨h.1 lhs rfl htl, h.2.1 rhs rfl htr, htl ▸ htr ▸ h.2.2.1⟩⟩, a⟩
    rcases h.2.2.1 with rfl | rfl
    · exact hl
    · exact hr
  unfold binary
  by_cases hlog : op.isLogical = true
  · simp only [hlog]
    refine .asking (fun h hq => expectBool_ok h hq hle) fun _ hleft =>
      .asking (fun h hq => expectBool_ok h hq hre) fun _ hright =>
        .pure hs fun t hb => ⟨rfl, ⟨trivial, fun htl htr id ht => ?_⟩, .nil rfl⟩
    simp only [BinaryTyped, hlog]
    exact ⟨usedAs_of_unconverted (htl.trans hleft) (hb.unconverted (by simp)),
      usedAs_of_unconverted (htr.trans hright) (hb.unconverted (by simp)), ht⟩
  simp only [hlog]
  by_cases harith : op.isArithmetic = true
  · simp only [harith]
    refine (common _ _).mono subset_rfl fun type _ t _ h a => ⟨rfl, ⟨h.1.1, fun htl htr id ht => ?_⟩, a⟩
    obtain ⟨hul, hur, hof⟩ := h.2 htl htr
    simp only [BinaryTyped, hlog, harith]
    exact ⟨type, hul, hur, hof, h.1.2, ht⟩
  simp only [harith]
  by_cases hbit : op.isBitwise = true
  · simp only [hbit]
    refine (common _ _).mono subset_rfl fun type _ t _ h a => ⟨rfl, ⟨h.1.1, fun htl htr id ht => ?_⟩, a⟩
    obtain ⟨hul, hur, hof⟩ := h.2 htl htr
    simp only [BinaryTyped, hlog, harith, hbit]
    exact ⟨type, hul, hur, hof, h.1.2, ht⟩
  simp only [hbit]
  have compared : ∀ {accepts what}, (∀ type, accepts type = true →
      if op = .eq ∨ op = .ne then isEquatable type = true else type.isNumeric = true) →
      Ensures ctx Γ depth (conversionsOf [lhs.id, rhs.id]) [] (do
        let common ← unify ctx (lhs.id, left) (rhs.id, right) accepts what span
        return if common.isError then .error else .bool) s fun type t => type.Proper structs ∧
          ((ctx.typing t).typeOf lhs = left → (ctx.typing t).typeOf rhs = right →
            ∀ id, t.function.typeOf id = type → (ctx.typing t).BinaryTyped id op lhs rhs) := by
    intro accepts what hacc
    refine (common accepts what).bind subset_rfl fun type s1 hs1 _ h1 => .pure hs1 fun t _ _ h a => ?_
    have hbool : (if type.isError = true then error else .bool) = .bool := by
      simp [isError_eq_false (ne_error_of_proper h1.1.1)]
    rw [hbool]
    refine ⟨rfl, ⟨trivial, fun htl htr id ht => ?_⟩, a⟩
    obtain ⟨hul, hur, hof⟩ := h.2 htl htr
    simp only [BinaryTyped, hlog, harith, hbit]
    exact ⟨type, hul, hur, hof, hacc type h.1.2, ht⟩
  by_cases heq : op = .eq ∨ op = .ne
  · simp only [Bool.or_eq_true, decide_eq_true_eq, heq] at compared ⊢
    exact compared fun _ h => h
  · simp only [Bool.or_eq_true, decide_eq_true_eq, heq] at compared ⊢
    exact compared fun _ h => h

/-! ## Places -/

section Places

variable {id : ExprId}

/-- The root of a variable is its local; an item is a place if it is a global. -/
theorem placeRoot_var (span : FileSpan) (hw : ctx.decls.WellFormed units) (hs : s.Consistent ctx Γ depth)
    (hrefs : t.function.refs.get? id = s.function.refs.get? id) (ht : (ctx.typing t).VarTyped Γ id name) :
    (∃ x, local? Γ name = some x ∧ placeRoot s (.var id span name) = .binding x.binding) ∨
    (local? Γ name = none ∧ placeRoot s (.var id span name) = .notAPlace) ∨
    (local? Γ name = none ∧ placeRoot s (.var id span name) = .memory ∧
      (ctx.typing t).Stored Γ (.var id span name)) := by
  simp only [VarTyped] at ht
  simp only [placeRoot, Stored]
  cases hl : local? Γ name with
  | some x =>
    simp only [hl] at ht
    obtain ⟨i, record, hb, hli, hid, hst, -⟩ := hs.locals x (mem_of_local? hl)
    have hfound : s.symbols.binding? x.binding = some record := by rw [hb, SymbolTable.binding?, if_pos rfl, hli]
    rw [← hrefs, ht.1]
    simp only [hfound]
    rcases hst with hst | hst <;> exact .inl ⟨x, rfl, by simp only [hst]⟩
  | none =>
    simp only [hl] at ht
    obtain ⟨item, hitem, hr, -⟩ := ht
    have hmem := Declarations.WellFormed.mem_of_lookup? hitem
    rw [← hrefs, hr]
    simp only [binding?_of_item? hs (hw.item?_id hmem)]
    rcases hw.kinds item hmem with ⟨hst, -⟩ | ⟨hst, -⟩
    · exact .inr (.inr ⟨trivial, by simp only [hst], item, hitem, hst⟩)
    · exact .inr (.inl ⟨trivial, by simp only [hst]⟩)

theorem same_of_cells (h : ∀ cell ∈ expr.cells, t.function.Same s.function cell) (hid : .expr id ∈ expr.nodes) :
    t.function.typeOf id = s.function.typeOf id ∧ t.function.refs.get? id = s.function.refs.get? id :=
  ⟨h (.type id) (Expr.mem_cells.mpr ⟨hid, by simp⟩), h (.ref id) (Expr.mem_cells.mpr ⟨hid, by simp⟩)⟩

/-- A place whose root, if that is a local, is kept in memory stands for memory. -/
theorem stored_of_placeRoot (hw : ctx.decls.WellFormed units) (hs : s.Consistent ctx Γ depth) :
    ∀ (expr : Expr), (∀ id, .expr id ∈ expr.nodes → t.function.typeOf id = s.function.typeOf id ∧
        t.function.refs.get? id = s.function.refs.get? id) →
      (ctx.typing t).Typed Γ depth expr →
      match placeRoot s expr with
      | .notAPlace => True
      | .memory => (ctx.typing t).Stored Γ expr
      | .binding binding => t.function.root? expr = some binding ∧
          (t.function.isMemoryResident binding = true → (ctx.typing t).Stored Γ expr)
  | .var id span name, hF, ht => by
    have hrefs : t.function.refs.get? id = s.function.refs.get? id := (hF id (Expr.id_mem_nodes _)).2
    simp only [Typed] at ht
    rcases placeRoot_var span hw hs hrefs ht with ⟨x, hl, hroot⟩ | ⟨-, hroot⟩ | ⟨-, hroot, hst⟩
    · simp only [VarTyped, hl] at ht
      simp only [hroot, Stored, hl]
      exact ⟨ht.1, fun hm => hm⟩
    · simp only [hroot]
    · simp only [hroot]
      exact hst
  | .field id span base name, hF, ht => by
    obtain ⟨hbase, -, ref, struct, field, href, hty, -⟩ := ht
    have hty : t.function.typeOf base.id =
        if ref.throughPointer then .ptr (.aggregate ref.struct) else .aggregate ref.struct := hty
    have hsub : base.nodes ⊆ (Expr.field id span base name).nodes := by simp [Expr.nodes]
    have htype : s.function.typeOf base.id = t.function.typeOf base.id :=
      (hF base.id (hsub base.id_mem_nodes)).1.symm
    have ih := stored_of_placeRoot hw hs base (fun id hid => hF id (hsub hid)) hbase
    simp only [placeRoot, CheckedFunction.root?, htype, hty]
    cases hp : ref.throughPointer with
    | true => exact ⟨ref, href, .inl hp⟩
    | false =>
      simp only [Bool.false_eq_true, if_false]
      split <;> rename_i hroot <;> rw [hroot] at ih
      · exact trivial
      · exact ⟨ref, href, .inr ih⟩
      · exact ⟨ih.1, fun hm => ⟨ref, href, .inr (ih.2 hm)⟩⟩
  | .unary id span op operand, _, _ => by cases op <;> simp [placeRoot, Stored]
  | .literal .., _, _ | .binary .., _, _ | .call .., _, _ | .assign .., _, _ | .cond .., _, _
  | .loop .., _, _ | .block .., _, _ | .structLiteral .., _, _ | .breakLoop .., _, _
  | .continueLoop .., _, _ => by simp [placeRoot]

/-- The address of an operand is taken. What is recorded about the operand is read, as it still is
later. -/
theorem declares_addressOf (hw : ctx.decls.WellFormed units) (hs : s.Consistent ctx Γ depth)
    (site : Site) (id : ExprId) (span : FileSpan) (operand : Expr) (type : Ty) :
    Declares ctx depth ∅ (addressOf operand type) s fun result Γ' s' t =>
      Γ' = Γ ∧ type ≠ .unit ∧ result = .ptr type ∧ ((∀ cell ∈ operand.cells, t.function.Same s.function cell) →
          (ctx.typing t).Typed Γ depth operand → (ctx.typing t).Stored Γ operand ∧
            t.Accounts ctx [(site, .expr (.unary id span .addrOf operand))] s s') := by
  intro result s' h hq _
  have hplace := fun t hcells =>
    stored_of_placeRoot (t := t) hw hs operand fun id hid => same_of_cells hcells hid
  simp only [addressOf, run_bind_eq_ok] at h
  obtain ⟨_, _, ⟨rfl, rfl⟩, h⟩ := h
  have hend : ∀ {s1 : CheckState}, (pointerTo operand type : Check _).run s1 = .ok (result, s') →
      s1 = s' ∧ type ≠ .unit ∧ result = .ptr type := by
    intro s1 h1
    unfold pointerTo at h1
    split at h1
    · exact absurd hq (fail_not_clean h1)
    · rename_i hu
      obtain ⟨rfl, rfl⟩ := run_pure_eq_ok.mp h1
      exact ⟨rfl, fun he => hu (isUnit_eq_true.mpr he), rfl⟩
  cases hroot : placeRoot s operand with
  | notAPlace =>
    simp only [hroot] at h
    exact absurd hq (fail_not_clean h)
  | memory =>
    simp only [hroot] at h hplace
    obtain ⟨rfl, hu, rfl⟩ := hend h
    exact ⟨Γ, hs, .refl _ _, fun t _ => ⟨rfl, hu, rfl, fun hcells ht => ⟨hplace t hcells ht, .single rfl trivial⟩⟩⟩
  | binding binding =>
    simp only [hroot] at h hplace
    obtain ⟨_, s1, hk, h⟩ := run_bind_eq_ok.mp h
    obtain ⟨rfl, hu, rfl⟩ := hend h
    obtain rfl := run_modify_eq_ok.mp hk
    have hp := CheckState.Progress.keepInMemory ∅ s binding
    refine ⟨Γ, hs.progress hp hs.shows, hp, fun t ht => ⟨rfl, hu, rfl, fun hcells htyped => ?_⟩⟩
    obtain ⟨hr, hst⟩ := hplace t hcells htyped
    exact ⟨hst (ht.memory _ (CheckedFunction.isMemoryResident_keepInMemory ..)), .keepInMemory trivial hr⟩

theorem declares_unary (hw : ctx.decls.WellFormed units) (hs : s.Consistent ctx Γ depth)
    (hproper : type.Proper ctx.decls.structs.size) (site : Site) (id : ExprId) (span : FileSpan)
    (op : UnaryOp) (operand : Expr) : Declares ctx depth ∅ (unary ctx op operand type) s fun result Γ' s' t =>
      Γ' = Γ ∧ result.Proper ctx.decls.structs.size ∧ ((∀ cell ∈ operand.cells, t.function.Same s.function cell) →
          (ctx.typing t).Typed Γ depth operand →
          ((ctx.typing t).typeOf operand = type → (ctx.typing t).Unconverted operand →
            t.function.typeOf id = result → (ctx.typing t).UnaryTyped Γ id op operand) ∧
          t.Accounts ctx [(site, .expr (.unary id span op operand))] s s') := by
  unfold unary
  rw [isError_eq_false (ne_error_of_proper hproper)]
  simp only [Bool.false_eq_true, if_false]
  cases op with
  | neg =>
    dsimp only
    split
    · rename_i hn
      exact .pure hs fun t _ => ⟨rfl, hproper, fun _ _ => ⟨fun ht hc hid =>
        ⟨hc, (congrArg isNumeric ht).trans hn, hid.trans ht.symm⟩, .single rfl trivial⟩⟩
    · exact .fail
  | not =>
    dsimp only
    split
    · rename_i hn
      simp only [Bool.or_eq_true, decide_eq_true_eq] at hn
      exact .pure hs fun t _ => ⟨rfl, hproper, fun _ _ => ⟨fun ht hc hid =>
        ⟨hc, hn.imp ((congrArg isInt ht).trans ·) (Eq.trans ht), hid.trans ht.symm⟩, .single rfl trivial⟩⟩
    · exact .fail
  | deref =>
    dsimp only
    split
    · exact .pure hs fun t _ => ⟨rfl, hproper, fun _ _ => ⟨fun ht hc hid =>
        ⟨hc, by rw [hid]; exact ht⟩, .single rfl trivial⟩⟩
    · exact .fail
  | addrOf =>
    refine (declares_addressOf hw hs site id span operand type).mono subset_rfl fun result Γ' s' t _ h => ?_
    obtain ⟨rfl, hu, rfl, h⟩ := h
    refine ⟨rfl, hproper, fun hcells htyped => ?_⟩
    obtain ⟨hst, a⟩ := h hcells htyped
    refine ⟨fun ht hc hid => ⟨hc, hst, fun he => hu (ht.symm.trans he), ?_⟩, a⟩
    rw [hid]
    exact congrArg ptr ht.symm

theorem declares_assignmentTarget (hw : ctx.decls.WellFormed units) {site : Site}
    (hs : s.Consistent ctx Γ site.loops) (id : ExprId) (span : FileSpan) (target value : Expr) :
    Declares ctx site.loops ∅ (assignmentTarget target) s fun _ Γ' s' t => Γ' = Γ ∧
      ((∀ cell ∈ target.cells, t.function.Same s.function cell) →
        (ctx.typing t).Typed Γ site.loops target → (ctx.typing t).Assignable Γ site.loops target ∧
          t.Accounts ctx [(site, .expr (.assign id span target value))] s s') := by
  intro u s' h hq _
  have hplace := fun t hcells =>
    stored_of_placeRoot (t := t) hw hs target fun id hid => same_of_cells hcells hid
  simp only [assignmentTarget, run_bind_eq_ok] at h
  obtain ⟨_, _, ⟨rfl, rfl⟩, h⟩ := h
  cases hroot : placeRoot s target with
  | notAPlace =>
    simp only [hroot] at h
    exact absurd hq (report_not_clean h)
  | memory =>
    simp only [hroot] at h hplace
    obtain ⟨-, rfl⟩ := run_pure_eq_ok.mp h
    refine ⟨Γ, hs, .refl _ _, fun t _ => ⟨rfl, fun hcells ht => ⟨?_, .single rfl trivial⟩⟩⟩
    have hst := hplace t hcells ht
    unfold Assignable
    split
    · rename_i id span name
      simp only [Stored] at hst
      split
      · rename_i x hl
        simp only [hl] at hst
        exact fun _ => hst
      · rename_i hl
        simpa only [hl] using hst
    · exact hst
  | binding binding =>
    simp only [hroot] at h hplace
    have hp := CheckState.Progress.keepInMemory ∅ s binding
    cases target with
    | var varId varSpan name =>
      simp only [crossesLoop, run_bind_eq_ok, run_get_eq_ok, run_lift_eq_ok, run_pure_eq_ok] at h
      obtain ⟨_, _, ⟨_, _, ⟨rfl, rfl⟩, _, _, ⟨hd, rfl⟩, rfl, rfl⟩, h⟩ := h
      obtain rfl := Except.ok.inj (hs.shows.loopDepth.symm.trans hd)
      simp only [decide_eq_true_eq] at h
      have hlocal : ∀ {t}, s.Agrees ∅ t → (∀ cell ∈ (Expr.var varId varSpan name).cells,
          t.function.Same s.function cell) → (ctx.typing t).Typed Γ site.loops (.var varId varSpan name) →
          ∃ x, local? Γ name = some x ∧ x.binding = binding ∧
            s.depths.get? binding = some x.depth ∧ t.depths.get? binding = some x.depth := by
        intro t ht hcells htyped
        have hrefs := (same_of_cells hcells (Expr.id_mem_nodes _)).2
        rcases placeRoot_var varSpan hw hs hrefs htyped with ⟨x, hl, hx⟩ | ⟨-, hx⟩ | ⟨-, hx, -⟩
        · obtain rfl : x.binding = binding := PlaceRoot.binding.inj (hx.symm.trans hroot)
          obtain ⟨i, record, hb, hli, -, -, -, hdepth, -⟩ := hs.locals x (mem_of_local? hl)
          have hk := (ht.known i (lt_of_getElem? hli)).2
          rw [← hb] at hk
          exact ⟨x, hl, rfl, hdepth, hk.trans hdepth⟩
        · exact absurd (hx.symm.trans hroot) (by simp)
        · exact absurd (hx.symm.trans hroot) (by simp)
      split at h
      · rename_i hlt
        obtain rfl := run_modify_eq_ok.mp h
        refine ⟨Γ, hs.progress hp hs.shows, hp, fun t ht => ⟨rfl, fun hcells htyped => ?_⟩⟩
        obtain ⟨x, hl, rfl, hd, hd'⟩ := hlocal (ht.back hp (by simp)) hcells htyped
        refine ⟨?_, .keepInMemory trivial ⟨(hplace t hcells htyped).1, fun _ => ?_⟩⟩
        · simp only [Assignable, hl]
          exact fun _ => ht.memory _ (CheckedFunction.isMemoryResident_keepInMemory ..)
        · rw [hd']
          rw [hd] at hlt
          exact hlt
      · rename_i hlt
        obtain ⟨-, rfl⟩ := run_pure_eq_ok.mp h
        refine ⟨Γ, hs, .refl _ _, fun t ht => ⟨rfl, fun hcells htyped => ⟨?_, .single rfl trivial⟩⟩⟩
        obtain ⟨x, hl, rfl, hd, -⟩ := hlocal ht hcells htyped
        simp only [Assignable, hl]
        rw [hd] at hlt
        exact fun hlt' => absurd hlt' hlt
    | _ =>
      obtain rfl := run_modify_eq_ok.mp h
      refine ⟨Γ, hs.progress hp hs.shows, hp, fun t ht => ⟨rfl, fun hcells htyped => ?_⟩⟩
      obtain ⟨hr, hst⟩ := hplace t hcells htyped
      exact ⟨hst (ht.memory _ (CheckedFunction.isMemoryResident_keepInMemory ..)),
        .keepInMemory trivial ⟨hr, by simp [Expr.isVar]⟩⟩

end Places

/-! ## Calls -/

theorem ensures_arguments (hs : s.Consistent ctx Γ depth) {varargs : Bool} {params : List Ty}
    (harity : params.length ≤ args.length) (hextra : varargs = false → args.length ≤ params.length)
    (hargs : ∀ arg ∈ args, arg.2 ≠ .error) (hparams : ∀ param ∈ params, param ≠ .error)
    (hnd : (args.map (·.1.id)).Nodup) :
    Ensures ctx Γ depth (conversionsOf (args.map (·.1.id))) [] (arguments ctx args params) s fun _ t =>
      (∀ arg ∈ args, (ctx.typing t).typeOf arg.1 = arg.2) →
        (ctx.typing t).ArgsTyped varargs (args.map (·.1)) params := by
  induction args generalizing params s with
  | nil => exact .pure hs fun t _ => ⟨rfl, fun _ => length_eq_zero_iff.mp (Nat.le_zero.mp harity), .nil rfl⟩
  | cons arg rest ih =>
    obtain ⟨arg, found⟩ := arg
    rw [map_cons, nodup_cons] at hnd
    have hrest : ∀ arg ∈ rest, arg.2 ≠ .error := fun a ha => hargs a (.tail _ ha)
    have hsub : conversionsOf (rest.map (·.1.id)) ⊆
        conversionsOf (((arg, found) :: rest).map (·.1.id)) \ conversionsOf [arg.id] :=
      conversionsOf_subset_sdiff (by simp) fun id hid he => hnd.1 (mem_singleton.mp he ▸ hid)
    cases params with
    | cons param params =>
      refine (ensures_assignable hs (hargs _ (.head _)) (hparams _ (.head _))).bind
        (conversionsOf_subset (by simp)) fun _ s1 hs1 _ _ => ?_
      refine (ih hs1 (by simpa using harity) (by simpa using hextra) hrest
        (fun p hp => hparams p (.tail _ hp)) hnd.2).mono hsub fun _ _ t _ h a _ harg a1 => ?_
      refine ⟨rfl, fun ht => ⟨harg arg rfl (ht _ (.head _)), h fun a ha => ?_⟩, a1.append a⟩
      exact ht a (.tail _ ha)
    | nil =>
      have hva : varargs = true := by
        cases varargs with
        | true => rfl
        | false => exact absurd (hextra rfl) (by simp)
      have hother : ∀ {s1 : CheckState}, s1.Consistent ctx Γ depth →
          Ensures ctx Γ depth _ [] (arguments ctx rest []) s1 _ := fun hs1 =>
        ih hs1 (by simp) (by simp [hva]) hrest (by simp) hnd.2
      unfold arguments
      split
      · exact .report_bind
      rename_i hunit
      have hunit : found ≠ .unit := fun he => hunit (isUnit_eq_true.mpr he)
      split
      · rename_i type hx
        refine (ensures_conversion hs).bind (conversionsOf_subset (by simp)) fun _ s1 hs1 _ _ => ?_
        refine (hother hs1).mono hsub fun _ _ t _ h a _ hc a1 => ⟨rfl, fun ht => ⟨hva, ?_, h fun a ha => ?_⟩, a1.append a⟩
        · have ht := ht _ (.head _)
          simp only [PassedExtra, hc, ht, hx]
        · exact ht a (.tail _ ha)
      · rename_i hx
        refine (hother hs).mono (conversionsOf_subset (by simp)) fun _ _ t hb h a =>
          ⟨rfl, fun ht => ⟨hva, ?_, h fun a ha => ht a (.tail _ ha)⟩, a⟩
        have hc : t.function.coercions.get? arg.id = none := hb.unconverted (by simpa using hnd.1)
        have ht := ht _ (.head _)
        simp only [PassedExtra, hc, ht]
        exact ⟨hx, hunit⟩

theorem ensures_call (hs : s.Consistent ctx Γ depth) (hproper : type.Proper structs)
    (hargs : ∀ arg ∈ args, arg.2 ≠ .error) (hnd : (args.map (·.1.id)).Nodup) {callee : Expr} :
    Ensures ctx Γ depth (conversionsOf (args.map (·.1.id))) [] (call ctx callee type args span) s
      fun result t => result.Proper structs ∧ ((ctx.typing t).typeOf callee = type →
        (ctx.typing t).Unconverted callee → (∀ arg ∈ args, (ctx.typing t).typeOf arg.1 = arg.2) →
        ∀ id, t.function.typeOf id = result → (ctx.typing t).CallTyped id callee (args.map (·.1))) := by
  unfold call
  split
  · rename_i params result varargs
    split
    · exact .report_bind
    · rename_i harity
      simp only [Bool.or_eq_true, decide_eq_true_eq, Bool.and_eq_true, Bool.not_eq_true', not_or,
        not_and, Nat.not_lt] at harity
      have hparams : ∀ param ∈ params, param ≠ .error := fun p hp =>
        ne_error_of_proper (allProper_iff.mp hproper.1 p hp)
      refine (ensures_arguments hs harity.1 harity.2 hargs hparams hnd).bind subset_rfl fun _ s1 hs1 _ _ =>
        .pure hs1 fun t _ _ h a => ⟨rfl, ⟨hproper.2, fun ht hc hargs id hid => ?_⟩, a⟩
      exact ⟨hc, params, varargs, by rw [hid]; exact ht, h hargs⟩
  · exact absurd rfl (ne_error_of_proper hproper)
  · exact .fail

/-! ## Branches -/

theorem ensures_branches (hs : s.Consistent ctx Γ depth) {thenType elseType : Ty} (ht : thenType.Proper structs)
    (he : elseType.Proper structs) {thenBranch elseBranch : Expr} (hne : thenBranch.id ≠ elseBranch.id) :
    Ensures ctx Γ depth (conversionsOf [thenBranch.id, elseBranch.id]) []
      (branches ctx thenBranch elseBranch thenType elseType) s fun type t => type.Proper structs ∧
        (thenBranch.diverges = true → elseBranch.diverges = true → type = .unit) ∧
        ((ctx.typing t).typeOf thenBranch = thenType → (ctx.typing t).typeOf elseBranch = elseType →
          (ctx.typing t).BranchTyped type thenBranch ∧ (ctx.typing t).BranchTyped type elseBranch) := by
  have unconverted : ∀ {t : CheckState}, t.Blank (conversionsOf [thenBranch.id, elseBranch.id]) →
      (ctx.typing t).Unconverted thenBranch ∧ (ctx.typing t).Unconverted elseBranch :=
    fun hb => ⟨hb.unconverted (by simp), hb.unconverted (by simp)⟩
  unfold branches
  cases hdt : thenBranch.diverges with
  | false =>
    cases hde : elseBranch.diverges with
    | false =>
      dsimp only
      split
      · rename_i common hp
        refine (ensures_common hs (ne_error_of_proper ht) (ne_error_of_proper he) hp hne).mono subset_rfl
          fun type _ t _ h a => ⟨rfl, ⟨?_, by simp, fun htt hte =>
            ⟨.inl (h.1 _ rfl htt), .inl (h.2.1 _ rfl hte)⟩⟩, a⟩
        rcases h.2.2 with rfl | rfl
        · exact ht
        · exact he
      · exact .fail
    | true =>
      exact .pure hs fun t hb => ⟨rfl, ⟨ht, by simp, fun htt _ =>
        ⟨.inl (usedAs_of_unconverted htt (unconverted hb).1), .inr ⟨hde, (unconverted hb).2⟩⟩⟩, .nil rfl⟩
  | true =>
    cases hde : elseBranch.diverges with
    | false =>
      exact .pure hs fun t hb => ⟨rfl, ⟨he, by simp, fun _ hte => ⟨.inr ⟨hdt, (unconverted hb).1⟩,
        .inl (usedAs_of_unconverted hte (unconverted hb).2)⟩⟩, .nil rfl⟩
    | true =>
      exact .pure hs fun t hb => ⟨rfl, ⟨trivial, fun _ _ => rfl, fun _ _ =>
        ⟨.inr ⟨hdt, (unconverted hb).1⟩, .inr ⟨hde, (unconverted hb).2⟩⟩⟩, .nil rfl⟩

/-! ## Structs -/

theorem ensures_field (hw : ctx.decls.WellFormed units) (hs : s.Consistent ctx Γ depth) {baseType : Ty}
    (hproper : baseType ≠ .error) (id : ExprId) (base : Expr) (name : String) (span : FileSpan) :
    Ensures ctx Γ depth {.field id} [] (field ctx id baseType name span) s fun type t =>
      type.Proper ctx.decls.structs.size ∧ ((ctx.typing t).typeOf base = baseType →
        (ctx.typing t).Unconverted base → t.function.typeOf id = type → (ctx.typing t).FieldTyped id base) := by
  unfold field
  rw [isError_eq_false hproper]
  simp only [Bool.false_eq_true, if_false]
  split
  · exact .fail
  rename_i structId throughPointer hacc
  split
  · intro _ _ h
    exact absurd h run_throw_ne_ok
  rename_i struct hstruct
  split
  · exact .fail
  rename_i index fieldDef hfield
  have hget := (StructDef.getElem?_of_field? hfield).1
  refine (Ensures.note hs (s.function.updates_insert.2.2.1 id ⟨structId, index, throughPointer⟩)).bind subset_rfl
    fun _ s1 hs1 _ _ => .pure hs1 fun t _ _ h a => ⟨rfl, ⟨(hw.struct? hstruct hget).1, fun ht hc hid => ?_⟩, a⟩
  refine ⟨hc, ⟨structId, index, throughPointer⟩, struct, fieldDef,
    Eq.trans (h (.field id) rfl) (get?_insert_self ..), ?_, hstruct, hget, hid⟩
  rw [ht]
  unfold accessed? at hacc
  split at hacc <;> simp only [Option.some.injEq, reduceCtorEq] at hacc
  · obtain ⟨rfl, rfl⟩ := hacc
    rfl
  · obtain ⟨rfl, rfl⟩ := hacc
    rfl

theorem ensures_initializers (hs : s.Consistent ctx Γ depth) {id : StructId} {struct : StructDef}
    (hinits : ∀ init ∈ inits, init.2 ≠ .error) (hfields : ∀ field ∈ struct.fields, field.type ≠ .error)
    (hnd : (inits.map (·.1.value.id)).Nodup) (hpos : positions.Nodup)
    (hseen : ∀ position, seen.contains position = true ↔ position ∈ positions) :
    Ensures ctx Γ depth (conversionsOf (inits.map (·.1.value.id))) []
      (initializers ctx id struct inits positions seen) s fun answer t => answer.1.Nodup ∧
        (∀ position, answer.2.contains position = true ↔ position ∈ answer.1) ∧
        ∃ new, answer.1 = positions ++ new ∧ ((∀ init ∈ inits, (ctx.typing t).typeOf init.1.value = init.2) →
            List.Forall₂ (fun init position => ∃ field, struct.fields[position]? = some field ∧
              field.name = init.name ∧ (ctx.typing t).UsedAs init.value field.type) (inits.map (·.1)) new) := by
  induction inits generalizing positions seen s with
  | nil => exact .pure hs fun t _ => ⟨rfl, ⟨hpos, hseen, [], by simp, fun _ => .nil⟩, .nil rfl⟩
  | cons init rest ih =>
    obtain ⟨init, found⟩ := init
    rw [map_cons, nodup_cons] at hnd
    unfold initializers
    split
    · exact .report_bind
    rename_i index field hfield
    split
    · exact .report_bind
    rename_i hnone
    obtain ⟨hget, hname⟩ := StructDef.getElem?_of_field? hfield
    have hnew : index ∉ positions := fun hm => by
      rw [← hseen, contains_eq_true_iff] at hm
      obtain ⟨_, hm⟩ := hm
      rw [hnone] at hm
      cases hm
    have hpos' : (positions ++ [index]).Nodup := nodup_append.mpr ⟨hpos, by simp, by
      rintro a ha b hb rfl
      rw [mem_singleton] at hb
      exact hnew (hb ▸ ha)⟩
    have hseen' : ∀ position, (seen.insert index init.span).contains position = true ↔
        position ∈ positions ++ [index] := by
      intro position
      rw [contains_eq_true_iff, get?_insert, mem_append, ← hseen, contains_eq_true_iff]
      by_cases he : position = index <;> simp [he]
    refine (ensures_assignable hs (hinits _ (.head _)) (hfields _ (mem_of_getElem? hget))).bind
      (conversionsOf_subset (by simp)) fun _ s1 hs1 _ _ => ?_
    refine (ih hs1 (fun i hi => hinits i (.tail _ hi)) hnd.2 hpos' hseen').mono
      (conversionsOf_subset_sdiff (by simp) fun id hid he => hnd.1 (mem_singleton.mp he ▸ hid))
      fun answer _ t _ h a _ hvalue a1 => ⟨rfl, ?_, a1.append a⟩
    obtain ⟨hndp, hseen, new, hanswer, hnew⟩ := h
    refine ⟨hndp, hseen, index :: new, by simp [hanswer], fun ht => .cons ⟨field, hget, hname, ?_⟩ ?_⟩
    · exact hvalue _ rfl (ht _ (.head _))
    · exact hnew fun i hi => ht i (.tail _ hi)

theorem missingFields_ok {fields : List (FieldDef × Nat)}
    (h : (missingFields seen span fields : Check _).run s = .ok (u, s')) (hq : s'.errors = []) :
    s' = s ∧ ∀ field ∈ fields, seen.contains field.2 = true := by
  induction fields generalizing s with
  | nil =>
    obtain ⟨-, rfl⟩ := run_pure_eq_ok.mp (by unfold missingFields at h; exact h)
    exact ⟨rfl, by simp⟩
  | cons field rest ih =>
    unfold missingFields at h
    split at h
    · obtain ⟨_, s1, h1, h2⟩ := run_bind_eq_ok.mp h
      exact absurd (Cumulative.clean h2 hq) (report_not_clean h1)
    · rename_i hseen
      obtain ⟨rfl, hrest⟩ := ih h
      refine ⟨rfl, fun f hf => ?_⟩
      rcases mem_cons.mp hf with rfl | hf
      · simpa using hseen
      · exact hrest f hf

/-- Positions that are all in range, different and complete are as many as there are fields. -/
theorem length_positions {count : Nat} (hnd : positions.Nodup) (hlt : ∀ position ∈ positions, position < count)
    (hall : ∀ position < count, position ∈ positions) : positions.length = count := by
  have hperm : positions.Perm (range count) :=
    (perm_ext_iff_of_nodup hnd nodup_range).mpr fun position =>
      ⟨fun hm => mem_range.mpr (hlt position hm), fun hm => hall position (mem_range.mp hm)⟩
  simpa using hperm.length_eq

theorem ensures_structLiteral (hw : ctx.decls.WellFormed units) (hs : s.Consistent ctx Γ depth)
    (hinits : ∀ init ∈ inits, init.2 ≠ .error) (hnd : (inits.map (·.1.value.id)).Nodup) :
    Ensures ctx Γ depth (conversionsOf (inits.map (·.1.value.id)) ∪ {.literal id}) []
      (structLiteral ctx id name inits span) s fun type t => type.Proper ctx.decls.structs.size ∧
        ((∀ init ∈ inits, (ctx.typing t).typeOf init.1.value = init.2) →
          t.function.LiteralNamed ctx.decls id (inits.map (·.1)) ∧
          (t.function.typeOf id = type → (ctx.typing t).LiteralTyped id (inits.map (·.1)))) := by
  refine .asking (c := fun type => ?_)
    (fun h hq => ((annotatedType_cases h).resolve_right (absurd hq)).imp_left Eq.symm) fun type hresolved => ?_
  rotate_left
  · split
    · split <;> infer_instance
    · infer_instance
    · infer_instance
  have hproper := hw.resolveType hresolved
  split
  · rename_i structId
    split
    · intro _ _ h
      exact absurd h run_throw_ne_ok
    rename_i struct hstruct
    have hfields : ∀ field ∈ struct.fields, field.type ≠ .error := fun field hf =>
      ne_error_of_proper (hw.fields struct (Array.mem_toList_iff.mpr (Array.mem_of_getElem? hstruct)) field hf).1
    refine (ensures_initializers hs hinits hfields hnd nodup_nil (by simp [Table.contains])).bind
      Set.subset_union_left fun answer s1 hs1 _ _ => ?_
    obtain ⟨positions, seen⟩ := answer
    refine .asking (fun h hq => missingFields_ok h hq) fun _ hmissing => ?_
    refine (Ensures.note hs1 (s1.function.updates_insert.2.2.2.1 id ⟨structId, positions⟩)).bind ?_
      fun _ s2 hs2 _ _ => .pure hs2 fun t _ _ hlit a2 _ h a => ⟨rfl, ⟨hproper, fun ht => ?_⟩, a.append a2⟩
    · rintro _ rfl
      exact ⟨.inr rfl, by simp [conversionsOf]⟩
    obtain ⟨hndp, hseen, new, hpos, hnew⟩ := h
    obtain rfl : positions = new := by simpa using hpos
    have hget : t.function.structLiterals.get? id = some ⟨structId, positions⟩ :=
      Eq.trans (hlit (.literal id) rfl) (get?_insert_self ..)
    refine ⟨⟨_, struct, hget, hstruct, (hnew ht).imp ?_⟩, fun hid =>
      ⟨_, struct, hget, hstruct, hid, hndp, ?_, (hnew ht).imp ?_⟩⟩
    · rintro init position ⟨field, hf, hname, -⟩
      rw [hf, ← hname]
      rfl
    · refine length_positions hndp (fun position hm => ?_) fun position hlt => ?_
      · obtain ⟨_, -, field, hget, -⟩ := forall₂_exists_left (hnew ht) hm
        exact (List.getElem?_eq_some_iff.mp hget).1
      · rw [← hseen]
        have hm : (struct.fields[position], position) ∈ struct.fields.zipIdx :=
          mem_zipIdx_iff_getElem?.mpr (getElem?_eq_getElem hlt)
        exact hmissing _ hm
    · rintro init position ⟨field, hf, -, hused⟩
      exact ⟨field, hf, hused⟩
  · exact absurd rfl (ne_error_of_proper hproper)
  · exact .fail

/-! ## Statements -/

theorem expectLoop_ok {keyword : String}
    (hs : s.Consistent ctx Γ depth) (h : (expectLoop keyword span : Check _).run s = .ok (type, s'))
    (hq : s'.errors = []) : s' = s ∧ type = .unit ∧ 0 < depth := by
  simp only [expectLoop, inLoop, run_bind_eq_ok, run_lift_eq_ok] at h
  obtain ⟨inLoop, _, ⟨_, _, ⟨rfl, rfl⟩, hl, rfl⟩, h⟩ := h
  rw [SymbolTable.inLoop, hs.shows.inLoop] at hl
  obtain rfl := Except.ok.inj hl
  split at h
  · exact absurd hq (fail_not_clean h)
  · rename_i hd
    obtain ⟨rfl, rfl⟩ := run_pure_eq_ok.mp h
    exact ⟨rfl, rfl, Nat.pos_of_ne_zero (by simpa using hd)⟩

theorem declares_declareLocal (hs : s.Consistent ctx Γ depth)
    (hproper : type.Proper ctx.decls.structs.size) {storage : Storage}
    (hst : storage = .local ∨ storage = .parameter) (name : String) (span : FileSpan) (cells : Set Cell) :
    Declares ctx depth cells (declareLocal name type storage span) s fun declared Γ' s' t => ∃ index,
      declared = some (.local t.symbols.unit index) ∧ Γ' = Γ ++ [⟨name, .local t.symbols.unit index, depth⟩] ∧
      (t.function.localTypes.get? (.local t.symbols.unit index) = some type ∧
        t.depths.get? (.local t.symbols.unit index) = some depth) ∧
      (∀ x ∈ Γ, x.binding ≠ .local t.symbols.unit index) ∧ t.Accounts ctx [] s s' := by
  intro declared s' h hq _
  obtain ⟨binding, symbols, found, hd, hdepth, rfl, rfl⟩ := declareLocal_ok h hq
  have hp := progress_declareLocal hd found cells
  obtain ⟨rfl, tree, _, _, hdef, -, -, rfl⟩ := SymbolTable.declare_eq_ok.mp hd
  have hshows := SymbolTable.shows_define hs.shows hs.inFunction hdef
  have hfresh : ∀ x ∈ Γ, x.binding ≠ .local s.symbols.unit s.symbols.locals.size := by
    intro x hx he
    obtain ⟨i, record, hb, hl, -⟩ := hs.locals x hx
    have hlt := lt_of_getElem? hl
    rw [hb] at he
    simp only [BindingId.local.injEq] at he
    omega
  obtain rfl : found = depth := by
    simp only [SymbolTable.loopDepth, hshows.loopDepth, Except.ok.injEq] at hdepth
    exact hdepth.symm
  refine ⟨Γ ++ [⟨name, .local s.symbols.unit s.symbols.locals.size, found⟩],
    ⟨hs.index, hs.result, hshows, hs.inFunction, fun {name entry} he => ?_, fun x hx => ?_, ?_⟩, hp,
    fun t ht => ?_⟩
  · rw [hp.symbols.declaredAtRoot? hs.inFunction hs.shows.size_pos] at he
    exact hs.items he
  · rcases mem_append.mp hx with hx | hx
    · obtain ⟨i, record, hb, hl, hid, hst', ht, hd', hproper'⟩ := hs.locals x hx
      have hne := hfresh x hx
      refine ⟨i, record, hb, ?_, hid, hst', ?_, ?_, hproper'⟩
      · rw [← Array.getElem?_toList] at hl ⊢
        exact getElem?_of_isPrefix hp.symbols.locals hl
      · exact (get?_insert_of_ne _ hne _).trans ht
      · exact (get?_insert_of_ne _ hne _).trans hd'
    · obtain rfl := mem_singleton.mp hx
      exact ⟨_, _, rfl, Array.getElem?_push_size, rfl, hst, get?_insert_self .., get?_insert_self .., hproper⟩
  · rw [map_append, nodup_append]
    refine ⟨hs.distinct, by simp, ?_⟩
    rintro a ha b hb rfl
    obtain ⟨x, hx, rfl⟩ := mem_map.mp ha
    exact hfresh x hx (by simpa using hb)
  · have hunit : t.symbols.unit = s.symbols.unit := ht.unit
    have hk := ht.known s.symbols.locals.size (by simp)
    dsimp only
    rw [hunit]
    exact ⟨_, rfl, rfl, ⟨hk.1.trans (get?_insert_self ..), hk.2.trans (get?_insert_self ..)⟩, hfresh, .nil rfl⟩

section Bindings

variable {id : StmtId} {next : Option BindingId → Check Unit} (hnone : next none = pure ())
  (hsome : ∀ binding, next (some binding) = note fun f => { f with lets := f.lets.insert id binding })

include hnone hsome

theorem cumulative_next (declared : Option BindingId) : Cumulative (next declared) := by
  cases declared with
  | none => rw [hnone]; infer_instance
  | some binding => rw [hsome]; infer_instance

theorem cumulative_binding : Cumulative (declareLocal name type .local span >>= next) :=
  .bind inferInstance (cumulative_next hnone hsome)

theorem declares_binding (hs : s.Consistent ctx Γ depth) (hproper : type.Proper ctx.decls.structs.size) :
    Declares ctx depth {.binding id} (declareLocal name type .local span >>= next) s fun _ Γ' s' t =>
      ∃ index, Γ' = Γ ++ [⟨name, .local t.symbols.unit index, depth⟩] ∧
        t.function.lets.get? id = some (.local t.symbols.unit index) ∧
        (t.function.localTypes.get? (.local t.symbols.unit index) = some type ∧
          t.depths.get? (.local t.symbols.unit index) = some depth) ∧
        (∀ x ∈ Γ, x.binding ≠ .local t.symbols.unit index) ∧ t.Accounts ctx [] s s' := by
  refine (declares_declareLocal hs hproper (.inl rfl) name span ∅).bind (c := cumulative_next hnone hsome)
    (Set.empty_subset _) fun declared Γ1 s1 hs1 _ h => ?_
  obtain ⟨index, rfl, rfl, -⟩ := h s1 (.self ..)
  rw [hsome]
  refine (Ensures.note hs1 (s1.function.updates_insert.2.2.2.2 id _)).mono (by simp) fun _ s' t _ hlet a ht => ?_
  obtain ⟨index', hi, hΓ, htype, hfresh, a1⟩ := h t ht
  have hlet : t.function.lets.get? id = some (.local t.symbols.unit index') :=
    Eq.trans (hlet (.binding id) rfl) ((get?_insert_self ..).trans hi)
  exact ⟨index', hΓ, hlet, htype, hfresh, a1.append a⟩

end Bindings

theorem declares_letBinding (hs : s.Consistent ctx Γ depth) {annotated : Option Ty} {init : Option Expr}
    (ha : ∀ type ∈ annotated, type.Proper ctx.decls.structs.size)
    (hf : ∀ expr ∈ init, found.Proper ctx.decls.structs.size) {id : StmtId} :
    Declares ctx depth (conversionsOf (init.toList.map Expr.id) ∪ {.binding id})
      (letBinding ctx id name annotated (init.map fun expr => (expr.id, found)) span) s fun _ Γ' s' t =>
        ∃ index type, Γ' = Γ ++ [⟨name, .local t.symbols.unit index, depth⟩] ∧
          t.function.lets.get? id = some (.local t.symbols.unit index) ∧
          (t.function.localTypes.get? (.local t.symbols.unit index) = some type ∧
            t.depths.get? (.local t.symbols.unit index) = some depth) ∧
          ((∀ a ∈ annotated, a = type) ∧ (annotated = none → ∃ expr ∈ init, found = type)) ∧
          ((∀ expr ∈ init, (ctx.typing t).typeOf expr = found) → (ctx.typing t).LetTyped Γ id init) ∧
          t.Accounts ctx [] s s' := by
  unfold letBinding
  cases annotated with
  | some type =>
    have hproper := ha type rfl
    cases init with
    | some init =>
      simp only [pure_bind]
      refine (ensures_assignable hs (ne_error_of_proper (hf init rfl)) (ne_error_of_proper hproper)).bind
        (c := fun _ => cumulative_binding rfl (fun _ => rfl) ..) (by simp) fun _ s1 hs1 _ _ => ?_
      refine (declares_binding rfl (fun _ => rfl) hs1 hproper).mono (by simp [conversionsOf])
        fun _ Γ' s' t _ h _ hused a1 => ?_
      obtain ⟨index, hΓ, hlet, htype, hfresh, a⟩ := h
      refine ⟨index, type, hΓ, hlet, htype, by simp, fun ht => ?_, a1.append a⟩
      refine ⟨_, _, type, hlet, hfresh, htype.1, hproper, fun expr he => ?_⟩
      obtain rfl := Option.some.inj he
      exact hused init rfl (ht init rfl)
    | none =>
      simp only [pure_bind]
      refine (declares_binding rfl (fun _ => rfl) hs hproper).mono Set.subset_union_right fun _ Γ' s' t _ h => ?_
      obtain ⟨index, hΓ, hlet, htype, hfresh, a⟩ := h
      exact ⟨index, type, hΓ, hlet, htype, by simp, fun ht =>
        ⟨_, _, type, hlet, hfresh, htype.1, hproper, by simp⟩, a⟩
  | none =>
    cases init with
    | some init =>
      simp only [pure_bind]
      refine (declares_binding rfl (fun _ => rfl) hs (hf init rfl)).mono Set.subset_union_right
        fun _ Γ' s' t hb h => ?_
      obtain ⟨index, hΓ, hlet, htype, hfresh, a⟩ := h
      refine ⟨index, found, hΓ, hlet, htype, by simp, fun ht => ?_, a⟩
      refine ⟨_, _, found, hlet, hfresh, htype.1, hf init rfl, fun expr he => ?_⟩
      obtain rfl := Option.some.inj he
      exact usedAs_of_unconverted (ht init rfl) (hb.unconverted (by simp))
    | none => exact .fail_bind fun _ => cumulative_binding rfl (fun _ => rfl) ..

end Check

end SsaCompiler
