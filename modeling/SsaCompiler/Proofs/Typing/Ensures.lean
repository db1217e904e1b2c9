import SsaCompiler.Proofs.Declarations.WellFormed
import SsaCompiler.Proofs.Syntax.Sites
import SsaCompiler.Proofs.Typing.Scopes

/-!
# What checking records

What a step of checking establishes if it reports nothing (`Check.Ensures`). The conclusions are about
any later state that still has what the step recorded, since what is recorded afterwards must not
change what a rule reads. Steps are composed by `Check.Declares.bind`: the second one may write only
where the first one did not.

Beside the typing rules a later state accounts for what happened to locals (`CheckState.Accounts`):
each `let` has a binding of its declared type and at the number of loops around it, and a local is put
in memory only where a part of the body needs it there. It accounts for struct literals as well, whose
positions are those of the fields that they name.
-/

namespace SsaCompiler

open List

/-! ## Locals -/

/-- The type that a `let` declares: that of its annotation, else that of its initial value. -/
def TypingContext.DeclaredType (C : TypingContext) (type : Ty) : Option TypeExpr → Option Expr → Prop
  | some annotation, _ => C.decls.resolveType C.unitName annotation = (.ok (.ok type) : Except Fault _)
  | none, init => ∃ expr ∈ init, C.typeOf expr = type

/-- The parameter or local in which a place is: of a variable its binding, of a field that of its base,
unless the base is a pointer. -/
def CheckedFunction.root? (F : CheckedFunction) : Expr → Option BindingId
  | .var id _ _ => F.refs.get? id
  | .field _ _ base _ => if (F.typeOf base.id).isPtr then none else F.root? base
  | _ => none

/-- A part of a body needs a binding in memory that is declared inside `depth` loops: it takes the
address of a place in it, assigns a field of it, or assigns it inside more loops than that. -/
def CheckedFunction.Needs (F : CheckedFunction) (binding : BindingId) (depth : Nat) (site : Site) : Part → Prop
  | .expr (.unary _ _ .addrOf operand) => F.root? operand = some binding
  | .expr (.assign _ _ target _) =>
    F.root? target = some binding ∧ (target.isVar = true → depth < site.loops)
  | _ => False

/-- A name without qualification stands for an item of its unit, if it stands for an item. -/
def CheckedFunction.ItemNamed (F : CheckedFunction) (decls : Declarations) (unit : UnitId) (id : ExprId) (name : String) :
    Prop :=
  Name.isQualified name = false → ∀ {binding item}, F.refs.get? id = some binding →
    decls.index.item? binding = some item → item.unit = unit ∧ item.name = name

/-- The positions of a struct literal are those of the fields that its initializers name. -/
def CheckedFunction.LiteralNamed (F : CheckedFunction) (decls : Declarations) (id : ExprId) (inits : List Init) :
    Prop :=
  ∃ literal struct, F.structLiterals.get? id = some literal ∧ decls.struct? literal.struct = some struct ∧
    Forall₂ (fun init position => struct.fields[position]?.map (·.name) = some init.name) inits literal.positions

/-- What is recorded so far, to be typed against. -/
abbrev CheckContext.typing (ctx : CheckContext) (s : CheckState) : TypingContext :=
  ⟨ctx.decls, ctx.unitName, s.function⟩

/-! ## States -/

namespace CheckState

/-- The names in scope while a body is checked are those of `Γ` and the items, with `depth` loops
around. -/
structure Consistent (ctx : CheckContext) (Γ : List Local) (depth : Nat) (s : CheckState) : Prop where
  index : s.symbols.index = ctx.decls.index
  result : s.function.result = ctx.result
  shows : s.symbols.tree.Shows s.symbols.current Γ depth
  inFunction : 0 < s.symbols.current.index
  items : ∀ {name : String} {entry : ScopeEntry}, s.symbols.tree.declaredAtRoot? name = some entry →
    ∃ item, ctx.decls.index.lookup? (Name.path [ctx.unitName, name]) = some item ∧
      ctx.decls.index.item? entry.binding = some item ∧ item.unit = s.symbols.unit ∧ item.name = name
  locals : ∀ x ∈ Γ, ∃ i binding, x.binding = .local s.symbols.unit i ∧
    s.symbols.locals[i]? = some binding ∧ binding.id = x.binding ∧
    (binding.storage = .local ∨ binding.storage = .parameter) ∧
    s.function.localTypes.get? x.binding = some binding.type ∧
    s.depths.get? x.binding = some x.depth ∧ binding.type.Proper ctx.decls.structs.size
  distinct : (Γ.map (·.binding)).Nodup

/-- A later state still has some entries of the record, and all locals. -/
structure Agrees (cells : Set Cell) (s t : CheckState) : Prop where
  unit : t.symbols.unit = s.symbols.unit
  result : t.function.result = s.function.result
  same : ∀ cell ∈ cells, t.function.Same s.function cell
  memory : ∀ binding, s.function.isMemoryResident binding = true → t.function.isMemoryResident binding = true
  known : ∀ index < s.symbols.locals.size, t.function.localTypes.get? (.local s.symbols.unit index) =
        s.function.localTypes.get? (.local s.symbols.unit index) ∧
      t.depths.get? (.local s.symbols.unit index) = s.depths.get? (.local s.symbols.unit index)

/-- No conversion and no infinite loop is recorded at some entries. -/
structure Blank (cells : Set Cell) (s : CheckState) : Prop where
  unconverted : ∀ {id : ExprId}, .conversion id ∈ cells → s.function.coercions.get? id = none
  finite : ∀ {id : ExprId}, .infinite id ∈ cells → s.function.infiniteLoops.contains id = false

/-- Nothing is recorded yet at some entries, and there is room for the types among them. -/
structure Ready (cells : Set Cell) (s : CheckState) : Prop extends Blank cells s where
  room : ∀ {id : ExprId}, .type id ∈ cells → id.index < s.function.exprTypes.size

/-- A `let` inside a number of loops has a binding, of its declared type and at that depth. A variable is
an item of the unit, if it is one. The positions of a struct literal are those of the fields that it names. -/
def PartRecorded (ctx : CheckContext) (s : CheckState) (loops : Nat) : Part → Prop
  | .stmt (.bind id _ _ annotation init) => ∃ index type,
      s.function.lets.get? id = some (.local s.symbols.unit index) ∧
      s.function.localTypes.get? (.local s.symbols.unit index) = some type ∧
      s.depths.get? (.local s.symbols.unit index) = some loops ∧
      (ctx.typing s).DeclaredType type annotation init
  | .expr (.var id _ name) => s.function.ItemNamed ctx.decls s.symbols.unit id name
  | .expr (.structLiteral id _ _ inits) => s.function.LiteralNamed ctx.decls id inits
  | _ => True

/-- Between two states the `let`s and struct literals among some parts were recorded, and only locals that one of the
parts needs there were put in memory, as a later state shows. -/
structure Accounts (ctx : CheckContext) (parts : List (Site × Part)) (t s s' : CheckState) : Prop where
  recorded : ∀ p ∈ parts, t.PartRecorded ctx p.1.loops p.2
  memory : ∀ binding, s'.function.isMemoryResident binding = true → s.function.isMemoryResident binding = true ∨
      ∃ p ∈ parts, t.function.Needs binding ((t.depths.get? binding).getD 0) p.1 p.2

variable {ctx : CheckContext} {Γ : List Local} {depth : Nat} {s s1 s' t : CheckState}
  {cells cells' : Set Cell} {parts parts' : List (Site × Part)}

theorem Consistent.progress (h : s.Consistent ctx Γ depth) (hp : s.Progress cells s')
    (hs : s'.symbols.tree.Shows s'.symbols.current Γ depth) : s'.Consistent ctx Γ depth where
  index := hp.symbols.index.trans h.index
  result := hp.result.trans h.result
  shows := hs
  inFunction := by rw [hp.symbols.current]; exact h.inFunction
  items {name entry} he := by
    rw [hp.symbols.declaredAtRoot? h.inFunction h.shows.size_pos] at he
    exact hp.symbols.unit ▸ h.items he
  locals x hx := by
    obtain ⟨i, binding, hb, hl, hid, hst, ht, hd, hproper⟩ := h.locals x hx
    have hi : i < s.symbols.locals.size := lt_of_getElem? hl
    have hk := hp.known i hi
    rw [← hb] at hk
    refine ⟨i, binding, by rw [hp.symbols.unit, hb], ?_, hid, hst, hk.1.trans ht, hk.2.trans hd, hproper⟩
    rw [← Array.getElem?_toList] at hl ⊢
    exact getElem?_of_isPrefix hp.symbols.locals hl
  distinct := h.distinct

namespace Agrees

theorem self : s.Agrees cells s :=
  ⟨rfl, rfl, fun _ _ => .refl .., fun _ h => h, fun _ _ => ⟨rfl, rfl⟩⟩

theorem sub (h : s.Agrees cells t) (hc : cells' ⊆ cells) : s.Agrees cells' t :=
  { h with same := fun cell hcell => h.same cell (hc hcell) }

/-- A later state has what an earlier one had at entries that were not changed in between. -/
theorem back (h : s'.Agrees cells t) (hp : s.Progress cells' s') (hd : ∀ cell ∈ cells, cell ∉ cells') :
    s.Agrees cells t where
  unit := h.unit.trans hp.symbols.unit
  result := h.result.trans hp.result
  same cell hc := (h.same cell hc).trans (hp.same cell (hd cell hc))
  memory b hb := h.memory b (hp.memory b hb)
  known index hi := by
    have hk := h.known index (Nat.lt_of_lt_of_le hi hp.symbols.size_le)
    rw [hp.symbols.unit] at hk
    exact ⟨hk.1.trans (hp.known index hi).1, hk.2.trans (hp.known index hi).2⟩

theorem blank (h : s.Agrees cells t) (hb : s.Blank cells) : t.Blank cells :=
  ⟨fun hc => Eq.trans (h.same (.conversion _) hc) (hb.unconverted hc),
    fun hc => Eq.trans (h.same (.infinite _) hc) (hb.finite hc)⟩

end Agrees

theorem Blank.sub (h : s.Blank cells) (hc : cells' ⊆ cells) : s.Blank cells' :=
  ⟨fun hcell => h.unconverted (hc hcell), fun hcell => h.finite (hc hcell)⟩

theorem Blank.progress (h : s.Blank cells) (hp : s.Progress cells' s') : s'.Blank (cells \ cells') :=
  ⟨fun hc => Eq.trans (hp.same (.conversion _) hc.2) (h.unconverted hc.1),
    fun hc => Eq.trans (hp.same (.infinite _) hc.2) (h.finite hc.1)⟩

theorem Ready.sub (h : s.Ready cells) (hc : cells' ⊆ cells) : s.Ready cells' :=
  ⟨h.toBlank.sub hc, fun hcell => h.room (hc hcell)⟩

theorem Ready.progress (h : s.Ready cells) (hp : s.Progress cells' s') : s'.Ready (cells \ cells') :=
  ⟨h.toBlank.progress hp, fun hc => hp.size ▸ h.room hc.1⟩

namespace Accounts

variable {part : Site × Part}

theorem nil (h : s'.function.memoryResident = s.function.memoryResident) : t.Accounts ctx [] s s' :=
  ⟨by simp, fun b hb => .inl (by rwa [CheckedFunction.isMemoryResident, ← h])⟩

theorem append (h : t.Accounts ctx parts s s1) (h' : t.Accounts ctx parts' s1 s') :
    t.Accounts ctx (parts ++ parts') s s' where
  recorded := forall_mem_append.mpr ⟨h.recorded, h'.recorded⟩
  memory b hb := by
    rcases h'.memory b hb with hb | ⟨p, hp, hn⟩
    · refine (h.memory b hb).imp_right ?_
      rintro ⟨p, hp, hn⟩
      exact ⟨p, mem_append_left _ hp, hn⟩
    · exact .inr ⟨p, mem_append_right _ hp, hn⟩

/-- Parts that declare nothing can be counted in. -/
theorem mono (h : t.Accounts ctx parts s s') (hp : ∀ p ∈ parts, p ∈ parts')
    (hl : ∀ p ∈ parts', p ∈ parts ∨ t.PartRecorded ctx p.1.loops p.2) : t.Accounts ctx parts' s s' where
  recorded p hp' := (hl p hp').elim (h.recorded p) id
  memory b hb := (h.memory b hb).imp_right fun ⟨p, hp', hn⟩ => ⟨p, hp p hp', hn⟩

theorem cons (h : t.Accounts ctx parts s s') (hl : t.PartRecorded ctx part.1.loops part.2) :
    t.Accounts ctx (part :: parts) s s' := by
  refine h.mono (fun _ => mem_cons_of_mem _) fun p hp => ?_
  rcases mem_cons.mp hp with rfl | hp
  · exact .inr hl
  · exact .inl hp

theorem congr {r r' : CheckState} (h : t.Accounts ctx parts s s')
    (hs : s.function.memoryResident = r.function.memoryResident)
    (hs' : s'.function.memoryResident = r'.function.memoryResident) : t.Accounts ctx parts r r' where
  recorded := h.recorded
  memory b hb := by
    have := h.memory b
    simp only [CheckedFunction.isMemoryResident, hs, hs'] at this hb ⊢
    exact this hb

theorem single (h : s'.function.memoryResident = s.function.memoryResident)
    (hl : t.PartRecorded ctx part.1.loops part.2) : t.Accounts ctx [part] s s' :=
  (nil h).cons hl

/-- A local is put in memory because a part needs it there. -/
theorem keepInMemory {binding : BindingId} (hl : t.PartRecorded ctx part.1.loops part.2)
    (hn : t.function.Needs binding ((t.depths.get? binding).getD 0) part.1 part.2) :
    t.Accounts ctx [part] s { s with function := s.function.keepInMemory binding } where
  recorded := by simpa using hl
  memory b hb := by
    simp only [CheckedFunction.isMemoryResident, contains_eq_mem, decide_eq_true_eq] at hb ⊢
    rcases mem_insert_iff.mp hb with rfl | hb
    · exact .inr ⟨part, mem_singleton_self _, hn⟩
    · exact .inl hb

end Accounts

end CheckState

/-! ## Steps -/

namespace Check

variable {α β : Type} {ctx : CheckContext} {Γ : List Local} {depth : Nat} {s : CheckState}
  {cells cells' : Set Cell} {parts parts' : List (Site × Part)} {step : Check α} {next : α → Check β}
variable {post : β → List Local → CheckState → CheckState → Prop} {error : TypeError}

/-- A step that reports nothing writes only at `cells` and ends where some locals are visible, and
`post` holds of the state it ends in and of any later one. -/
def Declares (ctx : CheckContext) (depth : Nat) (cells : Set Cell) (step : Check α) (s : CheckState)
    (post : α → List Local → CheckState → CheckState → Prop) : Prop :=
  ∀ ⦃a : α⦄ ⦃s' : CheckState⦄, step.run s = .ok (a, s') → s'.errors = [] → s.Ready cells →
    ∃ Γ, s'.Consistent ctx Γ depth ∧ s.Progress cells s' ∧ ∀ t, s'.Agrees cells t → post a Γ s' t

/-- A step that reports nothing ends with the same locals visible, accounts for some parts, and
`post` holds later on. -/
def Ensures (ctx : CheckContext) (Γ : List Local) (depth : Nat) (cells : Set Cell)
    (parts : List (Site × Part)) (step : Check α) (s : CheckState) (post : α → CheckState → Prop) : Prop :=
  Declares ctx depth cells step s fun a Γ' s' t => Γ' = Γ ∧ post a t ∧ t.Accounts ctx parts s s'

theorem Declares.bind {post1 : α → List Local → CheckState → CheckState → Prop}
    (h : Declares ctx depth cells' step s post1) (hc : cells' ⊆ cells)
    (hn : ∀ a Γ1 s1, s1.Consistent ctx Γ1 depth → s.Progress cells' s1 → (∀ t, s1.Agrees cells' t → post1 a Γ1 s1 t) →
      Declares ctx depth (cells \ cells') (next a) s1 fun b Γ s' t => s1.Agrees cells' t → post b Γ s' t)
    [c : ∀ a, Cumulative (next a)] : Declares ctx depth cells (step >>= next) s post := by
  intro b s2 hr hq hready
  obtain ⟨a, s1, h1, h2⟩ := run_bind_eq_ok.mp hr
  obtain ⟨Γ1, hs1, hp1, hpost1⟩ := h h1 ((c a).clean h2 hq) (hready.sub hc)
  obtain ⟨Γ, hs2, hp2, hpost2⟩ := hn a Γ1 s1 hs1 hp1 hpost1 h2 hq (hready.progress hp1)
  refine ⟨Γ, hs2, (hp1.mono hc).trans (hp2.mono Set.sdiff_subset), fun t ht => ?_⟩
  exact hpost2 t (ht.sub Set.sdiff_subset) ((ht.sub hc).back hp2 fun _ hm hd => hd.2 hm)

theorem Ensures.bind {post1 : α → CheckState → Prop} (h : Ensures ctx Γ depth cells' parts step s post1)
    (hc : cells' ⊆ cells) (hn : ∀ a s1, s1.Consistent ctx Γ depth → s.Progress cells' s1 → post1 a s1 →
      Declares ctx depth (cells \ cells') (next a) s1 fun b Γ' s' t => s1.Agrees cells' t → post1 a t →
        t.Accounts ctx parts s s1 → post b Γ' s' t) [c : ∀ a, Cumulative (next a)] :
    Declares ctx depth cells (step >>= next) s post := by
  refine Declares.bind h hc fun a Γ1 s1 hs1 hp1 hpost b s' hr hq hready => ?_
  obtain ⟨rfl, hpost1, -⟩ := hpost s1 (.self ..)
  obtain ⟨Γ', hs', hp, hall⟩ := hn a s1 hs1 hp1 hpost1 hr hq hready
  refine ⟨Γ', hs', hp, fun t ht ht1 => ?_⟩
  obtain ⟨-, hpost1, haccounts⟩ := hpost t ht1
  exact hall t ht ht1 hpost1 haccounts

theorem Declares.pure {a : α} {post : α → List Local → CheckState → CheckState → Prop} (hs : s.Consistent ctx Γ depth)
    (h : ∀ t, t.Blank cells → post a Γ s t) : Declares ctx depth cells (pure a) s post := by
  intro b s' hr _ hready
  obtain ⟨rfl, rfl⟩ := run_pure_eq_ok.mp hr
  exact ⟨Γ, hs, .refl _ _, fun t ht => h t (ht.blank hready.toBlank)⟩

theorem Declares.asking {P : α → Prop} (h : ∀ {a s'}, step.run s = .ok (a, s') → s'.errors = [] → s' = s ∧ P a)
    (hn : ∀ a, P a → Declares ctx depth cells (next a) s post) [c : ∀ a, Cumulative (next a)] :
    Declares ctx depth cells (step >>= next) s post := by
  intro b s2 hr hq
  obtain ⟨a, s1, h1, h2⟩ := run_bind_eq_ok.mp hr
  obtain ⟨rfl, ha⟩ := h h1 ((c a).clean h2 hq)
  exact hn a ha h2 hq

theorem Declares.mono {post post' : α → List Local → CheckState → CheckState → Prop}
    (h : Declares ctx depth cells' step s post) (hc : cells' ⊆ cells)
    (hp : ∀ a Γ s' t, t.Blank (cells \ cells') → post a Γ s' t → post' a Γ s' t) :
    Declares ctx depth cells step s post' := by
  intro a s' hr hq hready
  obtain ⟨Γ, hs', hprogress, hpost⟩ := h hr hq (hready.sub hc)
  refine ⟨Γ, hs', hprogress.mono hc, fun t ht => hp a Γ s' t ?_ (hpost t (ht.sub hc))⟩
  exact (ht.sub Set.sdiff_subset).blank (hready.toBlank.progress hprogress)

theorem Ensures.mono {post : α → CheckState → Prop} {post' : α → List Local → CheckState → CheckState → Prop}
    (h : Ensures ctx Γ depth cells' parts step s post) (hc : cells' ⊆ cells)
    (hp : ∀ a s' t, t.Blank (cells \ cells') → post a t → t.Accounts ctx parts s s' → post' a Γ s' t) :
    Declares ctx depth cells step s post' := by
  refine Declares.mono h hc fun a Γ' s' t hb hpost => ?_
  obtain ⟨rfl, hpost, haccounts⟩ := hpost
  exact hp a s' t hb hpost haccounts

theorem Ensures.note {change : CheckedFunction → CheckedFunction} (hs : s.Consistent ctx Γ depth)
    (h : s.function.Updates cells (change s.function)) : Ensures ctx Γ depth cells [] (note change) s fun _ t =>
      ∀ cell ∈ cells, t.function.Same (change s.function) cell := by
  intro _ s' hr _ _
  obtain rfl := run_modify_eq_ok.mp hr
  have hp := CheckState.Progress.update h
  exact ⟨Γ, hs.progress hp hs.shows, hp, fun t ht => ⟨rfl, ht.same, .nil h.memory⟩⟩

theorem Declares.report {post : Unit → List Local → CheckState → CheckState → Prop} :
    Declares ctx depth cells (report error) s post := by
  intro _ s' hr hq
  obtain rfl := run_modify_eq_ok.mp hr
  simp at hq

/-- Nothing follows a report without it. -/
theorem Declares.report_bind {next : Unit → Check β} [∀ a, Cumulative (next a)] :
    Declares ctx depth cells (Check.report error >>= next) s post := by
  intro b s' hr hq
  obtain ⟨_, s1, h1, h2⟩ := run_bind_eq_ok.mp hr
  obtain rfl := run_modify_eq_ok.mp h1
  have hclean := Cumulative.clean h2 hq
  simp at hclean

theorem Declares.fail_bind {next : Ty → Check β} (hnext : ∀ a, Cumulative (next a)) :
    Declares ctx depth cells (Check.fail error >>= next) s post := by
  unfold Check.fail
  rw [bind_assoc]
  exact .report_bind

theorem Declares.fail {post : Ty → List Local → CheckState → CheckState → Prop} :
    Declares ctx depth cells (fail error) s post :=
  .report_bind

end Check

end SsaCompiler
