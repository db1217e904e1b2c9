import SsaCompiler.Proofs.Blurring.Tables

/-!
# Steps of checking against blurred types

A step that reports nothing reports nothing against blurred types either, and its answer is related
(`Check.Lenient`). Where the type of an operand is blurred the two runs may part: one goes through a
rule, the other gives `error` at once. Then neither changes anything that a later rule looks at
(`Check.Quiet`, `Check.Silent`).
-/

namespace SsaCompiler

namespace CheckState

/-- What later rules look at is the same. -/
structure Same (s s₁ : CheckState) : Prop where
  symbols : s₁.symbols = s.symbols
  refs : s₁.function.refs = s.function.refs
  exprTypes : s₁.function.exprTypes = s.function.exprTypes

/-- The same names are known, with some types blurred; nothing is reported on the blurred side. -/
structure Blurs (valued : String → Prop) (s s' : CheckState) : Prop where
  symbols : s.symbols.Blurs valued s'.symbols
  refs : s'.function.refs = s.function.refs
  exprTypes : List.Forall₂ Ty.BlursCall s.function.exprTypes.toList s'.function.exprTypes.toList
  errors : s'.errors = []

variable {valued : String → Prop} {s s₁ s' s₁' : CheckState}

theorem Same.refl : s.Same s := ⟨rfl, rfl, rfl⟩

theorem Same.trans {s2 : CheckState} (h : s.Same s₁) (h' : s₁.Same s2) : s.Same s2 :=
  ⟨h'.symbols.trans h.symbols, h'.refs.trans h.refs, h'.exprTypes.trans h.exprTypes⟩

theorem Blurs.congr (h : s.Blurs valued s') (hs : s.Same s₁) (hs' : s'.Same s₁') (he : s₁'.errors = s'.errors) :
    s₁.Blurs valued s₁' where
  symbols := by
    rw [hs.symbols, hs'.symbols]
    exact h.symbols
  refs := by rw [hs.refs, hs'.refs, h.refs]
  exprTypes := by
    rw [hs.exprTypes, hs'.exprTypes]
    exact h.exprTypes
  errors := he.trans h.errors

end CheckState

namespace Check

variable {α β : Type} {valued : String → Prop} {expr : ExprId} {change : CheckedFunction → CheckedFunction}

/-! ## Steps that change nothing of note -/

/-- A step that reports a mistake, or leaves what later rules look at. -/
def Quiet (x : Check α) (post : α → Prop) : Prop :=
  ∀ ⦃s a s₁⦄, x.run s = .ok (a, s₁) → s₁.errors = [] → s.errors = [] ∧ s.Same s₁ ∧ post a

/-- A step that succeeds, reports nothing and leaves what later rules look at. -/
def Silent (x : Check α) (post : α → Prop) : Prop :=
  ∀ s, ∃ a s₁, x.run s = .ok (a, s₁) ∧ s.Same s₁ ∧ s₁.errors = s.errors ∧ post a

namespace Quiet

variable {post : α → Prop} {post' : β → Prop} {error : TypeError}

theorem pure {a : α} (h : post a) : Quiet (Pure.pure a) post := by
  intro s a' s₁ hr hs
  obtain ⟨rfl, rfl⟩ := run_pure_eq_ok.mp hr
  exact ⟨hs, .refl, h⟩

theorem andThen {x : Check α} {f : α → Check β} (hx : Quiet x fun _ => True) (hf : ∀ a, Quiet (f a) post') :
    Quiet (x >>= f) post' := by
  intro s b s2 hr hs
  obtain ⟨a, s₁, hr1, hr2⟩ := run_bind_eq_ok.mp hr
  obtain ⟨hs1, hsame', hb⟩ := hf a hr2 hs
  obtain ⟨hs0, hsame, -⟩ := hx hr1 hs1
  exact ⟨hs0, hsame.trans hsame', hb⟩

theorem report {post : Unit → Prop} : Quiet (report error) post := by
  intro s a s₁ hr hs
  exact absurd hs (report_not_clean hr)

theorem fail {post : Ty → Prop} : Quiet (fail error) post := by
  intro s a s₁ hr hs
  exact absurd hs (fail_not_clean hr)

theorem fault {fault : Fault} : Quiet (liftM (m := Except Fault) (.error fault) : Check α) post := by
  intro s a s₁ hr
  cases (run_lift_eq_ok.mp hr).1

theorem note (hr : ∀ f, (change f).refs = f.refs)
    (he : ∀ f, (change f).exprTypes = f.exprTypes) : Quiet (note change) fun _ => True := by
  intro s a s₁ hrun hs
  obtain rfl := run_modify_eq_ok.mp hrun
  exact ⟨hs, ⟨rfl, hr s.function, he s.function⟩, trivial⟩

theorem get {f : CheckState → Check β} (hf : ∀ s, Quiet (f s) post') : Quiet (MonadState.get >>= f) post' :=
  fun s _ _ hr hs => hf s hr hs

theorem lift {y : Except Fault α} : Quiet (liftM y : Check α) fun _ => True := by
  intro s a s₁ hr hs
  obtain ⟨-, rfl⟩ := run_lift_eq_ok.mp hr
  exact ⟨hs, .refl, trivial⟩

end Quiet

namespace Silent

variable {post : α → Prop}

theorem pure {a : α} (h : post a) : Silent (Pure.pure a) post := fun s => ⟨a, s, rfl, .refl, rfl, h⟩

theorem note (hr : ∀ f, (change f).refs = f.refs)
    (he : ∀ f, (change f).exprTypes = f.exprTypes) : Silent (note change) fun _ => True :=
  fun s => ⟨(), _, rfl, ⟨rfl, hr s.function, he s.function⟩, rfl, trivial⟩

end Silent

theorem quiet_coerce {source target : Ty} : Quiet (coerce expr source target) fun _ => True := by
  unfold coerce
  split
  · exact .note (fun _ => rfl) fun _ => rfl
  · exact .pure trivial

theorem silent_coerce {source target : Ty} : Silent (coerce expr source target) fun _ => True := by
  unfold coerce
  split
  · exact .note (fun _ => rfl) fun _ => rfl
  · exact .pure trivial

/-! ## The relation -/

/-- If a step ends without mistakes, it started without, and against blurred types it ends without
mistakes as well, with a related answer. An answer that comes with mistakes could be related as well,
so that what is done with it starts with these mistakes. -/
def Lenient (valued : String → Prop) (R : α → α → Prop) (x x' : Check α) : Prop :=
  ∀ ⦃s a s₁⦄, x.run s = .ok (a, s₁) → (∃ a', R a a') ∧ (s₁.errors = [] → s.errors = [] ∧
    ∀ s', s.Blurs valued s' → ∃ a' s₁', x'.run s' = .ok (a', s₁') ∧ R a a' ∧ s₁.Blurs valued s₁')

namespace Lenient

variable {R : α → α → Prop} {S : β → β → Prop}
variable {x x' : Check α}

theorem pure {a a' : α} (h : R a a') : Lenient valued R (Pure.pure a) (Pure.pure a') := by
  intro s b s₁ hr
  obtain ⟨rfl, rfl⟩ := run_pure_eq_ok.mp hr
  exact ⟨⟨a', h⟩, fun hs => ⟨hs, fun s' hb => ⟨a', s', rfl, h, hb⟩⟩⟩

theorem bind {f f' : α → Check β} (hx : Lenient valued R x x')
    (hf : ∀ a a', R a a' → Lenient valued S (f a) (f' a')) : Lenient valued S (x >>= f) (x' >>= f') := by
  intro s b s2 hr
  obtain ⟨a, s₁, hr1, hr2⟩ := run_bind_eq_ok.mp hr
  obtain ⟨⟨a', ha⟩, hx⟩ := hx hr1
  obtain ⟨hb, hclean⟩ := hf a a' ha hr2
  refine ⟨hb, fun hs2 => ?_⟩
  obtain ⟨hs, hx⟩ := hx (hclean hs2).1
  refine ⟨hs, fun s' hblurs => ?_⟩
  obtain ⟨a', s₁', hr1', ha', hblurs1⟩ := hx s' hblurs
  obtain ⟨b', s2', hr2', hb', hblurs2⟩ := ((hf a a' ha' hr2).2 hs2).2 s₁' hblurs1
  exact ⟨b', s2', run_bind_eq_ok.mpr ⟨a', s₁', hr1', hr2'⟩, hb', hblurs2⟩

theorem weaken {S : α → α → Prop} (h : ∀ a a', R a a' → S a a') (hx : Lenient valued R x x') :
    Lenient valued S x x' := by
  intro s a s₁ hr
  obtain ⟨ha, hx⟩ := hx hr
  refine ⟨ha.imp (h a), fun hs1 => ⟨(hx hs1).1, fun s' hblurs => ?_⟩⟩
  obtain ⟨a', s₁', hr', ha', hblurs1⟩ := (hx hs1).2 s' hblurs
  exact ⟨a', s₁', hr', h a a' ha', hblurs1⟩

/-- Steps that part, where neither changes anything of note. -/
theorem of_quiet {post post' : α → Prop} (hR : ∀ a, R a a) (hx : Quiet x post) (hx' : Silent x' post')
    (h : ∀ a a', post a → post' a' → R a a') : Lenient valued R x x' := by
  intro s a s₁ hr
  refine ⟨⟨a, hR a⟩, fun hs1 => ?_⟩
  obtain ⟨hs, hsame, ha⟩ := hx hr hs1
  refine ⟨hs, fun s' hblurs => ?_⟩
  obtain ⟨a', s₁', hr', hsame', he, ha'⟩ := hx' s'
  exact ⟨a', s₁', hr', h a a' ha ha', hblurs.congr hsame hsame' he⟩

theorem of_quiet_unit {x x' : Check Unit} (hx : Quiet x fun _ => True) (hx' : Silent x' fun _ => True) :
    Lenient valued (· = ·) x x' :=
  of_quiet (fun _ => rfl) hx hx' fun _ _ _ _ => rfl

theorem of_mistake (hR : ∀ a, R a a) (hx : Quiet x fun _ => False) : Lenient valued R x x' := by
  intro s a s₁ hr
  exact ⟨⟨a, hR a⟩, fun hs1 => (hx hr hs1).2.2.elim⟩

theorem error {x : Check Ty} (hx : Quiet x fun _ => True) : Lenient valued Ty.Blurs x (Pure.pure .error) :=
  of_quiet .refl hx (.pure rfl) fun _ _ _ h => h ▸ .error

variable {error : TypeError} {kind : ScopeKind} {span : FileSpan} {name : String}

theorem report {x' : Check Unit} : Lenient valued (· = ·) (report error) x' :=
  of_mistake (fun _ => rfl) .report

theorem fail {x' : Check Ty} : Lenient valued Ty.Blurs (fail error) x' :=
  of_mistake .refl .fail

theorem note (hr : ∀ f, (change f).refs = f.refs)
    (he : ∀ f, (change f).exprTypes = f.exprTypes) : Lenient valued (· = ·) (note change) (note change) :=
  of_quiet_unit (.note hr he) (.note hr he)

theorem skip {y y' : Check β} (hx : Quiet x fun _ => True) (hy : Lenient valued S y y') :
    Lenient valued S (x >>= fun _ => y) y' := by
  intro s b s2 hr
  obtain ⟨a, s₁, hr1, hr2⟩ := run_bind_eq_ok.mp hr
  obtain ⟨hb, hy⟩ := hy hr2
  refine ⟨hb, fun hs2 => ?_⟩
  obtain ⟨hs1, hy⟩ := hy hs2
  obtain ⟨hs, hsame, -⟩ := hx hr1 hs1
  exact ⟨hs, fun s' hblurs => hy s' (hblurs.congr hsame .refl rfl)⟩

theorem get {f f' : CheckState → Check α} (hR : ∀ a, R a a) (hf : Quiet (MonadState.get >>= f) fun _ => True)
    (h : ∀ s s', s.Blurs valued s' → Lenient valued R (f s) (f' s')) :
    Lenient valued R (MonadState.get >>= f) (MonadState.get >>= f') := by
  intro s a s₁ hr
  exact ⟨⟨a, hR a⟩, fun hs1 => ⟨(hf hr hs1).1, fun s' hblurs => ((h s s' hblurs hr).2 hs1).2 s' hblurs⟩⟩

theorem lift {y y' : Except Fault α} (h : y' = y) : Lenient valued (· = ·) (liftM y : Check α) (liftM y') := by
  intro s a s₁ hr
  obtain ⟨hy, rfl⟩ := run_lift_eq_ok.mp hr
  exact ⟨⟨a, rfl⟩, fun hs => ⟨hs, fun s' hblurs => ⟨a, s', run_lift_eq_ok.mpr ⟨h.trans hy, rfl⟩, rfl, hblurs⟩⟩⟩

/-! ## Scopes -/

theorem within (hx : Lenient valued R x x') {owner : Option String} :
    Lenient valued R (within kind owner x) (within kind owner x') := by
  intro s a s₁ hr
  obtain ⟨s₂, outer, hin, hexit, rfl⟩ := within_eq_ok.mp hr
  obtain ⟨ha, hx⟩ := hx hin
  refine ⟨ha, fun hs => ⟨(hx hs).1, fun s' hblurs => ?_⟩⟩
  obtain ⟨a', s₂', hin', ha', hblurs2⟩ := (hx hs).2 { s' with symbols := s'.symbols.enterOwned kind owner }
    { hblurs with symbols := hblurs.symbols.enterOwned }
  obtain ⟨outer', hexit', houter⟩ := hblurs2.symbols.exit hexit
  exact ⟨a', _, within_eq_ok.mpr ⟨s₂', outer', hin', hexit', rfl⟩, ha', { hblurs2 with symbols := houter }⟩

theorem declareLocal {type type' : Ty} (ht : type.Blurs type') {storage : Storage} :
    Lenient valued (· = ·) (declareLocal name type storage span) (declareLocal name type' storage span) := by
  intro s r s₁ hr
  refine ⟨⟨r, rfl⟩, fun hs1 => ?_⟩
  obtain ⟨binding, symbols, depth, hdeclare, hdepth, rfl, rfl⟩ := declareLocal_ok hr hs1
  refine ⟨hs1, fun s' hblurs => ?_⟩
  obtain ⟨symbols', hdeclare', hsymbols⟩ := hblurs.symbols.declare ht hdeclare
  have hdepth' : symbols'.loopDepth = .ok depth := by
    rw [← hdepth, SymbolTable.loopDepth, SymbolTable.loopDepth, hsymbols.tree, hsymbols.current]
  exact ⟨some binding, _, declareLocal_eq_ok.mpr (.inl ⟨binding, symbols', depth, hdeclare', hdepth', rfl, rfl⟩), rfl,
    ⟨hsymbols, hblurs.refs, hblurs.exprTypes, hblurs.errors⟩⟩

variable {R : Ty → Ty → Prop}

theorem recorded {expr : Expr} {x x' : Check Ty} (hR : ∀ t t', R t t' → t.BlursCall t')
    (hx : Lenient valued R x x') : Lenient valued R (recorded expr x) (recorded expr x') := by
  refine hx.bind fun type type' ht => ?_
  have hset : Lenient valued (· = ·) (Check.note (·.setType expr.id type)) (Check.note (·.setType expr.id type')) := by
    intro s u s₁ hr
    obtain rfl := run_modify_eq_ok.mp hr
    refine ⟨⟨u, rfl⟩, fun hs => ⟨hs, fun s' hblurs => ⟨(), _, rfl, rfl, { hblurs with exprTypes := ?_ }⟩⟩⟩
    simp only [CheckedFunction.setType, Array.toList_setIfInBounds]
    exact forall₂_set hblurs.exprTypes (hR _ _ ht) _
  have hdiverging : Lenient valued (· = ·) (Check.note (·.setDiverging expr.id)) (Check.note (·.setDiverging expr.id)) :=
    note (fun _ => rfl) fun _ => rfl
  split
  · exact hdiverging.bind fun _ _ _ => hset.bind fun _ _ _ => pure ht
  · exact hset.bind fun _ _ _ => pure ht

/-! ## Names and places -/

theorem var {id : ExprId} (hR : ∀ t, R t t)
    (h : ∀ {b b' : Binding Ty}, b.Like Ty.BlursCall b' → (valued name → b.type.Blurs b'.type) → R b.type b'.type) :
    Lenient valued R (var id name span) (var id name span) := by
  intro s type s₁ hr
  refine ⟨⟨type, hR type⟩, fun hs1 => ?_⟩
  obtain ⟨binding, hresolve, rfl, rfl⟩ := var_ok hr hs1
  simp only [Check.var, run_bind_eq_ok, run_get_eq_ok, run_lift_eq_ok]
  refine ⟨hs1, fun s' hblurs => ?_⟩
  obtain ⟨binding', hresolve', hlike, htype⟩ := hblurs.symbols.resolve hresolve
  have hid : binding'.id = binding.id := by rw [hlike.same]
  refine ⟨binding'.type, { s' with
    function := { s'.function with refs := s'.function.refs.insert id binding'.id } },
    ⟨s', s', ⟨rfl, rfl⟩, _, s', ⟨hresolve', rfl⟩, rfl⟩, h hlike htype, { hblurs with refs := ?_ }⟩
  simp only [hid, hblurs.refs]

end Lenient

/-- An expression that is a place is the same place, or one in memory. -/
theorem placeRoot_blurs {s s' : CheckState} (h : s.Blurs valued s') : ∀ expr : Expr,
    placeRoot s expr = .notAPlace ∨ placeRoot s' expr = placeRoot s expr ∨ placeRoot s' expr = .memory
  | .var id span name => by
    refine .inr (.inl ?_)
    rw [placeRoot, placeRoot, h.refs]
    cases s.function.refs.get? id with
    | none => rfl
    | some binding =>
      have hrel := h.symbols.binding? binding
      dsimp only
      generalize s.symbols.binding? binding = found, s'.symbols.binding? binding = found' at hrel ⊢
      cases hrel with
      | none => rfl
      | some hlike =>
        dsimp only
        rw [hlike.storage]
  | .field id span base name => by
    have htype : (s.function.typeOf base.id).BlursCall (s'.function.typeOf base.id) := by
      have hrel := forall₂_getElem? h.exprTypes base.id.index
      rw [Array.getElem?_toList, Array.getElem?_toList] at hrel
      simp only [CheckedFunction.typeOf, Array.getD_eq_getD_getElem?]
      generalize s.function.exprTypes[base.id.index]? = found, s'.function.exprTypes[base.id.index]? = found' at hrel ⊢
      cases hrel with
      | none => exact .whole (.refl _)
      | some ht => exact ht
    have hbase := placeRoot_blurs h base
    rw [placeRoot, placeRoot]
    generalize s.function.typeOf base.id = type, s'.function.typeOf base.id = type' at htype
    cases htype with
    | signature varargs => exact hbase
    | whole blurs =>
      rcases blurs with rfl | rfl
      · cases type' with
        | ptr | error => exact .inr (.inl rfl)
        | _ => exact hbase
      · exact .inr (.inr rfl)
  | .unary id span op operand => by
    refine .inr (.inl ?_)
    cases op <;> rfl
  | .literal .. | .binary .. | .call .. | .assign .. | .cond .. | .loop .. | .block .. | .structLiteral ..
  | .breakLoop .. | .continueLoop .. => by rw [placeRoot] <;> simp

end Check

end SsaCompiler
