import SsaCompiler.Declarations.Collect
import SsaCompiler.Proofs.Declarations.Types

/-!
# Lookups that only note errors

Once every alias has a type (`Collector.Settled`), the type of a type expression is read off the type
names that are known, and all that changes are the errors: `Collect.Noted` says what a step gives and
where it ends, up to errors of some units. The fields of structs are then those of
`Declarations.fieldsOf`.
-/

namespace SsaCompiler

open Declarations List

namespace Collector

variable {c : Collector}

def noting (c : Collector) (errors : List (UnitId × TypeError)) : Collector :=
  { c with decls := { c.decls with errors := c.decls.errors ++ errors.toArray } }

@[simp] theorem noting_nil (c : Collector) : c.noting [] = c := by simp [noting]

@[simp] theorem noting_noting {errors more : List (UnitId × TypeError)} :
    (c.noting errors).noting more = c.noting (errors ++ more) := by simp [noting]

/-- Type names stand for `types`, and every alias stands for something. -/
structure Settled (types : String → Option Ty) (c : Collector) : Prop where
  known : c.decls.types.get? = types
  aliases : ∀ key, c.aliases.contains key = true → (types key).isSome = true

end Collector

def TypeExpr.valueType? (unitName : String) (expr : TypeExpr) (types : String → Option Ty) : Option Ty :=
  (expr.type? unitName types).filter fun type => !type.isUnit

namespace FieldDecl

/-- A field with its type; one without a type is an error. -/
def field (unitName : String) (types : String → Option Ty) (decl : FieldDecl) : FieldDef :=
  ⟨decl.name, (decl.type.valueType? unitName types).getD .error, decl.span⟩

/-- Fields with one more, unless it has the name of one of them. -/
def addTo (unitName : String) (types : String → Option Ty) (fields : List FieldDef) (decl : FieldDecl) :
    List FieldDef :=
  if (fields.find? (·.name = decl.name)).isSome then fields else fields ++ [decl.field unitName types]

end FieldDecl

namespace Collect

variable {α β : Type} {c : Collector} {unit : UnitRef} {ids : UnitId → Prop} {types : String → Option Ty}

theorem report_apply {unit : UnitId} {error : TypeError} :
    (report unit error : Collect Unit) c = ((), c.noting [(unit, error)]) := by
  show ((), _) = ((), _)
  rw [Collector.noting, ← Array.push_eq_append]

/-- What a step gives from a state, and the state after it. -/
abbrev outcome (step : Collect α) (c : Collector) : α × Collector := step c

theorem outcome_bind (x : Collect α) (f : α → Collect β) (c : Collector) :
    outcome (x >>= f) c = outcome (f (outcome x c).1) (outcome x c).2 := rfl

/-- A step gave `a` and ended in `c`, up to errors of the units `ids` that are not about cycles. If
there are none of these, `exact` holds. -/
def Noted (ids : UnitId → Prop) (result : α × Collector) (a : α) (c : Collector) (exact : Prop) : Prop :=
  ∃ errors, result = (a, c.noting errors) ∧ (∀ e ∈ errors, ids e.1 ∧ e.2.isCyclic = false) ∧ (errors = [] → exact)

namespace Noted

variable {a : α} {b : β} {c' : Collector} {P Q : Prop}

theorem pure (h : P) : Noted ids (outcome (Pure.pure a) c) a c P :=
  ⟨[], by rw [Collector.noting_nil]; rfl, by simp, fun _ => h⟩

theorem report {error : TypeError} (he : error.isCyclic = false) :
    Noted (· = unit.id) (outcome (report unit.id error >>= fun _ => Pure.pure a) c) a c P := by
  refine ⟨[(unit.id, error)], ?_, by simp [he], by simp⟩
  show (a, (outcome (Collect.report unit.id error) c).2) = _
  rw [outcome, report_apply]

theorem bind {x : Collect α} {f : α → Collect β} {c1 c2 : Collector} (hx : Noted ids (outcome x c) a c1 P)
    (hf : ∀ errors, Noted ids (outcome (f a) (c1.noting errors)) b (c2.noting errors) Q) :
    Noted ids (outcome (x >>= f) c) b c2 (P ∧ Q) := by
  obtain ⟨errors, heq, herrors, hexact⟩ := hx
  obtain ⟨more, heq', hmore, hexact'⟩ := hf errors
  refine ⟨errors ++ more, ?_, List.forall_mem_append.mpr ⟨herrors, hmore⟩, fun hnil => ?_⟩
  · rw [outcome_bind, heq, heq', Collector.noting_noting]
  · obtain ⟨hnil, hnil'⟩ := List.append_eq_nil_iff.mp hnil
    exact ⟨hexact hnil, hexact' hnil'⟩

theorem mono {ids' : UnitId → Prop} {result : α × Collector} (h : Noted ids result a c P) (hids : ∀ id, ids id → ids' id)
    (hp : P → Q) : Noted ids' result a c Q := by
  obtain ⟨errors, heq, herrors, hexact⟩ := h
  exact ⟨errors, heq, fun e he => ⟨hids _ (herrors e he).1, (herrors e he).2⟩, fun hnil => hp (hexact hnil)⟩

end Noted

/-! ## Types -/

/-- What a name gives: the type that is known, the expansion of an alias, or an error. -/
theorem namedType_cases (expand : String → Collect Ty) (unit : UnitRef) (name : String) (span : FileSpan)
    (c : Collector) : (∃ type, TypeExpr.nameType? unit.name name c.decls.types.get? = some type ∧
      outcome (namedType expand unit name span).run c = (.ok type, c)) ∨
    (TypeExpr.nameType? unit.name name c.decls.types.get? = none ∧ c.aliases.contains (qualify unit.name name) = true ∧
      outcome (namedType expand unit name span).run c = (.ok (outcome (expand (qualify unit.name name)) c).1,
          (outcome (expand (qualify unit.name name)) c).2)) ∨
    (TypeExpr.nameType? unit.name name c.decls.types.get? = none ∧ c.aliases.contains (qualify unit.name name) = false ∧
      ∃ error, error.isCyclic = false ∧ outcome (namedType expand unit name span).run c = (.error error, c)) := by
  have hget : ∀ f : Collector → ExceptT TypeError Collect Ty,
    outcome (getThe Collector >>= f).run c = outcome (f c).run c := fun _ => rfl
  generalize hrun : outcome (namedType expand unit name span).run c = r
  replace hrun := (hget _).symm.trans hrun
  rw [lookupType?_eq] at hrun
  cases hfound : TypeExpr.nameType? unit.name name c.decls.types.get? with
  | some type =>
    rw [hfound] at hrun
    exact .inl ⟨type, rfl, hrun.symm⟩
  | none =>
    refine .inr ?_
    rw [hfound] at hrun
    have hpending : c.pending? (m := Id) (qualify unit.name name) =
        if c.aliases.contains (qualify unit.name name) = true then
          some (qualify unit.name name) else none := by
      show Option.filter _ (some _) = _
      rw [Option.filter_some]
    rw [hpending] at hrun
    cases hcontains : c.aliases.contains (qualify unit.name name) with
    | true =>
      rw [if_pos hcontains] at hrun
      exact .inl ⟨rfl, rfl, hrun.symm⟩
    | false =>
      rw [if_neg (by simp [hcontains])] at hrun
      exact .inr ⟨rfl, rfl, _, rfl, hrun.symm⟩

/-- Once all aliases have types, the type of an expression is that of its names. -/
theorem lowerType_settled (hc : c.Settled types) (unit : UnitRef) (expr : TypeExpr) :
    Noted (· = unit.id) (outcome (lowerType unit expr) c) ((expr.type? unit.name types).getD .error) c
      ((expr.type? unit.name types).isSome = true) := by
  have htype : ∃ r, outcome (expr.typeWith (namedType expand unit)).run c = (r, c) ∧
      Answers (expr.type? unit.name types) r := by
    refine TypeExpr.typeWith_answers (fun x a => outcome x c = (a, c)) (fun _ => rfl) ?_ (fun name span => ?_) expr
    · intro α β x f a b hx hf
      rw [outcome_bind, hx]
      exact hf
    · have hcases := namedType_cases expand unit name span c
      rw [hc.known] at hcases
      rcases hcases with ⟨type, ht, hrun⟩ | ⟨hnone, hcontains, -⟩ | ⟨hnone, -, error, he, hrun⟩
      · exact ⟨_, hrun, ht⟩
      · have hsome := hc.aliases _ hcontains
        rw [(Option.or_eq_none_iff.mp hnone).2] at hsome
        cases hsome
      · exact ⟨_, hrun, hnone, he⟩
  obtain ⟨r, hr, ha⟩ := htype
  unfold lowerType lowerTypeWith
  rw [outcome_bind, hr]
  cases r with
  | ok type =>
    rw [show expr.type? unit.name types = some type from ha]
    exact .pure rfl
  | error error =>
    rw [ha.1]
    exact .report ha.2

/-! ## Fields -/

theorem lowerValueType_settled (hc : c.Settled types) {expr : TypeExpr} :
    Noted (· = unit.id) (outcome (lowerValueType unit expr) c) ((expr.valueType? unit.name types).getD .error) c
      ((expr.valueType? unit.name types).isSome = true) := by
  have hbind : Noted (· = unit.id) _ ((expr.valueType? unit.name types).getD .error) c _ :=
    Noted.bind (lowerType_settled hc unit expr)
    (f := fun lowered : Ty => (if lowered.isUnit then do
      report unit.id (.mismatch "a value type" "unit" expr.span)
      return .error
    else return lowered : Collect Ty))
    (Q := (expr.type? unit.name types).isSome = true → (expr.valueType? unit.name types).isSome = true) ?_
  · exact hbind.mono (fun _ h => h) fun h => h.2 h.1
  · intro errors
    unfold TypeExpr.valueType?
    cases expr.type? unit.name types with
    | none => exact .pure fun h => h
    | some type =>
      rw [Option.getD_some, Option.filter_some]
      cases hunit : type.isUnit with
      | false => exact .pure fun _ => rfl
      | true => exact .report rfl

theorem addField_settled (hc : c.Settled types) {fields : List FieldDef} {decl : FieldDecl} :
    Noted (· = unit.id) (outcome (addField unit fields decl) c) (decl.addTo unit.name types fields) c
      ((decl.type.valueType? unit.name types).isSome = true ∧
        decl.addTo unit.name types fields = fields ++ [decl.field unit.name types]) := by
  unfold addField FieldDecl.addTo
  cases hfind : fields.find? (·.name = decl.name) with
  | some first => exact .report rfl
  | none =>
    refine ((lowerValueType_settled hc).bind (Q := True) fun errors => ?_).mono (fun _ h => h) fun h =>
      ⟨h.1, rfl⟩
    exact .pure trivial

theorem addFields_settled (hc : c.Settled types) {decls : List FieldDecl} (fields : List FieldDef) :
    Noted (· = unit.id) (outcome (decls.foldlM (addField unit) fields) c)
      (decls.foldl (fun fields decl => decl.addTo unit.name types fields) fields) c
      ((∀ decl ∈ decls, (decl.type.valueType? unit.name types).isSome = true) ∧
        decls.foldl (fun fields decl => decl.addTo unit.name types fields) fields =
          fields ++ decls.map fun decl => decl.field unit.name types) := by
  induction decls generalizing c fields with
  | nil => exact .pure (by simp)
  | cons decl rest ih =>
    refine ((addField_settled hc).bind fun errors => ih (c := c.noting errors) ⟨hc.known, hc.aliases⟩ _).mono (fun _ h => h) ?_
    rintro ⟨⟨hdecl, hadd⟩, hrest, hfold⟩
    refine ⟨List.forall_mem_cons.mpr ⟨hdecl, hrest⟩, ?_⟩
    refine hfold.trans ?_
    rw [hadd, List.append_assoc]
    rfl

/-! ## Expanding aliases comes to an end

An alias is not expanded again while it is being expanded, so at no time are more aliases being expanded than there
are. The bound on their number therefore changes nothing (`Collect.expandAlias_eq_expand`). -/

variable {inv : Collector → Prop} {aliases : Table String PendingAlias} {keys : List String} {key : String}

/-- Two steps do the same from each state with an invariant, which they keep. -/
def Agree (inv : Collector → Prop) (x x' : Collect α) : Prop := ∀ c, inv c → x c = x' c ∧ inv (x c).2

namespace Agree

variable {f f' : α → ExceptT TypeError Collect β} {x x' : Collect α}

theorem refl (h : ∀ c, inv c → inv (x c).2) : Agree inv x x := fun c hc => ⟨rfl, h c hc⟩

theorem pure (a : α) : Agree inv (Pure.pure a) (Pure.pure a) := refl fun _ hc => hc

theorem bind {f f' : α → Collect β} (hx : Agree inv x x') (hf : ∀ a, Agree inv (f a) (f' a)) :
    Agree inv (x >>= f) (x' >>= f') := by
  intro c hc
  obtain ⟨heq, hc1⟩ := hx c hc
  obtain ⟨heq', hc2⟩ := hf (x c).1 (x c).2 hc1
  refine ⟨?_, hc2⟩
  calc (x >>= f) c = f (x c).1 (x c).2 := rfl
    _ = f' (x c).1 (x c).2 := heq'
    _ = f' (x' c).1 (x' c).2 := by rw [heq]

theorem run_bind {x x' : ExceptT TypeError Collect α} (hx : Agree inv x.run x'.run)
    (hf : ∀ a, Agree inv (f a).run (f' a).run) : Agree inv (x >>= f).run (x' >>= f').run := by
  rw [ExceptT.run_bind, ExceptT.run_bind]
  refine hx.bind fun r => ?_
  cases r with
  | ok a => exact hf a
  | error e => exact pure _

theorem run_get {f f' : Collector → ExceptT TypeError Collect α} (hf : ∀ c, Agree inv (f c).run (f' c).run) :
    Agree inv (getThe Collector >>= f).run (getThe Collector >>= f').run :=
  fun c hc => hf c c hc

theorem run_id {x : Id α} (hf : Agree inv (f x).run (f' x).run) :
    Agree inv ((liftM x : ExceptT TypeError Collect α) >>= f).run
      ((liftM x : ExceptT TypeError Collect α) >>= f').run := hf

theorem run_lift (hx : Agree inv x x') :
    Agree inv (ExceptT.lift x : ExceptT TypeError Collect α).run (ExceptT.lift x').run := by
  intro c hc
  obtain ⟨heq, hc1⟩ := hx c hc
  refine ⟨?_, hc1⟩
  show (Except.ok (x c).1, (x c).2) = (Except.ok (x' c).1, (x' c).2)
  rw [heq]

theorem get_self {f f' : Collector → Collect β} (hf : ∀ c, inv c → f c c = f' c c ∧ inv (f c c).2) :
    Agree inv (get >>= f) (get >>= f') := hf

theorem within {inner : Collector → Prop} {next : α → Collect β} (hx : Agree inner x x') {c c1 : Collector}
    (hc : inner c1) (hnext : ∀ a c, inner c → inv (next a c).2) :
    (set c1 >>= fun _ => x >>= next : Collect β) c = (set c1 >>= fun _ => x' >>= next : Collect β) c ∧
      inv ((set c1 >>= fun _ => x >>= next : Collect β) c).2 := by
  obtain ⟨heq, hc1⟩ := hx c1 hc
  refine ⟨?_, hnext _ _ hc1⟩
  show next (x c1).1 (x c1).2 = next (x' c1).1 (x' c1).2
  rw [heq]

variable {expand expand' : String → Collect Ty} {unit : UnitRef}

theorem namedType (he : ∀ key, Agree inv (expand key) (expand' key)) (name : String) (span : FileSpan) :
    Agree inv (namedType expand unit name span).run (namedType expand' unit name span).run := by
  refine .run_get fun c => .run_id ?_
  split
  · exact pure _
  · refine .run_id ?_
    split
    · exact .run_bind (.run_lift (he _)) fun _ => pure _
    · exact .run_id (pure _)

theorem lowerTypeWith (he : ∀ key, Agree inv (expand key) (expand' key))
    (hr : ∀ error c, inv c → inv (c.noting [(unit.id, error)])) (expr : TypeExpr) :
    Agree inv (lowerTypeWith expand unit expr) (lowerTypeWith expand' unit expr) := by
  have htype : Agree inv (expr.typeWith (Collect.namedType expand unit)).run
      (expr.typeWith (Collect.namedType expand' unit)).run :=
    TypeExpr.typeWith_rel (fun {α} (x x' : ExceptT TypeError Collect α) => Agree inv x.run x'.run)
      (fun _ => pure _) .run_bind _ _ (namedType he) expr
  refine htype.bind fun r => ?_
  cases r with
  | ok type => exact pure _
  | error e =>
    refine bind (refl fun c hc => ?_) fun _ => pure _
    exact hr e c hc

end Agree

theorem get_bind_apply {f : Collector → Collect β} : (get >>= f : Collect β) c = f c c := rfl

/-! ## The bound -/

/-- The aliases, and those that are being expanded. -/
def Expanding (aliases : Table String PendingAlias) (keys : List String) (c : Collector) : Prop :=
  c.aliases = aliases ∧ c.expanding = keys

/-- The aliases that are not being expanded. -/
def unexpanded (aliases : Table String PendingAlias) (keys : List String) : List String :=
  aliases.keys.filter (· ∉ keys)

theorem length_unexpanded_cons (ha : key ∈ aliases.keys) (hk : key ∉ keys) :
    (unexpanded aliases (key :: keys)).length < (unexpanded aliases keys).length := by
  have hsub : unexpanded aliases (key :: keys) = (unexpanded aliases keys).filter (· ≠ key) := by simp [unexpanded]
  rw [hsub]
  exact length_filter_lt_length_iff_exists.mpr ⟨key, by simp [unexpanded, ha, hk], by simp⟩

theorem agree_expandAlias {fuel fuel' : Nat} (hf : (unexpanded aliases keys).length < fuel)
    (hf' : (unexpanded aliases keys).length < fuel') (key : String) :
    Agree (Expanding aliases keys) (expandAlias fuel key) (expandAlias fuel' key) := by
  induction fuel generalizing fuel' keys key with
  | zero => omega
  | succ fuel ih =>
    obtain ⟨fuel', rfl⟩ : ∃ n, fuel' = n + 1 := ⟨fuel' - 1, by omega⟩
    refine .get_self fun c hc => ?_
    cases hnone : c.decls.types.get? key with
    | some type => exact ⟨rfl, hc⟩
    | none =>
      cases hfound : c.aliases.get? key with
      | none => exact ⟨rfl, hc⟩
      | some found =>
        by_cases hinside : c.expanding.contains key = true
        · simp only [if_pos hinside]
          exact ⟨trivial, hc⟩
        · simp only [if_neg hinside]
          have hnew : key ∉ keys := by simpa [hc.2] using hinside
          have hkey : key ∈ aliases.keys := by
            rw [← hc.1]
            exact mem_map_of_mem (Table.mem_of_find? hfound)
          have hfewer := length_unexpanded_cons hkey hnew
          have hlower : Agree (Expanding aliases (key :: keys))
              (lowerTypeWith (expandAlias fuel) found.unit found.decl.type)
              (lowerTypeWith (expandAlias fuel') found.unit found.decl.type) :=
            .lowerTypeWith (ih (by omega) (by omega)) (fun _ _ hc => hc) _
          have hinner : Expanding aliases (key :: keys) { c with expanding := key :: c.expanding } :=
            ⟨hc.1, by rw [hc.2]⟩
          refine hlower.within hinner fun type c hc => ?_
          have hafter : Expanding aliases keys { c with expanding := c.expanding.erase key } :=
            ⟨hc.1, by rw [hc.2, erase_cons_head]⟩
          have hmodify : ∀ (f : Collector → Collector) (g : Collector → Collect Ty),
            (modify f >>= fun _ => get >>= g : Collect Ty) c = g (f c) (f c) := fun _ _ => rfl
          rw [hmodify]
          cases c.decls.types.get? key <;> exact hafter

theorem expand_apply : (expand key : Collect Ty) c = (expandAlias (c.aliases.size + 1) key : Collect Ty) c := by
  exact get_bind_apply

/-- The bound on the aliases being expanded is never reached. -/
theorem expandAlias_eq_expand {fuel : Nat} (hf : c.aliases.size < fuel) :
    (expandAlias fuel key : Collect Ty) c = expand key c := by
  have hfew : (unexpanded c.aliases c.expanding).length ≤ c.aliases.size := by
    simpa [unexpanded, Table.keys, Table.size] using length_filter_le (· ∉ c.expanding) c.aliases.keys
  rw [expand_apply]
  exact (agree_expandAlias (Nat.lt_of_le_of_lt hfew hf) (Nat.lt_succ_of_le hfew) key c ⟨rfl, rfl⟩).1

end Collect

end SsaCompiler
