import SsaCompiler.Proofs.Lowering.Instructions

/-!
# Lowering variables and literals

A variable stands for a local, a global or a function; each is read, written and declared as its
record says. What an expression gives is then converted to the type it is used as
(`World.Yields.coerced`).
-/

namespace SsaCompiler

open List TypingContext Setting

/-! ## Items -/

theorem Setting.Fits.item {units : List SourceUnit} {X : Setting} (hX : X.Fits units) {name : String}
    {item : Binding Ty} (hi : X.typing.item? name = some item) :
    (∃ i, item.id = .item i) ∧ ((item.storage = .global ∧ X.items.functions.get? item.id = none ∧ item.type ≠ .unit ∧
      ∃ id global, X.items.globals.get? item.id = some id ∧ X.mod.globals[id.index]? = some global ∧
        X.items.lowerType item.type = .ok global.type) ∨
    (item.storage = .function ∧ X.items.globals.get? item.id = none ∧
      ∃ params result varargs id function, item.type = .function params result varargs ∧
        X.items.functions.get? item.id = some id ∧ X.mod.functions[id.index]? = some function ∧
        X.items.lowerSig params result varargs = .ok function.sig)) := by
  have hw := hX.wellFormed
  have hmem := Declarations.WellFormed.mem_of_lookup? hi
  have hself := hw.item?_id hmem
  refine ⟨?_, ?_⟩
  · cases hid : item.id with
    | item i => exact ⟨i, rfl⟩
    | «local» unit index =>
      rw [hid] at hself
      cases hself
  · rcases hw.kinds item hmem with ⟨hs, g, hg, hb, ht⟩ | ⟨hs, f, hf, hb, ht⟩
    · refine .inl ⟨hs, ?_, ht ▸ (hw.globals g hg).2.1, ?_⟩
      · by_contra hne
        obtain ⟨id, hid⟩ := Option.ne_none_iff_exists'.mp hne
        obtain ⟨f, hf, hfb⟩ := hX.realized.onlyFunctions hid
        obtain ⟨-, -, item', hitem', hs'⟩ := hw.functions f hf
        rw [hfb, hself] at hitem'
        cases hitem'
        rw [hs] at hs'
        cases hs'
      · obtain ⟨id, global, h1, h2, h3⟩ := hX.realized.globals g hg
        exact ⟨id, global, hb ▸ h1, h2, ht ▸ h3⟩
    · refine .inr ⟨hs, ?_, ?_⟩
      · by_contra hne
        obtain ⟨id, hid⟩ := Option.ne_none_iff_exists'.mp hne
        obtain ⟨g, hg, hgb⟩ := hX.realized.onlyGlobals hid
        obtain ⟨-, -, item', hitem', hs'⟩ := hw.globals g hg
        rw [hgb, hself] at hitem'
        cases hitem'
        rw [hs] at hs'
        cases hs'
      · obtain ⟨id, function, h1, h2, h3⟩ := hX.realized.functions f hf
        exact ⟨f.params, f.result, f.varargs, id, function, ht.symm, hb ▸ h1, h2, h3⟩

namespace World

variable {i : Nat} {env : Env} {binding : BindingId} {v : ValueId} {x : Local} {span : FileSpan} {bound : Bound}

open Lower

variable {units : List SourceUnit} {w w' : World} {X : Setting} {Γ Δ : List Local} {depth : Nat}
  {breaks : Bool} {type : Ty} {id : ExprId} {name : String} {value : Option Lowered} {lowered : Lowered}
variable {item : Binding Ty}

/-! ## Environments -/

theorem EnvOk.get?_eq_none (h : w.EnvOk X i Γ env) (hb : ∀ x ∈ Γ, x.binding ≠ binding) : env.get? binding = none := by
  refine Table.find?_eq_none_iff.mpr ?_
  show binding ∉ env.keys
  rw [h.keys, mem_map]
  rintro ⟨x, hx, he⟩
  exact hb x hx he

theorem EnvOk.size_eq (h : w.EnvOk X i Γ env) : env.size = Γ.length := by
  have := congrArg List.length h.keys
  simpa [Table.keys, Table.size] using this

theorem At.item_not_local (h : At w X Γ depth) : w.env.get? (.item i) = none := by
  refine h.env.get?_eq_none fun x hx he => ?_
  obtain ⟨unit, index, hb⟩ := h.locals x hx
  rw [hb] at he
  cases he

theorem At.withEnv (h : At w X Γ depth) (he : w.EnvOk X w.here Δ env)
    (hd : (Δ.map (·.binding)).Nodup) (hl : ∀ x ∈ Δ, ∃ unit index, x.binding = .local unit index) :
    At { w with env := env } X Δ depth :=
  { h with
    valid := { h.valid with }
    env := ⟨he.keys, fun x hx => by
      obtain ⟨type, bound, h1, h2, h3, h4⟩ := he.bounds x hx
      exact ⟨type, bound, h1, h2, h3, h4.mono (F := ∅) { Grows.refl with } h.valid.cells fun v hv => hv⟩⟩
    distinct := hd
    locals := hl
    loops := { h.loops with pending := fun t ht x hx => { h.loops.pending t ht x hx with } } }

theorem flow_withEnv (hh : ∀ x ∈ Γ, x.depth < depth ∨ X.function.isMemoryResident x.binding = true →
    env.get? x.binding = w.env.get? x.binding) : Flow w { w with env := env } X Γ depth breaks :=
  { Flow.refl X Γ depth with
    grows := { Grows.refl with }
    held := hh }

/-! ## What stays true on the way -/

theorem Flow.holdsAt (hf : Flow w w' X Γ depth breaks) (hv : w.Valid X)
    (h : w.HoldsAt X w.here v type) : w'.HoldsAt X w'.here v type :=
  h.mono hf.grows hv.cells hf.known

theorem Flow.loweredOk (hf : Flow w w' X Γ depth breaks) (hv : w.Valid X)
    (h : w.LoweredOk X w.here type lowered) : w'.LoweredOk X w'.here type lowered :=
  h.mono hf.grows hv.cells hf.known

theorem LoweredOk.of_value (h : w.LoweredOk X i type (.value v)) : type ≠ .unit ∧ w.HoldsAt X i v type := by
  cases h with
  | value hu hv => exact ⟨hu, hv⟩

theorem LoweredOk.of_unit (h : w.LoweredOk X i type .unit) : type = .unit := by
  cases h
  rfl

/-! ## Reading -/

theorem bindingOf_eq (h : X.function.refs.get? id = some binding) : bindingOf X.lowering id = .ok binding := by
  simp [bindingOf, lowering, h]

theorem At.yields_local (h : At w X Γ depth) (hx : x ∈ Γ) (hr : X.function.refs.get? id = some x.binding)
    (ht : X.function.localTypes.get? x.binding = some type) :
    Yields X Γ depth breaks (var X.lowering id) w (AtLowered X Γ depth type) := by
  obtain ⟨type', bound, ht', -, hb, hok⟩ := h.env.bounds x hx
  obtain rfl : type = type' := Option.some.inj (ht.symm.trans ht')
  refine .answer (bindingOf_eq hr) (.get ?_)
  rw [hb]
  cases hok with
  | unit => exact .pure ⟨h, .unit⟩
  | slot hu hm hs =>
    exact (h.yields_load (hs.holdsAt w.here) hs.1 hu).bind fun v w' _ ⟨hat, hv⟩ =>
      .pure ⟨hat, .value hu hv⟩
  | value hu hm hv => exact .pure ⟨h, .value hu hv⟩

theorem At.yields_global (hX : X.Fits units) (h : At w X Γ depth)
    (hi : X.typing.item? name = some item) (hs : item.storage = .global) (breaks : Bool) : ∃ global,
    X.items.functions.get? item.id = none ∧ X.items.globals.get? item.id = some global ∧
      item.type ≠ .unit ∧ (∃ lowered, X.items.lowerType item.type = .ok lowered) ∧
      Yields X Γ depth breaks (emit (.globalAddr global)) w (AtValue X Γ depth (.ptr item.type)) := by
  rcases (hX.item hi).2 with ⟨-, hfn, hu, global, decl, hg, hmod, hl⟩ | ⟨hs', -⟩
  · exact ⟨global, hfn, hg, hu, ⟨_, hl⟩, h.yields_globalAddr hmod hl⟩
  · rw [hs] at hs'
    cases hs'

theorem At.yields_item (hX : X.Fits units) (h : At w X Γ depth) (hi : X.typing.item? name = some item)
    (hr : X.function.refs.get? id = some item.id) (ht : X.function.typeOf id = item.type) :
    Yields X Γ depth breaks (var X.lowering id) w (AtLowered X Γ depth item.type) := by
  obtain ⟨⟨i, hid⟩, hkind⟩ := hX.item hi
  have hnone : w.env.get? item.id = none := hid ▸ h.item_not_local
  refine .answer (bindingOf_eq hr) (.get ?_)
  rw [hnone]
  rcases hkind with ⟨hs, -⟩ | ⟨-, -, params, result, varargs, function, decl, hty, hf, -⟩
  · obtain ⟨global, hfn, hg, hu, ⟨lowered, hl⟩, haddr⟩ := h.yields_global hX hi hs breaks
    simp only [lowering, hfn, hg]
    refine .answer (ht ▸ hl) (haddr.bind fun v w1 _ ⟨hat1, hv⟩ => ?_)
    exact (hat1.yields_load hv hl hu).bind fun v w2 _ ⟨hat2, hv⟩ => .pure ⟨hat2, .value hu hv⟩
  · simp only [lowering, hf]
    rw [hty]
    exact (h.yields_value none (by trivial) rfl (by simp)).bind fun v w' _ ⟨hat, hv⟩ =>
      .pure ⟨hat, .value (by simp) hv⟩

theorem At.yields_var (hX : X.Fits units) (h : At w X Γ depth) (hv : X.typing.VarTyped Γ id name) :
    Yields X Γ depth breaks (var X.lowering id) w (AtLowered X Γ depth (X.function.typeOf id)) := by
  unfold VarTyped at hv
  split at hv
  · rename_i x hx
    exact h.yields_local (mem_of_local? hx) hv.1 hv.2
  · obtain ⟨item, hi, hr, ht⟩ := hv
    have ht : X.function.typeOf id = item.type := ht
    rw [ht]
    exact h.yields_item hX hi hr ht

/-! ## Places -/

theorem At.yields_variablePlace (hX : X.Fits units) (h : At w X Γ depth) (hv : X.typing.VarTyped Γ id name)
    (hs : X.typing.Stored Γ (.var id span name)) (hu : X.function.typeOf id ≠ .unit) :
    Yields X Γ depth breaks (variablePlace X.lowering id) w (AtValue X Γ depth (.ptr (X.function.typeOf id))) := by
  unfold VarTyped at hv
  unfold Stored at hs
  split at hv
  · rename_i x hx
    simp only [hx] at hs
    obtain ⟨type, bound, ht, -, hb, hok⟩ := h.env.bounds x (mem_of_local? hx)
    have htype : X.function.typeOf id = type := Option.some.inj (hv.2.symm.trans ht)
    rw [htype] at hu ⊢
    refine .answer (bindingOf_eq hv.1) (.get ?_)
    rw [hb]
    cases hok with
    | unit => exact absurd rfl hu
    | slot _ _ hslot => exact .pure ⟨h, hslot.holdsAt _⟩
    | value _ hm _ =>
      have hs : X.function.isMemoryResident x.binding = true := hs
      rw [hs] at hm
      cases hm
  · rename_i hx
    simp only [hx] at hs
    obtain ⟨item, hi, hr, ht⟩ := hv
    obtain ⟨item', hi', hst⟩ := hs
    rw [hi] at hi'
    cases hi'
    have ht : X.function.typeOf id = item.type := ht
    obtain ⟨⟨i, hid⟩, -⟩ := hX.item hi
    have hnone : w.env.get? item.id = none := hid ▸ h.item_not_local
    obtain ⟨global, -, hg, -, -, haddr⟩ := h.yields_global hX hi hst breaks
    refine .answer (bindingOf_eq hr) (.get ?_)
    rw [hnone, ht]
    simp only [lowering, hg]
    exact haddr

theorem At.isMemoryPlace (hX : X.Fits units) (h : At w X Γ depth) : ∀ {expr : Expr},
    X.typing.Typed Γ depth expr → ∃ inMemory, Lower.isMemoryPlace X.lowering w.env expr = .ok inMemory ∧
        (inMemory = true → X.typing.Stored Γ expr)
  | .var id span name, ht => by
    simp only [Typed, VarTyped] at ht
    simp only [Lower.isMemoryPlace, Stored]
    split at ht
    · rename_i x hx
      obtain ⟨type, bound, -, -, hb, hok⟩ := h.env.bounds x (mem_of_local? hx)
      rw [bindingOf_eq ht.1]
      simp only [bind, Except.bind, hb]
      cases hok with
      | unit => exact ⟨false, rfl, by simp⟩
      | slot _ hm _ => exact ⟨true, rfl, fun _ => hm⟩
      | value _ _ _ => exact ⟨false, rfl, by simp⟩
    · obtain ⟨item, hi, hr, -⟩ := ht
      obtain ⟨⟨i, hid⟩, hkind⟩ := hX.item hi
      have hnone : w.env.get? item.id = none := hid ▸ h.item_not_local
      rw [bindingOf_eq hr]
      simp only [bind, Except.bind, hnone]
      refine ⟨_, rfl, fun hc => ⟨item, hi, ?_⟩⟩
      obtain ⟨global, hg⟩ := Table.contains_eq_true_iff.mp hc
      rcases hkind with ⟨hs, -⟩ | ⟨-, hn, -⟩
      · exact hs
      · rw [lowering, hn] at hg
        cases hg
  | .field id span base name, ht => by
    obtain ⟨hbase, -, ref, struct, field, href, -⟩ := ht
    have hfield : fieldRef X.lowering id = .ok ref := by
      have href : X.function.fields.get? id = some ref := href
      simp [fieldRef, lowering, href]
    simp only [Lower.isMemoryPlace, hfield, bind, Except.bind]
    cases hp : ref.throughPointer with
    | true => exact ⟨true, rfl, fun _ => ⟨ref, href, .inl hp⟩⟩
    | false =>
      obtain ⟨inMemory, hm, hs⟩ := h.isMemoryPlace hX hbase
      exact ⟨inMemory, hm, fun he => ⟨ref, href, .inr (hs he)⟩⟩
  | .unary _ _ op _, _ => by
    cases op with
    | deref => exact ⟨true, rfl, fun _ => trivial⟩
    | neg | not | addrOf => exact ⟨false, rfl, by simp⟩
  | .literal .., _ | .binary .., _ | .call .., _ | .assign .., _ | .cond .., _ | .loop .., _ | .block .., _
  | .structLiteral .., _ | .breakLoop .., _ | .continueLoop .., _ => ⟨false, rfl, by simp⟩

/-! ## Assignments -/

theorem EnvOk.insert (h : w.EnvOk X i Γ env) (hd : (Γ.map (·.binding)).Nodup) (hx : x ∈ Γ)
    (ht : X.function.localTypes.get? x.binding = some type) (hb : w.BoundOk X i x.binding type bound) :
    w.EnvOk X i Γ (env.insert x.binding bound) where
  keys := by
    obtain ⟨_, _, -, -, hg, -⟩ := h.bounds x hx
    rw [← h.keys]
    exact Table.keys_put (by rw [← Table.get?, hg]; simp)
  bounds y hy := by
    obtain ⟨type', bound', ht', hp, hg, hb'⟩ := h.bounds y hy
    by_cases he : y.binding = x.binding
    · obtain rfl := inj_on_of_nodup_map hd hy hx he
      obtain rfl : type = type' := Option.some.inj (ht.symm.trans ht')
      exact ⟨type, bound, ht, hp, Table.get?_insert_self .., hb⟩
    · exact ⟨type', bound', ht', hp, (Table.get?_insert_of_ne _ he _).trans hg, hb'⟩

/-- A local that is not in memory is assigned to where no loop is between it and the assignment. -/
theorem At.yields_setLocal (h : At w X Γ depth) (hx : x ∈ Γ) (ht : X.function.localTypes.get? x.binding = some type)
    (hu : type ≠ .unit) (hm : X.function.isMemoryResident x.binding = false)
    (hd : x.depth < depth → X.function.isMemoryResident x.binding = true) (hv : w.HoldsAt X w.here v type) :
    Yields X Γ depth breaks (setEnv (w.env.insert x.binding (.value v))) w fun _ w' => At w' X Γ depth := by
  refine ⟨{ w with env := w.env.insert x.binding (.value v) }, rfl, flow_withEnv fun y hy hk => ?_, ?_⟩
  · refine Table.get?_insert_of_ne _ ?_ _
    intro he
    obtain rfl := inj_on_of_nodup_map h.distinct hy hx he
    have hres : X.function.isMemoryResident y.binding = true := hk.elim hd id
    rw [hm] at hres
    cases hres
  · exact h.withEnv (h.env.insert h.distinct hx ht (.value hu hm hv)) h.distinct h.locals

theorem At.yields_assignVariable (hX : X.Fits units) (h : At w X Γ depth) (hv : X.typing.VarTyped Γ id name)
    (ha : X.typing.Assignable Γ depth (.var id span name)) (hl : w.LoweredOk X w.here (X.function.typeOf id) lowered) :
    Yields X Γ depth breaks (assignVariable X.lowering id lowered) w fun _ w' => At w' X Γ depth := by
  unfold VarTyped at hv
  unfold Assignable at ha
  split at hv
  · rename_i x hx
    simp only [hx] at ha
    have hxΓ := mem_of_local? hx
    obtain ⟨type, bound, ht, -, hb, hok⟩ := h.env.bounds x hxΓ
    have htype : X.function.typeOf id = type := Option.some.inj (hv.2.symm.trans ht)
    rw [htype] at hl
    refine .answer (bindingOf_eq hv.1) (.get ?_)
    rw [hb]
    cases hok with
    | unit => cases lowered <;> exact .pure h
    | slot hu hm hslot =>
      cases hl with
      | unit => exact absurd rfl hu
      | value _ hval => exact h.yields_store (hslot.holdsAt _) hval
    | value hu hm _ =>
      cases hl with
      | unit => exact absurd rfl hu
      | value _ hval => exact h.yields_setLocal hxΓ ht hu hm ha hval
  · rename_i hx
    simp only [hx] at ha
    obtain ⟨item, hi, hr, ht⟩ := hv
    obtain ⟨item', hi', hst⟩ := ha
    rw [hi] at hi'
    cases hi'
    have ht : X.function.typeOf id = item.type := ht
    rw [ht] at hl
    obtain ⟨⟨i, hid⟩, -⟩ := hX.item hi
    have hnone : w.env.get? item.id = none := hid ▸ h.item_not_local
    obtain ⟨global, -, hg, hu, -, haddr⟩ := h.yields_global hX hi hst breaks
    refine .answer (bindingOf_eq hr) (.get ?_)
    rw [hnone]
    cases lowered with
    | unit => exact .pure h
    | value v =>
      simp only [lowering, hg]
      exact haddr.bind fun place w' hf ⟨hat, hplace⟩ =>
        hat.yields_store hplace (hf.holdsAt h.valid hl.of_value.2)

/-! ## Declarations -/

theorem At.yields_newBound (hX : X.Fits units) (h : At w X Γ depth)
    (ht : X.function.localTypes.get? binding = some type)
    (hp : type.Proper X.decls.structs.size) (hv : ∀ lowered ∈ value, w.LoweredOk X w.here type lowered) :
    Yields X Γ depth breaks (newBound X.lowering binding value) w
      fun bound w' => At w' X Γ depth ∧ w'.BoundOk X w'.here binding type bound := by
  have htype : localType X.lowering binding = .ok type := by simp [localType, lowering, ht]
  obtain ⟨lowered, hl⟩ := hX.realized.lowerType hp
  refine .answer htype ?_
  split
  · rename_i hu
    obtain rfl := Ty.isUnit_eq_true.mp hu
    exact .pure ⟨h, .unit⟩
  · rename_i hu
    have hu : type ≠ .unit := fun he => hu (Ty.isUnit_eq_true.mpr he)
    refine .answer hl ?_
    cases hm : X.function.isMemoryResident binding with
    | true =>
      simp only [lowering, hm]
      refine (h.yields_alloca hl).bind ?_
      rintro slot w1 hf ⟨hat, hslot⟩
      obtain _ | v | _ := value
      · exact .pure ⟨hat, .slot hu hm hslot⟩
      · exact (hat.yields_store (hslot.holdsAt _) (hf.holdsAt h.valid (hv _ rfl).of_value.2)).bind
          fun _ w2 hf2 hat2 => .pure ⟨hat2, .slot hu hm (hslot.mono hf2.grows hat.valid.cells)⟩
      · exact .pure ⟨hat, .slot hu hm hslot⟩
    | false =>
      simp only [lowering, hm]
      obtain _ | v | _ := value
      · exact (h.yields_constant hl).bind fun v w' _ hq => .pure ⟨hq.1, .value hu hm hq.2⟩
      · exact .pure ⟨h, .value hu hm (hv _ rfl).of_value.2⟩
      · exact (h.yields_constant hl).bind fun v w' _ hq => .pure ⟨hq.1, .value hu hm hq.2⟩

theorem EnvOk.declare (h : w.EnvOk X i Γ env) (hfresh : ∀ y ∈ Γ, y.binding ≠ x.binding)
    (ht : X.function.localTypes.get? x.binding = some type) (hp : type.Proper X.decls.structs.size)
    (hb : w.BoundOk X i x.binding type bound) : w.EnvOk X i (Γ ++ [x]) (env.insert x.binding bound) where
  keys := by
    rw [Table.keys, Table.entries_insert (h.get?_eq_none hfresh), map_append, map_append]
    exact congrArg (· ++ [x.binding]) h.keys
  bounds y hy := by
    rcases mem_append.mp hy with hy | hy
    · obtain ⟨type', bound', ht', hp', hg, hb'⟩ := h.bounds y hy
      exact ⟨type', bound', ht', hp', (Table.get?_insert_of_ne _ (hfresh y hy) _).trans hg, hb'⟩
    · obtain rfl := mem_singleton.mp hy
      exact ⟨type, bound, ht, hp, Table.get?_insert_self .., hb⟩

theorem At.declare (h : At w X Γ depth)
    (hlocal : ∃ unit index, x.binding = .local unit index) (hfresh : ∀ y ∈ Γ, y.binding ≠ x.binding)
    (ht : X.function.localTypes.get? x.binding = some type) (hp : type.Proper X.decls.structs.size)
    (hb : w.BoundOk X w.here x.binding type bound) :
    At { w with env := w.env.insert x.binding bound } X (Γ ++ [x]) depth ∧
      ∀ breaks, Flow w { w with env := w.env.insert x.binding bound } X Γ depth breaks := by
  refine ⟨h.withEnv (h.env.declare hfresh ht hp hb) ?_ ?_, fun _ => flow_withEnv fun y hy _ => ?_⟩
  · rw [map_append, nodup_append]
    refine ⟨h.distinct, nodup_singleton _, fun a ha b hb he => ?_⟩
    obtain ⟨y, hy, rfl⟩ := mem_map.mp ha
    exact hfresh y hy (he.trans (mem_singleton.mp hb))
  · intro y hy
    rcases mem_append.mp hy with hy | hy
    · exact h.locals y hy
    · exact mem_singleton.mp hy ▸ hlocal
  · exact Table.get?_insert_of_ne _ (hfresh y hy) _

theorem At.yields_declare (hX : X.Fits units) (h : At w X Γ depth)
    (hlocal : ∃ unit index, x.binding = .local unit index) (hfresh : ∀ y ∈ Γ, y.binding ≠ x.binding)
    (ht : X.function.localTypes.get? x.binding = some type) (hp : type.Proper X.decls.structs.size)
    (hv : ∀ lowered ∈ value, w.LoweredOk X w.here type lowered) :
    Yields X Γ depth breaks (Lower.declare X.lowering x.binding value) w fun _ w' => At w' X (Γ ++ [x]) depth := by
  refine (h.yields_newBound hX ht hp hv).bind fun bound w' _ ⟨hat, hb⟩ => ?_
  obtain ⟨hat', hf'⟩ := hat.declare hlocal hfresh ht hp hb
  exact ⟨_, rfl, hf' _, hat'⟩

/-! ## Literals and conversions -/

theorem At.yields_literal (h : At w X Γ depth) {literal : Literal}
    (ht : literal.type span = .ok (X.function.typeOf id)) :
    Yields X Γ depth breaks (Lower.literal X.lowering id literal) w (AtLowered X Γ depth (X.function.typeOf id)) := by
  obtain ⟨type, htype⟩ : ∃ type, X.function.typeOf id = type := ⟨_, rfl⟩
  have hlower : ∀ {lowered}, X.items.lowerType type = .ok lowered →
      X.items.lowerType (X.function.typeOf id) = .ok lowered := fun hl => htype ▸ hl
  rw [htype] at ht ⊢
  cases literal with
  | int value bits =>
    simp only [Literal.type] at ht
    split at ht <;> [split at ht; skip] <;> cases ht
    exact .answer (hlower rfl) ((h.yields_constant rfl).bind fun v w' _ ⟨hat, hv⟩ =>
      .pure ⟨hat, .value (by simp) hv⟩)
  | float value bits =>
    simp only [Literal.type] at ht
    split at ht <;> cases ht
    exact .answer (hlower rfl) ((h.yields_constant rfl).bind fun v w' _ ⟨hat, hv⟩ =>
      .pure ⟨hat, .value (by simp) hv⟩)
  | bool value =>
    cases ht
    exact (h.yields_constant rfl).bind fun v w' _ ⟨hat, hv⟩ => .pure ⟨hat, .value (by simp) hv⟩
  | unit =>
    cases ht
    exact .pure ⟨h, .unit⟩
  | cString text =>
    cases ht
    exact h.yields_string.bind fun v w' _ ⟨hat, hv⟩ => .pure ⟨hat, .value (by simp [Ty.cString]) hv⟩

/-- What an expression gives is converted to the type it is used as. -/
theorem Yields.coerced {lowered : Lower Lowered} {P : Prop}
    (hc : ∀ target, X.function.coercions.get? id = some target → (X.function.typeOf id).ConvertsTo target)
    (h : Yields X Γ depth breaks lowered w fun a w' => AtLowered X Γ depth (X.function.typeOf id) a w' ∧ P) :
    Yields X Γ depth breaks (Lower.coerced X.lowering id lowered) w fun a w' =>
      AtLowered X Γ depth ((X.function.coercions.get? id).getD (X.function.typeOf id)) a w' ∧ P := by
  refine h.bind fun a w' _ ⟨⟨hat, ha⟩, hP⟩ => ?_
  cases hco : X.function.coercions.get? id with
  | none =>
    cases a with
    | unit => exact .pure ⟨⟨hat, ha⟩, hP⟩
    | value v =>
      simp only [lowering, hco]
      exact .pure ⟨⟨hat, ha⟩, hP⟩
  | some target =>
    have hconv := hc target hco
    cases a with
    | unit => exact absurd ha.of_unit hconv.ne_unit.1
    | value v =>
      obtain ⟨l, hl⟩ := hconv.lowerType
      simp only [lowering, hco]
      refine .answer hl ((hat.yields_widen ha.of_value.2 hconv hl).bind fun v' w2 _ ⟨hat2, hv2⟩ => ?_)
      exact .pure ⟨⟨hat2, .value hconv.ne_unit.2 hv2⟩, hP⟩

/-! ## Blocks

What happens to the ends that control leads to (`World.Leads`) when a block is made, ended or gone on with. At an end
that knows what was known before, something can be lowered again (`World.At.enter`). -/

variable {w'' : World} {E : Set Nat} {R : Set ValueId} {t : Terminator}

namespace Leads

variable (h : Leads w w' X breaks E)
include h

theorem grow (g : Grows ∅ w' w'') (hv : w''.Valid X) (ht : ∀ i, w''.terminator i = w'.terminator i)
    (hl : w''.loops = w'.loops) (hb : w''.blockCount = w'.blockCount) : Leads w w'' X breaks E where
  valid := hv
  loops := h.loops.mono g h.valid.blocks (fun _ _ => id) hl
  grows := h.grows.trans g fun _ _ hi => absurd hi id
  kept := hl ▸ h.kept
  closed i hi hlt ho := by
    rw [hl]
    exact h.closed i hi (hb ▸ hlt) (ht i ▸ ho)
  ends i hi := by
    rw [hl, hb, ht]
    exact h.ends i hi

theorem withBlock (hR : ∀ v ∈ R, v.index < w'.valueCount) :
    Leads w (w'.withBlock R) X breaks (insert w'.blockCount E) where
  valid := h.valid.withBlock hR
  loops := h.loops.mono (grows_withBlock w' R) h.valid.blocks (fun _ _ => id) rfl
  grows := h.grows.trans (grows_withBlock w' R) fun _ _ hi => absurd hi id
  kept := h.kept
  closed i hi hlt ho := by
    rw [blockCount_withBlock] at hlt
    rw [terminator_withBlock] at ho
    rcases Nat.lt_succ_iff_lt_or_eq.mp hlt with hlt | rfl
    · exact (h.closed i hi hlt ho).imp_left .inr
    · exact .inl (.inl rfl)
  ends i hi := by
    rw [blockCount_withBlock, terminator_withBlock]
    rcases hi with rfl | hi
    · refine ⟨.inr h.grows.blocks, Nat.lt_succ_self _, (code_of_le (Nat.le_refl _)).2, fun hx => ?_⟩
      exact Nat.lt_irrefl _ (h.loops.exit_lt hx)
    · obtain ⟨hnew, hlt, ho, hx⟩ := h.ends i hi
      exact ⟨hnew, Nat.lt_succ_of_lt hlt, ho, hx⟩

theorem close (hi : w'.here ∈ E) (ht : t.Typed X.sig w'.typing) (ho : ∀ v ∈ t.operands, w'.Known w'.here v)
    (hs : ∀ j ∈ t.successors, j.index < w'.blockCount ∧ ∀ v ∈ w'.reach j.index, w'.Known w'.here v) :
    Leads w (w'.close t) X breaks (E \ {w'.here}) where
  valid := h.valid.close ht ho hs
  loops := by
    refine h.loops.mono (grows_close h.valid.laid) h.valid.blocks (fun x hx he => ?_) rfl
    exact (h.ends _ hi).2.2.2 (he ▸ hx)
  grows := by
    refine h.grows.trans (grows_close h.valid.laid) fun i hlt he => ?_
    exact (he ▸ (h.ends _ hi).1).resolve_right (Nat.not_le_of_lt hlt)
  kept := h.kept
  closed i hi hlt hopen := by
    rw [blockCount_close] at hlt
    rw [terminator_close h.valid.laid] at hopen
    split at hopen
    · cases hopen
    · rename_i hne
      exact (h.closed i hi hlt hopen).imp_left fun hE => ⟨hE, hne⟩
  ends i hE := by
    obtain ⟨hE, hne⟩ := hE
    have hne : i ≠ w'.here := hne
    obtain ⟨hnew, hlt, hopen, hx⟩ := h.ends i hE
    rw [blockCount_close, terminator_close h.valid.laid, if_neg hne]
    exact ⟨hnew, hlt, hopen, hx⟩

theorem goingOn (env : Env) (block : BlockId)
    (hi : block.index < w'.blockCount) : Leads w ({ w' with env := env }.goingOn block) X breaks E :=
  { h with
    valid := { h.valid with laid := h.valid.laid.goingOn hi }
    loops := { h.loops with pending := fun t ht x hx => { h.loops.pending t ht x hx with } }
    grows := { h.grows with } }

theorem of_eq {E' : Set Nat} (he : E = E') : Leads w w' X breaks E' := he ▸ h

end Leads

/-- An end that knows what was known where control came from can be gone on at. -/
theorem At.enter (h : At w X Γ depth) (hl : Leads w w' X breaks E) (hi : i ∈ E)
    (hk : ∀ v, w.Known w.here v → w'.Known i v) : At ({ w' with env := w.env }.goingOn ⟨i⟩) X Γ depth := by
  obtain ⟨-, hlt, hopen, hx⟩ := hl.ends i hi
  have hl' := hl.goingOn w.env ⟨i⟩ hlt
  refine ⟨hl'.valid, hopen, ?_, h.distinct, h.locals, hl'.loops, ?_, ?_, hx⟩
  · exact h.env.mono hl'.grows h.valid.cells hk
  · exact hl.kept.length_eq.trans h.depth
  · intro t ht v hv
    have hmem : t.header ∈ w.loops.map (·.header) := by
      rw [← hl.kept.headers_eq]
      exact mem_map_of_mem ht
    obtain ⟨t', ht', he⟩ := mem_map.mp hmem
    refine hk v (h.around t' ht' v ?_)
    have hheader := h.loops.headers t' ht'
    rw [he] at hheader ⊢
    rwa [← hl'.grows.reach_eq (h.valid.blocks ▸ hheader)]

/-! ## Scopes -/

theorem EnvOk.truncate {env : Env} (h : w.EnvOk X i (Γ ++ Δ) env) : w.EnvOk X i Γ (env.truncate Γ.length) ∧
      ∀ x ∈ Γ, (env.truncate Γ.length).get? x.binding = env.get? x.binding := by
  have hkeys : (env.truncate Γ.length).keys = Γ.map (·.binding) := by
    have htake : (env.truncate Γ.length).keys = env.keys.take Γ.length := map_take
    rw [htake, h.keys, map_append, take_left' (by simp)]
  have hget : ∀ x ∈ Γ, (env.truncate Γ.length).get? x.binding = env.get? x.binding := fun x hx =>
    Table.get?_truncate (hkeys ▸ mem_map_of_mem hx)
  refine ⟨⟨hkeys, fun x hx => ?_⟩, hget⟩
  obtain ⟨type, bound, ht, hp, hb, hok⟩ := h.bounds x (mem_append_left _ hx)
  exact ⟨type, bound, ht, hp, (hget x hx).trans hb, hok⟩

theorem yields_inScope {inside : Lower Lowered} {P : Prop} (h : At w X Γ depth)
    (hi : Yields X Γ depth breaks inside w fun a w' => At w' X (Γ ++ Δ) depth ∧ w'.LoweredOk X w'.here type a ∧ P) :
    Yields X Γ depth breaks (inScope inside) w fun a w' => At w' X Γ depth ∧ w'.LoweredOk X w'.here type a ∧ P := by
  refine .get (.attempt hi ?_ ?_)
  · rintro a s ⟨w', rfl, hf, hat, ha, hP⟩
    rw [show w.env.size = Γ.length from h.env.size_eq]
    obtain ⟨henv, hget⟩ := hat.env.truncate
    have hf' : Flow w' { w' with env := w'.env.truncate Γ.length } X Γ depth breaks :=
      flow_withEnv fun x hx _ => hget x hx
    exact ⟨_, rfl, hf.trans hf', hat.withEnv henv h.distinct h.locals, hf'.loweredOk hat.valid ha, hP⟩
  · rintro s ⟨w', rfl, hh⟩
    exact ⟨{ w' with env := w'.env.truncate w.env.size }, rfl,
      hh.leads.grow { Grows.refl with } { hh.leads.valid with } (fun _ => rfl) rfl rfl, hh.stopped⟩

end World

end SsaCompiler
