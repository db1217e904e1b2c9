import SsaCompiler.Proofs.Lowering.Flow

/-!
# Lowering to single instructions

A step that adds one value or one instruction leads from a point where something can be lowered to
the next one. Each instruction is given values of the types it asks for and gives one of its own
type.
-/

namespace SsaCompiler

open List Operation

/-- A conversion that is recorded for an expression goes from one type to another. -/
inductive Ty.ConvertsTo : Ty → Ty → Prop
  | int {a b : Nat} : a < b → ConvertsTo (.int a) (.int b)
  | bool {b : Nat} : ConvertsTo .bool (.int b)
  | float : ConvertsTo (.float 32) (.float 64)

namespace Ty.ConvertsTo

variable {source target : Ty}

theorem ne_unit (h : source.ConvertsTo target) : source ≠ .unit ∧ target ≠ .unit := by cases h <;> simp

theorem lowerType (h : source.ConvertsTo target) {items : ItemMap} :
    ∃ lowered, items.lowerType target = .ok lowered := by cases h <;> exact ⟨_, rfl⟩

theorem of_widensTo {structs : Nat} (h : source.widensTo target = true) (hs : source.Proper structs)
    (ht : target.Proper structs) : source.ConvertsTo target := by
  unfold widensTo at h
  split at h
  · exact .int (by simpa using h)
  · rename_i a b
    have h : a < b := by simpa using h
    obtain ⟨rfl, rfl⟩ : a = 32 ∧ b = 64 := by
      simp only [Proper] at hs ht
      omega
    exact .float
  · cases h

theorem of_extraArgument? (h : Check.extraArgument? source = some target) : source.ConvertsTo target := by
  unfold Check.extraArgument? at h
  split at h
  · cases h
    exact .float
  · split at h
    · rename_i hlt
      cases h
      exact .int hlt
    · cases h
  · cases h
    exact .bool
  · cases h

end Ty.ConvertsTo

namespace World

variable {op : Operation}

open Lower

variable {w w' : World} {X : Setting} {Γ : List Local} {depth : Nat} {breaks : Bool} {type : Ty}
  {lowered : IrType} {v : ValueId} {cell : Option IrType}

/-! ## Types of values -/

theorem HoldsAt.typeOf {i : Nat} (h : w.HoldsAt X i v type) (hl : X.items.lowerType type = .ok lowered) :
    w.typing.typeOf v = some lowered := by
  obtain ⟨⟨lowered', hl', ht, -⟩, -⟩ := h
  rw [hl] at hl'
  cases hl'
  exact ht

theorem HasTy.valueType (h : w.typing.typeOf v = some lowered) : w.builder.valueType v = .ok lowered := by
  obtain ⟨data, hd, rfl⟩ := Option.map_eq_some_iff.mp h
  simp [FunctionBuilder.valueType, FunctionBuilder.value, hd, bind, Except.bind, pure, Except.pure]

theorem hasTy_new {cells : List (Option IrType)}
    (hc : cells.length = w.valueCount) (hcells : w'.cells = cells ++ [cell])
    (hl : X.items.lowerType type = .ok lowered) (ht : w'.typing.typeOf ⟨w.valueCount⟩ = some lowered)
    (hp : ∀ pointee, type = .ptr pointee → ∀ held, cell = some held →
      X.items.lowerType pointee = .ok held) : w'.HasTy X ⟨w.valueCount⟩ type := by
  refine ⟨lowered, hl, ht, fun pointee he held hh => hp pointee he held ?_⟩
  have hh : w'.cells[w.valueCount]? = some (some held) := hh
  rw [hcells, ← hc] at hh
  simpa using hh

/-! ## Values -/

theorem Valid.holdsAt_withValue (h : w.Valid X) (kind : ValueKind) (cell : Option IrType)
    (hk : kind.Addable X.mod cell) (hl : X.items.lowerType type = .ok lowered)
    (hp : ∀ pointee, type = .ptr pointee → ∀ held, cell = some held → X.items.lowerType pointee = .ok held)
    (i : Nat) : (w.withValue kind lowered cell).HoldsAt X i ⟨w.valueCount⟩ type := by
  have hnew : (w.withValue kind lowered cell).builder.values[w.valueCount]? = some ⟨kind, lowered⟩ := by
    simp [World.withValue, valueCount]
  refine ⟨hasTy_new h.cells rfl hl ?_ hp, .inl (.inl ⟨⟨kind, lowered⟩, hnew, hk.ne_result⟩)⟩
  exact Option.map_eq_some_iff.mpr ⟨_, hnew, rfl⟩

theorem At.withValue (h : At w X Γ depth) (kind : ValueKind) (cell : Option IrType) (hk : kind.Addable X.mod cell) :
    At (w.withValue kind lowered cell) X Γ depth ∧
      ∀ breaks, Flow w (w.withValue kind lowered cell) X Γ depth breaks := by
  have g := grows_withValue w kind lowered cell
  exact h.emits ⟨h.valid.withValue hk, g.of_empty, rfl, fun _ => rfl, rfl, rfl, rfl⟩

theorem At.yields_value (h : At w X Γ depth) {kind : ValueKind} (cell : Option IrType)
    (hk : kind.Addable X.mod cell) (hl : X.items.lowerType type = .ok lowered)
    (hp : ∀ pointee, type = .ptr pointee → ∀ held, cell = some held → X.items.lowerType pointee = .ok held) :
    Yields X Γ depth breaks (emit (.addValue kind lowered)) w (AtValue X Γ depth type) := by
  obtain ⟨hat, hf⟩ := h.withValue kind cell hk
  exact .emit (w.withValue kind lowered cell) rfl rfl (hf _) ⟨hat, h.valid.holdsAt_withValue kind cell hk hl hp _⟩

/-! ## Instructions -/

theorem Valid.emits_push (h : w.Valid X) (given : Given) (hr : w.Ready X op (given.map (·.1)))
    (hs : (w.push op given).Sited X.mod ⟨op, given.map fun _ => ⟨w.valueCount⟩⟩) : Emits w (w.push op given) X where
  valid := h.push hr hs
  grows := grows_push op given h.laid
  current := by cases given <;> rfl
  terminators := terminator_push op given h.laid
  env := rfl
  loops := rfl
  blocks := blockCount_push op given

theorem Valid.holdsAt_push (h : w.Valid X) (hl : X.items.lowerType type = .ok lowered)
    (hp : ∀ pointee, type = .ptr pointee → ∀ held, cell = some held → X.items.lowerType pointee = .ok held) :
    (w.push op (some (lowered, cell))).HoldsAt X (w.push op (some (lowered, cell))).here ⟨w.valueCount⟩ type := by
  refine ⟨hasTy_new h.cells rfl hl (typeOf_push op) hp, .inr (.inr ?_)⟩
  rw [code_push op _ h.laid, if_pos (show (w.push op _).here = w.here from rfl)]
  simp [defs]

theorem lowerType_ne_void (hl : X.items.lowerType type = .ok lowered) (hu : type ≠ .unit) : lowered ≠ .void := by
  rintro rfl
  exact hu (ItemMap.eq_unit_of_lowerType hl)

theorem At.yields_push (h : At w X Γ depth) (cell : Option IrType) (hr : w.Ready X op (some lowered))
    (hs : (w.push op (some (lowered, cell))).Sited X.mod ⟨op, some ⟨w.valueCount⟩⟩)
    (hl : X.items.lowerType type = .ok lowered) (hu : type ≠ .unit)
    (hp : ∀ pointee, type = .ptr pointee → ∀ held, cell = some held → X.items.lowerType pointee = .ok held) :
    Yields X Γ depth breaks (emit (.pushValue op lowered)) w (AtValue X Γ depth type) := by
  obtain ⟨hat, hf⟩ := h.emits (h.valid.emits_push (some (lowered, cell)) hr hs)
  refine .emit (w.push op (some (lowered, cell))) ?_ rfl (hf _) ⟨hat, h.valid.holdsAt_push hl hp⟩
  exact Emit.run_pushValue h.valid.laid h.isOpen op (lowerType_ne_void hl hu)

theorem Yields.ask {α β : Type} {question : FunctionBuilder → Except Fault α} {next : α → Emit β}
    {Q : β → World → Prop} {a : α} (hq : question w.builder = .ok a)
    (h : Yields X Γ depth breaks (Lower.emit (next a)) w Q) :
    Yields X Γ depth breaks (Lower.emit (Emit.ask question >>= next)) w Q := by
  have hrun : (Emit.ask question >>= next).run w.builder = (next a).run w.builder := by
    rw [StateT.run_bind, Emit.run_ask hq]
    rfl
  unfold Yields Reaches Ensures at h ⊢
  rw [run_emit] at h ⊢
  rw [hrun]
  exact h

section Operators

variable {v1 v2 : ValueId}

theorem At.yields_binary (h : At w X Γ depth) {op : Arithmetic} (h1 : w.HoldsAt X w.here v1 type)
    (h2 : w.HoldsAt X w.here v2 type) (hu : type ≠ .unit) :
    Yields X Γ depth breaks (emit (.binary op v1 v2)) w (AtValue X Γ depth type) := by
  obtain ⟨lowered, hl, ht, -⟩ := h1.1
  refine .ask (HasTy.valueType ht) (h.yields_push none ⟨?_, ?_, ?_⟩ trivial hl hu (by simp))
  · exact ⟨ht, h2.typeOf hl, rfl⟩
  · simpa [operands] using ⟨h1.2, h2.2⟩
  · simp [incoming]

theorem At.yields_compare (h : At w X Γ depth) {op : Comparison} (h1 : w.HoldsAt X w.here v1 type)
    (h2 : w.HoldsAt X w.here v2 type) :
    Yields X Γ depth breaks (emit (.compare op v1 v2)) w (AtValue X Γ depth .bool) := by
  obtain ⟨lowered, hl, ht, -⟩ := h1.1
  refine h.yields_push none ⟨?_, ?_, ?_⟩ trivial rfl (by simp) (by simp)
  · exact ⟨⟨lowered, ht, h2.typeOf hl⟩, rfl⟩
  · simpa [operands] using ⟨h1.2, h2.2⟩
  · simp [incoming]

theorem At.yields_unary (h : At w X Γ depth) {op : Negation} (h1 : w.HoldsAt X w.here v1 type) (hu : type ≠ .unit) :
    Yields X Γ depth breaks (emit (.unary op v1)) w (AtValue X Γ depth type) := by
  obtain ⟨lowered, hl, ht, -⟩ := h1.1
  refine .ask (HasTy.valueType ht) (h.yields_push none ⟨⟨ht, rfl⟩, ?_, ?_⟩ trivial hl hu (by simp))
  · simpa [operands] using h1.2
  · simp [incoming]

end Operators

/-! ## Memory -/

section Memory

variable {pointer : ValueId}

theorem At.yields_load (h : At w X Γ depth) (hp : w.HoldsAt X w.here pointer (.ptr type))
    (hl : X.items.lowerType type = .ok lowered) (hu : type ≠ .unit) :
    Yields X Γ depth breaks (emit (.load pointer lowered)) w (AtValue X Γ depth type) := by
  refine h.yields_push none ⟨?_, ?_, ?_⟩ trivial hl hu (by simp)
  · refine ⟨hp.typeOf rfl, lowered, rfl, fun held hh => ?_⟩
    obtain ⟨-, -, -, hheld⟩ := hp.1
    exact Except.ok.inj ((hheld type rfl held hh).symm.trans hl)
  · simpa [operands] using hp.2
  · simp [incoming]

theorem At.yields_store (h : At w X Γ depth) (hp : w.HoldsAt X w.here pointer (.ptr type))
    (hv : w.HoldsAt X w.here v type) :
    Yields X Γ depth breaks (emit (.store pointer v)) w fun _ w' => At w' X Γ depth := by
  have hready : w.Ready X (.store pointer v) none := by
    obtain ⟨lowered, hl, ht, -⟩ := hv.1
    obtain ⟨-, -, -, hheld⟩ := hp.1
    refine ⟨⟨hp.typeOf rfl, rfl, lowered, ht, fun held hh => ?_⟩, ?_, ?_⟩
    · exact Except.ok.inj ((hheld type rfl held hh).symm.trans hl)
    · simpa [operands] using ⟨hp.2, hv.2⟩
    · simp [incoming]
  obtain ⟨hat, hf⟩ := h.emits (h.valid.emits_push none hready trivial)
  refine .emit (a := ()) (w.push (.store pointer v) none) ?_ rfl (hf _) hat
  have hrun := Emit.run_push_void h.valid.laid h.isOpen (.store pointer v)
  simp only [Emit.store, run_bind_eq_ok, run_pure_eq_ok]
  exact ⟨_, _, hrun, trivial, rfl⟩

theorem SlotFor.holdsAt (h : w.SlotFor X v type lowered) (i : Nat) : w.HoldsAt X i v (.ptr type) := by
  obtain ⟨hl, hs, ht, hh⟩ := h
  refine ⟨⟨.ptr, rfl, ht, ?_⟩, .inl (.inr hs)⟩
  rintro pointee he held hheld
  cases he
  have : some (some held) = some (some lowered) := hheld.symm.trans hh
  cases this
  exact hl

theorem At.yields_alloca (h : At w X Γ depth) (hl : X.items.lowerType type = .ok lowered) :
    Yields X Γ depth breaks (emit (.alloca lowered)) w fun v w' => At w' X Γ depth ∧ w'.SlotFor X v type lowered := by
  have g := grows_alloca lowered h.valid.laid
  obtain ⟨hat, hf⟩ := h.emits ⟨h.valid.alloca lowered, g.of_empty, rfl,
    terminator_alloca lowered h.valid.laid, rfl, rfl, blockCount_alloca lowered⟩
  refine .emit (w.alloca lowered) rfl rfl (hf _) ⟨hat, hl, ?_, ?_, ?_⟩
  · rw [slots_alloca lowered h.valid.laid, defs_append]
    exact mem_append_right _ (mem_singleton.mpr rfl)
  · exact typeOf_alloca lowered
  · exact holds_alloca lowered h.valid.cells

end Memory

variable {layout : LayoutId} {fields : List IrType}

/-! ## Constants and addresses -/

theorem At.yields_constant (h : At w X Γ depth) {constant : Constant} (hl : X.items.lowerType type = .ok lowered) :
    Yields X Γ depth breaks (emit (.constant constant lowered)) w (AtValue X Γ depth type) :=
  h.yields_value none trivial hl (by simp)

theorem At.yields_globalAddr (h : At w X Γ depth) {id : GlobalId} {global : IrGlobal}
    (hg : X.mod.globals[id.index]? = some global) (hl : X.items.lowerType type = .ok global.type) :
    Yields X Γ depth breaks (emit (.globalAddr id)) w (AtValue X Γ depth (.ptr type)) := by
  refine h.yields_value (some global.type) (fun global' hg' => ?_) rfl ?_
  · cases hg.symm.trans hg'
    rfl
  · rintro pointee hp held hh
    cases hp
    cases hh
    exact hl

def withStrings (w : World) (strings : List String) : World :=
  { w with builder := { w.builder with strings := strings } }

variable (h : At w X Γ depth) {index : Nat}
include h

theorem At.yields_string {text : String} :
    Yields X Γ depth breaks (emit (.string text)) w (AtValue X Γ depth .cString) := by
  have g : Grows ∅ w (w.withStrings (w.builder.strings ++ [text])) := { Grows.refl with }
  have hvalid : (w.withStrings (w.builder.strings ++ [text])).Valid X :=
    { h.valid with laid := ⟨h.valid.laid.slots, h.valid.laid.here⟩ }
  obtain ⟨hat, hf⟩ := h.emits ⟨hvalid, g.of_empty, rfl, fun _ => rfl, rfl, rfl, rfl⟩
  obtain ⟨hat', hf'⟩ := hat.withValue (.string w.builder.strings.length) none trivial
  exact .emit ((w.withStrings (w.builder.strings ++ [text])).withValue
    (.string w.builder.strings.length) .ptr none) rfl rfl ((hf _).trans (hf' _))
    ⟨hat', hat.valid.holdsAt_withValue (.string _) none trivial rfl (by simp) _⟩

/-! ## Structs -/

theorem At.yields_fieldAddr {base : ValueId} (hb : w.typing.typeOf base = some .ptr) (hk : w.Known w.here base)
    (hf : X.mod.fields? layout = some fields) (hi : fields[index]? = some lowered)
    (hl : X.items.lowerType type = .ok lowered) :
    Yields X Γ depth breaks (emit (.fieldAddr base layout index)) w (AtValue X Γ depth (.ptr type)) := by
  refine h.yields_push (some lowered) ⟨?_, ?_, ?_⟩ ?_ rfl (by simp) ?_
  · exact ⟨hb, rfl, fields, hf, (List.getElem?_eq_some_iff.mp hi).1⟩
  · simpa [operands] using hk
  · simp [incoming]
  · intro fields' held hf' hi'
    rw [hf] at hf'
    cases hf'
    rw [hi] at hi'
    cases hi'
    exact holds_push _ h.valid.cells
  · rintro pointee hp held hh
    cases hp
    cases hh
    exact hl

theorem At.yields_extractField {aggregate : ValueId} (ha : w.typing.typeOf aggregate = some (.struct layout))
    (hk : w.Known w.here aggregate) (hf : X.mod.fields? layout = some fields)
    (hi : fields[index]? = some lowered) (hl : X.items.lowerType type = .ok lowered) (hu : type ≠ .unit) :
    Yields X Γ depth breaks (emit (.extractField aggregate index lowered)) w (AtValue X Γ depth type) := by
  refine h.yields_push none ⟨?_, ?_, ?_⟩ trivial hl hu (by simp)
  · exact ⟨layout, fields, ha, hf, hi.symm, rfl⟩
  · simpa [operands] using hk
  · simp [incoming]

theorem At.yields_makeAggregate {values : List ValueId} (hf : X.mod.fields? layout = some fields)
    (hv : List.Forall₂ (fun v type => w.typing.typeOf v = some type ∧ w.Known w.here v) values fields)
    (hl : X.items.lowerType type = .ok (.struct layout)) (hu : type ≠ .unit) :
    Yields X Γ depth breaks (emit (.makeAggregate layout values)) w (AtValue X Γ depth type) := by
  refine h.yields_push none ⟨?_, ?_, ?_⟩ trivial hl hu (by simp)
  · exact ⟨rfl, fields, hf, hv.imp fun _ _ h => h.1⟩
  · intro v hmem
    obtain ⟨-, -, -, hk⟩ := forall₂_exists_right hv hmem
    exact hk
  · simp [incoming]

/-! ## Calls -/

/-- A call gives a value unless its result type is `unit`. -/
theorem At.yields_call {callee : Callee} {args : List ValueId} {sig : FunctionSig}
    {types : List IrType} (hc : callee.Typed X.mod w.typing sig)
    (hk : ∀ v, callee = .indirect v → w.Known w.here v)
    (ha : List.Forall₂ (fun v type => w.typing.typeOf v = some type ∧ w.Known w.here v) args types)
    (hs : sig.Accepts types) (hl : X.items.lowerType type = .ok sig.result) :
    Yields X Γ depth breaks (emit (.call callee args sig)) w
      fun result w' => At w' X Γ depth ∧
        w'.LoweredOk X w'.here type (match result with | some v => .value v | none => .unit) := by
  have hready : w.Ready X (.call callee args sig) (if sig.result = .void then none else some sig.result) := by
    refine ⟨⟨hc, ⟨types, ha.imp fun _ _ h => h.1, hs⟩, rfl⟩, ?_, by simp [incoming]⟩
    have hargs : ∀ v ∈ args, w.Known w.here v := fun v hv => by
      obtain ⟨-, -, -, hk⟩ := forall₂_exists_right ha hv
      exact hk
    cases callee with
    | direct id => exact hargs
    | indirect v =>
      intro v' hv'
      rcases mem_cons.mp hv' with rfl | hv'
      · exact hk _ rfl
      · exact hargs _ hv'
  by_cases hvoid : sig.result = .void
  · rw [if_pos hvoid] at hready
    obtain rfl := ItemMap.eq_unit_of_lowerType (hvoid ▸ hl)
    obtain ⟨hat, hf⟩ := h.emits (h.valid.emits_push none hready trivial)
    refine .emit (a := none) (w.push (.call callee args sig) none) ?_ rfl (hf _) ⟨hat, .unit⟩
    rw [Emit.call, hvoid]
    exact Emit.run_push_void h.valid.laid h.isOpen _
  · rw [if_neg hvoid] at hready
    have hu : type ≠ .unit := by
      rintro rfl
      exact hvoid (Except.ok.inj hl).symm
    obtain ⟨hat, hf⟩ := h.emits (h.valid.emits_push (some (sig.result, none)) hready trivial)
    refine .emit (a := some ⟨w.valueCount⟩) (w.push (.call callee args sig) (some (sig.result, none)))
      ?_ rfl (hf _) ⟨hat, .value hu (h.valid.holdsAt_push hl (by simp))⟩
    exact Emit.run_push h.valid.laid h.isOpen _ hvoid

/-! ## Conversions -/

theorem At.yields_widen {target : Ty} (hv : w.HoldsAt X w.here v type)
    (hc : type.ConvertsTo target) (hl : X.items.lowerType target = .ok lowered) :
    Yields X Γ depth breaks (emit (widen v lowered)) w (AtValue X Γ depth target) := by
  obtain ⟨source, hs, ht, -⟩ := hv.1
  obtain ⟨data, hd, rfl⟩ := Option.map_eq_some_iff.mp ht
  obtain ⟨constant, hconst⟩ : ∃ constant, w.builder.asConstant v = .ok constant := by
    simp only [FunctionBuilder.asConstant, FunctionBuilder.value, hd, bind, Except.bind]
    split <;> exact ⟨_, rfl⟩
  have hcast : ∀ kind : Widening, kind.Converts data.type lowered → target ≠ .unit →
      Yields X Γ depth breaks (emit (.cast kind v lowered)) w (AtValue X Γ depth target) := by
    intro kind hk hu
    refine h.yields_push none ⟨⟨data.type, lowered, ht, rfl, hk⟩, ?_, ?_⟩ trivial hl hu (by simp)
    · simpa [operands] using hv.2
    · simp [incoming]
  -- Constants of other kinds than the type has are converted like any value.
  have hint : ∀ kind, kind.Converts data.type lowered →
      (if data.type = .bool then Widening.zeroExtend else .signExtend) = kind → target ≠ .unit →
      Yields X Γ depth breaks (emit do
        let type ← Emit.ask (·.valueType v)
        Emit.cast (if type = .bool then .zeroExtend else .signExtend) v lowered) w (AtValue X Γ depth target) := by
    rintro kind hk rfl hu
    exact .ask (HasTy.valueType ht) (hcast _ hk hu)
  refine .ask hconst ?_
  cases hc with
  | int hab =>
    have hs : .int _ = data.type := Except.ok.inj hs
    cases hl
    have hlast := hint .signExtend ⟨_, _, hab, hs.symm, rfl⟩ (by simp [← hs]) (by simp)
    match constant with
    | some (.int n) => exact h.yields_constant rfl
    | some (.bool b) => exact h.yields_constant rfl
    | some (.float _) | some .zero | none => exact hlast
  | bool =>
    have hs : .bool = data.type := Except.ok.inj hs
    cases hl
    have hlast := hint .zeroExtend ⟨hs.symm, _, rfl⟩ (by simp [← hs]) (by simp)
    match constant with
    | some (.int n) => exact h.yields_constant rfl
    | some (.bool b) => exact h.yields_constant rfl
    | some (.float _) | some .zero | none => exact hlast
  | float =>
    have hs : .float 32 = data.type := Except.ok.inj hs
    cases hl
    have hlast := hcast .floatExtend ⟨hs.symm, rfl⟩ (by simp)
    match constant with
    | some (.float x) => exact h.yields_constant rfl
    | some (.int _) | some (.bool _) | some .zero | none => exact hlast

end World

end SsaCompiler
