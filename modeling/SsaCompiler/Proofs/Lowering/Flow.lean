import SsaCompiler.Proofs.Lowering.World

/-!
# Where control is

`World.At` is what holds wherever something is lowered: the body so far is as promised, the current
block is open, every local in scope holds what its type says and is known there, and the loops around
know where they start and end. A step of lowering goes from one such world to another
(`World.Flow`), or control does not go on after it (`World.Halt`). `Yields` says that one of the two
happens, or that a value is asked for where there is none.
-/

namespace SsaCompiler

open List

namespace World

variable (w w' : World) (X : Setting)

/-! ## Values and bindings -/

/-- A value has a type. If it is the address of something, that has the type it points to. -/
def HasTy (v : ValueId) (type : Ty) : Prop :=
  ∃ lowered, X.items.lowerType type = .ok lowered ∧ w.typing.typeOf v = some lowered ∧
    ∀ pointee, type = .ptr pointee → ∀ held, w.typing.Holds v held → X.items.lowerType pointee = .ok held

/-- A value has a type and is known at the end of a block. -/
def HoldsAt (i : Nat) (v : ValueId) (type : Ty) : Prop := w.HasTy X v type ∧ w.Known i v

/-- A stack slot holds values of a type. -/
def SlotFor (v : ValueId) (type : Ty) (lowered : IrType) : Prop :=
  X.items.lowerType type = .ok lowered ∧ v ∈ defs w.builder.slots ∧ w.typing.typeOf v = some .ptr ∧
    w.typing.Holds v lowered

/-- What a binding of a type holds at the end of a block. -/
inductive BoundOk (i : Nat) (binding : BindingId) : Ty → Bound → Prop
  | unit : BoundOk i binding .unit .unit
  | slot {type : Ty} {v : ValueId} {lowered : IrType} : type ≠ .unit →
    X.function.isMemoryResident binding = true → w.SlotFor X v type lowered →
    BoundOk i binding type (.slot v lowered)
  | value {type : Ty} {v : ValueId} : type ≠ .unit → X.function.isMemoryResident binding = false →
    w.HoldsAt X i v type → BoundOk i binding type (.value v)

/-- What an expression of a type gives at the end of a block. -/
inductive LoweredOk (i : Nat) : Ty → Lowered → Prop
  | unit : LoweredOk i .unit .unit
  | value {type : Ty} {v : ValueId} : type ≠ .unit → w.HoldsAt X i v type → LoweredOk i type (.value v)

/-- The locals in scope hold what their types say, at the end of a block. -/
structure EnvOk (i : Nat) (Γ : List Local) (env : Env) : Prop where
  keys : env.keys = Γ.map (·.binding)
  bounds : ∀ x ∈ Γ, ∃ type bound, X.function.localTypes.get? x.binding = some type ∧
    type.Proper X.decls.structs.size ∧ env.get? x.binding = some bound ∧ w.BoundOk X i x.binding type bound

/-! ## Loops -/

/-- A block that control goes to after a loop, in which nothing stands yet. -/
structure Pending (header exit : BlockId) : Prop where
  inRange : exit.index < w.blockCount
  isOpen : w.terminator exit.index = none
  empty : w.code exit.index = []
  reach : w.reach exit.index = w.reach header.index
  entered : ∃ source, (source, exit) ∈ w.builder.edges

def exits (loops : List LoopTarget) : List BlockId := loops.filterMap (·.exit)

/-- The loops around the current point. -/
structure LoopsOk : Prop where
  headers : ∀ t ∈ w.loops, t.header.index < w.blockCount
  pending : ∀ t ∈ w.loops, ∀ x, t.exit = some x → w.Pending t.header x
  distinct : (exits w.loops).Nodup

/-- Something can be lowered here. -/
structure At (Γ : List Local) (depth : Nat) : Prop where
  valid : w.Valid X
  isOpen : w.terminator w.here = none
  env : w.EnvOk X w.here Γ w.env
  distinct : (Γ.map (·.binding)).Nodup
  locals : ∀ x ∈ Γ, ∃ unit index, x.binding = .local unit index
  loops : w.LoopsOk
  depth : w.loops.length = depth
  around : ∀ t ∈ w.loops, ∀ v ∈ w.reach t.header.index, w.Known w.here v
  notExit : w.builder.current ∉ exits w.loops

/-- Something can be lowered where a value of a type is known. -/
abbrev AtValue (X : Setting) (Γ : List Local) (depth : Nat) (type : Ty) (v : ValueId) (w : World) : Prop :=
  At w X Γ depth ∧ w.HoldsAt X w.here v type

/-- Something can be lowered after an expression of a type gave something. -/
abbrev AtLowered (X : Setting) (Γ : List Local) (depth : Nat) (type : Ty) (a : Lowered) (w : World) : Prop :=
  At w X Γ depth ∧ w.LoweredOk X w.here type a

/-! ## Steps -/

/-- The loops around are the same, except that the innermost may have got an exit, if `breaks`. -/
def LoopsKept (breaks : Bool) (blockCount : Nat) (loops loops' : List LoopTarget) : Prop :=
  loops' = loops ∨ breaks = true ∧ ∃ t rest x, loops = t :: rest ∧ t.exit = none ∧
    loops' = ⟨t.header, some x⟩ :: rest ∧ blockCount ≤ x.index

/-- Control went on from one point to another, where the locals of `Γ` were visible and `depth` loops
were around. -/
structure Flow (Γ : List Local) (depth : Nat) (breaks : Bool) : Prop where
  grows : Grows {w.here} w w'
  here : w'.here = w.here ∨ w.blockCount ≤ w'.here ∧ ∃ source, (source, w'.builder.current) ∈ w'.builder.edges
  known : ∀ v, w.Known w.here v → w'.Known w'.here v
  kept : LoopsKept breaks w.blockCount w.loops w'.loops
  closed : ∀ i, (i = w.here ∨ w.blockCount ≤ i) → i < w'.blockCount → w'.terminator i = none →
    i = w'.here ∨ BlockId.mk i ∈ exits w'.loops
  /-- Locals in memory, and those declared outside of the innermost loop, hold the same. -/
  held : ∀ x ∈ Γ, x.depth < depth ∨ X.function.isMemoryResident x.binding = true →
    w'.env.get? x.binding = w.env.get? x.binding

/-- Control went from one point to the ends of some blocks, where nothing stands yet after it, and
nowhere else except to the exits of loops. -/
structure Leads (breaks : Bool) (ends : Set Nat) : Prop where
  valid : w'.Valid X
  loops : w'.LoopsOk
  grows : Grows {w.here} w w'
  kept : LoopsKept breaks w.blockCount w.loops w'.loops
  closed : ∀ i, (i = w.here ∨ w.blockCount ≤ i) → i < w'.blockCount → w'.terminator i = none →
    i ∈ ends ∨ BlockId.mk i ∈ exits w'.loops
  ends : ∀ i ∈ ends, (i = w.here ∨ w.blockCount ≤ i) ∧ i < w'.blockCount ∧ w'.terminator i = none ∧
    BlockId.mk i ∉ exits w'.loops

/-- Control does not go on. -/
structure Halt (breaks : Bool) : Prop where
  leads : Leads w w' X breaks ∅
  stopped : w'.terminator w'.here ≠ none

variable {w w' X} {w'' : World} {F : Set Nat} {Γ Δ : List Local} {depth : Nat} {breaks breaks' : Bool}
  {i j : Nat} {v : ValueId} {type : Ty} {x : BlockId}

/-! ## What stays true -/

theorem HasTy.mono (h : w.HasTy X v type) (g : Grows F w w') (hc : w.cells.length = w.valueCount) :
    w'.HasTy X v type := by
  obtain ⟨lowered, hl, ht, hp⟩ := h
  have hV := g.typing hc
  exact ⟨lowered, hl, hV.typeOf ht, fun pointee he held hh => hp pointee he held (hV.holds ht hh)⟩

theorem HoldsAt.mono (h : w.HoldsAt X i v type) (g : Grows F w w') (hc : w.cells.length = w.valueCount)
    (hk : ∀ v, w.Known i v → w'.Known j v) : w'.HoldsAt X j v type :=
  ⟨h.1.mono g hc, hk v h.2⟩

theorem SlotFor.mono {lowered : IrType} (h : w.SlotFor X v type lowered) (g : Grows F w w')
    (hc : w.cells.length = w.valueCount) : w'.SlotFor X v type lowered := by
  obtain ⟨hl, hs, ht, hh⟩ := h
  obtain ⟨more, hm⟩ := g.slots
  refine ⟨hl, ?_, (g.typing hc).typeOf ht, g.holds hh⟩
  rw [← hm, defs_append]
  exact mem_append_left _ hs

theorem BoundOk.mono {binding : BindingId} {bound : Bound} (h : w.BoundOk X i binding type bound)
    (g : Grows F w w') (hc : w.cells.length = w.valueCount) (hk : ∀ v, w.Known i v → w'.Known j v) :
    w'.BoundOk X j binding type bound := by
  cases h with
  | unit => exact .unit
  | slot hu hr hs => exact .slot hu hr (hs.mono g hc)
  | value hu hr hv => exact .value hu hr (hv.mono g hc hk)

theorem LoweredOk.mono {lowered : Lowered} (h : w.LoweredOk X i type lowered) (g : Grows F w w')
    (hc : w.cells.length = w.valueCount) (hk : ∀ v, w.Known i v → w'.Known j v) : w'.LoweredOk X j type lowered := by
  cases h with
  | unit => exact .unit
  | value hu hv => exact .value hu (hv.mono g hc hk)

theorem EnvOk.mono {env : Env} (h : w.EnvOk X i Γ env) (g : Grows F w w')
    (hc : w.cells.length = w.valueCount) (hk : ∀ v, w.Known i v → w'.Known j v) : w'.EnvOk X j Γ env where
  keys := h.keys
  bounds x hx := by
    obtain ⟨type, bound, ht, hp, hb, hok⟩ := h.bounds x hx
    exact ⟨type, bound, ht, hp, hb, hok.mono g hc hk⟩

theorem Pending.mono {header exit : BlockId} (h : w.Pending header exit) (g : Grows F w w')
    (hb : w.reaching.length = w.blockCount) (hh : header.index < w.blockCount) (hF : exit.index ∉ F) :
    w'.Pending header exit where
  inRange := Nat.lt_of_lt_of_le h.inRange g.blocks
  isOpen := (g.same _ h.inRange hF).2.trans h.isOpen
  empty := (g.same _ h.inRange hF).1.trans h.empty
  reach := by
    rw [g.reach_eq (hb ▸ h.inRange), g.reach_eq (hb ▸ hh)]
    exact h.reach
  entered := by
    obtain ⟨source, hs⟩ := h.entered
    exact ⟨source, g.edges.subset hs⟩

theorem mem_exits {loops : List LoopTarget} : x ∈ exits loops ↔ ∃ t ∈ loops, t.exit = some x := by simp [exits]

theorem LoopsOk.mono (h : w.LoopsOk) (g : Grows F w w') (hb : w.reaching.length = w.blockCount)
    (hF : ∀ x ∈ exits w.loops, x.index ∉ F) (hl : w'.loops = w.loops) : w'.LoopsOk where
  headers t ht := Nat.lt_of_lt_of_le (h.headers t (hl ▸ ht)) g.blocks
  pending t ht x hx := by
    rw [hl] at ht
    exact (h.pending t ht x hx).mono g hb (h.headers t ht) (hF x (mem_exits.mpr ⟨t, ht, hx⟩))
  distinct := hl ▸ h.distinct

theorem LoopsOk.exit_lt (h : w.LoopsOk) (hx : x ∈ exits w.loops) : x.index < w.blockCount := by
  obtain ⟨t, ht, hx⟩ := mem_exits.mp hx
  exact (h.pending t ht x hx).inRange

namespace LoopsKept

variable {n n' : Nat} {loops loops' loops'' : List LoopTarget}

theorem refl : LoopsKept breaks n loops loops :=
  .inl rfl

variable (h : LoopsKept breaks n loops loops')
include h

theorem trans (h' : LoopsKept breaks n' loops' loops'') (hn : n ≤ n') : LoopsKept breaks n loops loops'' := by
  rcases h with rfl | ⟨hb, t, rest, x, rfl, he, rfl, hx⟩
  · rcases h' with rfl | ⟨hb, t, rest, x, rfl, he, rfl, hx⟩
    · exact .inl rfl
    · exact .inr ⟨hb, t, rest, x, rfl, he, rfl, Nat.le_trans hn hx⟩
  · rcases h' with rfl | ⟨hb', t', rest', x', heq, he', rfl, hx'⟩
    · exact .inr ⟨hb, t, rest, x, rfl, he, rfl, hx⟩
    · obtain ⟨rfl, rfl⟩ := cons.inj heq
      cases he'

theorem mono (hb : breaks = true → breaks' = true) : LoopsKept breaks' n loops loops' := by
  rcases h with rfl | ⟨hbreaks, h⟩
  · exact .inl rfl
  · exact .inr ⟨hb hbreaks, h⟩

theorem exits_subset : exits loops ⊆ exits loops' := by
  rcases h with rfl | ⟨-, t, rest, x, rfl, he, rfl, -⟩
  · exact List.Subset.refl _
  · intro y hy
    simp only [exits, filterMap_cons, he] at hy ⊢
    exact .tail _ hy

theorem not_mem_exits (hi : i < n) (hx : BlockId.mk i ∉ exits loops) : BlockId.mk i ∉ exits loops' := by
  rcases h with rfl | ⟨-, t, rest, x, rfl, he, rfl, hle⟩
  · exact hx
  · simp only [exits, filterMap_cons, he] at hx ⊢
    rintro hm
    rcases mem_cons.mp hm with rfl | hm
    · exact absurd hi (Nat.not_lt_of_le hle)
    · exact hx hm

theorem length_eq : loops'.length = loops.length := by rcases h with rfl | ⟨-, t, rest, x, rfl, -, rfl, -⟩ <;> rfl

theorem headers_eq : loops'.map (·.header) = loops.map (·.header) := by
  rcases h with rfl | ⟨-, t, rest, x, rfl, -, rfl, -⟩ <;> rfl

theorem tail_eq : loops'.tail = loops.tail := by rcases h with rfl | ⟨-, t, rest, x, rfl, -, rfl, -⟩ <;> rfl

end LoopsKept

namespace Flow

theorem refl {w : World} (X : Setting) (Γ : List Local) (depth : Nat) : Flow w w X Γ depth breaks where
  grows := .refl
  here := .inl rfl
  known _ h := h
  kept := .refl ..
  closed _ hi hlt _ := .inl (hi.resolve_right (Nat.not_le_of_lt hlt))
  held _ _ _ := rfl

variable (h : Flow w w' X Γ depth breaks)
include h

theorem blockCount_le : w.blockCount ≤ w'.blockCount := h.grows.blocks

/-- The current block of a later point is the same one or was not there before. -/
theorem focus : ∀ i < w.blockCount, i ∈ ({w'.here} : Set Nat) → i ∈ ({w.here} : Set Nat) := by
  intro i hi hm
  rcases h.here with hh | ⟨hh, -⟩
  · exact hm.trans hh
  · exact absurd (hm ▸ hi) (Nat.not_lt_of_le hh)

theorem trans (h' : Flow w' w'' X Γ depth breaks) : Flow w w'' X Γ depth breaks where
  grows := h.grows.trans h'.grows h.focus
  here := by
    rcases h'.here with hh' | ⟨hh', he'⟩
    · rcases h.here with hh | ⟨hh, source, he⟩
      · exact .inl (hh'.trans hh)
      · have : w''.builder.current = w'.builder.current := congrArg BlockId.mk hh'
        exact .inr ⟨hh' ▸ hh, source, this ▸ h'.grows.edges.subset he⟩
    · exact .inr ⟨Nat.le_trans h.blockCount_le hh', he'⟩
  known v hv := h'.known v (h.known v hv)
  kept := h.kept.trans h'.kept h.blockCount_le
  closed i hi hlt ho := by
    by_cases hnew : i = w'.here ∨ w'.blockCount ≤ i
    · exact h'.closed i hnew hlt ho
    · obtain ⟨hne, hlt'⟩ := not_or.mp hnew
      have hlt' := Nat.lt_of_not_le hlt'
      have hsame := h'.grows.same i hlt' hne
      rw [hsame.2] at ho
      exact .inr (h'.kept.exits_subset ((h.closed i hi hlt' ho).resolve_left hne))
  held x hx hd := (h'.held x hx hd).trans (h.held x hx hd)

theorem mono (hΓ : Δ ⊆ Γ) (hb : breaks = true → breaks' = true) : Flow w w' X Δ depth breaks' :=
  { h with kept := h.kept.mono hb, held := fun x hx => h.held x (hΓ hx) }

end Flow

namespace Leads

variable {E E' : Set Nat}

theorem refl (h : At w X Γ depth) (breaks : Bool) : Leads w w X breaks {w.here} where
  valid := h.valid
  loops := h.loops
  grows := .refl
  kept := .refl ..
  closed _ hi hlt _ := .inl (hi.resolve_right (Nat.not_le_of_lt hlt))
  ends i hi := by
    subst hi
    exact ⟨.inl rfl, h.valid.laid.here, h.isOpen, h.notExit⟩

theorem trans (h : Leads w w' X breaks E) (hi : w'.here ∈ E) (h' : Leads w' w'' X breaks E') :
    Leads w w'' X breaks (E \ {w'.here} ∪ E') where
  valid := h'.valid
  loops := h'.loops
  grows := by
    refine h.grows.trans h'.grows fun i hlt he => ?_
    exact (he ▸ (h.ends _ hi).1).resolve_right (Nat.not_le_of_lt hlt)
  kept := h.kept.trans h'.kept h.grows.blocks
  closed i hi hlt ho := by
    by_cases hnew : i = w'.here ∨ w'.blockCount ≤ i
    · exact (h'.closed i hnew hlt ho).imp_left .inr
    · obtain ⟨hne, hlt'⟩ := not_or.mp hnew
      have hlt' := Nat.lt_of_not_le hlt'
      rw [(h'.grows.same i hlt' hne).2] at ho
      rcases h.closed i hi hlt' ho with he | he
      · exact .inl (.inl ⟨he, hne⟩)
      · exact .inr (h'.kept.exits_subset he)
  ends i hE := by
    rcases hE with ⟨hE, hne⟩ | hE
    · obtain ⟨hnew, hlt, ho, hx⟩ := h.ends i hE
      refine ⟨hnew, Nat.lt_of_lt_of_le hlt h'.grows.blocks, (h'.grows.same i hlt hne).2.trans ho, ?_⟩
      exact h'.kept.not_mem_exits hlt hx
    · obtain ⟨hnew, hlt, ho, hx⟩ := h'.ends i hE
      refine ⟨?_, hlt, ho, hx⟩
      rcases hnew with rfl | hle
      · exact (h.ends _ hi).1
      · exact .inr (Nat.le_trans h.grows.blocks hle)

theorem mono (h : Leads w w' X breaks E) (hb : breaks = true → breaks' = true) : Leads w w' X breaks' E :=
  { h with kept := h.kept.mono hb }

end Leads

theorem Halt.mono (h : Halt w w' X breaks) (hb : breaks = true → breaks' = true) : Halt w w' X breaks' :=
  { h with leads := h.leads.mono hb }

theorem Flow.leads (h : Flow w w' X Γ depth breaks) (hat : At w' X Δ depth) : Leads w w' X breaks {w'.here} where
  valid := hat.valid
  loops := hat.loops
  grows := h.grows
  kept := h.kept
  closed := h.closed
  ends i hi := by
    subst hi
    exact ⟨h.here.imp_right And.left, hat.valid.laid.here, hat.isOpen, hat.notExit⟩

theorem Leads.flow (h : Leads w w' X breaks {w'.here}) (hh : w'.here = w.here ∨ w.blockCount ≤ w'.here ∧
      ∃ source, (source, w'.builder.current) ∈ w'.builder.edges)
    (hk : ∀ v, w.Known w.here v → w'.Known w'.here v) (he : w'.env = w.env) : Flow w w' X Γ depth breaks where
  grows := h.grows
  here := hh
  known := hk
  kept := h.kept
  closed := h.closed
  held _ _ _ := by rw [he]

theorem Flow.halt (h : Flow w w' X Γ depth breaks) (h' : Halt w' w'' X breaks) : Halt w w'' X breaks where
  leads := {
    valid := h'.leads.valid
    loops := h'.leads.loops
    grows := h.grows.trans h'.leads.grows h.focus
    kept := h.kept.trans h'.leads.kept h.blockCount_le
    closed := fun i hi hlt ho => by
      by_cases hnew : i = w'.here ∨ w'.blockCount ≤ i
      · exact h'.leads.closed i hnew hlt ho
      · obtain ⟨hne, hlt'⟩ := not_or.mp hnew
        have hlt' := Nat.lt_of_not_le hlt'
        rw [(h'.leads.grows.same i hlt' hne).2] at ho
        exact .inr (h'.leads.kept.exits_subset ((h.closed i hi hlt' ho).resolve_left hne))
    ends := fun i hi => absurd hi id }
  stopped := h'.stopped

/-! ## Straight code -/

/-- Something was added to the current block, or nothing was. -/
structure Emits (w w' : World) (X : Setting) : Prop where
  valid : w'.Valid X
  grows : Grows {w.here} w w'
  current : w'.builder.current = w.builder.current
  terminators : ∀ i, w'.terminator i = w.terminator i
  env : w'.env = w.env
  loops : w'.loops = w.loops
  blocks : w'.blockCount = w.blockCount

namespace Emits

theorem refl (h : w.Valid X) : Emits w w X := ⟨h, .refl, rfl, fun _ => rfl, rfl, rfl, rfl⟩

variable (h : Emits w w' X)
include h

theorem here : w'.here = w.here := congrArg BlockId.index h.current

theorem trans (h' : Emits w' w'' X) : Emits w w'' X where
  valid := h'.valid
  grows := h.grows.trans h'.grows fun _ _ hi => h.here ▸ hi
  current := h'.current.trans h.current
  terminators i := (h'.terminators i).trans (h.terminators i)
  env := h'.env.trans h.env
  loops := h'.loops.trans h.loops
  blocks := h'.blocks.trans h.blocks

theorem withEnv {env : Env} : Emits { w with env := env } { w' with env := env } X where
  valid := { h.valid with }
  grows := { h.grows with }
  current := h.current
  terminators := h.terminators
  env := rfl
  loops := h.loops
  blocks := h.blocks

theorem isOpen (ho : w.terminator w.here = none) : w'.terminator w'.here = none := by
  rw [h.here, h.terminators]
  exact ho

theorem known (hv : w.Known w.here v) : w'.Known w'.here v := by
  rw [h.here]
  exact h.grows.known hv

theorem pending (hl : w.LoopsOk) (hb : w.reaching.length = w.blockCount)
    (hx : w.builder.current ∉ exits w.loops) : w'.LoopsOk := by
  refine hl.mono h.grows hb ?_ h.loops
  intro x hm he
  have he : x = w.builder.current := congrArg BlockId.mk he
  exact hx (he ▸ hm)

end Emits

/-- Code at the current block leaves everything else as it is. -/
theorem At.emits (h : At w X Γ depth) (e : Emits w w' X) : At w' X Γ depth ∧ ∀ breaks, Flow w w' X Γ depth breaks := by
  have hk : ∀ v, w.Known w.here v → w'.Known w'.here v := fun v => e.known
  refine ⟨⟨e.valid, e.isOpen h.isOpen, ?_, h.distinct, h.locals, e.pending h.loops h.valid.blocks h.notExit,
    e.loops ▸ h.depth, fun t ht v hv => ?_, ?_⟩, fun _ => ⟨e.grows, .inl e.here, hk, e.loops ▸ .refl .., ?_, ?_⟩⟩
  · rw [e.env]
    exact h.env.mono e.grows h.valid.cells hk
  · rw [e.loops] at ht
    rw [e.grows.reach_eq (h.valid.blocks ▸ h.loops.headers t ht)] at hv
    exact hk v (h.around t ht v hv)
  · rw [e.current, e.loops]
    exact h.notExit
  · intro i hi hlt _
    rw [e.blocks] at hlt
    exact .inl ((hi.resolve_right (Nat.not_le_of_lt hlt)).trans e.here.symm)
  · intro x _ _
    rw [e.env]

end World

/-! ## Steps of lowering

`Lower.Ensures` says what holds after a step, whether or not control goes on after it; `Yields` says it of worlds. -/

namespace Lower

variable {α β : Type}

/-- After a step, `yields` holds if control goes on and `stops` if it does not. A value is asked for
where there is none only if that is allowed. -/
def Ensures (allowed : Prop) (step : Lower α) (s : LowerState) (yields : α → LowerState → Prop)
    (stops : LowerState → Prop) : Prop :=
  match step.run.run s with
  | .ok (some a, s') => yields a s'
  | .ok (none, s') => stops s'
  | .error fault => fault = .unitAsValue ∧ allowed

variable {s s' : LowerState}

theorem run_bind {x : Lower α} {f : α → Lower β} : (x >>= f).run.run s =
    match x.run.run s with
    | .ok (some a, s1) => (f a).run.run s1
    | .ok (none, s1) => .ok (none, s1)
    | .error fault => .error fault := by
  show (x.run.run s >>= _) = _
  cases x.run.run s with
  | error fault => rfl
  | ok p =>
    obtain ⟨a, s1⟩ := p
    cases a <;> rfl

theorem run_pure {a : α} : (pure a : Lower α).run.run s = .ok (some a, s) := rfl

theorem run_get : (get : Lower LowerState).run.run s = .ok (some s, s) := rfl

theorem run_modify {f : LowerState → LowerState} : (modify f : Lower PUnit).run.run s = .ok (some ⟨⟩, f s) := rfl

theorem run_stop : (stop : Lower α).run.run s = .ok (none, s) := rfl

theorem run_fault {fault : Fault} : (Lower.fault fault : Lower α).run.run s = .error fault := rfl

theorem run_answer {result : Except Fault α} : (answer result).run.run s = result.map fun a => (some a, s) := by
  cases result <;> rfl

theorem run_emit {step : Emit α} : (emit step).run.run s =
    (step.run s.builder).map fun p => (some p.1, { s with builder := p.2 }) := by
  have h : (emit step).run.run s = (step.run s.builder >>= fun p =>
      (pure (p.1, { s with builder := p.2 }) : Except Fault (α × LowerState))) >>= fun p =>
        pure (some p.1, p.2) := rfl
  rw [h]
  cases step.run s.builder <;> rfl

theorem run_attempt {step : Lower α} : (attempt step).run.run s = (step.run.run s).map fun p => (some p.1, p.2) := by
  have h : (attempt step).run.run s = step.run.run s >>= fun p => pure (some p.1, p.2) := rfl
  rw [h]
  cases step.run.run s <;> rfl

namespace Ensures

variable {allowed : Prop} {x : Lower α} {f : α → Lower β} {yields : α → LowerState → Prop} {stops : LowerState → Prop}

theorem mono (h : Ensures allowed x s yields stops) {yields' : α → LowerState → Prop} {stops' : LowerState → Prop}
    (hy : ∀ a s', yields a s' → yields' a s') (hs : ∀ s', stops s' → stops' s') :
    Ensures allowed x s yields' stops' := by
  unfold Ensures at h ⊢
  split at h
  · exact hy _ _ h
  · exact hs _ h
  · exact h

theorem bind {Q : β → LowerState → Prop}
    (h : Ensures allowed x s (fun a s1 => Ensures allowed (f a) s1 Q stops) stops) : Ensures allowed (x >>= f) s Q stops := by
  unfold Ensures at h ⊢
  rw [run_bind]
  cases hx : x.run.run s with
  | error fault => rw [hx] at h; exact h
  | ok p =>
    obtain ⟨a, s1⟩ := p
    rw [hx] at h
    cases a with
    | none => exact h
    | some a => exact h

section Sequences

variable {Q : β → LowerState → Prop} {next : α → Lower β} {a : α}

theorem step (hr : x.run.run s = .ok (some a, s'))
    (h : Ensures allowed (next a) s' Q stops) : Ensures allowed (x >>= next) s Q stops := by
  unfold Ensures at h ⊢
  rw [run_bind, hr]
  exact h

theorem emit {step : Emit α} {b : FunctionBuilder}
    (hr : step.run s.builder = .ok (a, b)) (h : Ensures allowed (next a) { s with builder := b } Q stops) :
    Ensures allowed (Lower.emit step >>= next) s Q stops :=
  .step (by rw [run_emit, hr]; rfl) h

theorem answer {result : Except Fault α} (hr : result = .ok a)
    (h : Ensures allowed (next a) s Q stops) : Ensures allowed (Lower.answer result >>= next) s Q stops :=
  .step (by rw [hr]; rfl) h

theorem get {next : LowerState → Lower β} (h : Ensures allowed (next s) s Q stops) :
    Ensures allowed (MonadState.get >>= next) s Q stops :=
  .step run_get h

theorem change {f : LowerState → LowerState} {next : PUnit → Lower β}
    (h : Ensures allowed (next ⟨⟩) (f s) Q stops) : Ensures allowed (modify f >>= next) s Q stops :=
  .step run_modify h

theorem setEnv {env : Env} {next : Unit → Lower β} (h : Ensures allowed (next ()) { s with env := env } Q stops) :
    Ensures allowed (Lower.setEnv env >>= next) s Q stops :=
  .change h

theorem attempt {next : Option α → Lower β} {halts : LowerState → Prop}
    (h : Ensures allowed x s yields halts) (hy : ∀ a s', yields a s' → Ensures allowed (next (some a)) s' Q stops)
    (hs : ∀ s', halts s' → Ensures allowed (next none) s' Q stops) :
    Ensures allowed (Lower.attempt x >>= next) s Q stops := by
  unfold Ensures at h hy hs ⊢
  rw [run_bind, run_attempt]
  cases hx : x.run.run s with
  | error fault => rw [hx] at h; exact h
  | ok p =>
    obtain ⟨a, s1⟩ := p
    rw [hx] at h
    cases a with
    | none => exact hs _ h
    | some a => exact hy _ _ h

end Sequences

end Ensures

end Lower

/-! ## Steps from one world to another -/

namespace World

open Lower

variable {α β : Type} {w w' : World} {X : Setting} {Γ Δ : List Local} {depth : Nat} {breaks breaks' : Bool}

/-- From a point that was reached from `w₀`, control flows to a point where `Q` holds, or halts. -/
def Reaches (X : Setting) (Γ : List Local) (depth : Nat) (breaks : Bool) (w₀ : World) (step : Lower α)
    (w : World) (Q : α → World → Prop) : Prop :=
  Ensures X.passesUnit step w.toLowerState
    (fun a s' => ∃ w' : World, w'.toLowerState = s' ∧ Flow w₀ w' X Γ depth breaks ∧ Q a w')
    (fun s' => ∃ w' : World, w'.toLowerState = s' ∧ Halt w₀ w' X breaks)

theorem Reaches.mono {w₀ : World} {step : Lower α} {Q Q' : α → World → Prop}
    (h : Reaches X Γ depth breaks w₀ step w Q) (hq : ∀ a w', Q a w' → Q' a w') :
    Reaches X Γ depth breaks w₀ step w Q' := by
  refine Ensures.mono h ?_ fun _ h => h
  rintro a s' ⟨w', rfl, hf, hq'⟩
  exact ⟨w', rfl, hf, hq a w' hq'⟩

/-- Control flows to a point where `Q` holds, or halts. -/
def Yields (X : Setting) (Γ : List Local) (depth : Nat) (breaks : Bool) (step : Lower α) (w : World)
    (Q : α → World → Prop) : Prop :=
  Reaches X Γ depth breaks w step w Q

namespace Yields

variable {w₀ : World} {step : Lower α} {next : α → Lower β} {Q : α → World → Prop} {R : β → World → Prop}
variable {a : α}

/-- What flows from a point flows from where that was reached from. -/
theorem after (h : Yields X Γ depth breaks step w Q) (hf : Flow w₀ w X Γ depth breaks) :
    Reaches X Γ depth breaks w₀ step w Q := by
  refine Ensures.mono h ?_ ?_
  · rintro a s' ⟨w', rfl, hf', hq⟩
    exact ⟨w', rfl, hf.trans hf', hq⟩
  · rintro s' ⟨w', rfl, hh⟩
    exact ⟨w', rfl, hf.halt hh⟩

theorem bind (h : Yields X Γ depth breaks step w Q)
    (hn : ∀ a w', Flow w w' X Γ depth breaks → Q a w' → Yields X Γ depth breaks (next a) w' R) :
    Yields X Γ depth breaks (step >>= next) w R := by
  refine Ensures.bind (Ensures.mono h ?_ fun _ h => h)
  rintro a s' ⟨w1, rfl, hf, hq⟩
  exact (hn a w1 hf hq).after hf

theorem pure (h : Q a w) : Yields X Γ depth breaks (Pure.pure a) w Q :=
  ⟨w, rfl, .refl .., h⟩

theorem mono {Q' : α → World → Prop} (h : Yields X Γ depth breaks step w Q)
    (hq : ∀ a w', Q a w' → Q' a w') : Yields X Γ depth breaks step w Q' :=
  Reaches.mono h hq

theorem weaken (h : Yields X Γ depth breaks step w Q) (hΓ : Δ ⊆ Γ) (hb : breaks = true → breaks' = true) :
    Yields X Δ depth breaks' step w Q := by
  refine Ensures.mono h ?_ ?_
  · rintro a s' ⟨w', rfl, hf, hq⟩
    exact ⟨w', rfl, hf.mono hΓ hb, hq⟩
  · rintro s' ⟨w', rfl, hh⟩
    exact ⟨w', rfl, hh.mono hb⟩

theorem map {f : α → β} (h : Yields X Γ depth breaks step w fun a w' => R (f a) w') :
    Yields X Γ depth breaks (f <$> step) w R := by exact h.bind fun a w' _ hr => .pure hr

theorem answer {result : Except Fault α} (hr : result = .ok a)
    (h : Yields X Γ depth breaks (next a) w R) : Yields X Γ depth breaks (answer result >>= next) w R :=
  Ensures.answer hr h

theorem get {next : LowerState → Lower β} (h : Yields X Γ depth breaks (next w.toLowerState) w R) :
    Yields X Γ depth breaks (MonadState.get >>= next) w R :=
  Ensures.get h

theorem unitAsValue (h : X.passesUnit) : Yields X Γ depth breaks (fault .unitAsValue) w Q := by exact ⟨rfl, h⟩

theorem asValue {lowered : Lower Lowered} {Q : Lowered → World → Prop} {R : ValueId → World → Prop}
    (h : Yields X Γ depth breaks lowered w Q) (hq : ∀ v w', Q (.value v) w' → R v w')
    (hu : ∀ w', Q .unit w' → X.passesUnit) : Yields X Γ depth breaks (asValue lowered) w R := by
  refine h.bind fun a w' _ ha => ?_
  cases a with
  | value v => exact .pure (hq v w' ha)
  | unit => exact .unitAsValue (hu w' ha)

theorem emit {step : Emit α} (w' : World) (hr : step.run w.builder = .ok (a, w'.builder))
    (hw : w'.toLowerState = { w.toLowerState with builder := w'.builder })
    (hf : Flow w w' X Γ depth breaks) (h : Q a w') : Yields X Γ depth breaks (emit step) w Q := by
  unfold Yields Reaches Ensures
  rw [run_emit, hr]
  exact ⟨w', hw, hf, h⟩

end Yields

end World

end SsaCompiler
