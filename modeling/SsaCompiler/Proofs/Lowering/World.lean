import SsaCompiler.Proofs.Ir.Building
import SsaCompiler.Proofs.Lowering.Items

/-!
# Bodies being built

A `World` is a state of lowering together with what is promised about the body so far: what is in
memory at each address, and which values reach each block. `World.Valid` says that the promises are
kept, which is what makes a finished body well typed and in single assignment form. Each building
step keeps a world valid (`Valid.push`, `Valid.alloca`, `Valid.close` and so on), given that the
values it reads are known at the end of the current block; what they share is `Valid.step`.

`World.Grows` says how far apart two worlds are: only some blocks, and new ones, were changed, and
nothing that was there went away.
-/

namespace SsaCompiler

open FunctionBuilder List

/-- A state of lowering with promises about the body so far. -/
structure World extends LowerState where
  /-- The type of what is in memory at the address that a value is, where that is known. -/
  cells : List (Option IrType)
  /-- The values that reach each block on all ways to it. -/
  reaching : List (Set ValueId)

def defs (insts : List Instruction) : List ValueId := insts.filterMap (·.result)

theorem mem_defs {insts : List Instruction} {v : ValueId} :
    v ∈ defs insts ↔ ∃ inst ∈ insts, inst.result = some v := by simp [defs]

theorem defs_append {insts insts' : List Instruction} : defs (insts ++ insts') = defs insts ++ defs insts' :=
  filterMap_append

/-- A value of the kind can be added, with what is in memory at the address that it is. -/
def ValueKind.Addable (mod : IrModule) (cell : Option IrType) : ValueKind → Prop
  | .result | .param _ => False
  | .global id => ∀ global, mod.globals[id.index]? = some global → cell = some global.type
  | _ => True

theorem ValueKind.Addable.ne_result {mod : IrModule} {cell : Option IrType} {kind : ValueKind}
    (h : kind.Addable mod cell) : kind ≠ .result := by
  rintro rfl
  exact h

namespace World

variable (w : World)

def valueCount : Nat := w.builder.values.size

def blockCount : Nat := w.builder.blocks.size

def here : Nat := w.builder.here

def code (i : Nat) : List Instruction := w.builder.code i

def terminator (i : Nat) : Option Terminator := w.builder.terminator i

def typing : ValueTyping :=
  ⟨fun v => (w.builder.values[v.index]?).map (·.type), fun v type => w.cells[v.index]? = some (some type)⟩

/-- A value that is there from the start: it comes from no instruction, or is a stack slot. -/
def Free (v : ValueId) : Prop :=
  (∃ data, w.builder.values[v.index]? = some data ∧ data.kind ≠ .result) ∨ v ∈ defs w.builder.slots

def reach (i : Nat) : Set ValueId := w.reaching[i]?.getD ∅

def KnownAfter (insts : List Instruction) (i : Nat) (v : ValueId) : Prop :=
  w.Free v ∨ v ∈ w.reach i ∨ v ∈ defs insts

/-- A value is known at the end of a block. -/
def Known (i : Nat) (v : ValueId) : Prop := w.KnownAfter (w.code i) i v

/-- Addresses of stack slots and fields hold what the instruction says. -/
def Sited (mod : IrModule) (inst : Instruction) : Prop :=
  match inst.operation, inst.result with
  | .alloca type, some v => w.typing.Holds v type
  | .fieldAddr _ layout index, some v => ∀ fields type, mod.fields? layout = some fields →
    fields[index]? = some type → w.typing.Holds v type
  | _, _ => True

/-- A parameter is listed, and the address of a global holds what the global does. -/
def Placed (mod : IrModule) (i : Nat) : ValueKind → Prop
  | .param _ => ⟨i⟩ ∈ w.builder.params
  | .global id => ∀ global, mod.globals[id.index]? = some global → w.typing.Holds ⟨i⟩ global.type
  | _ => True

/-- The promises about the body so far are kept. -/
structure Valid (X : Setting) : Prop where
  laid : w.builder.Laid
  cells : w.cells.length = w.valueCount
  blocks : w.reaching.length = w.blockCount
  slots : ∀ inst ∈ w.builder.slots, ∃ type v, inst = ⟨.alloca type, some v⟩
  typed : ∀ inst, (inst ∈ w.builder.slots ∨ ∃ i, inst ∈ w.code i) → inst.Typed X.mod w.typing ∧ w.Sited X.mod inst
  values : ∀ {i : Nat} {data : ValueData}, w.builder.values[i]? = some data → w.Placed X.mod i data.kind
  operands : ∀ {i : Nat} {pre post : List Instruction} {inst : Instruction},
    w.code i = pre ++ inst :: post → ∀ v ∈ inst.operation.operands, w.KnownAfter pre i v
  incoming : ∀ {i : Nat} {inst : Instruction}, inst ∈ w.code i → ∀ arm ∈ inst.operation.incoming,
    arm.1.index < w.blockCount ∧ w.Known arm.1.index arm.2
  terminators : ∀ {i : Nat} {t : Terminator}, w.terminator i = some t →
    t.Typed X.sig w.typing ∧ (∀ v ∈ t.operands, w.Known i v) ∧
      ∀ j ∈ t.successors, j.index < w.blockCount ∧ ∀ v ∈ w.reach j.index, w.Known i v
  entry : w.reach 0 = ∅
  fresh : ∀ {i : Nat} {v : ValueId}, v ∈ w.reach i → v.index < w.valueCount ∧ v ∉ defs (w.code i)
  distinctSlots : (defs w.builder.slots).Nodup
  distinct : ∀ i, (defs (w.code i)).Nodup ∧ (defs w.builder.slots).Disjoint (defs (w.code i))
  apart : ∀ {i j : Nat}, i ≠ j → (defs (w.code i)).Disjoint (defs (w.code j))
  results : ∀ v : ValueId, (w.builder.values[v.index]?).map (·.kind) = some .result ↔
    v ∈ defs w.builder.slots ∨ ∃ i, v ∈ defs (w.code i)

/-- Only the blocks of `F` and new ones were changed from one world to another. -/
structure Grows (F : Set Nat) (w w' : World) : Prop where
  values : w.builder.values.toList <+: w'.builder.values.toList
  cells : w.cells <+: w'.cells
  reaching : w.reaching <+: w'.reaching
  slots : w.builder.slots <+: w'.builder.slots
  edges : w.builder.edges <+: w'.builder.edges
  params : w'.builder.params = w.builder.params
  blocks : w.blockCount ≤ w'.blockCount
  code : ∀ i, ∃ more, w'.code i = w.code i ++ more ∧ ∀ v ∈ defs more, w.valueCount ≤ v.index
  same : ∀ i < w.blockCount, i ∉ F → w'.code i = w.code i ∧ w'.terminator i = w.terminator i

variable {w} {w' w'' : World} {F F' : Set Nat} {X : Setting} {i : Nat} {v : ValueId} {kind : ValueKind}

namespace Grows

theorem refl {w : World} : Grows F w w where
  values := prefix_rfl
  cells := prefix_rfl
  reaching := prefix_rfl
  slots := prefix_rfl
  edges := prefix_rfl
  params := rfl
  blocks := Nat.le_refl _
  code _ := ⟨[], by simp, by simp [defs]⟩
  same _ _ _ := ⟨rfl, rfl⟩

theorem valueCount_le (g : Grows F w w') : w.valueCount ≤ w'.valueCount := by
  simpa [valueCount] using g.values.length_le

theorem trans (g : Grows F w w') (g' : Grows F' w' w'') (hF : ∀ i < w.blockCount, i ∈ F' → i ∈ F) : Grows F w w'' where
  values := g.values.trans g'.values
  cells := g.cells.trans g'.cells
  reaching := g.reaching.trans g'.reaching
  slots := g.slots.trans g'.slots
  edges := g.edges.trans g'.edges
  params := g'.params.trans g.params
  blocks := Nat.le_trans g.blocks g'.blocks
  code i := by
    obtain ⟨more, he, hm⟩ := g.code i
    obtain ⟨more', he', hm'⟩ := g'.code i
    refine ⟨more ++ more', by rw [he', he, append_assoc], fun v hv => ?_⟩
    rw [defs_append] at hv
    rcases mem_append.mp hv with hv | hv
    · exact hm v hv
    · exact Nat.le_trans g.valueCount_le (hm' v hv)
  same i hi hF' := by
    have h' := g'.same i (Nat.lt_of_lt_of_le hi g.blocks) fun h => hF' (hF i hi h)
    have h := g.same i hi hF'
    exact ⟨h'.1.trans h.1, h'.2.trans h.2⟩

theorem mono (g : Grows F w w') (hF : ∀ i < w.blockCount, i ∈ F → i ∈ F') : Grows F' w w' :=
  { g with same := fun i hi hn => g.same i hi fun h => hn (hF i hi h) }

theorem of_empty (g : Grows ∅ w w') : Grows F w w' := g.mono fun _ _ h => absurd h id

variable (g : Grows F w w')
include g

theorem values_get {data : ValueData} (h : w.builder.values[i]? = some data) : w'.builder.values[i]? = some data := by
  rw [← Array.getElem?_toList] at h ⊢
  exact getElem?_of_isPrefix g.values h

theorem holds {type : IrType} (h : w.typing.Holds v type) : w'.typing.Holds v type :=
  getElem?_of_isPrefix g.cells h

theorem typing (hc : w.cells.length = w.valueCount) : w.typing.Le w'.typing where
  typeOf {v type} h := by
    obtain ⟨data, hd, rfl⟩ := Option.map_eq_some_iff.mp h
    exact Option.map_eq_some_iff.mpr ⟨data, g.values_get hd, rfl⟩
  holds {v type held} h hh := by
    obtain ⟨data, hd, rfl⟩ := Option.map_eq_some_iff.mp h
    have hlt : v.index < w.cells.length := by
      rw [hc]
      exact lt_of_getElem? hd
    have hsame := prefix_iff_getElem?.mp g.cells v.index hlt
    show w.cells[v.index]? = some (some held)
    rw [getElem?_eq_getElem hlt, ← hsame, hh]

theorem free (h : w.Free v) : w'.Free v := by
  rcases h with ⟨data, hd, hk⟩ | h
  · exact .inl ⟨data, g.values_get hd, hk⟩
  · obtain ⟨more, hm⟩ := g.slots
    refine .inr ?_
    rw [← hm, defs_append]
    exact mem_append_left _ h

theorem reach_eq (hi : i < w.reaching.length) : w'.reach i = w.reach i := by
  unfold reach
  rw [getElem?_eq_getElem hi, prefix_iff_getElem?.mp g.reaching i hi]

theorem mem_reach (h : v ∈ w.reach i) : v ∈ w'.reach i := by
  by_cases hi : i < w.reaching.length
  · rwa [g.reach_eq hi]
  · simp [reach, getElem?_eq_none (Nat.le_of_not_lt hi)] at h

theorem knownAfter {insts : List Instruction} (h : w.KnownAfter insts i v)
    (more : List Instruction) : w'.KnownAfter (insts ++ more) i v := by
  rcases h with h | h | h
  · exact .inl (g.free h)
  · exact .inr (.inl (g.mem_reach h))
  · refine .inr (.inr ?_)
    rw [defs_append]
    exact mem_append_left _ h

theorem known (h : w.Known i v) : w'.Known i v := by
  obtain ⟨more, he, -⟩ := g.code i
  unfold Known
  rw [he]
  exact g.knownAfter h more

theorem sited {mod : IrModule} {inst : Instruction} (h : w.Sited mod inst) : w'.Sited mod inst := by
  unfold Sited at h ⊢
  split at h
  · exact g.holds h
  · exact fun fields type hf ht => g.holds (h fields type hf ht)
  · trivial

theorem placed {mod : IrModule} (h : w.Placed mod i kind) : w'.Placed mod i kind := by
  cases kind with
  | param =>
    show _ ∈ w'.builder.params
    rwa [g.params]
  | global => exact fun global hm => g.holds (h global hm)
  | _ => trivial

end Grows

theorem Valid.slot_lt (h : w.Valid X) (hv : v ∈ defs w.builder.slots) : v.index < w.valueCount := by
  obtain ⟨data, hd, -⟩ := Option.map_eq_some_iff.mp ((h.results v).mpr (.inl hv))
  exact lt_of_getElem? hd

theorem Valid.def_lt (h : w.Valid X) (hv : v ∈ defs (w.code i)) : v.index < w.valueCount := by
  obtain ⟨data, hd, -⟩ := Option.map_eq_some_iff.mp ((h.results v).mpr (.inr ⟨i, hv⟩))
  exact lt_of_getElem? hd

theorem Valid.known_lt (h : w.Valid X) (hv : w.Known i v) : v.index < w.valueCount := by
  rcases hv with (⟨data, hd, -⟩ | hv) | hv | hv
  · exact lt_of_getElem? hd
  · exact h.slot_lt hv
  · exact (h.fresh hv).1
  · exact h.def_lt hv

theorem code_of_le (h : w.blockCount ≤ i) : w.code i = [] ∧ w.terminator i = none := by
  have hb : w.builder.block i = .empty := by
    simp only [FunctionBuilder.block]
    rw [Array.getElem?_eq_none h]
    rfl
  simp [code, terminator, FunctionBuilder.code, FunctionBuilder.terminator, hb, BasicBlock.empty]

/-! ## Steps -/

/-- What a step adds to a world, apart from a terminator: stack slots, instructions at the end of
blocks, and values that reach new blocks. -/
structure Adds (w w' : World) (added : List Instruction) (more : Nat → List Instruction) : Prop where
  slots : w'.builder.slots = w.builder.slots ++ added
  code : ∀ i, w'.code i = w.code i ++ more i
  results : ∀ v : ValueId, (w'.builder.values[v.index]?).map (·.kind) = some .result ↔
    (w.builder.values[v.index]?).map (·.kind) = some .result ∨ v ∈ defs added ∨ ∃ i, v ∈ defs (more i)
  fresh : ∀ v, (v ∈ defs added ∨ ∃ i, v ∈ defs (more i)) → v.index = w.valueCount
  /-- At most one value is given by what is added. -/
  once : (defs added).Nodup ∧ ∀ i, (defs (more i)).Nodup ∧ (defs added).Disjoint (defs (more i)) ∧
    ∀ j, i ≠ j → (defs (more i)).Disjoint (defs (more j))
  reach : ∀ i v, v ∈ w'.reach i → v ∈ w.reach i ∨ w.blockCount ≤ i ∧ v.index < w.valueCount ∧ more i = []

theorem Adds.nothing (hslots : w'.builder.slots = w.builder.slots) (hcode : ∀ i, w'.code i = w.code i)
    (hresults : ∀ v : ValueId, (w'.builder.values[v.index]?).map (·.kind) = some .result ↔
      (w.builder.values[v.index]?).map (·.kind) = some .result)
    (hreach : ∀ i v, v ∈ w'.reach i → v ∈ w.reach i ∨ w.blockCount ≤ i ∧ v.index < w.valueCount) :
    Adds w w' [] fun _ => [] where
  slots := by simp [hslots]
  code i := by simp [hcode]
  results v := by simp [hresults, defs]
  fresh v hv := by simp [defs] at hv
  once := by simp [defs]
  reach i v hv := by simpa using hreach i v hv

/-- What makes a world valid is kept by a step that adds valid parts. -/
theorem Valid.step (h : w.Valid X) (g : Grows F w w') {slots : List Instruction} {more : Nat → List Instruction}
    (hadds : Adds w w' slots more) (laid : w'.builder.Laid) (cells : w'.cells.length = w'.valueCount)
    (blocks : w'.reaching.length = w'.blockCount) (hslots : ∀ inst ∈ slots, ∃ type v, inst = ⟨.alloca type, some v⟩)
    (typed : ∀ inst, (inst ∈ slots ∨ ∃ i, inst ∈ more i) → inst.Typed X.mod w'.typing ∧ w'.Sited X.mod inst)
    (values : ∀ {i : Nat} {data : ValueData}, w'.builder.values[i]? = some data →
      w.builder.values[i]? = some data ∨ w'.Placed X.mod i data.kind)
    (operands : ∀ {i : Nat} {pre post : List Instruction} {inst : Instruction}, more i = pre ++ inst :: post →
      ∀ v ∈ inst.operation.operands, w'.KnownAfter (w.code i ++ pre) i v)
    (incoming : ∀ {i : Nat} {inst : Instruction}, inst ∈ more i → ∀ arm ∈ inst.operation.incoming,
      arm.1.index < w.blockCount ∧ w.Known arm.1.index arm.2)
    (terminators : ∀ {i : Nat} {t : Terminator}, w'.terminator i = some t → w.terminator i = some t ∨
      t.Typed X.sig w.typing ∧ (∀ v ∈ t.operands, w.Known i v) ∧
        ∀ j ∈ t.successors, j.index < w.blockCount ∧ ∀ v ∈ w.reach j.index, w.Known i v) : w'.Valid X := by
  have hV := g.typing h.cells
  have hnew : ∀ {v : ValueId} {known : Nat}, (v ∈ defs slots ∨ ∃ i, v ∈ defs (more i)) → v.index = known →
      ¬ known < w.valueCount := fun hv he => by rw [← he, hadds.fresh _ hv]; exact Nat.lt_irrefl _
  have hreach : ∀ {j : Nat}, j < w.blockCount → w'.reach j = w.reach j := fun hj => g.reach_eq (h.blocks ▸ hj)
  exact {
    laid, cells, blocks
    slots := fun inst hi => by
      rw [hadds.slots] at hi
      exact (mem_append.mp hi).elim (h.slots inst) (hslots inst)
    typed := fun inst hi => by
      simp only [hadds.slots, hadds.code, mem_append] at hi
      have hcases : (inst ∈ w.builder.slots ∨ ∃ i, inst ∈ w.code i) ∨ inst ∈ slots ∨ ∃ i, inst ∈ more i := by
        rcases hi with (hi | hi) | ⟨i, hi | hi⟩
        · exact .inl (.inl hi)
        · exact .inr (.inl hi)
        · exact .inl (.inr ⟨i, hi⟩)
        · exact .inr (.inr ⟨i, hi⟩)
      rcases hcases with hold | hi
      · exact ⟨(h.typed inst hold).1.mono hV, g.sited (h.typed inst hold).2⟩
      · exact typed inst hi
    values := fun hv => (values hv).elim (fun hv => g.placed (h.values hv)) id
    operands := fun {i pre post inst} hc v hv => by
      rw [hadds.code] at hc
      rcases append_eq_append_iff.mp hc with ⟨mid, rfl, hmore⟩ | ⟨mid, hpre, hmore⟩
      · exact operands hmore v hv
      · cases mid with
        | nil =>
          have hknown := operands (show more i = [] ++ inst :: post from hmore.symm) v hv
          rwa [append_nil, hpre, append_nil] at hknown
        | cons first mid =>
          obtain ⟨rfl, -⟩ := List.cons.inj hmore
          simpa using g.knownAfter (h.operands hpre v hv) []
    incoming := fun {i inst} hi arm ha => by
      rw [hadds.code] at hi
      have hold : arm.1.index < w.blockCount ∧ w.Known arm.1.index arm.2 :=
        (mem_append.mp hi).elim (h.incoming · arm ha) (incoming · arm ha)
      exact ⟨Nat.lt_of_lt_of_le hold.1 g.blocks, g.known hold.2⟩
    terminators := fun {i t} ht => by
      obtain ⟨htyped, hops, hsucc⟩ := (terminators ht).elim h.terminators id
      refine ⟨htyped.mono hV, fun v hv => g.known (hops v hv), fun j hj => ?_⟩
      rw [hreach (hsucc j hj).1]
      exact ⟨Nat.lt_of_lt_of_le (hsucc j hj).1 g.blocks, fun v hv => g.known ((hsucc j hj).2 v hv)⟩
    entry := (hreach (Nat.lt_of_le_of_lt (Nat.zero_le _) h.laid.here)).trans h.entry
    fresh := fun {i v} hv => by
      rw [hadds.code, defs_append, mem_append, not_or]
      rcases hadds.reach i v hv with hv | ⟨hi, hlt, hmore⟩
      · obtain ⟨hlt, hno⟩ := h.fresh hv
        exact ⟨Nat.lt_of_lt_of_le hlt g.valueCount_le, hno, fun hd => hnew (.inr ⟨i, hd⟩) rfl hlt⟩
      · rw [(code_of_le hi).1, hmore]
        exact ⟨Nat.lt_of_lt_of_le hlt g.valueCount_le, by simp [defs], by simp [defs]⟩
    distinctSlots := by
      rw [hadds.slots, defs_append]
      exact h.distinctSlots.append hadds.once.1 fun v hv hd => hnew (.inl hd) rfl (h.slot_lt hv)
    distinct := fun i => by
      rw [hadds.slots, hadds.code, defs_append, defs_append, disjoint_append_left, disjoint_append_right,
        disjoint_append_right]
      obtain ⟨hnodup, hdisjoint, -⟩ := hadds.once.2 i
      exact ⟨(h.distinct i).1.append hnodup fun v hv hd => hnew (.inr ⟨i, hd⟩) rfl (h.def_lt hv),
        ⟨(h.distinct i).2, fun v hv hd => hnew (.inr ⟨i, hd⟩) rfl (h.slot_lt hv)⟩,
        fun v hd hv => hnew (.inl hd) rfl (h.def_lt hv), hdisjoint⟩
    apart := fun {i j} hij => by
      rw [hadds.code, hadds.code, defs_append, defs_append, disjoint_append_left, disjoint_append_right,
        disjoint_append_right]
      exact ⟨⟨h.apart hij, fun v hv hd => hnew (.inr ⟨j, hd⟩) rfl (h.def_lt hv)⟩,
        fun v hd hv => hnew (.inr ⟨i, hd⟩) rfl (h.def_lt hv), (hadds.once.2 i).2.2 j hij⟩
    results := fun v => by
      simp only [hadds.results, h.results, hadds.slots, hadds.code, defs_append, mem_append, exists_or]
      exact or_or_or_comm }

/-! ## Values -/

def withValue (w : World) (kind : ValueKind) (type : IrType) (cell : Option IrType) : World :=
  { w with builder := w.builder.withValue kind type, cells := w.cells ++ [cell] }

theorem getElem?_push_eq {values : Array ValueData} {data data' : ValueData}
    (h : (values.push data)[i]? = some data') : values[i]? = some data' ∨ i = values.size ∧ data' = data := by
  rw [Array.getElem?_push] at h
  split at h
  · rename_i hi
    exact .inr ⟨hi, (Option.some.inj h).symm⟩
  · exact .inl h

theorem grows_withValue (w : World) (kind : ValueKind) (type : IrType) (cell : Option IrType) :
    Grows ∅ w (w.withValue kind type cell) :=
  { Grows.refl with
    values := by simp [withValue]
    cells := prefix_append .. }

theorem holds_withValue (h : w.cells.length = w.valueCount) {type held : IrType} :
    (w.withValue kind type (some held)).typing.Holds ⟨w.valueCount⟩ held := by
  show (w.cells ++ [some held])[w.valueCount]? = _
  rw [← h]
  simp

theorem Valid.withValue (h : w.Valid X) {type : IrType} {cell : Option IrType} (hk : kind.Addable X.mod cell) :
    (w.withValue kind type cell).Valid X := by
  refine h.step (grows_withValue w kind type cell) (.nothing rfl (fun _ => rfl) (fun v => ?_) fun i v hv => .inl hv)
    (h.laid.withValue kind type) (by simp [World.withValue, h.cells, valueCount]) h.blocks (by simp) (by simp)
    (fun {i data} hv => ?_) (by simp) (by simp) .inl
  · show ((w.builder.values.push ⟨kind, type⟩)[v.index]?).map _ = _ ↔ _
    rw [Array.getElem?_push]
    split
    · rename_i hi
      simp [hi, hk.ne_result]
    · rfl
  · rcases getElem?_push_eq hv with hv | ⟨rfl, rfl⟩
    · exact .inl hv
    · refine .inr ?_
      cases kind with
      | result | param => exact hk.elim
      | global =>
        intro global hm
        obtain rfl := hk global hm
        exact holds_withValue h.cells
      | _ => trivial

/-! ## Instructions -/

/-- What an instruction gives: a value of a type, which may be the address of something, or nothing. -/
abbrev Given := Option (IrType × Option IrType)

/-- The builder with the value that an instruction gives. -/
def gaining (w : World) : Given → FunctionBuilder
  | none => w.builder
  | some (type, _) => w.builder.withValue .result type

def push (w : World) (op : Operation) (given : Given) : World :=
  { w with
    builder := (w.gaining given).append ⟨op, given.map fun _ => ⟨w.valueCount⟩⟩
    cells := w.cells ++ (given.map (·.2)).toList }

section

variable (op : Operation) (given : Given)

theorem laid_gaining (h : w.builder.Laid) : (w.gaining given).Laid := by
  cases given with
  | none => exact h
  | some given => exact h.withValue .result given.1

theorem code_push (h : w.builder.Laid) : (w.push op given).code i =
    if i = w.here then w.code i ++ [⟨op, given.map fun _ => ⟨w.valueCount⟩⟩] else w.code i := by
  refine (code_append (laid_gaining given h) i).trans ?_
  cases given <;> rfl

theorem terminator_push (h : w.builder.Laid) (i : Nat) : (w.push op given).terminator i = w.terminator i := by
  refine (terminator_append (laid_gaining given h) i).trans ?_
  cases given <;> rfl

theorem slots_push (h : w.builder.Laid) : (w.push op given).builder.slots = w.builder.slots := by
  refine (slots_append (laid_gaining given h)).trans ?_
  cases given <;> rfl

theorem blockCount_push : (w.push op given).blockCount = w.blockCount := by
  refine size_append.trans ?_
  cases given <;> rfl

theorem grows_push (h : w.builder.Laid) : Grows {w.here} w (w.push op given) where
  values := by cases given <;> simp [push, gaining]
  cells := prefix_append ..
  reaching := prefix_rfl
  slots := by simp [slots_push op given h]
  edges := by cases given <;> exact prefix_rfl
  params := by cases given <;> rfl
  blocks := Nat.le_of_eq (blockCount_push op given).symm
  code i := by
    rw [code_push op given h]
    split
    · refine ⟨_, rfl, ?_⟩
      cases given <;> simp [defs]
    · exact ⟨[], by simp, by simp [defs]⟩
  same i _ hi := by
    have hi : i ≠ w.here := hi
    rw [code_push op given h, terminator_push op given h, if_neg hi]
    exact ⟨rfl, rfl⟩

theorem typeOf_push {type : IrType} {cell : Option IrType} :
    (w.push op (some (type, cell))).typing.typeOf ⟨w.valueCount⟩ = some type := by
  simp [typing, push, gaining, valueCount]

theorem holds_push (h : w.cells.length = w.valueCount) {type held : IrType} :
    (w.push op (some (type, some held))).typing.Holds ⟨w.valueCount⟩ held := by
  show (w.cells ++ [some held])[w.valueCount]? = _
  rw [← h]
  simp

variable {op given}

/-- What an instruction needs at the end of the current block. -/
structure Ready (w : World) (X : Setting) (op : Operation) (type : Option IrType) : Prop where
  typed : op.Typed X.mod w.typing type
  operands : ∀ v ∈ op.operands, w.Known w.here v
  incoming : ∀ arm ∈ op.incoming, arm.1.index < w.blockCount ∧ w.Known arm.1.index arm.2

theorem isResult_push (w : World) (op : Operation) (given : Given) (v : ValueId) :
    ((w.push op given).builder.values[v.index]?).map (·.kind) = some .result ↔
      (w.builder.values[v.index]?).map (·.kind) = some .result ∨
        v ∈ (given.map fun _ => (⟨w.valueCount⟩ : ValueId)).toList := by
  cases given with
  | none => simp [push, gaining]
  | some given =>
    show ((w.builder.values.push ⟨.result, given.1⟩)[v.index]?).map (·.kind) = _ ↔ _
    rw [Array.getElem?_push]
    by_cases hv : v.index = w.builder.values.size
    · have hv' : v = ⟨w.valueCount⟩ := congrArg ValueId.mk hv
      simp [hv', valueCount]
    · have hv' : v ≠ ⟨w.valueCount⟩ := fun h => hv (congrArg ValueId.index h)
      simp [hv, hv']

theorem adds_push (h : w.builder.Laid) : Adds w (w.push op given) []
    fun i => if i = w.here then [⟨op, given.map fun _ => ⟨w.valueCount⟩⟩] else [] := by
  have hdefs : ∀ i, defs (if i = w.here then [⟨op, given.map fun _ => ⟨w.valueCount⟩⟩] else []) =
      if i = w.here then (given.map fun _ => (⟨w.valueCount⟩ : ValueId)).toList else [] := by
    intro i
    split <;> cases given <;> rfl
  have hexists : ∀ v, (∃ i, v ∈ if i = w.here then (given.map fun _ => (⟨w.valueCount⟩ : ValueId)).toList else []) ↔
      v ∈ (given.map fun _ => (⟨w.valueCount⟩ : ValueId)).toList :=
    fun v => ⟨fun ⟨i, hi⟩ => by split at hi <;> [exact hi; cases hi], fun hv => ⟨w.here, by simpa using hv⟩⟩
  constructor
  · simp [slots_push op given h]
  · intro i
    rw [code_push op given h]
    split <;> simp
  · intro v
    simp only [isResult_push]
    simp [defs]
  · intro v hv
    cases given <;> simp_all [defs]
  · refine ⟨by simp [defs], fun i => ⟨?_, by simp [defs], fun j hij => ?_⟩⟩
    · rw [hdefs]
      split <;> cases given <;> simp
    · rw [hdefs, hdefs]
      split
      · rename_i hi
        rw [if_neg (hi ▸ hij.symm)]
        simp
      · simp
  · exact fun i v hv => .inl hv

theorem Valid.push (h : w.Valid X) (hr : w.Ready X op (given.map (·.1)))
    (hs : (w.push op given).Sited X.mod ⟨op, given.map fun _ => ⟨w.valueCount⟩⟩) : (w.push op given).Valid X := by
  have g := grows_push op given h.laid
  have honly : ∀ {i : Nat} {inst : Instruction},
      inst ∈ (if i = w.here then [⟨op, given.map fun _ => ⟨w.valueCount⟩⟩] else []) →
      i = w.here ∧ inst = ⟨op, given.map fun _ => ⟨w.valueCount⟩⟩ := by
    intro i inst hi
    split at hi
    · exact ⟨by assumption, mem_singleton.mp hi⟩
    · cases hi
  refine h.step g (adds_push h.laid) (laid_gaining given h.laid).append
    (by cases given <;> simp [World.push, gaining, h.cells, valueCount]) (h.blocks.trans (blockCount_push op given).symm)
    (by simp) ?_ (fun {i data} hv => ?_) (fun {i pre post inst} hc v hv => ?_) (fun {i inst} hi => ?_)
    (fun {i t} ht => .inl ?_)
  · rintro inst (hi | ⟨i, hi⟩)
    · cases hi
    obtain ⟨-, rfl⟩ := honly hi
    refine ⟨⟨given.map (·.1), hr.typed.mono (g.typing h.cells), ?_⟩, hs⟩
    cases given with
    | none => rfl
    | some given => exact congrArg some (typeOf_push op)
  · cases given with
    | none => exact .inl hv
    | some given =>
      rcases getElem?_push_eq hv with hv | ⟨-, rfl⟩
      · exact .inl hv
      · exact .inr trivial
  · obtain ⟨rfl, rfl⟩ := honly (show inst ∈ _ by rw [hc]; simp)
    obtain ⟨rfl, -⟩ : pre = [] ∧ post = [] := by simpa [cons_eq_append_iff] using hc
    exact g.knownAfter (hr.operands v hv) []
  · obtain ⟨-, rfl⟩ := honly hi
    exact hr.incoming
  · rwa [terminator_push op given h.laid] at ht

end

/-! ## Stack slots -/

def alloca (w : World) (type : IrType) : World :=
  { w with
    builder := (w.builder.withValue .result .ptr).addSlot ⟨.alloca type, some ⟨w.valueCount⟩⟩
    cells := w.cells ++ [some type] }

section

variable (type : IrType)

theorem code_alloca (h : w.builder.Laid) (i : Nat) : (w.alloca type).code i = w.code i :=
  code_addSlot (h.withValue .result .ptr)

theorem terminator_alloca (h : w.builder.Laid) (i : Nat) : (w.alloca type).terminator i = w.terminator i :=
  terminator_addSlot (h.withValue .result .ptr) i

theorem slots_alloca (h : w.builder.Laid) : (w.alloca type).builder.slots =
    w.builder.slots ++ [⟨.alloca type, some ⟨w.valueCount⟩⟩] :=
  slots_addSlot (h.withValue .result .ptr)

theorem blockCount_alloca : (w.alloca type).blockCount = w.blockCount := size_addSlot

theorem grows_alloca (h : w.builder.Laid) : Grows ∅ w (w.alloca type) where
  values := by simp [alloca]
  cells := prefix_append ..
  reaching := prefix_rfl
  slots := by rw [slots_alloca type h]; exact prefix_append ..
  edges := prefix_rfl
  params := rfl
  blocks := Nat.le_of_eq (blockCount_alloca type).symm
  code i := ⟨[], by simp [code_alloca type h], by simp [defs]⟩
  same i _ _ := ⟨code_alloca type h i, terminator_alloca type h i⟩

theorem typeOf_alloca : (w.alloca type).typing.typeOf ⟨w.valueCount⟩ = some .ptr := by simp [typing, alloca, valueCount]

theorem holds_alloca (h : w.cells.length = w.valueCount) : (w.alloca type).typing.Holds ⟨w.valueCount⟩ type := by
  show (w.cells ++ [some type])[w.valueCount]? = _
  rw [← h]
  simp

theorem adds_alloca (h : w.builder.Laid) :
    Adds w (w.alloca type) [⟨.alloca type, some ⟨w.valueCount⟩⟩] fun _ => [] where
  slots := slots_alloca type h
  code i := by simp [code_alloca type h]
  results v := (isResult_push w (.alloca type) (some (.ptr, some type)) v).trans (by simp [defs])
  fresh v hv := by simp_all [defs]
  once := by simp [defs]
  reach i v hv := .inl hv

theorem Valid.alloca (h : w.Valid X) : (w.alloca type).Valid X := by
  refine h.step (grows_alloca type h.laid) (adds_alloca type h.laid) (h.laid.withValue .result .ptr).addSlot
    (by simp [World.alloca, h.cells, valueCount]) (h.blocks.trans (blockCount_alloca type).symm) (by simp) ?_
    (fun {i data} hv => ?_) (by simp) (by simp) (fun {i t} ht => .inl ?_)
  · rintro inst (hi | ⟨i, hi⟩)
    · obtain rfl := mem_singleton.mp hi
      exact ⟨⟨some .ptr, rfl, congrArg some (typeOf_alloca type)⟩, holds_alloca type h.cells⟩
    · cases hi
  · rcases getElem?_push_eq hv with hv | ⟨-, rfl⟩
    · exact .inl hv
    · exact .inr trivial
  · rwa [terminator_alloca type h.laid] at ht

end

/-! ## Terminators and blocks -/

def close (w : World) (t : Terminator) : World := { w with builder := w.builder.close t }

def withBlock (w : World) (reaching : Set ValueId) : World :=
  { w with builder := w.builder.withBlock, reaching := w.reaching ++ [reaching] }

def goingOn (w : World) (i : BlockId) : World := { w with builder := w.builder.goingOn i }

section

variable {t : Terminator}

theorem code_close (h : w.builder.Laid) (i : Nat) : (w.close t).code i = w.code i :=
  FunctionBuilder.code_close h

theorem terminator_close (h : w.builder.Laid) :
    (w.close t).terminator i = if i = w.here then some t else w.terminator i :=
  FunctionBuilder.terminator_close h

theorem blockCount_close {w : World} : (w.close t).blockCount = w.blockCount :=
  size_close ..

theorem grows_close (h : w.builder.Laid) : Grows {w.here} w (w.close t) where
  values := by simp [close]
  cells := prefix_rfl
  reaching := prefix_rfl
  slots := by
    show _ <+: (w.builder.close t).slots
    simp [slots_close h]
  edges := edges_close_prefix ..
  params := params_close ..
  blocks := Nat.le_of_eq blockCount_close.symm
  code i := ⟨[], by simp [code_close h], by simp [defs]⟩
  same i _ hi := by
    have hi : i ≠ w.here := hi
    rw [terminator_close h, if_neg hi]
    exact ⟨code_close h i, rfl⟩

theorem Valid.close (h : w.Valid X) (ht : t.Typed X.sig w.typing) (ho : ∀ v ∈ t.operands, w.Known w.here v)
    (hs : ∀ j ∈ t.successors, j.index < w.blockCount ∧ ∀ v ∈ w.reach j.index, w.Known w.here v) :
    (w.close t).Valid X := by
  have hvalues : (w.close t).builder.values = w.builder.values := values_close ..
  refine h.step (grows_close h.laid) (.nothing (slots_close h.laid) (code_close h.laid)
    (fun v => by rw [hvalues]) fun i v hv => .inl hv) h.laid.close (by rw [valueCount, hvalues]; exact h.cells)
    (h.blocks.trans blockCount_close.symm) (by simp) (by simp) (fun hv => .inl (hvalues ▸ hv)) (by simp) (by simp)
    fun {i t'} ht' => ?_
  rw [terminator_close h.laid] at ht'
  split at ht'
  · rename_i hi
    cases ht'
    exact .inr (hi ▸ ⟨ht, ho, hs⟩)
  · exact .inl ht'

end

section

variable {R : Set ValueId} {w : World}

theorem code_withBlock (w : World) (R : Set ValueId) (i : Nat) : (w.withBlock R).code i = w.code i :=
  FunctionBuilder.code_withBlock

theorem terminator_withBlock (w : World) (R : Set ValueId) (i : Nat) : (w.withBlock R).terminator i = w.terminator i :=
  FunctionBuilder.terminator_withBlock

theorem blockCount_withBlock : (w.withBlock R).blockCount = w.blockCount + 1 := size_withBlock

theorem reach_withBlock (h : w.reaching.length = w.blockCount) : (w.withBlock R).reach w.blockCount = R := by
  simp [reach, withBlock, ← h]

theorem grows_withBlock (w : World) (R : Set ValueId) : Grows ∅ w (w.withBlock R) where
  values := prefix_rfl
  cells := prefix_rfl
  reaching := prefix_append ..
  slots := by
    show _ <+: w.builder.withBlock.slots
    simp [slots_withBlock]
  edges := prefix_rfl
  params := rfl
  blocks := by rw [blockCount_withBlock]; exact Nat.le_succ _
  code i := ⟨[], by simp [code_withBlock], by simp [defs]⟩
  same i _ _ := ⟨code_withBlock w R i, terminator_withBlock w R i⟩

theorem Valid.withBlock (h : w.Valid X) (hR : ∀ v ∈ R, v.index < w.valueCount) : (w.withBlock R).Valid X := by
  refine h.step (grows_withBlock w R) (.nothing slots_withBlock (code_withBlock w R) (fun _ => .rfl)
    fun i v hv => ?_) h.laid.withBlock h.cells (by simp [World.withBlock, h.blocks, blockCount]) (by simp) (by simp)
    .inl (by simp) (by simp) fun {i t} ht => .inl (by rwa [terminator_withBlock] at ht)
  rcases Nat.lt_or_ge i w.blockCount with hi | hi
  · rw [(grows_withBlock w R).reach_eq (h.blocks ▸ hi)] at hv
    exact .inl hv
  · refine .inr ⟨hi, ?_⟩
    rcases Nat.eq_or_lt_of_le hi with rfl | hi
    · rw [reach_withBlock h.blocks] at hv
      exact hR v hv
    · have hlen : (w.withBlock R).reaching.length ≤ i := by simp [World.withBlock, h.blocks]; exact hi
      simp [reach, getElem?_eq_none hlen] at hv

theorem grows_goingOn {i : BlockId} : Grows ∅ w (w.goingOn i) := { Grows.refl with }

end

end World

end SsaCompiler
