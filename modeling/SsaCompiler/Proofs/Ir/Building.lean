import SsaCompiler.Ir.FunctionBuilder
import SsaCompiler.Proofs.Ir.Ssa
import SsaCompiler.Proofs.Steps

/-!
# What building steps do

A builder is looked at through its stack slots (`slots`), the instructions of a block that are not
stack slots (`code`) and the terminator of a block. Each step changes one of these in one place: an
instruction goes to the end of the code of the current block (`append`), a stack slot to the end of
the slots (`addSlot`), a terminator to the current block (`close`). The steps of `Emit` succeed with
these changes if the current block is open.
-/

namespace SsaCompiler

open List

namespace FunctionBuilder

variable (b : FunctionBuilder) {i : Nat}

def block (i : Nat) : BasicBlock := b.blocks[i]?.getD .empty

def slots : List Instruction := (b.block 0).insts.take b.allocas

/-- The instructions of a block that are not stack slots. -/
def code (i : Nat) : List Instruction := (b.block i).insts.drop (if i = 0 then b.allocas else 0)

def terminator (i : Nat) : Option Terminator := (b.block i).terminator

def here : Nat := b.current.index

/-- The stack slots are where they are looked for, and the current block exists. -/
structure Laid : Prop where
  slots : b.allocas ≤ (b.block 0).insts.length
  here : b.here < b.blocks.size

theorem insts_zero : (b.block 0).insts = b.slots ++ b.code 0 :=
  (take_append_drop ..).symm

theorem insts_of_ne_zero (h : i ≠ 0) : (b.block i).insts = b.code i := by simp [code, h]

/-! ## The body -/

def body : FunctionBody := ⟨b.values, b.blocks, b.params, b.strings⟩

/-- The number of stack slots in a block. -/
def slotsIn (i : Nat) : Nat := if i = 0 then b.allocas else 0

theorem instAt?_eq {k : Nat} : b.body.instAt? i k = (b.block i).insts[k]? := by
  unfold FunctionBody.instAt? block
  show (b.blocks[i]?).bind _ = _
  cases b.blocks[i]? <;> simp [BasicBlock.empty]

theorem terminator?_eq : b.body.terminator? i = b.terminator i := by
  unfold FunctionBody.terminator? terminator block
  show (b.blocks[i]?).bind _ = _
  cases b.blocks[i]? <;> simp [BasicBlock.empty]

section

variable {b}

theorem length_slots (h : b.Laid) : b.slots.length = b.allocas := by simpa [slots] using h.slots

theorem instAt?_code (h : b.Laid) {i k : Nat} : b.body.instAt? i (b.slotsIn i + k) = (b.code i)[k]? := by
  rw [instAt?_eq]
  unfold slotsIn
  split
  · rename_i hi
    subst hi
    rw [b.insts_zero, ← length_slots h, getElem?_append_right (Nat.le_add_right ..), Nat.add_sub_cancel_left]
  · rename_i hi
    rw [b.insts_of_ne_zero hi, Nat.zero_add]

theorem instAt?_slot (h : b.Laid) {k : Nat} (hk : k < b.allocas) : b.body.instAt? 0 k = b.slots[k]? := by
  rw [instAt?_eq, b.insts_zero, getElem?_append_left (by rwa [length_slots h])]

theorem instAt?_cases (h : b.Laid) {i k : Nat} {inst : Instruction} (hi : b.body.instAt? i k = some inst) :
    (i = 0 ∧ k < b.allocas ∧ b.slots[k]? = some inst) ∨ ∃ j, k = b.slotsIn i + j ∧ (b.code i)[j]? = some inst := by
  by_cases hk : k < b.slotsIn i
  · unfold slotsIn at hk
    split at hk
    · rename_i h0
      subst h0
      exact .inl ⟨rfl, hk, (instAt?_slot h hk).symm.trans hi⟩
    · exact absurd hk (Nat.not_lt_zero _)
  · obtain ⟨j, rfl⟩ := Nat.exists_eq_add_of_le (Nat.le_of_not_lt hk)
    exact .inr ⟨j, rfl, (instAt?_code h).symm.trans hi⟩

theorem length_body (h : b.Laid) {i : Nat} : b.body.length i = b.slotsIn i + (b.code i).length := by
  have hlen : b.body.length i = (b.block i).insts.length := rfl
  rw [hlen]
  unfold slotsIn
  split
  · rename_i hi
    subst hi
    rw [b.insts_zero, length_append, length_slots h]
  · rename_i hi
    rw [b.insts_of_ne_zero hi, Nat.zero_add]

end

/-! ## Changes -/

def withValue (kind : ValueKind) (type : IrType) : FunctionBuilder :=
  { b with values := b.values.push ⟨kind, type⟩ }

def withBlock : FunctionBuilder := { b with blocks := b.blocks.push .empty }

def goingOn (i : BlockId) : FunctionBuilder := { b with current := i }

def append (inst : Instruction) : FunctionBuilder :=
  b.modifyCurrent fun block => { block with insts := block.insts ++ [inst] }

def close (t : Terminator) : FunctionBuilder :=
  (b.modifyCurrent fun block => { block with terminator := some t }).addEdges t.successors

def addSlot (inst : Instruction) : FunctionBuilder :=
  { b with
    blocks := b.blocks.modify 0 fun block =>
      { block with insts := block.insts.take b.allocas ++ inst :: block.insts.drop b.allocas }
    allocas := b.allocas + 1 }

variable {b}

section

variable (kind : ValueKind) (type : IrType) {i : Nat}

@[simp] theorem block_withValue : (b.withValue kind type).block i = b.block i := rfl
@[simp] theorem slots_withValue : (b.withValue kind type).slots = b.slots := rfl
@[simp] theorem code_withValue : (b.withValue kind type).code i = b.code i := rfl
@[simp] theorem terminator_withValue : (b.withValue kind type).terminator i = b.terminator i := rfl
@[simp] theorem here_withValue : (b.withValue kind type).here = b.here := rfl
@[simp] theorem blocks_withValue : (b.withValue kind type).blocks = b.blocks := rfl
@[simp] theorem values_withValue : (b.withValue kind type).values = b.values.push ⟨kind, type⟩ := rfl
@[simp] theorem params_withValue : (b.withValue kind type).params = b.params := rfl
@[simp] theorem edges_withValue : (b.withValue kind type).edges = b.edges := rfl

theorem Laid.withValue (h : b.Laid) : (b.withValue kind type).Laid := ⟨h.slots, h.here⟩

end

@[simp] theorem block_withBlock : b.withBlock.block i = b.block i := by
  unfold block withBlock
  rw [Array.getElem?_push]
  split
  · rename_i h
    simp [h]
  · rfl

@[simp] theorem slots_withBlock : b.withBlock.slots = b.slots := by
  simp only [slots, block_withBlock]
  rfl

@[simp] theorem code_withBlock : b.withBlock.code i = b.code i := by
  simp only [code, block_withBlock]
  rfl

@[simp] theorem terminator_withBlock : b.withBlock.terminator i = b.terminator i := by
  simp only [terminator, block_withBlock]

@[simp] theorem here_withBlock : b.withBlock.here = b.here := rfl
@[simp] theorem size_withBlock : b.withBlock.blocks.size = b.blocks.size + 1 := by simp [withBlock]
@[simp] theorem values_withBlock : b.withBlock.values = b.values := rfl
@[simp] theorem params_withBlock : b.withBlock.params = b.params := rfl
@[simp] theorem edges_withBlock : b.withBlock.edges = b.edges := rfl

theorem Laid.withBlock (h : b.Laid) : b.withBlock.Laid :=
  ⟨by rw [block_withBlock]; exact h.slots, by rw [size_withBlock]; exact Nat.lt_succ_of_lt h.here⟩

section

variable (i : BlockId) {j : Nat}

@[simp] theorem block_goingOn : (b.goingOn i).block j = b.block j := rfl
@[simp] theorem slots_goingOn : (b.goingOn i).slots = b.slots := rfl
@[simp] theorem code_goingOn : (b.goingOn i).code j = b.code j := rfl
@[simp] theorem terminator_goingOn : (b.goingOn i).terminator j = b.terminator j := rfl
@[simp] theorem here_goingOn : (b.goingOn i).here = i.index := rfl
@[simp] theorem blocks_goingOn : (b.goingOn i).blocks = b.blocks := rfl
@[simp] theorem values_goingOn : (b.goingOn i).values = b.values := rfl
@[simp] theorem params_goingOn : (b.goingOn i).params = b.params := rfl
@[simp] theorem edges_goingOn : (b.goingOn i).edges = b.edges := rfl

theorem Laid.goingOn (h : b.Laid) {i : BlockId} (hi : i.index < b.blocks.size) : (b.goingOn i).Laid :=
  ⟨h.slots, hi⟩

end

section

variable {change : BasicBlock → BasicBlock}

theorem block_modifyCurrent (hb : b.here < b.blocks.size) {i : Nat} :
    (b.modifyCurrent change).block i = if i = b.here then change (b.block i) else b.block i := by
  unfold block modifyCurrent here
  rw [Array.getElem?_modify]
  by_cases hi : b.current.index = i
  · subst hi
    have hb : b.current.index < b.blocks.size := hb
    simp [Array.getElem?_eq_getElem hb]
  · simp [hi, Ne.symm hi]

end

variable {inst : Instruction} {t : Terminator}

theorem block_append (hb : b.Laid) : (b.append inst).block i =
    if i = b.here then { b.block i with insts := (b.block i).insts ++ [inst] } else b.block i :=
  block_modifyCurrent hb.here

theorem slots_append (hb : b.Laid) : (b.append inst).slots = b.slots := by
  simp only [slots, block_append hb]
  split
  · exact take_append_of_le_length hb.slots
  · rfl

theorem code_append (hb : b.Laid) (i : Nat) :
    (b.append inst).code i = if i = b.here then b.code i ++ [inst] else b.code i := by
  unfold code
  rw [block_append hb]
  by_cases hi : i = b.here
  · rw [if_pos hi, if_pos hi]
    refine drop_append_of_le_length ?_
    by_cases h0 : i = 0
    · rw [h0]
      exact hb.slots
    · rw [if_neg h0]
      exact Nat.zero_le _
  · rw [if_neg hi, if_neg hi]
    rfl

theorem terminator_append (hb : b.Laid) (i : Nat) : (b.append inst).terminator i = b.terminator i := by
  simp only [terminator, block_append hb]
  split <;> rfl

@[simp] theorem here_append : (b.append inst).here = b.here := rfl
@[simp] theorem size_append : (b.append inst).blocks.size = b.blocks.size := by simp [append, modifyCurrent]
@[simp] theorem values_append : (b.append inst).values = b.values := rfl
@[simp] theorem params_append : (b.append inst).params = b.params := rfl
@[simp] theorem edges_append : (b.append inst).edges = b.edges := rfl

theorem Laid.append (h : b.Laid) : (b.append inst).Laid := by
  refine ⟨?_, by rw [size_append]; exact h.here⟩
  rw [block_append h]
  have := h.slots
  split
  · simp only [length_append]
    exact Nat.le_succ_of_le this
  · exact this

theorem addEdges_eq (b : FunctionBuilder) {targets : List BlockId} : ∃ more,
    b.addEdges targets = { b with edges := b.edges ++ more } ∧
      ∀ target ∈ targets, (b.current, target) ∈ b.edges ++ more := by
  induction targets generalizing b with
  | nil => exact ⟨[], by simp [addEdges], by simp⟩
  | cons target rest ih =>
    rw [addEdges]
    split
    · rename_i hold
      obtain ⟨more, he, hm⟩ := ih b
      refine ⟨more, he, fun other ho => ?_⟩
      rcases mem_cons.mp ho with rfl | ho
      · exact mem_append_left _ (by simpa using hold)
      · exact hm other ho
    · obtain ⟨more, he, hm⟩ := ih { b with edges := b.edges ++ [(b.current, target)] }
      refine ⟨(b.current, target) :: more, by simpa using he, fun other ho => ?_⟩
      rcases mem_cons.mp ho with rfl | ho
      · simp
      · simpa using hm other ho

section

variable (b t)

theorem close_eq : ∃ more, b.close t =
    { b.modifyCurrent fun block => { block with terminator := some t } with edges := b.edges ++ more } ∧
      ∀ target ∈ t.successors, (b.current, target) ∈ b.edges ++ more :=
  addEdges_eq (b.modifyCurrent fun block => { block with terminator := some t })

@[simp] theorem here_close : (b.close t).here = b.here := by
  obtain ⟨more, he, -⟩ := close_eq b t
  rw [he]
  rfl

@[simp] theorem size_close : (b.close t).blocks.size = b.blocks.size := by
  obtain ⟨more, he, -⟩ := close_eq b t
  rw [he]
  simp [modifyCurrent]

@[simp] theorem values_close : (b.close t).values = b.values := by
  obtain ⟨more, he, -⟩ := close_eq b t
  rw [he]
  rfl

@[simp] theorem params_close : (b.close t).params = b.params := by
  obtain ⟨more, he, -⟩ := close_eq b t
  rw [he]
  rfl

@[simp] theorem allocas_close : (b.close t).allocas = b.allocas := by
  obtain ⟨more, he, -⟩ := close_eq b t
  rw [he]
  rfl

theorem edges_close_prefix : b.edges <+: (b.close t).edges := by
  obtain ⟨more, he, -⟩ := close_eq b t
  rw [he]
  exact prefix_append ..

theorem mem_edges_close {target : BlockId} (h : target ∈ t.successors) : (b.current, target) ∈ (b.close t).edges := by
  obtain ⟨more, he, hm⟩ := close_eq b t
  rw [he]
  exact hm target h

end

theorem block_close (hb : b.Laid) : (b.close t).block i =
    if i = b.here then { b.block i with terminator := some t } else b.block i := by
  obtain ⟨more, he, -⟩ := close_eq b t
  rw [he]
  exact block_modifyCurrent hb.here

theorem slots_close (hb : b.Laid) : (b.close t).slots = b.slots := by
  unfold slots
  rw [block_close hb, allocas_close]
  split <;> rfl

theorem code_close (hb : b.Laid) : (b.close t).code i = b.code i := by
  unfold code
  rw [block_close hb]
  by_cases hi : i = b.here <;> simp [hi]

theorem terminator_close (hb : b.Laid) :
    (b.close t).terminator i = if i = b.here then some t else b.terminator i := by
  unfold terminator
  rw [block_close hb]
  by_cases hi : i = b.here <;> simp [hi]

theorem Laid.close (h : b.Laid) : (b.close t).Laid := by
  refine ⟨?_, by rw [here_close, size_close]; exact h.here⟩
  rw [block_close h, allocas_close]
  split <;> exact h.slots

theorem block_addSlot (hb : b.Laid) : (b.addSlot inst).block i =
    if i = 0 then { b.block i with
      insts := (b.block i).insts.take b.allocas ++ inst :: (b.block i).insts.drop b.allocas }
    else b.block i := by
  have h0 : 0 < b.blocks.size := Nat.lt_of_le_of_lt (Nat.zero_le _) hb.here
  unfold block addSlot
  rw [Array.getElem?_modify]
  by_cases hi : i = 0
  · subst hi
    simp [Array.getElem?_eq_getElem h0]
  · simp [hi, Ne.symm hi]

theorem slots_addSlot (hb : b.Laid) : (b.addSlot inst).slots = b.slots ++ [inst] := by
  have hs := hb.slots
  unfold slots
  rw [block_addSlot hb, if_pos rfl]
  show List.take (b.allocas + 1) _ = _
  rw [take_append, length_take, Nat.min_eq_left hs, take_take]
  simp

theorem code_addSlot (hb : b.Laid) : (b.addSlot inst).code i = b.code i := by
  have hs := hb.slots
  unfold code
  rw [block_addSlot hb]
  by_cases hi : i = 0
  · subst hi
    simp only [if_true]
    show List.drop (b.allocas + 1) _ = _
    rw [drop_append, length_take, Nat.min_eq_left hs]
    simp
  · simp [hi]

theorem terminator_addSlot (hb : b.Laid) (i : Nat) : (b.addSlot inst).terminator i = b.terminator i := by
  unfold terminator
  rw [block_addSlot hb]
  split <;> rfl

@[simp] theorem here_addSlot : (b.addSlot inst).here = b.here := rfl
@[simp] theorem size_addSlot : (b.addSlot inst).blocks.size = b.blocks.size := by simp [addSlot]
@[simp] theorem values_addSlot : (b.addSlot inst).values = b.values := rfl
@[simp] theorem params_addSlot : (b.addSlot inst).params = b.params := rfl
@[simp] theorem edges_addSlot : (b.addSlot inst).edges = b.edges := rfl

theorem Laid.addSlot (h : b.Laid) : (b.addSlot inst).Laid := by
  refine ⟨?_, by rw [size_addSlot]; exact h.here⟩
  have := h.slots
  rw [block_addSlot h, if_pos rfl]
  show b.allocas + 1 ≤ _
  simp only [length_append, length_cons, length_take]
  omega

end FunctionBuilder

/-! ## Steps -/

namespace Emit

variable {b : FunctionBuilder}

theorem run_isTerminated (hb : b.here < b.blocks.size) : b.isTerminated = .ok (b.terminator b.here).isSome := by
  have hb' : b.current.index < b.blocks.size := hb
  simp [FunctionBuilder.isTerminated, FunctionBuilder.currentBlock, FunctionBuilder.terminator,
    FunctionBuilder.block, FunctionBuilder.here, Array.getElem?_eq_getElem hb', bind, Except.bind,
    pure, Except.pure]

theorem run_ask {α : Type} {question : FunctionBuilder → Except Fault α} {a : α}
    (h : question b = .ok a) : (ask question).run b = .ok (a, b) := by
  simp only [ask, run_bind_eq_ok, run_get_eq_ok, run_lift_eq_ok]
  exact ⟨b, b, ⟨rfl, rfl⟩, h, rfl⟩

section

variable (hb : b.Laid) (ho : b.terminator b.here = none) (op : Operation) {type : IrType}
include hb ho op

omit op in
theorem run_asked : (ask (·.isTerminated)).run b = .ok (false, b) := by
  have hasked := run_ask (run_isTerminated hb.here)
  rwa [ho] at hasked

theorem run_push_void : (push op .void).run b = .ok (none, b.append ⟨op, none⟩) := by
  simp only [push, run_bind_eq_ok]
  refine ⟨_, _, run_asked hb ho, ?_⟩
  simp only [pure_bind]
  exact run_bind_eq_ok.mpr ⟨(), _, run_modify_eq_ok.mpr rfl, run_pure_eq_ok.mpr ⟨rfl, rfl⟩⟩

theorem run_push (ht : type ≠ .void) : (push op type).run b =
      .ok (some ⟨b.values.size⟩, (b.withValue .result type).append ⟨op, some ⟨b.values.size⟩⟩) := by
  simp only [push, run_bind_eq_ok]
  refine ⟨_, _, run_asked hb ho, ?_⟩
  simp only [ht]
  exact run_bind_eq_ok.mpr ⟨some ⟨b.values.size⟩, b.withValue .result type, rfl,
    run_bind_eq_ok.mpr ⟨(), _, run_modify_eq_ok.mpr rfl, run_pure_eq_ok.mpr ⟨rfl, rfl⟩⟩⟩

theorem run_pushValue (ht : type ≠ .void) : (pushValue op type).run b =
      .ok (⟨b.values.size⟩, (b.withValue .result type).append ⟨op, some ⟨b.values.size⟩⟩) := by
  simp only [pushValue, run_bind_eq_ok]
  exact ⟨_, _, run_push hb ho op ht, run_pure_eq_ok.mpr ⟨rfl, rfl⟩⟩

end

theorem run_newBlock : newBlock.run b = .ok (⟨b.blocks.size⟩, b.withBlock) := rfl

theorem run_switchTo {i : BlockId} : (switchTo i).run b = .ok ((), b.goingOn i) := rfl

theorem run_terminate (hb : b.Laid) (ho : b.terminator b.here = none) (t : Terminator) :
    (terminate t).run b = .ok ((), b.close t) := by
  have hasked : (ask (·.isTerminated)).run b = .ok ((b.terminator b.here).isSome, b) :=
    run_ask (run_isTerminated hb.here)
  rw [ho] at hasked
  simp only [terminate, run_bind_eq_ok]
  refine ⟨_, _, hasked, ?_⟩
  exact run_modify_eq_ok.mpr rfl

/-! ## Steps that succeeded -/

section

variable {b' : FunctionBuilder} {α : Type} {op : Operation} {type : IrType}

theorem eq_of_ask {question : FunctionBuilder → Except Fault α} {a : α}
    (h : (ask question).run b = .ok (a, b')) : question b = .ok a ∧ b' = b := by
  simp only [ask, run_bind_eq_ok, run_lift_eq_ok] at h
  obtain ⟨_, _, ⟨rfl, rfl⟩, hq, rfl⟩ := h
  exact ⟨hq, rfl⟩

theorem open_of_ask (hb : b.Laid) {next : Emit α} {fault : Fault} {a : α}
    (h : (do if ← ask (·.isTerminated) then throw fault else next : Emit α).run b = .ok (a, b')) :
    b.terminator b.here = none := by
  obtain ⟨closed, b1, hasked, h⟩ := run_bind_eq_ok.mp h
  obtain ⟨hasked, -⟩ := eq_of_ask hasked
  rw [run_isTerminated hb.here] at hasked
  cases ho : b.terminator b.here with
  | none => rfl
  | some t =>
    rw [ho] at hasked
    cases hasked
    exact absurd h run_throw_ne_ok

theorem push_cases (hb : b.Laid) {r : Option ValueId}
    (h : (push op type).run b = .ok (r, b')) : b.terminator b.here = none ∧
      (type = .void ∧ r = none ∧ b' = b.append ⟨op, none⟩ ∨ type ≠ .void ∧ r = some ⟨b.values.size⟩ ∧
        b' = (b.withValue .result type).append ⟨op, some ⟨b.values.size⟩⟩) := by
  have ho := open_of_ask hb h
  refine ⟨ho, ?_⟩
  by_cases ht : type = .void
  · subst ht
    rw [run_push_void hb ho] at h
    cases h
    exact .inl ⟨rfl, rfl, rfl⟩
  · rw [run_push hb ho op ht] at h
    cases h
    exact .inr ⟨ht, rfl, rfl⟩

theorem eq_of_pushValue (hb : b.Laid) {v : ValueId}
    (h : (pushValue op type).run b = .ok (v, b')) : b.terminator b.here = none ∧ v = ⟨b.values.size⟩ ∧
      b' = (b.withValue .result type).append ⟨op, some ⟨b.values.size⟩⟩ := by
  obtain ⟨r, b1, hp, h⟩ := run_bind_eq_ok.mp h
  obtain ⟨ho, ⟨-, rfl, -⟩ | ⟨-, rfl, rfl⟩⟩ := push_cases hb hp
  · exact absurd h run_throw_ne_ok
  · obtain ⟨rfl, rfl⟩ := run_pure_eq_ok.mp h
    exact ⟨ho, rfl, rfl⟩

theorem eq_of_terminate (hb : b.Laid) {t : Terminator} (h : (terminate t).run b = .ok ((), b')) :
    b.terminator b.here = none ∧ b' = b.close t := by
  have ho := open_of_ask hb h
  rw [run_terminate hb ho] at h
  cases h
  exact ⟨ho, rfl⟩

end

end Emit

end SsaCompiler
