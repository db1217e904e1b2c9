import SsaCompiler.Proofs.Ir.Building

/-!
# What a builder keeps account of

A body is built by steps in any order, from any block. Whatever they are, the predecessors of a block
are the blocks that were ended with it as a successor, the stack slots stand first in the entry in the
order in which they were made, and each result belongs to one instruction. Nothing of this is undone by
further steps (`FunctionBuilder.bookkeeping_exact`).
-/

namespace SsaCompiler

open List

def Operation.isAlloca : Operation → Bool
  | .alloca _ => true
  | _ => false

namespace FunctionBuilder

/-- The steps that neither make a stack slot nor end a block. A block is gone on in only if it is there.
Constants and addresses are values, and what is not named here is a case of `push` or `pushValue`. -/
inductive Step (b : FunctionBuilder) : {α : Type} → Emit α → Prop
  | newBlock : Step b .newBlock
  | switchTo {i : BlockId} (h : i.index < b.blocks.size) : Step b (.switchTo i)
  | addValue {kind type} (h : kind ≠ .result) : Step b (.addValue kind type)
  | string text : Step b (.string text)
  | push {op type} (h : op.isAlloca = false) : Step b (.push op type)
  | pushValue {op type} (h : op.isAlloca = false) : Step b (.pushValue op type)
  | binary op lhs rhs : Step b (.binary op lhs rhs)
  | unary op operand : Step b (.unary op operand)
  | store pointer value : Step b (.store pointer value)

/-- The builders that one becomes by steps, with the blocks ended and the stack slots made on the way. -/
inductive Becomes (b₀ : FunctionBuilder) : List BlockId → List ValueId → FunctionBuilder → Prop
  | start : Becomes b₀ [] [] b₀
  | step {ended slots b b'} {α : Type} {step : Emit α} {a} (h : Becomes b₀ ended slots b) (hs : Step b step)
    (hr : step.run b = .ok (a, b')) : Becomes b₀ ended slots b'
  | alloca {ended slots b b' type v} (h : Becomes b₀ ended slots b)
    (hr : (Emit.alloca type).run b = .ok (v, b')) : Becomes b₀ ended (slots ++ [v]) b'
  | terminate {ended slots b b' t} (h : Becomes b₀ ended slots b)
    (hr : (Emit.terminate t).run b = .ok ((), b')) : Becomes b₀ (ended ++ [b.current]) slots b'

variable {b b' : FunctionBuilder} {ended : List BlockId} {slots : List ValueId}

/-! ## What a step changes -/

/-- What a step can do to a builder, other than to make a stack slot or to end a block. -/
inductive Change (b : FunctionBuilder) : FunctionBuilder → Prop
  | value {strings kind type} (h : kind ≠ .result) : Change b ({ b with strings := strings }.withValue kind type)
  | block : Change b b.withBlock
  | goTo {i : BlockId} (h : i.index < b.blocks.size) : Change b (b.goingOn i)
  | effect {op} (h : op.isAlloca = false) : Change b (b.append ⟨op, none⟩)
  | result {op type} (h : op.isAlloca = false) :
    Change b ((b.withValue .result type).append ⟨op, some ⟨b.values.size⟩⟩)

theorem Step.change (hb : b.Laid) {α : Type} {step : Emit α} {a : α} (hs : Step b step)
    (hr : step.run b = .ok (a, b')) : Change b b' := by
  have hpush : ∀ {op : Operation} {type r}, op.isAlloca = false → (Emit.push op type).run b = .ok (r, b') →
      Change b b' := fun hop hr => by
    obtain ⟨-, ⟨-, -, rfl⟩ | ⟨-, -, rfl⟩⟩ := Emit.push_cases hb hr
    · exact .effect hop
    · exact .result hop
  have hpushValue : ∀ {op : Operation} {type v}, op.isAlloca = false →
      (Emit.pushValue op type).run b = .ok (v, b') → Change b b' := fun hop hr => by
    obtain ⟨-, -, rfl⟩ := Emit.eq_of_pushValue hb hr
    exact .result hop
  cases hs with
  | newBlock => cases hr; exact .block
  | switchTo h => cases hr; exact .goTo h
  | addValue h => cases hr; exact .value h
  | string => cases hr; exact .value nofun
  | push hop => exact hpush hop hr
  | pushValue hop => exact hpushValue hop hr
  | binary | unary =>
    obtain ⟨type, b1, hask, hr⟩ := run_bind_eq_ok.mp hr
    exact hpushValue rfl ((Emit.eq_of_ask hask).2 ▸ hr)
  | store =>
    obtain ⟨r, b1, hr, hdone⟩ := run_bind_eq_ok.mp hr
    exact hpush rfl ((run_pure_eq_ok.mp hdone).2 ▸ hr)

theorem Change.kept (hb : b.Laid) (h : Change b b') : b'.Laid ∧ b.values.toList <+: b'.values.toList ∧
    b'.slots = b.slots ∧ b'.edges = b.edges ∧ (∀ i, b'.terminator i = b.terminator i) ∧
    ∀ i, ∀ inst ∈ b'.code i, inst ∈ b.code i ∨ inst.operation.isAlloca = false := by
  have hcode : ∀ {b : FunctionBuilder} {inst : Instruction}, b.Laid → inst.operation.isAlloca = false →
      ∀ i, ∀ other ∈ (b.append inst).code i, other ∈ b.code i ∨ other.operation.isAlloca = false := by
    intro b inst hb hop i other ho
    rw [code_append hb] at ho
    split at ho
    · exact (mem_append.mp ho).imp_right fun ho => by rwa [mem_singleton.mp ho]
    · exact .inl ho
  cases h with
  | value => exact ⟨⟨hb.slots, hb.here⟩, by simp, rfl, rfl, fun _ => rfl, fun _ _ h => .inl h⟩
  | block => exact ⟨hb.withBlock, by simp, by simp, rfl, by simp, by simp +contextual⟩
  | goTo h => exact ⟨hb.goingOn h, by simp, rfl, rfl, fun _ => rfl, fun _ _ h => .inl h⟩
  | effect hop => exact ⟨hb.append, by simp, slots_append hb, rfl, terminator_append hb, hcode hb hop⟩
  | result hop =>
    have hv := hb.withValue .result ‹_›
    exact ⟨hv.append, by simp, slots_append hv, rfl, terminator_append hv, hcode hv hop⟩

/-- Values and terminators stay what they are. -/
theorem Becomes.kept (hb : b.Laid) (h : Becomes b ended slots b') : b'.Laid ∧
    b.values.toList <+: b'.values.toList ∧ ∀ i t, b.terminator i = some t → b'.terminator i = some t := by
  induction h with
  | start => exact ⟨hb, prefix_rfl, fun _ _ h => h⟩
  | step _ hs hr ih =>
    obtain ⟨hl, hv, ht⟩ := ih
    obtain ⟨hl', hv', -, -, ht', -⟩ := (hs.change hl hr).kept hl
    exact ⟨hl', hv.trans hv', fun i t h => (ht' i).trans (ht i t h)⟩
  | alloca _ hr ih =>
    obtain ⟨hl, hv, ht⟩ := ih
    cases hr
    have hw := hl.withValue .result .ptr
    exact ⟨hw.addSlot, hv.trans (by simp), fun i t h => (terminator_addSlot hw i).trans (ht i t h)⟩
  | terminate _ hr ih =>
    obtain ⟨hl, hv, ht⟩ := ih
    obtain ⟨ho, rfl⟩ := Emit.eq_of_terminate hl hr
    refine ⟨hl.close, by simpa using hv, fun i t h => ?_⟩
    rw [terminator_close hl, if_neg, ht i t h]
    rintro rfl
    cases ho.symm.trans (ht _ t h)

/-! ## Edges and instructions -/

theorem predecessors_addEdges {targets : List BlockId} {target : BlockId} : (b.addEdges targets).predecessors target =
    b.predecessors target ++ if target ∈ targets ∧ (b.current, target) ∉ b.edges then [b.current] else [] := by
  induction targets generalizing b with
  | nil => simp [addEdges]
  | cons other rest ih =>
    rw [addEdges]
    split <;> rw [ih] <;> by_cases he : target = other <;> simp_all [predecessors, Ne.symm]

/-- The instructions of all blocks. -/
def insts (b : FunctionBuilder) : List Instruction := b.blocks.toList.flatMap (·.insts)

theorem perm_insts {f : BasicBlock → BasicBlock} {i : Nat} (hb : b'.blocks = b.blocks.modify i f)
    (hi : i < b.blocks.size) (more : List Instruction) (hf : ∀ block, (f block).insts.Perm (more ++ block.insts)) :
    b'.insts.Perm (more ++ b.insts) := by
  rw [insts, insts, hb, Array.toList_modify]
  replace hi : i < b.blocks.toList.length := hi
  generalize b.blocks.toList = blocks at hi
  clear hb
  induction blocks generalizing i with
  | nil => cases hi
  | cons block rest ih =>
    cases i with
    | zero => simpa using (hf block).append_right _
    | succ i => exact ((ih (Nat.lt_of_succ_lt_succ hi)).append_left _).trans (perm_append_comm_assoc ..)

theorem insts_append (hb : b.Laid) {inst : Instruction} : (b.append inst).insts.Perm (inst :: b.insts) :=
  perm_insts (f := fun block => { block with insts := block.insts ++ [inst] }) rfl hb.here [inst] fun _ =>
    perm_append_comm

theorem insts_addSlot (hb : b.Laid) {inst : Instruction} : (b.addSlot inst).insts.Perm (inst :: b.insts) :=
  perm_insts (f := fun block => { block with
      insts := block.insts.take b.allocas ++ inst :: block.insts.drop b.allocas }) rfl
    (Nat.lt_of_le_of_lt (Nat.zero_le _) hb.here) [inst] fun _ =>
      perm_middle.trans (by rw [take_append_drop]; exact .rfl)

theorem insts_close (hb : b.Laid) {t : Terminator} : (b.close t).insts.Perm b.insts := by
  obtain ⟨more, he, -⟩ := close_eq b t
  rw [he]
  exact perm_insts (f := fun block => { block with terminator := some t }) rfl hb.here [] fun _ => .rfl

/-! ## Runs -/

/-- What is accounted for, with the blocks that were ended and the stack slots that were made. -/
structure Booked (ended : List BlockId) (slots : List ValueId) (b : FunctionBuilder) : Prop where
  laid : b.Laid
  nodup : ended.Nodup
  ended_iff : ∀ i : BlockId, i ∈ ended ↔ (b.terminator i.index).isSome = true
  predecessors : ∀ target, b.predecessors target =
    ended.filter fun i => (b.terminator i.index).any fun t => decide (target ∈ t.successors)
  slots : b.slots.map (·.result) = slots.map some
  allocas : ∀ inst ∈ b.slots, inst.operation.isAlloca = true
  code : ∀ i, ∀ inst ∈ b.code i, inst.operation.isAlloca = false
  given : ∀ v, b.insts.countP (·.result = some ⟨v⟩) = if b.values[v]?.map (·.kind) = some .result then 1 else 0

namespace Booked

theorem given_result (h : Booked ended slots b) {type : IrType} {op : Operation}
    (hv : b'.values = b.values.push ⟨.result, type⟩) (hp : b'.insts.Perm (⟨op, some ⟨b.values.size⟩⟩ :: b.insts))
    (v : Nat) : b'.insts.countP (·.result = some ⟨v⟩) = if b'.values[v]?.map (·.kind) = some .result then 1 else 0 := by
  rw [hp.countP_eq, countP_cons, h.given, hv, Array.getElem?_push]
  by_cases he : v = b.values.size
  · simp [he]
  · simp [he, Ne.symm he]

theorem change (h : Booked ended slots b) (hc : Change b b') : Booked ended slots b' := by
  obtain ⟨hlaid, -, hslots, hedges, hterm, hcode⟩ := hc.kept h.laid
  refine ⟨hlaid, h.nodup, ?_, fun target => ?_, hslots ▸ h.slots, hslots ▸ h.allocas, fun i inst hi => ?_, fun v => ?_⟩
  · simpa only [hterm] using h.ended_iff
  · simp only [FunctionBuilder.predecessors, hterm, hedges]
    exact h.predecessors target
  · exact (hcode i inst hi).elim (h.code i inst) id
  · cases hc with
    | value hk =>
      refine (h.given v).trans ?_
      rw [values_withValue, Array.getElem?_push]
      by_cases he : v = b.values.size <;> simp [he, hk]
    | block => simpa [insts, withBlock, BasicBlock.empty] using h.given v
    | goTo => exact h.given v
    | effect =>
      rw [(insts_append h.laid).countP_eq]
      simpa using h.given v
    | result => exact h.given_result rfl (insts_append (h.laid.withValue ..)) v

theorem alloca (h : Booked ended slots b) {type : IrType} : Booked ended (slots ++ [⟨b.values.size⟩])
    ((b.withValue .result .ptr).addSlot ⟨.alloca type, some ⟨b.values.size⟩⟩) := by
  have hw := h.laid.withValue .result .ptr
  have hterm : ∀ i, (addSlot _ ⟨.alloca type, some ⟨b.values.size⟩⟩).terminator i = _ := terminator_addSlot hw
  refine ⟨hw.addSlot, h.nodup, ?_, ?_, ?_, ?_, fun i => ?_, h.given_result rfl (insts_addSlot hw)⟩
  · simpa only [hterm, terminator_withValue] using h.ended_iff
  · simp only [hterm]
    exact h.predecessors
  · simp [slots_addSlot hw, h.slots]
  · rw [slots_addSlot hw]
    exact forall_mem_append.mpr ⟨h.allocas, by simp [Operation.isAlloca]⟩
  · rw [code_addSlot hw]
    exact h.code i

theorem terminate (h : Booked ended slots b) (ho : b.terminator b.here = none) {t : Terminator} :
    Booked (ended ++ [b.current]) slots (b.close t) := by
  have hnew : b.current ∉ ended := fun hm => by
    have hsome := (h.ended_iff _).mp hm
    rw [show b.terminator b.current.index = none from ho] at hsome
    cases hsome
  have hterm : (b.close t).terminator b.current.index = some t := (terminator_close h.laid).trans (if_pos rfl)
  have hother : ∀ i ≠ b.current, (b.close t).terminator i.index = b.terminator i.index := fun i hi =>
    (terminator_close h.laid).trans (if_neg fun he => hi (congrArg BlockId.mk he))
  refine ⟨h.laid.close, ?_, fun i => ?_, fun target => ?_, (slots_close h.laid).symm ▸ h.slots,
    (slots_close h.laid).symm ▸ h.allocas, fun i => (code_close h.laid).symm ▸ h.code i, fun v => ?_⟩
  · refine nodup_append.mpr ⟨h.nodup, by simp, ?_⟩
    rintro i hi _ hj rfl
    exact hnew (mem_singleton.mp hj ▸ hi)
  · by_cases hi : i = b.current
    · simp [hi, hterm]
    · simp [hi, hother i hi, h.ended_iff]
  · have hold : (b.current, target) ∉ b.edges := fun hm => by
      have hmem : b.current ∈ b.predecessors target := by simpa [FunctionBuilder.predecessors] using hm
      rw [h.predecessors] at hmem
      exact hnew (mem_filter.mp hmem).1
    refine predecessors_addEdges.trans ?_
    rw [filter_append, filter_congr fun i hi => by rw [hother i fun he => hnew (he ▸ hi)]]
    refine congrArg₂ _ (h.predecessors target) ?_
    by_cases ht : target ∈ t.successors
    · simp only [filter_singleton, hterm, Option.any_some, ht]
      exact if_pos ⟨trivial, hold⟩
    · simp [ht, hterm]
  · rw [(insts_close h.laid).countP_eq, values_close]
    exact h.given v

end Booked

theorem Becomes.booked {sig : FunctionSig} (h : Becomes (new sig) ended slots b) : Booked ended slots b := by
  induction h with
  | start =>
    have hblock : ∀ i, (new sig).block i = .empty := fun i => by cases i <;> rfl
    refine ⟨⟨Nat.zero_le _, Nat.zero_lt_one⟩, .nil, ?_, fun _ => rfl, rfl, nofun, ?_, fun v => ?_⟩
    · simp [terminator, hblock, BasicBlock.empty]
    · simp [FunctionBuilder.code, hblock, BasicBlock.empty]
    · simp [insts, new, BasicBlock.empty]
  | step _ hs hr ih => exact ih.change (hs.change ih.laid hr)
  | alloca _ hr ih =>
    cases hr
    exact ih.alloca
  | terminate _ hr ih =>
    obtain ⟨ho, rfl⟩ := Emit.eq_of_terminate ih.laid hr
    exact ih.terminate ho

/-- Whatever steps a body is built by, from any block, the account is right, and further steps change no
value and no terminator. -/
theorem bookkeeping_exact {sig : FunctionSig} (h : Becomes (new sig) ended slots b) :
    Booked ended slots b ∧ ∀ {ended' slots' b'}, Becomes b ended' slots' b' →
      b.values.toList <+: b'.values.toList ∧ ∀ i t, b.terminator i = some t → b'.terminator i = some t :=
  ⟨h.booked, fun hlater => (hlater.kept h.booked.laid).2⟩

/-- A stack slot is made after the entry was ended by a branch with equal targets. -/
theorem bookkeeping_exact_branch : ∃ b, Becomes (new ⟨[.bool], .void, false⟩) [⟨0⟩, ⟨1⟩] [⟨1⟩] b ∧
    b.predecessors ⟨1⟩ = [⟨0⟩] ∧ Booked [⟨0⟩, ⟨1⟩] [⟨1⟩] b := by
  have hblock : Becomes (new ⟨[.bool], .void, false⟩) _ _ _ := .step .start .newBlock rfl
  have hbranch := hblock.terminate (show (Emit.branch ⟨0⟩ ⟨1⟩ ⟨1⟩).run _ = _ from rfl)
  have hslot := (hbranch.step (.switchTo (i := ⟨1⟩) (by decide)) rfl).alloca (show (Emit.alloca .bool).run _ = _ from rfl)
  have hret := hslot.terminate (show (Emit.ret none).run _ = _ from rfl)
  exact ⟨_, hret, rfl, (bookkeeping_exact hret).1⟩

end FunctionBuilder

end SsaCompiler
