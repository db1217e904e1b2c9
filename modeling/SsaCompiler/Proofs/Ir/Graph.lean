import Mathlib.Logic.Relation
import SsaCompiler.Proofs.Ir.Building

/-!
# Control flow graphs

`FunctionBody.Exact` says that the graph of a body has nothing in it that control never gets to, and
that the phis of a block stand first and name exactly the blocks before it. `FunctionBuilder.Exact`
is the same of a body being built, except that blocks need not be reached yet.

Building goes on from one body to another with only the current block and new ones changed
(`FunctionBuilder.Leads`): phis go to new blocks only, new edges go to new blocks or to some targets
known before, and every new block is reached from the current one, apart from some fresh ones.
-/

namespace SsaCompiler

open List

def Operation.isPhi : Operation → Bool
  | .phi _ => true
  | _ => false

def NoPhi (insts : List Instruction) : Prop := ∀ inst ∈ insts, inst.operation.isPhi = false

/-- The phis among some instructions come first. -/
def PhisFirst (insts : List Instruction) : Prop :=
  ∃ phis rest, insts = phis ++ rest ∧ (∀ inst ∈ phis, inst.operation.isPhi = true) ∧ NoPhi rest

/-- The control flow graph of a body is exact. -/
structure FunctionBody.Exact (body : FunctionBody) : Prop where
  /-- A path leads from the entry to each block. -/
  reachable : ∀ i < body.blocks.size, ∃ visited, body.Path i visited
  /-- No block ends in a place that control never gets to. -/
  ends : ∀ i, body.terminator? i ≠ some .unreachable
  /-- Nothing goes back to the entry. -/
  entry : ∀ i, ¬ body.Edge i 0
  phisFirst : ∀ block ∈ body.blocks.toList, PhisFirst block.insts
  /-- A phi names each block that control may come from once, and no other block. -/
  incoming : ∀ {i k : Nat} {inst : Instruction}, body.instAt? i k = some inst →
    ∀ ways, inst.operation = .phi ways → (ways.map (·.1)).Nodup ∧
      ∀ j : Nat, BlockId.mk j ∈ ways.map (·.1) ↔ body.Edge j i

section

variable {insts more : List Instruction} {inst : Instruction}

theorem NoPhi.nil : NoPhi [] := by simp [NoPhi]

theorem NoPhi.append (h : NoPhi insts) (h' : NoPhi more) : NoPhi (insts ++ more) := fun inst hi =>
  (mem_append.mp hi).elim (h inst) (h' inst)

theorem NoPhi.singleton (h : inst.operation.isPhi = false) : NoPhi [inst] := by simpa [NoPhi] using h

theorem NoPhi.phisFirst (h : NoPhi insts) : PhisFirst insts := ⟨[], insts, rfl, by simp, h⟩

theorem PhisFirst.append (h : PhisFirst insts) (h' : NoPhi more) : PhisFirst (insts ++ more) := by
  obtain ⟨phis, rest, rfl, hp, hr⟩ := h
  exact ⟨phis, rest ++ more, append_assoc .., hp, hr.append h'⟩

theorem NoPhi.ne_phi (h : NoPhi insts) (hi : inst ∈ insts)
    {ways : List (BlockId × ValueId)} : inst.operation ≠ .phi ways := fun he => by
  have := h inst hi
  rw [he] at this
  cases this

end

namespace FunctionBuilder

variable (b b' : FunctionBuilder)

def Edge (i j : Nat) : Prop := (BlockId.mk i, BlockId.mk j) ∈ b.edges

/-- The graph of a body being built is exact. -/
structure Exact : Prop where
  laid : b.Laid
  slots : NoPhi b.slots
  edge_iff : ∀ i j, b.Edge i j ↔ ∃ t, b.terminator i = some t ∧ BlockId.mk j ∈ t.successors
  target : ∀ {i j : Nat}, b.Edge i j → j ≠ 0 ∧ j < b.blocks.size
  ends : ∀ i, b.terminator i ≠ some .unreachable
  phisFirst : ∀ i, PhisFirst (b.code i)
  entry : NoPhi (b.code 0)
  incoming : ∀ {i : Nat} {inst : Instruction}, inst ∈ b.code i → ∀ ways, inst.operation = .phi ways →
    (ways.map (·.1)).Nodup ∧ ∀ j : Nat, BlockId.mk j ∈ ways.map (·.1) ↔ b.Edge j i

/-- Everything that was there is still there, and blocks that were ended are as they were. -/
structure Extends : Prop where
  values : b.values.toList <+: b'.values.toList
  params : b'.params = b.params
  slots : ∃ more, b'.slots = b.slots ++ more ∧ NoPhi more
  edges : b.edges ⊆ b'.edges
  size : b.blocks.size ≤ b'.blocks.size
  code : ∀ i, b.code i <+: b'.code i
  closed : ∀ {i : Nat} {t : Terminator}, b.terminator i = some t → b'.terminator i = some t ∧ b'.code i = b.code i

/-- Control was led on from the current block of one body. The new blocks that are not `fresh` are
reached from there; edges to old blocks go to `targets` only. -/
structure Leads (targets : Set BlockId) (fresh : Set Nat) : Prop extends Extends b b' where
  quiet : ∀ i < b.blocks.size, ∃ more, b'.code i = b.code i ++ more ∧ NoPhi more
  same : ∀ i < b.blocks.size, i ≠ b.here → b'.code i = b.code i ∧ b'.terminator i = b.terminator i
  newEdge : ∀ {i j : Nat}, b'.Edge i j → b.Edge i j ∨ b.blocks.size ≤ j ∨ BlockId.mk j ∈ targets
  reach : ∀ i, b.blocks.size ≤ i → i < b'.blocks.size → i ∉ fresh → Relation.ReflTransGen b'.Edge b.here i

/-- Only values, stack slots and instructions of the current block that are no phis were added. -/
structure Quiet : Prop where
  laid : b'.Laid
  values : b.values.toList <+: b'.values.toList
  params : b'.params = b.params
  slots : ∃ more, b'.slots = b.slots ++ more ∧ NoPhi more
  current : b'.current = b.current
  edges : b'.edges = b.edges
  size : b'.blocks.size = b.blocks.size
  terminator : ∀ i, b'.terminator i = b.terminator i
  code : ∃ more, NoPhi more ∧ (more ≠ [] → b.terminator b.here = none) ∧
    ∀ i, b'.code i = if i = b.here then b.code i ++ more else b.code i

variable {b b'} {b1 b2 : FunctionBuilder} {targets targets' : Set BlockId} {fresh : Set Nat} {t : Terminator}

theorem code_of_size_le {i : Nat} (h : b.blocks.size ≤ i) : b.code i = [] ∧ b.terminator i = none := by
  have hb : b.block i = .empty := by
    unfold block
    rw [Array.getElem?_eq_none h]
    rfl
  unfold code terminator
  rw [hb]
  exact ⟨drop_nil, rfl⟩

/-! ## Extensions -/

namespace Extends

theorem refl {b : FunctionBuilder} : Extends b b where
  values := prefix_rfl
  params := rfl
  slots := ⟨[], by simp, .nil⟩
  edges := List.Subset.refl _
  size := Nat.le_refl _
  code _ := prefix_rfl
  closed h := ⟨h, rfl⟩

theorem trans (h : Extends b b1) (h' : Extends b1 b2) : Extends b b2 where
  values := h.values.trans h'.values
  params := h'.params.trans h.params
  slots := by
    obtain ⟨more, he, hm⟩ := h.slots
    obtain ⟨more', he', hm'⟩ := h'.slots
    exact ⟨more ++ more', by rw [he', he, append_assoc], hm.append hm'⟩
  edges := fun _ he => h'.edges (h.edges he)
  size := Nat.le_trans h.size h'.size
  code i := (h.code i).trans (h'.code i)
  closed ht := by
    obtain ⟨ht1, hc1⟩ := h.closed ht
    obtain ⟨ht2, hc2⟩ := h'.closed ht1
    exact ⟨ht2, hc2.trans hc1⟩

theorem edge (h : Extends b b') {i j : Nat} (he : b.Edge i j) : b'.Edge i j := h.edges he

end Extends

/-! ## Straight code -/

namespace Quiet

theorem refl (h : b.Laid) : Quiet b b :=
  ⟨h, prefix_rfl, rfl, ⟨[], by simp, .nil⟩, rfl, rfl, rfl, fun _ => rfl,
    ⟨[], .nil, fun h => absurd rfl h, fun i => by simp⟩⟩

theorem here (h : Quiet b b') : b'.here = b.here := congrArg BlockId.index h.current

theorem trans (h : Quiet b b1) (h' : Quiet b1 b2) : Quiet b b2 where
  laid := h'.laid
  values := h.values.trans h'.values
  params := h'.params.trans h.params
  slots := by
    obtain ⟨more, he, hm⟩ := h.slots
    obtain ⟨more', he', hm'⟩ := h'.slots
    exact ⟨more ++ more', by rw [he', he, append_assoc], hm.append hm'⟩
  current := h'.current.trans h.current
  edges := h'.edges.trans h.edges
  size := h'.size.trans h.size
  terminator i := (h'.terminator i).trans (h.terminator i)
  code := by
    obtain ⟨more, hm, ho, hc⟩ := h.code
    obtain ⟨more', hm', ho', hc'⟩ := h'.code
    refine ⟨more ++ more', hm.append hm', fun hne => ?_, fun i => ?_⟩
    · by_cases hmore : more = []
      · rw [h.here, h.terminator] at ho'
        exact ho' (by simpa [hmore] using hne)
      · exact ho hmore
    · rw [hc', hc, h.here]
      split
      · rw [append_assoc]
      · rfl

theorem edge_iff (h : Quiet b b') {i j : Nat} : b'.Edge i j ↔ b.Edge i j := by
  unfold Edge
  rw [h.edges]

theorem withValue (h : b.Laid) (kind : ValueKind) (type : IrType) : Quiet b (b.withValue kind type) :=
  { refl h with
    laid := h.withValue kind type
    values := by simp }

variable {inst : Instruction}

theorem append (h : b.Laid) (ho : b.terminator b.here = none)
    (hi : inst.operation.isPhi = false) : Quiet b (b.append inst) where
  laid := h.append
  values := prefix_rfl
  params := rfl
  slots := ⟨[], by simp [slots_append h], .nil⟩
  current := rfl
  edges := rfl
  size := size_append
  terminator := terminator_append h
  code := ⟨[inst], .singleton hi, fun _ => ho, code_append h⟩

theorem addSlot (h : b.Laid) (hi : inst.operation.isPhi = false) : Quiet b (b.addSlot inst) where
  laid := h.addSlot
  values := prefix_rfl
  params := rfl
  slots := ⟨[inst], slots_addSlot h, .singleton hi⟩
  current := rfl
  edges := rfl
  size := size_addSlot
  terminator := terminator_addSlot h
  code := ⟨[], .nil, fun h => absurd rfl h, fun i => by simp [code_addSlot h]⟩

theorem toExtends (h : Quiet b b') : Extends b b' where
  values := h.values
  params := h.params
  slots := h.slots
  edges := h.edges ▸ List.Subset.refl _
  size := Nat.le_of_eq h.size.symm
  code i := by
    obtain ⟨more, -, -, hc⟩ := h.code
    rw [hc]
    split
    · exact prefix_append ..
    · exact prefix_rfl
  closed {i t} ht := by
    refine ⟨(h.terminator i).trans ht, ?_⟩
    obtain ⟨more, -, ho, hc⟩ := h.code
    rw [hc]
    split
    · rename_i hi
      by_cases hmore : more = []
      · rw [hmore, append_nil]
      · rw [hi, ho hmore] at ht
        cases ht
    · rfl

theorem leads (h : Quiet b b') (targets : Set BlockId) : Leads b b' targets ∅ :=
  { h.toExtends with
    quiet := fun i _ => by
      obtain ⟨more, hm, -, hc⟩ := h.code
      rw [hc]
      split
      · exact ⟨more, rfl, hm⟩
      · exact ⟨[], by simp, .nil⟩
    same := fun i _ hi => by
      obtain ⟨more, -, -, hc⟩ := h.code
      rw [hc, if_neg hi]
      exact ⟨rfl, h.terminator i⟩
    newEdge := fun he => .inl (h.edge_iff.mp he)
    reach := fun i hi hlt _ => absurd hlt (Nat.not_lt_of_le (h.size ▸ hi)) }

theorem keeps (h : Quiet b b') (hb : b.Exact) : b'.Exact where
  laid := h.laid
  slots := by
    obtain ⟨more, he, hm⟩ := h.slots
    exact he ▸ hb.slots.append hm
  edge_iff i j := by rw [h.edge_iff, h.terminator, hb.edge_iff]
  target he := h.size ▸ hb.target (h.edge_iff.mp he)
  ends i := h.terminator i ▸ hb.ends i
  phisFirst i := by
    obtain ⟨more, hm, -, hc⟩ := h.code
    rw [hc]
    split
    · exact (hb.phisFirst i).append hm
    · exact hb.phisFirst i
  entry := by
    obtain ⟨more, hm, -, hc⟩ := h.code
    rw [hc]
    split
    · exact hb.entry.append hm
    · exact hb.entry
  incoming {i inst} hi ways hw := by
    obtain ⟨more, hm, -, hc⟩ := h.code
    have hold : inst ∈ b.code i := by
      rw [hc] at hi
      split at hi
      · exact (mem_append.mp hi).resolve_right fun hi => hm.ne_phi hi hw
      · exact hi
    obtain ⟨hn, hj⟩ := hb.incoming hold ways hw
    exact ⟨hn, fun j => (hj j).trans h.edge_iff.symm⟩

end Quiet

/-! ## Blocks and edges -/

theorem mem_addEdges {b : FunctionBuilder} {blocks : List BlockId} {e : BlockId × BlockId} :
    e ∈ (b.addEdges blocks).edges ↔ e ∈ b.edges ∨ e.1 = b.current ∧ e.2 ∈ blocks := by
  induction blocks generalizing b with
  | nil => simp [addEdges]
  | cons target rest ih =>
    rw [addEdges]
    split
    · rename_i hold
      rw [ih]
      have hold : (b.current, target) ∈ b.edges := by simpa using hold
      constructor
      · rintro (h | ⟨h1, h2⟩)
        · exact .inl h
        · exact .inr ⟨h1, .tail _ h2⟩
      · rintro (h | ⟨h1, h2⟩)
        · exact .inl h
        · rcases mem_cons.mp h2 with rfl | h2
          · exact .inl (by rw [← h1] at hold; exact hold)
          · exact .inr ⟨h1, h2⟩
    · rw [ih]
      obtain ⟨source, other⟩ := e
      simp only [mem_append, Prod.mk.injEq, mem_cons]
      tauto

theorem edge_close {i j : Nat} : (b.close t).Edge i j ↔ b.Edge i j ∨ i = b.here ∧ BlockId.mk j ∈ t.successors := by
  unfold Edge close
  rw [mem_addEdges]
  refine or_congr Iff.rfl (and_congr ⟨fun h => congrArg BlockId.index h, fun h => ?_⟩ Iff.rfl)
  subst h
  rfl

namespace Exact

theorem goingOn (h : b.Exact) {i : BlockId} (hi : i.index < b.blocks.size) : (b.goingOn i).Exact :=
  { h with laid := h.laid.goingOn hi }

theorem withBlock (h : b.Exact) : b.withBlock.Exact where
  laid := h.laid.withBlock
  slots := slots_withBlock (b := b) ▸ h.slots
  edge_iff i j := by
    rw [terminator_withBlock]
    exact h.edge_iff i j
  target he := ⟨(h.target he).1, by rw [size_withBlock]; exact Nat.lt_succ_of_lt (h.target he).2⟩
  ends i := by
    rw [terminator_withBlock]
    exact h.ends i
  phisFirst i := by
    rw [code_withBlock]
    exact h.phisFirst i
  entry := by
    rw [code_withBlock]
    exact h.entry
  incoming {i inst} hi := by
    rw [code_withBlock] at hi
    exact h.incoming hi

theorem close (h : b.Exact) (ho : b.terminator b.here = none) (ht : t ≠ .unreachable)
    (hs : ∀ j ∈ t.successors, j.index ≠ 0 ∧ j.index < b.blocks.size ∧ NoPhi (b.code j.index)) : (b.close t).Exact where
  laid := h.laid.close
  slots := slots_close h.laid ▸ h.slots
  edge_iff i j := by
    rw [edge_close, terminator_close h.laid, h.edge_iff]
    by_cases hi : i = b.here
    · subst hi
      simp [ho]
    · simp [hi]
  target {i j} he := by
    rw [size_close]
    rcases edge_close.mp he with he | ⟨-, hj⟩
    · exact h.target he
    · exact ⟨(hs _ hj).1, (hs _ hj).2.1⟩
  ends i := by
    rw [terminator_close h.laid]
    split
    · exact fun he => ht (Option.some.inj he)
    · exact h.ends i
  phisFirst i := by
    rw [code_close h.laid]
    exact h.phisFirst i
  entry := by
    rw [code_close h.laid]
    exact h.entry
  incoming {i inst} hi ways hw := by
    rw [code_close h.laid] at hi
    obtain ⟨hn, hj⟩ := h.incoming hi ways hw
    refine ⟨hn, fun j => (hj j).trans ?_⟩
    rw [edge_close]
    refine ⟨.inl, fun he => he.resolve_right ?_⟩
    rintro ⟨-, hsucc⟩
    exact (hs _ hsucc).2.2.ne_phi hi hw

theorem phi (h : b.Exact) (hhere : b.here ≠ 0)
    (hphis : ∀ inst ∈ b.code b.here, inst.operation.isPhi = true) {ways : List (BlockId × ValueId)}
    (hn : (ways.map (·.1)).Nodup) (hw : ∀ j : Nat, BlockId.mk j ∈ ways.map (·.1) ↔ b.Edge j b.here)
    {v : Option ValueId} : (b.append ⟨.phi ways, v⟩).Exact where
  laid := h.laid.append
  slots := slots_append h.laid ▸ h.slots
  edge_iff i j := by
    rw [terminator_append h.laid]
    exact h.edge_iff i j
  target he := size_append (b := b) ▸ h.target he
  ends i := by
    rw [terminator_append h.laid]
    exact h.ends i
  phisFirst i := by
    rw [code_append h.laid]
    split
    · rename_i hi
      refine ⟨b.code i ++ [⟨.phi ways, v⟩], [], by simp, fun inst hm => ?_, .nil⟩
      rcases mem_append.mp hm with hm | hm
      · exact hphis inst (hi ▸ hm)
      · rw [mem_singleton.mp hm]
        rfl
    · exact h.phisFirst i
  entry := by
    rw [code_append h.laid, if_neg (Ne.symm hhere)]
    exact h.entry
  incoming {i inst} hi ways' hw' := by
    rw [code_append h.laid] at hi
    split at hi
    · rename_i he
      rcases mem_append.mp hi with hi | hi
      · exact h.incoming hi ways' hw'
      · rw [mem_singleton.mp hi] at hw'
        cases hw'
        subst he
        exact ⟨hn, hw⟩
    · exact h.incoming hi ways' hw'

end Exact

namespace Extends

theorem withBlock {b : FunctionBuilder} : Extends b b.withBlock where
  values := prefix_rfl
  params := rfl
  slots := ⟨[], by simp, .nil⟩
  edges := List.Subset.refl _
  size := by simp
  code i := by simp [code_withBlock]
  closed {i t} h := by
    rw [code_withBlock, terminator_withBlock]
    exact ⟨h, rfl⟩

theorem close (h : b.Laid) (ho : b.terminator b.here = none) : Extends b (b.close t) where
  values := by simp
  params := by simp
  slots := ⟨[], by simp [slots_close h], .nil⟩
  edges := List.IsPrefix.subset <| edges_close_prefix b t
  size := by simp
  code i := by simp [code_close h]
  closed {i t'} ht := by
    refine ⟨?_, code_close h⟩
    rw [terminator_close h, if_neg, ht]
    rintro rfl
    rw [ho] at ht
    cases ht

theorem append (h : b.Laid) (ho : b.terminator b.here = none) {inst : Instruction} : Extends b (b.append inst) where
  values := prefix_rfl
  params := rfl
  slots := ⟨[], by simp [slots_append h], .nil⟩
  edges := List.Subset.refl _
  size := by simp
  code i := by
    rw [code_append h]
    split
    · exact prefix_append ..
    · exact prefix_rfl
  closed {i t'} ht := by
    refine ⟨(terminator_append h i).trans ht, ?_⟩
    rw [code_append h, if_neg]
    rintro rfl
    rw [ho] at ht
    cases ht

end Extends

namespace Leads

theorem refl {b : FunctionBuilder} : Leads b b targets ∅ :=
  { Extends.refl with
    quiet := fun i _ => ⟨[], by simp, .nil⟩
    same := fun _ _ _ => ⟨rfl, rfl⟩
    newEdge := .inl
    reach := fun i hi hlt _ => absurd hlt (Nat.not_lt_of_le hi) }

variable {i : BlockId}

theorem goingOn (h : Leads b b' targets fresh) : Leads b (b'.goingOn i) targets fresh :=
  { h with }

theorem reach_mono (h : Leads b b' targets fresh) (hx : Extends b' b2) {i : Nat}
    (hi : b.blocks.size ≤ i) (hlt : i < b'.blocks.size) (hf : i ∉ fresh) : Relation.ReflTransGen b2.Edge b.here i :=
  Relation.ReflTransGen.mono (fun _ _ => hx.edge) _ _ (h.reach i hi hlt hf)

/-- An end that was led to: the current block, or a new block that is reached. -/
def Ends (b b' : FunctionBuilder) (fresh : Set Nat) (i : Nat) : Prop :=
  i = b.here ∨ b.blocks.size ≤ i ∧ i < b'.blocks.size ∧ i ∉ fresh

theorem reach_end (h : Leads b b' targets fresh) {i : Nat} (hi : Ends b b' fresh i) :
    Relation.ReflTransGen b'.Edge b.here i := by
  rcases hi with rfl | ⟨hi, hlt, hf⟩
  · exact .refl
  · exact h.reach i hi hlt hf

/-- Control is led on from an end. -/
theorem andThen (h : Leads b b1 targets fresh) (hi : Ends b b1 fresh i.index) (h' : Leads (b1.goingOn i) b2 targets' ∅)
    (ht : ∀ x ∈ targets', x ∈ targets ∨ b.blocks.size ≤ x.index) : Leads b b2 targets fresh :=
  { h.goingOn.toExtends.trans h'.toExtends with
    quiet := fun j hj => by
      obtain ⟨more, he, hm⟩ := h.quiet j hj
      obtain ⟨more', he', hm'⟩ := h'.quiet j (Nat.lt_of_lt_of_le hj h.size)
      exact ⟨more ++ more', by rw [he', code_goingOn, he, append_assoc], hm.append hm'⟩
    same := fun j hj hne => by
      have hne' : j ≠ i.index := by
        rintro rfl
        rcases hi with hi | ⟨hi, -⟩
        · exact hne hi
        · exact absurd hj (Nat.not_lt_of_le hi)
      obtain ⟨hc, ho⟩ := h.same j hj hne
      obtain ⟨hc', ho'⟩ := h'.same j (Nat.lt_of_lt_of_le hj h.size) hne'
      exact ⟨hc'.trans hc, ho'.trans ho⟩
    newEdge := fun {k j} he => by
      rcases h'.newEdge he with he | hj | hj
      · exact h.newEdge he
      · exact .inr (.inl (Nat.le_trans h.size hj))
      · exact .inr ((ht _ hj).symm)
    reach := fun j hj hlt hf => by
      by_cases hold : j < b1.blocks.size
      · exact h.goingOn.reach_mono h'.toExtends hj hold hf
      · have hfrom := Relation.ReflTransGen.mono (fun _ _ => (h'.toExtends.edge ·)) _ _ (h.reach_end hi)
        exact hfrom.trans (h'.reach j (Nat.le_of_not_lt hold) hlt (by simp)) }

variable (h : Leads b b' targets fresh)
include h

theorem withBlock : Leads b b'.withBlock targets (insert b'.blocks.size fresh) :=
  { h.toExtends.trans .withBlock with
    quiet := fun i hi => by
      rw [code_withBlock]
      exact h.quiet i hi
    same := fun i hi hne => by
      rw [code_withBlock, terminator_withBlock]
      exact h.same i hi hne
    newEdge := h.newEdge
    reach := fun i hi hlt hf => by
      rw [size_withBlock] at hlt
      have hne : i ≠ b'.blocks.size := fun he => hf (.inl he)
      exact h.reach i hi (by omega) fun hm => hf (.inr hm) }

theorem close (hl : b'.Laid) (ho : b'.terminator b'.here = none) (hi : Ends b b' fresh b'.here)
    (ht : ∀ j ∈ t.successors, b.blocks.size ≤ j.index ∨ j ∈ targets) : Leads b (b'.close t) targets fresh :=
  { h.toExtends.trans (.close hl ho) with
    quiet := fun i hlt => by
      rw [code_close hl]
      exact h.quiet i hlt
    same := fun i hlt hne => by
      rw [code_close hl, terminator_close hl, if_neg]
      · exact h.same i hlt hne
      · rintro rfl
        rcases hi with hi | ⟨hi, -⟩
        · exact hne hi
        · exact absurd hlt (Nat.not_lt_of_le hi)
    newEdge := fun {i j} he => by
      rcases edge_close.mp he with he | ⟨-, hj⟩
      · exact h.newEdge he
      · exact .inr (ht _ hj)
    reach := fun i hle hlt hf => by
      rw [size_close] at hlt
      exact h.reach_mono (.close hl ho) hle hlt hf }

/-- Fresh blocks that an end leads to are not fresh any more. -/
theorem settle (hf : ∀ i ∈ fresh, ∃ j, b'.Edge j i ∧ Ends b b' fresh j) : Leads b b' targets ∅ :=
  { h with
    reach := fun i hle hlt _ => by
      by_cases hi : i ∈ fresh
      · obtain ⟨j, he, hj⟩ := hf i hi
        exact (h.reach_end hj).tail he
      · exact h.reach i hle hlt hi }

theorem append (hl : b'.Laid) (ho : b'.terminator b'.here = none)
    (hi : b.blocks.size ≤ b'.here) {inst : Instruction} : Leads b (b'.append inst) targets fresh :=
  { h.toExtends.trans (.append hl ho) with
    quiet := fun i hlt => by
      rw [code_append hl, if_neg (by omega)]
      exact h.quiet i hlt
    same := fun i hlt hne => by
      rw [code_append hl, if_neg (by omega), terminator_append hl]
      exact h.same i hlt hne
    newEdge := h.newEdge
    reach := fun i hle hlt hf => by
      rw [size_append] at hlt
      exact h.reach i hle hlt hf }

end Leads

end FunctionBuilder

/-! ## Steps of straight code -/

namespace Emit

variable {α β : Type}

/-- A step adds only values, stack slots and instructions that are no phis. -/
def Quietly (step : Emit α) : Prop :=
  ∀ ⦃b a b'⦄, b.Laid → step.run b = .ok (a, b') → FunctionBuilder.Quiet b b'

namespace Quietly

theorem pure {a : α} : Quietly (Pure.pure a) := fun b a' b' hb h => by
  obtain ⟨-, rfl⟩ := run_pure_eq_ok.mp h
  exact .refl hb

theorem bind {step : Emit α} {next : α → Emit β} (h : Quietly step) (hn : ∀ a, Quietly (next a)) :
    Quietly (step >>= next) := fun b c b' hb hr => by
  obtain ⟨a, b1, hs, hr⟩ := run_bind_eq_ok.mp hr
  have hq := h hb hs
  exact hq.trans (hn a hq.laid hr)

theorem throw {fault : Fault} : Quietly (throw fault : Emit α) := fun _ _ _ _ h =>
  absurd h run_throw_ne_ok

theorem ask {question : FunctionBuilder → Except Fault α} : Quietly (ask question) := fun b a b' hb h => by
  obtain ⟨-, rfl⟩ := eq_of_ask h
  exact .refl hb

variable {type : IrType}

theorem addValue {kind : ValueKind} : Quietly (addValue kind type) :=
  fun b a b' hb h => by
    cases h
    exact .withValue hb kind type

variable {op : Operation}

theorem push (hop : op.isPhi = false) : Quietly (push op type) :=
  fun b a b' hb h => by
    obtain ⟨ho, ⟨-, -, rfl⟩ | ⟨-, -, rfl⟩⟩ := push_cases hb h
    · exact .append hb ho hop
    · have hq := FunctionBuilder.Quiet.withValue hb .result type
      exact hq.trans (.append hq.laid ho hop)

theorem pushValue (hop : op.isPhi = false) : Quietly (pushValue op type) := by
  refine (push hop).bind fun r => ?_
  cases r with
  | none => exact .throw
  | some v => exact .pure

theorem alloca : Quietly (alloca type) := fun b a b' hb h => by
  cases h
  have hq := FunctionBuilder.Quiet.withValue hb .result .ptr
  exact hq.trans (.addSlot hq.laid rfl)

theorem store {pointer value : ValueId} : Quietly (store pointer value) :=
  (push rfl).bind fun _ => .pure

theorem string {text : String} : Quietly (string text) := fun b a b' hb h => by
  cases h
  have hq := FunctionBuilder.Quiet.withValue hb (.string b.strings.length) .ptr
  exact { hq with laid := ⟨hq.laid.slots, hq.laid.here⟩ }

end Quietly

end Emit

end SsaCompiler
