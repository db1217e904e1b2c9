import SsaCompiler.Proofs.Lowering.Joins

/-!
# Conditions

Control parts at a condition and meets again after it: `&&` and `||`, and `if` with and without
`else`.
-/

namespace SsaCompiler

open List

namespace World

open Lower

variable {units : List SourceUnit} {w0 w w' w'' : World} {X : Setting} {Γ : List Local} {depth : Nat} {breaks : Bool}
  {E : Set Nat} {type : Ty} {arms : List Arm} {P : Prop} {v : ValueId} {t : Terminator}

/-! ## One of the ways -/

/-- The way from the end of what is lowered in a block, if control gets to the end. -/
def Ends (w w' : World) (X : Setting) (Γ : List Local) (depth : Nat) (breaks : Bool) (type : Ty) (P : Prop)
    (sides : List Arm) : Prop :=
  (sides = [] ∧ Halt w w' X breaks) ∨
    ∃ value, sides = [⟨w'.builder.current, w'.env, value, true⟩] ∧ Flow w w' X Γ depth breaks ∧
      At w' X Γ depth ∧ (type ≠ .unit → w'.LoweredOk X w'.here type value) ∧ P

theorem arm_ok {α : Type} {block : BlockId} {lowered : Lower Lowered} {next : Option Arm → Lower α}
    {Q : α → LowerState → Prop} {stops : LowerState → Prop}
    (h : Yields X Γ depth breaks lowered (w.goingOn block) fun a w' => At w' X Γ depth ∧
      (type ≠ .unit → w'.LoweredOk X w'.here type a) ∧ P)
    (hn : ∀ (side : Option Arm) (w' : World), Ends (w.goingOn block) w' X Γ depth breaks type P side.toList →
      Ensures X.passesUnit (next side) w'.toLowerState Q stops) :
    Ensures X.passesUnit (arm block lowered >>= next) w.toLowerState Q stops := by
  unfold arm
  simp only [bind_assoc]
  refine .emit Emit.run_switchTo (.attempt h ?_ ?_)
  · rintro a s' ⟨w', rfl, hf, hat, hv, hP⟩
    exact hn _ w' (.inr ⟨a, rfl, hf, hat, hv, hP⟩)
  · rintro s' ⟨w', rfl, hh⟩
    exact hn none w' (.inl ⟨rfl, hh⟩)

namespace Ends

variable {sides : List Arm} {side : Arm}

variable (h : Ends w w' X Γ depth breaks type P sides)
include h

theorem leads : Leads w w' X breaks {i | ∃ arm ∈ sides, arm.block.index = i} := by
  rcases h with ⟨rfl, hh⟩ | ⟨a, rfl, hf, hat, -⟩
  · exact hh.leads.of_eq (by ext; simp)
  · refine (hf.leads hat).of_eq ?_
    ext i
    simp only [mem_singleton, exists_eq_left]
    exact ⟨fun h => Eq.symm h, fun h => Eq.symm h⟩

theorem eq_end (hs : side ∈ sides) : side.block = w'.builder.current ∧ side.isOpen = true := by
  rcases h with ⟨rfl, -⟩ | ⟨a, rfl, -⟩
  · simp at hs
  · obtain rfl := mem_singleton.mp hs
    exact ⟨rfl, rfl⟩

theorem armOk (hs : side ∈ sides) : w'.ArmOk X Γ depth w.env type side := by
  rcases h with ⟨rfl, -⟩ | ⟨a, rfl, hf, hat, hv, -⟩
  · simp at hs
  · obtain rfl := mem_singleton.mp hs
    exact ⟨hat.valid.laid.here, hat.env, hf.held, hv⟩

theorem known (hs : side ∈ sides) (hv : w.Known w.here v) : w'.Known side.block.index v := by
  rcases h with ⟨rfl, -⟩ | ⟨a, rfl, hf, -⟩
  · simp at hs
  · obtain rfl := mem_singleton.mp hs
    exact hf.known v hv

theorem nodup : (sides.map (·.block)).Nodup := by rcases h with ⟨rfl, -⟩ | ⟨a, rfl, -⟩ <;> simp

theorem all_open : sides.filter (·.isOpen) = sides := by rcases h with ⟨rfl, -⟩ | ⟨a, rfl, -⟩ <;> rfl

end Ends

/-! ## Parting -/

/-- The values known at the end of the current block. -/
def knownHere (w : World) : Set ValueId := {v | w.Known w.here v}

/-- With the current block ended and two new blocks that know what it does. -/
def forked (w : World) (t : Terminator) : World :=
  ((w.withBlock w.knownHere).withBlock w.knownHere).close t

def newBlocks (w : World) : List BlockId := [⟨w.blockCount⟩, ⟨w.blockCount + 1⟩]

section Fork

variable (h : At w X Γ depth) (ht : t.Typed X.sig w.typing) (ho : ∀ v ∈ t.operands, w.Known w.here v)
  (hs : ∀ j ∈ t.successors, j ∈ w.newBlocks)

include h in
theorem At.lt_of_knownHere : ∀ v ∈ w.knownHere, v.index < w.valueCount := fun _ hv => h.valid.known_lt hv

include h in
theorem At.reach_fork {i : Nat} (hi : i = w.blockCount ∨ i = w.blockCount + 1) :
    ((w.withBlock w.knownHere).withBlock w.knownHere).reach i = w.knownHere := by
  have hv1 := h.valid.withBlock h.lt_of_knownHere
  rcases hi with rfl | rfl
  · rw [(grows_withBlock _ _).reach_eq (hv1.blocks ▸ by rw [blockCount_withBlock]; exact Nat.lt_succ_self _)]
    exact reach_withBlock h.valid.blocks
  · rw [← blockCount_withBlock]
    exact reach_withBlock hv1.blocks

theorem mem_newBlocks {i : Nat} : BlockId.mk i ∈ w.newBlocks ↔ i = w.blockCount ∨ i = w.blockCount + 1 := by
  simp [newBlocks]

include h ht ho hs in
/-- Control leads to the two new blocks, where all that was known is. -/
theorem At.fork (breaks : Bool) : Leads w (w.forked t) X breaks {i | BlockId.mk i ∈ w.newBlocks} ∧
      (∀ i, BlockId.mk i ∈ w.newBlocks → (w.forked t).reach i = w.knownHere) ∧ (∀ i, (w.forked t).code i = w.code i) ∧
      (∀ j ∈ t.successors, (w.builder.current, j) ∈ (w.forked t).builder.edges) := by
  have hhere := h.valid.laid.here
  have hl : Leads w ((w.withBlock w.knownHere).withBlock w.knownHere) X breaks
      (insert (w.blockCount + 1) (insert w.blockCount {w.here})) := by
    rw [← blockCount_withBlock]
    exact ((Leads.refl h breaks).withBlock h.lt_of_knownHere).withBlock h.lt_of_knownHere
  have hk : ∀ v, w.Known w.here v → ((w.withBlock w.knownHere).withBlock w.knownHere).Known w.here v :=
    fun v hv => hl.grows.known hv
  have hclosed : Leads w (w.forked t) X breaks
      (insert (w.blockCount + 1) (insert w.blockCount {w.here}) \ {w.here}) := by
    refine hl.close (.inr (.inr rfl)) ht (fun v hv => hk v (ho v hv)) fun j hj => ?_
    have hj := mem_newBlocks.mp (hs j hj)
    refine ⟨?_, fun v hv => hk v ?_⟩
    · rw [blockCount_withBlock, blockCount_withBlock]
      omega
    · rw [h.reach_fork hj] at hv
      exact hv
  refine ⟨hclosed.of_eq ?_, fun i hi => h.reach_fork (mem_newBlocks.mp hi), fun i => ?_, fun j hj => ?_⟩
  · ext i
    refine Iff.trans ?_ mem_newBlocks.symm
    constructor
    · rintro ⟨rfl | rfl | rfl, hne⟩
      · exact .inr rfl
      · exact .inl rfl
      · exact absurd rfl hne
    · rintro (rfl | rfl)
      · exact ⟨.inr (.inl rfl), fun he => absurd (Eq.symm he) (Nat.ne_of_lt hhere)⟩
      · exact ⟨.inl rfl, fun he => absurd (Eq.symm he) (Nat.ne_of_lt (Nat.lt_succ_of_lt hhere))⟩
  · rw [forked, code_close hl.valid.laid, code_withBlock, code_withBlock]
  · exact FunctionBuilder.mem_edges_close _ _ hj

include h ht ho hs in
/-- One way goes through the first new block, another one directly to the second, where they meet. -/
theorem At.detour {sides : List Arm} (g : Grows ∅ (w.forked t) w')
    (hl : Leads w w' X breaks {i | BlockId.mk i ∈ w.newBlocks}) (henv : w'.env = w.env)
    (hmerge : ⟨w.blockCount + 1⟩ ∈ t.successors)
    (he : Ends (w'.goingOn ⟨w.blockCount⟩) w'' X Γ depth breaks type P sides) (value : Lowered)
    (hvalue : type ≠ .unit → w''.LoweredOk X w.here type value)
    (hp : arms.Perm (⟨w.builder.current, w.env, value, false⟩ :: sides)) :
    Gathers w w'' X Γ depth breaks type ⟨w.blockCount + 1⟩ arms := by
  obtain ⟨hfork, hreach, hcode, hedges⟩ := h.fork ht ho hs breaks
  have hhere : w.here < w.blockCount := h.valid.laid.here
  have hcount : w.blockCount + 1 < w'.blockCount := (hl.ends (w.blockCount + 1) (by simp [newBlocks])).2.1
  have hgo := hl.goingOn w'.env ⟨w.blockCount⟩ (Nat.lt_of_succ_lt hcount)
  have hside : w.blockCount ∈ {i | BlockId.mk i ∈ w.newBlocks} := mem_newBlocks.mpr (.inl rfl)
  have hends := hgo.trans hside he.leads
  have hreach' : ∀ i, BlockId.mk i ∈ w.newBlocks → w'.reach i = w.knownHere := by
    intro i hi
    rw [g.reach_eq (hfork.valid.blocks ▸ (hfork.ends i hi).2.1)]
    exact hreach i hi
  have hmerge' : w''.reach (w.blockCount + 1) = w.knownHere := by
    rw [he.leads.grows.reach_eq (hl.valid.blocks ▸ hcount)]
    exact hreach' _ (mem_newBlocks.mpr (.inr rfl))
  have hmem : ∀ {arm : Arm}, arm ∈ arms → arm = ⟨w.builder.current, w.env, value, false⟩ ∨ arm ∈ sides :=
    fun harm => mem_cons.mp (hp.mem_iff.mp harm)
  have hbase : ∀ arm ∈ arms, ∀ v, w.Known w.here v → w''.Known arm.block.index v := by
    intro arm harm v hv
    rcases hmem harm with rfl | hside
    · exact hends.grows.known hv
    · refine he.known hside (.inr (.inl ?_))
      exact hreach' w.blockCount (mem_newBlocks.mpr (.inl rfl)) ▸ hv
  -- Nothing was added to the block that control parted at.
  have hcode' : w''.code w.here = w.code w.here := by
    have h1 := (g.same w.here (Nat.lt_of_lt_of_le hhere hfork.grows.blocks) id).1
    have h2 := (he.leads.grows.same w.here (Nat.lt_of_lt_of_le hhere hl.grows.blocks) (Nat.ne_of_lt hhere)).1
    exact h2.trans (h1.trans (hcode _))
  exact {
    leads := hends.of_eq <| by
      ext i
      constructor
      · rintro (⟨hi, hne⟩ | ⟨arm, harm, rfl⟩)
        · exact .inl ((mem_newBlocks.mp hi).resolve_left hne)
        · exact .inr ⟨arm, hp.mem_iff.mpr (.tail _ harm), (he.eq_end harm).2, rfl⟩
      · rintro (rfl | ⟨arm, harm, hopen, rfl⟩)
        · exact .inl ⟨mem_newBlocks.mpr (.inr rfl), Nat.succ_ne_self _⟩
        · rcases hmem harm with rfl | hside
          · cases hopen
          · exact .inr ⟨arm, hside, rfl⟩
    fresh := Nat.le_succ _
    nonempty := fun hnil => by simpa [hnil] using hp.length_eq
    ways := fun arm harm => by
      rcases hmem harm with rfl | hside
      · exact ⟨Nat.lt_of_lt_of_le hhere hends.grows.blocks,
          h.env.mono hends.grows h.valid.cells fun _ => hends.grows.known, fun _ _ _ => rfl, hvalue⟩
      · have hok := he.armOk hside
        rwa [show (w'.goingOn ⟨w.blockCount⟩).env = w.env from henv] at hok
    base := hbase
    reach := fun arm harm v hv => by
      rw [hmerge'] at hv
      exact hbase arm harm v hv
    known := fun v hv => by
      have hd : w''.Known w.here v := hv _ (hp.mem_iff.mpr (.head _))
      rcases hd with hfree | hr | hdef
      · exact .inl hfree
      · refine .inr (.inl (hmerge' ▸ .inr (.inl ?_)))
        exact hends.grows.reach_eq (h.valid.blocks ▸ hhere) ▸ hr
      · exact .inr (.inl (hmerge' ▸ .inr (.inr (hcode' ▸ hdef))))
    apart := fun arm harm hopen heq => by
      rcases hmem harm with rfl | hside
      · cases hopen
      · have hnew := (he.leads.ends arm.block.index ⟨arm, hside, rfl⟩).1
        rw [heq] at hnew
        rcases hnew with hnew | hnew
        · exact Nat.succ_ne_self _ hnew
        · exact Nat.not_le_of_lt hcount hnew
    distinct := by
      have hfilter := hp.filter (·.isOpen)
      rw [filter_cons_of_neg (by simp), he.all_open] at hfilter
      exact (hfilter.map (·.block)).nodup_iff.mpr he.nodup
    entered := .inr ⟨w.builder.current, he.leads.grows.edges.subset (g.edges.subset (hedges _ hmerge))⟩ }

end Fork

/-! ## Logical operators -/

theorem At.enter_fork (h : At w X Γ depth) {i : Nat} (hl : Leads w w' X breaks {i | BlockId.mk i ∈ w.newBlocks})
    (hi : BlockId.mk i ∈ w.newBlocks) (hr : w'.reach i = w.knownHere) :
    At ({ w' with env := w.env }.goingOn ⟨i⟩) X Γ depth :=
  h.enter hl hi fun _ hv => .inr (.inl (hr ▸ hv))

theorem At.run_fork (h : At w X Γ depth) (t : Terminator) :
    (Emit.terminate t).run w.builder.withBlock.withBlock = .ok ((), (w.forked t).builder) :=
  Emit.run_terminate h.valid.laid.withBlock.withBlock
    (by simpa using (show w.builder.terminator w.builder.here = none from h.isOpen)) t

theorem second_newBlock : (⟨w.builder.withBlock.blocks.size⟩ : BlockId) = ⟨w.blockCount + 1⟩ :=
  congrArg BlockId.mk FunctionBuilder.size_withBlock

theorem mem_newBlocks_pair (w : World) : ∀ j ∈ [⟨w.blockCount⟩, ⟨w.blockCount + 1⟩], j ∈ w.newBlocks :=
  fun _ hj => hj

theorem HoldsAt.branch (hv : w.HoldsAt X w.here v .bool) {thenBlock elseBlock : BlockId}
    (hb : ∀ j ∈ [thenBlock, elseBlock], j ∈ w.newBlocks) :
    (Terminator.branch v thenBlock elseBlock).Typed X.sig w.typing ∧
      (∀ u ∈ (Terminator.branch v thenBlock elseBlock).operands, w.Known w.here u) ∧
      ∀ j ∈ (Terminator.branch v thenBlock elseBlock).successors, j ∈ w.newBlocks := by
  refine ⟨hv.typeOf rfl, fun u hu => ?_, hb⟩
  obtain rfl := mem_singleton.mp hu
  exact hv.2

/-- The right side of a logical operation is one of two ways to its result. -/
theorem yields_logical (hX : X.Fits units) {op : BinaryOp} {lhs rhs : Lower ValueId}
    (hlhs : Yields X Γ depth breaks lhs w fun v w' => At w' X Γ depth ∧ w'.HoldsAt X w'.here v .bool ∧ P)
    (hrhs : ∀ w', At w' X Γ depth → Yields X Γ depth breaks rhs w' (AtValue X Γ depth .bool)) :
    Yields X Γ depth breaks (logical op lhs rhs) w fun a w' => AtLowered X Γ depth .bool a w' ∧ P := by
  refine hlhs.bind ?_
  rintro left w - ⟨h, hleft, hP⟩
  refine .get (Ensures.emit Emit.run_newBlock (.emit Emit.run_newBlock ?_))
  have hfirst : (⟨w.builder.blocks.size⟩ : BlockId) = ⟨w.blockCount⟩ := rfl
  obtain ⟨t, hstep, ⟨ht, ho, hs⟩, hmerge⟩ : ∃ t : Terminator,
      (if op = .or then Emit.branch left ⟨w.blockCount + 1⟩ ⟨w.blockCount⟩
        else Emit.branch left ⟨w.blockCount⟩ ⟨w.blockCount + 1⟩) = Emit.terminate t ∧
      (t.Typed X.sig w.typing ∧ (∀ u ∈ t.operands, w.Known w.here u) ∧
        ∀ j ∈ t.successors, j ∈ w.newBlocks) ∧ ⟨w.blockCount + 1⟩ ∈ t.successors := by
    split
    · exact ⟨_, rfl, hleft.branch (by simp [newBlocks]), by simp [Terminator.successors]⟩
    · exact ⟨_, rfl, hleft.branch (by simp [newBlocks]), by simp [Terminator.successors]⟩
  simp only [second_newBlock, hfirst, hstep]
  refine .emit (h.run_fork t) (.emit rfl ?_)
  obtain ⟨hfork, hreach, -⟩ := h.fork ht ho hs breaks
  have g := grows_withValue (w.forked t) (.const (.bool (decide (op = .or)))) .bool none
  have hl := hfork.grow g (hfork.valid.withValue (by trivial)) (fun _ => rfl) rfl rfl
  have hright : BlockId.mk w.blockCount ∈ w.newBlocks := mem_newBlocks.mpr (.inl rfl)
  have harm : Yields X Γ depth breaks (do let value ← rhs; return .value value)
      (((w.forked t).withValue (.const (.bool (decide (op = .or)))) .bool none).goingOn ⟨w.blockCount⟩)
      fun a w' => At w' X Γ depth ∧ (Ty.bool ≠ .unit → w'.LoweredOk X w'.here .bool a) ∧ True :=
    (hrhs _ (h.enter_fork hl hright (hreach _ hright))).bind fun v w' _ hq =>
      .pure ⟨hq.1, fun hu => .value hu hq.2, trivial⟩
  refine arm_ok (w := (w.forked t).withValue (.const (.bool (decide (op = .or)))) .bool none) harm ?_
  intro side w' he
  have hsize : w.env.size = Γ.length := h.env.size_eq
  rw [hsize]
  have hshort : w'.LoweredOk X w.here .bool (.value ⟨(w.forked t).valueCount⟩) := by
    have hv := hfork.valid.holdsAt_withValue (.const (.bool (decide (op = .or)))) none trivial
      (rfl : X.items.lowerType .bool = .ok .bool) (by simp) w.here
    have g' : Grows Set.univ ((w.forked t).withValue (.const (.bool (decide (op = .or)))) .bool none) w' :=
      grows_goingOn.of_empty.trans he.leads.grows fun _ _ _ => trivial
    exact .value (by simp) (hv.mono g' hl.valid.cells fun _ => g'.known)
  have hgathers := h.detour ht ho hs g hl rfl hmerge he _ (fun _ => hshort) (.refl _)
  exact (join_ok hX.realized h hgathers (.value (by simp) rfl)).mono fun _ _ hq => ⟨hq, hP⟩

/-! ## Conditionals -/

theorem resultType_eq {id : ExprId} {lowered : Option IrType}
    (h : ResultType X (X.function.typeOf id) lowered) : resultType X.lowering id = pure lowered := by
  obtain ⟨type, htype⟩ : ∃ type, X.function.typeOf id = type := ⟨_, rfl⟩
  simp only [resultType, Lower.typeOf, Setting.lowering, htype]
  rw [htype] at h
  cases h with
  | unit => rfl
  | value hu hl =>
    rw [if_neg (fun h => hu (Ty.isUnit_eq_true.mp h)), hl]
    rfl

/-- An `if` without `else` goes through its branch or past it. -/
theorem yields_ifThen (hX : X.Fits units) {condition : Lower ValueId} {thenBranch : Lower Lowered}
    (hcond : Yields X Γ depth breaks condition w fun v w' => At w' X Γ depth ∧ w'.HoldsAt X w'.here v .bool ∧ P)
    (hthen : ∀ w', At w' X Γ depth → Yields X Γ depth breaks thenBranch w' fun _ w' => At w' X Γ depth) :
    Yields X Γ depth breaks (ifThen condition thenBranch (pure none)) w fun a w' =>
      AtLowered X Γ depth .unit a w' ∧ P := by
  refine hcond.bind fun value w _ ⟨h, hvalue, hP⟩ => ?_
  refine .get (Ensures.emit Emit.run_newBlock (.emit Emit.run_newBlock ?_))
  rw [second_newBlock]
  obtain ⟨ht, ho, hs⟩ := hvalue.branch (w.mem_newBlocks_pair)
  refine .emit (h.run_fork _) ?_
  obtain ⟨hfork, hreach, -⟩ := h.fork ht ho hs breaks
  have hside : BlockId.mk w.blockCount ∈ w.newBlocks := mem_newBlocks.mpr (.inl rfl)
  have harm : Yields X Γ depth breaks thenBranch ((w.forked _).goingOn ⟨w.blockCount⟩) fun a w' =>
      At w' X Γ depth ∧ (Ty.unit ≠ .unit → w'.LoweredOk X w'.here .unit a) ∧ True :=
    (hthen _ (h.enter_fork hfork hside (hreach _ hside))).mono fun _ w' hat => ⟨hat, fun hu => absurd rfl hu, trivial⟩
  refine arm_ok (w := w.forked _) harm fun side w' he => .setEnv ?_
  have hsize : w.env.size = Γ.length := h.env.size_eq
  rw [hsize]
  have hgathers := (h.detour ht ho hs .refl hfork rfl (by simp [Terminator.successors]) he .unit
    (fun hu => absurd rfl hu) (perm_append_singleton ..)).withEnv w.env
  exact (join_ok hX.realized h hgathers .unit).mono fun _ _ hq => ⟨hq, hP⟩

section Both

variable {value : ValueId} {sides sides' : List Arm} {w1 w2 : World} {P' : Prop}

/-- The first branch of an `if` leads to its own end and leaves the second block as it is. -/
theorem At.first_branch (h : At w X Γ depth) (hv : w.HoldsAt X w.here value .bool)
    (he : Ends ((w.forked (.branch value ⟨w.blockCount⟩ ⟨w.blockCount + 1⟩)).goingOn ⟨w.blockCount⟩) w1 X Γ
      depth breaks type P sides) :
    Leads w w1 X breaks (insert (w.blockCount + 1) {i | ∃ arm ∈ sides, arm.block.index = i}) ∧
      w1.reach (w.blockCount + 1) = w.knownHere ∧ (∀ arm ∈ sides, arm.block.index ≠ w.blockCount + 1) ∧
      ∀ arm ∈ sides, ∀ v, w.Known w.here v → w1.Known arm.block.index v := by
  obtain ⟨ht, ho, hs⟩ := hv.branch w.mem_newBlocks_pair
  obtain ⟨hfork, hreach, -⟩ := h.fork ht ho hs breaks
  have hfirst : BlockId.mk w.blockCount ∈ w.newBlocks := mem_newBlocks.mpr (.inl rfl)
  have hsecond : BlockId.mk (w.blockCount + 1) ∈ w.newBlocks := mem_newBlocks.mpr (.inr rfl)
  have hcount := (hfork.ends _ hsecond).2.1
  have hends := (hfork.goingOn w.env ⟨w.blockCount⟩ (hfork.ends _ hfirst).2.1).trans hfirst he.leads
  have hne : ∀ arm ∈ sides, arm.block.index ≠ w.blockCount + 1 := by
    intro arm harm heq
    have hnew := (he.leads.ends arm.block.index ⟨arm, harm, rfl⟩).1
    rw [heq] at hnew
    rcases hnew with hnew | hnew
    · exact Nat.succ_ne_self _ hnew
    · exact Nat.not_le_of_lt hcount hnew
  refine ⟨hends.of_eq ?_, ?_, hne, fun arm harm v hv => he.known harm (.inr (.inl ?_))⟩
  · ext i
    constructor
    · rintro (⟨hi, hi'⟩ | harm)
      · exact .inl ((mem_newBlocks.mp hi).resolve_left hi')
      · exact .inr harm
    · rintro (rfl | harm)
      · exact .inl ⟨hsecond, Nat.succ_ne_self _⟩
      · exact .inr harm
  · rw [he.leads.grows.reach_eq (hfork.valid.blocks ▸ hcount)]
    exact hreach _ hsecond
  · exact hreach _ hfirst ▸ hv

/-- Both branches of an `if` lead to their own ends. -/
theorem At.both_branches (h : At w X Γ depth) (hv : w.HoldsAt X w.here value .bool)
    (he : Ends ((w.forked (.branch value ⟨w.blockCount⟩ ⟨w.blockCount + 1⟩)).goingOn ⟨w.blockCount⟩) w1 X Γ
      depth breaks type P sides)
    (he' : Ends ({ w1 with env := w.env }.goingOn ⟨w.blockCount + 1⟩) w2 X Γ depth breaks type P' sides') :
    Leads w w2 X breaks {i | ∃ arm ∈ sides ++ sides', arm.block.index = i} ∧
      (∀ arm ∈ sides ++ sides', w2.ArmOk X Γ depth w.env type arm) ∧
      (∀ arm ∈ sides ++ sides', ∀ v, w.Known w.here v → w2.Known arm.block.index v) ∧
      ((sides ++ sides').map (·.block)).Nodup := by
  obtain ⟨hl, hreach, hne, hknown⟩ := h.first_branch hv he
  have hsecond := hl.ends (w.blockCount + 1) (.inl rfl)
  have hends := (hl.goingOn w.env ⟨w.blockCount + 1⟩ hsecond.2.1).trans (.inl rfl) he'.leads
  have g1 : Grows Set.univ w1 ({ w1 with env := w.env }.goingOn ⟨w.blockCount + 1⟩) :=
    { Grows.refl with }
  have g : Grows Set.univ w1 w2 := g1.trans he'.leads.grows fun _ _ _ => trivial
  refine ⟨hends.of_eq ?_, fun arm harm => ?_, fun arm harm v hv => ?_, ?_⟩
  · ext i
    constructor
    · rintro (⟨rfl | ⟨arm, harm, rfl⟩, hi⟩ | ⟨arm, harm, rfl⟩)
      · exact absurd rfl hi
      · exact ⟨arm, mem_append_left _ harm, rfl⟩
      · exact ⟨arm, mem_append_right _ harm, rfl⟩
    · rintro ⟨arm, harm, rfl⟩
      rcases mem_append.mp harm with harm | harm
      · exact .inl ⟨.inr ⟨arm, harm, rfl⟩, hne arm harm⟩
      · exact .inr ⟨arm, harm, rfl⟩
  · rcases mem_append.mp harm with harm | harm
    · exact (he.armOk harm).mono g hl.valid.cells
    · exact he'.armOk harm
  · rcases mem_append.mp harm with harm | harm
    · exact g.known (hknown arm harm v hv)
    · exact he'.known harm (.inr (.inl (hreach ▸ hv)))
  · rw [map_append, nodup_append]
    refine ⟨he.nodup, he'.nodup, ?_⟩
    intro block hb block' hb' heq
    obtain ⟨arm, harm, rfl⟩ := mem_map.mp hb
    obtain ⟨arm', harm', rfl⟩ := mem_map.mp hb'
    have hlt := (hl.ends arm.block.index (.inr ⟨arm, harm, rfl⟩)).2.1
    rcases (he'.leads.ends arm'.block.index ⟨arm', harm', rfl⟩).1 with hnew | hnew
    · exact hne arm harm (heq ▸ hnew)
    · exact Nat.not_le_of_lt hlt (heq ▸ hnew)

/-- What all of some ways know. -/
def knownOn (w : World) (arms : List Arm) : Set ValueId := {v | ∀ arm ∈ arms, w.Known arm.block.index v}

theorem gathers_new (hne : arms ≠ []) (hopen : ∀ arm ∈ arms, arm.isOpen = true)
    (hl : Leads w w1 X breaks {i | ∃ arm ∈ arms, arm.block.index = i})
    (hways : ∀ arm ∈ arms, w1.ArmOk X Γ depth w.env type arm)
    (hbase : ∀ arm ∈ arms, ∀ v, w.Known w.here v → w1.Known arm.block.index v) (hd : (arms.map (·.block)).Nodup) :
    Gathers w (w1.withBlock (w1.knownOn arms)) X Γ depth breaks type ⟨w1.blockCount⟩ arms := by
  obtain ⟨arm0, harm0⟩ := exists_mem_of_ne_nil arms hne
  have hlt : ∀ v ∈ w1.knownOn arms, v.index < w1.valueCount := fun v hv => hl.valid.known_lt (hv arm0 harm0)
  have hl' := hl.withBlock hlt
  have g := grows_withBlock w1 (w1.knownOn arms)
  have hreach : (w1.withBlock (w1.knownOn arms)).reach w1.blockCount = w1.knownOn arms :=
    reach_withBlock hl.valid.blocks
  exact {
    leads := hl'.of_eq <| by
      ext i
      constructor
      · rintro (rfl | ⟨arm, harm, rfl⟩)
        · exact .inl rfl
        · exact .inr ⟨arm, harm, hopen arm harm, rfl⟩
      · rintro (rfl | ⟨arm, harm, -, rfl⟩)
        · exact .inl rfl
        · exact .inr ⟨arm, harm, rfl⟩
    fresh := hl.grows.blocks
    nonempty := hne
    ways := fun arm harm => (hways arm harm).mono g hl.valid.cells
    base := fun arm harm v hv => g.known (hbase arm harm v hv)
    reach := fun arm harm v hv => by
      rw [hreach] at hv
      exact g.known (hv arm harm)
    known := fun v hv => by
      by_cases hfree : (w1.withBlock (w1.knownOn arms)).Free v
      · exact .inl hfree
      refine .inr (.inl ?_)
      rw [hreach]
      intro arm harm
      have hi : arm.block.index < w1.blockCount := (hways arm harm).inRange
      rcases (hv arm harm).resolve_left hfree with hr | hdef
      · exact .inr (.inl (g.reach_eq (hl.valid.blocks ▸ hi) ▸ hr))
      · exact .inr (.inr (code_withBlock w1 _ _ ▸ hdef))
    apart := fun arm harm _ heq => by
      have hi : arm.block.index < w1.blockCount := (hways arm harm).inRange
      rw [heq] at hi
      exact Nat.lt_irrefl _ hi
    distinct := by
      rw [filter_eq_self.mpr hopen]
      exact hd
    entered := .inl ⟨arm0, harm0, hopen arm0 harm0⟩ }

/-- Control goes on after an `if` with `else` if it does after one of its branches. -/
theorem yields_ifThenElse (hX : X.Fits units) {condition : Lower ValueId} {thenBranch elseBranch : Lower Lowered}
    {lowered : Option IrType} {P1 P2 : Prop} (hl : ResultType X type lowered)
    (hcond : Yields X Γ depth breaks condition w fun v w' => At w' X Γ depth ∧ w'.HoldsAt X w'.here v .bool ∧ P)
    (hthen : ∀ w', At w' X Γ depth → Yields X Γ depth breaks thenBranch w' fun a w' =>
      At w' X Γ depth ∧ (type ≠ .unit → w'.LoweredOk X w'.here type a) ∧ P1)
    (helse : ∀ w', At w' X Γ depth → Yields X Γ depth breaks elseBranch w' fun a w' =>
      At w' X Γ depth ∧ (type ≠ .unit → w'.LoweredOk X w'.here type a) ∧ P2) :
    Yields X Γ depth breaks (ifThenElse condition thenBranch elseBranch (pure lowered)) w fun a w' =>
      AtLowered X Γ depth type a w' ∧ P ∧ (P1 ∨ P2) := by
  refine hcond.bind fun value w _ ⟨h, hvalue, hP⟩ => ?_
  refine .get (Ensures.emit Emit.run_newBlock (.emit Emit.run_newBlock ?_))
  rw [second_newBlock]
  obtain ⟨ht, ho, hs⟩ := hvalue.branch w.mem_newBlocks_pair
  refine .emit (h.run_fork _) ?_
  obtain ⟨hfork, hreach, -⟩ := h.fork ht ho hs breaks
  have hfirst : BlockId.mk w.blockCount ∈ w.newBlocks := mem_newBlocks.mpr (.inl rfl)
  refine arm_ok (w := w.forked _) (hthen _ (h.enter_fork hfork hfirst (hreach _ hfirst))) fun side w1 he => .setEnv ?_
  obtain ⟨hl1, hreach1, -⟩ := h.first_branch hvalue he
  have hat1 := h.enter hl1 (.inl rfl) fun v hv => .inr (.inl (hreach1 ▸ hv))
  refine arm_ok (w := { w1 with env := w.env }) (helse _ hat1) fun side' w2 he' => .setEnv ?_
  obtain ⟨hl2, hways, hbase, hd⟩ := h.both_branches hvalue he he'
  have g : Grows ∅ w2 { w2 with env := w.env } := { Grows.refl with }
  have hl3 := hl2.grow g { hl2.valid with } (fun _ => rfl) rfl rfl
  split
  · rename_i hnone
    rw [hnone] at hl3
    rcases he' with ⟨-, hh⟩ | ⟨a, hsome, -⟩
    · exact ⟨_, rfl, hl3.of_eq (by ext; simp), hh.stopped⟩
    · simp [hsome] at hnone
  · rename_i hne
    have hopen : ∀ arm ∈ side.toList ++ side'.toList, arm.isOpen = true := fun arm harm =>
      (mem_append.mp harm).elim (fun h => (he.eq_end h).2) fun h => (he'.eq_end h).2
    have hP' : P1 ∨ P2 := by
      rcases he with ⟨hnone, -⟩ | ⟨-, -, -, -, -, hP1⟩
      · rcases he' with ⟨hnone', -⟩ | ⟨-, -, -, -, -, hP2⟩
        · exact absurd (by rw [hnone, hnone']; rfl) hne
        · exact .inr hP2
      · exact .inl hP1
    have hgathers := gathers_new hne hopen hl3 (fun arm harm => (hways arm harm).mono g hl2.valid.cells) hbase hd
    refine .emit Emit.run_newBlock ?_
    rw [show w.env.size = Γ.length from h.env.size_eq]
    exact (join_ok hX.realized h hgathers hl).mono fun _ _ hq => ⟨hq, hP, hP'⟩

end Both

end World

end SsaCompiler
