import SsaCompiler.Proofs.Lowering.Control

/-!
# Leaving a block

A `return`, `break` or `continue` ends the current block, and so does the end of the body of a loop.
The block after a loop is made when it is first asked for, and promises what reaches the start of the
loop (`World.Exits`).
-/

namespace SsaCompiler

open List Terminator

namespace World

open Lower

variable {units : List SourceUnit} {w0 w w₁ w' : World} {X : Setting} {Γ : List Local} {depth : Nat}
  {breaks : Bool} {E : Set Nat} {t : Terminator} {α : Type} {Q : α → World → Prop}
variable {condition : Lower ValueId} {target : LoopTarget} {flag infinite : Bool}

/-! ## Ending the current block -/

theorem At.halt (h : At w X Γ depth) (ht : t.Typed X.sig w.typing) (ho : ∀ v ∈ t.operands, w.Known w.here v)
    (hs : ∀ j ∈ t.successors, j.index < w.blockCount ∧ ∀ v ∈ w.reach j.index, w.Known w.here v)
    (breaks : Bool) : Halt w (w.close t) X breaks := by
  refine ⟨((Leads.refl h breaks).close rfl ht ho hs).of_eq ?_, ?_⟩
  · ext i
    exact ⟨fun hi => hi.2 hi.1, fun hi => absurd hi id⟩
  · have hhere : (w.close t).here = w.here := FunctionBuilder.here_close ..
    rw [hhere, terminator_close h.valid.laid]
    simp

theorem At.yields_halt (h : At w X Γ depth) (ht : t.Typed X.sig w.typing) (ho : ∀ v ∈ t.operands, w.Known w.here v)
    (hs : ∀ j ∈ t.successors, j.index < w.blockCount ∧ ∀ v ∈ w.reach j.index, w.Known w.here v) :
    Yields X Γ depth breaks (do emit (.terminate t); stop) w Q :=
  Ensures.emit (Emit.run_terminate h.valid.laid h.isOpen t) ⟨w.close t, rfl, h.halt ht ho hs breaks⟩

theorem At.yields_ret (hX : X.Fits units) (h : At w X Γ depth) {lowered : Lowered}
    (hl : w.LoweredOk X w.here X.function.result lowered) : Yields X Γ depth breaks (ret lowered) w Q := by
  cases lowered with
  | value v =>
    obtain ⟨-, hv⟩ := hl.of_value
    refine h.yields_halt (hv.typeOf hX.result) (fun u hu => ?_) (by simp [successors])
    obtain rfl := mem_singleton.mp hu
    exact hv.2
  | unit =>
    have hresult := hX.result
    rw [hl.of_unit] at hresult
    exact h.yields_halt (Except.ok.inj hresult).symm (by simp [operands]) (by simp [successors])

theorem At.loop_around (h : At w X Γ depth) (hd : 0 < depth) : ∃ target outer, w.loops = target :: outer := by
  cases hl : w.loops with
  | nil =>
    have := h.depth
    rw [hl] at this
    simp at this
    omega
  | cons target outer => exact ⟨target, outer, rfl⟩

theorem At.header_ok (h : At w X Γ depth) (ht : target ∈ w.loops) :
    target.header.index < w.blockCount ∧ ∀ v ∈ w.reach target.header.index, w.Known w.here v :=
  ⟨h.loops.headers target ht, h.around target ht⟩

theorem At.yields_continue (h : At w X Γ depth) (hd : 0 < depth) {Q : Lowered → World → Prop} :
    Yields X Γ depth breaks continueLoop w Q := by
  obtain ⟨target, outer, hl⟩ := h.loop_around hd
  refine .get ?_
  rw [hl]
  refine h.yields_halt trivial (by simp [operands]) fun j hj => ?_
  obtain rfl := mem_singleton.mp hj
  exact h.header_ok (hl ▸ .head _)

/-! ## Exits of loops -/

/-- The exit of the innermost loop is there. -/
structure Exits (w w₁ : World) (X : Setting) (target : LoopTarget) (outer : List LoopTarget) (x : BlockId) :
    Prop where
  valid : w₁.Valid X
  grows : Grows ∅ w w₁
  current : w₁.builder.current = w.builder.current
  env : w₁.env = w.env
  terminators : ∀ i, w₁.terminator i = w.terminator i
  loops : w₁.loops = ⟨target.header, some x⟩ :: outer
  kept : LoopsKept true w.blockCount w.loops w₁.loops
  inRange : x.index < w₁.blockCount
  isOpen : w₁.terminator x.index = none
  empty : w₁.code x.index = []
  reach : w₁.reach x.index = w.reach target.header.index
  apart : x ≠ w.builder.current ∧ x ∉ exits outer
  blocks : ∀ i, w.blockCount ≤ i → i < w₁.blockCount → i = x.index

theorem Leads.loopExit (h : Leads w0 w X breaks E) (hi : w.here ∈ E) {outer : List LoopTarget}
    (hl : w.loops = target :: outer) : ∃ x w₁, Lower.loopExit.run.run w.toLowerState = .ok (some x, w₁.toLowerState) ∧
        Exits w w₁ X target outer x := by
  obtain ⟨header, exit⟩ := target
  have hmem : ⟨header, exit⟩ ∈ w.loops := hl ▸ .head _
  have hhere := (h.ends _ hi).2.2.2
  cases exit with
  | some x =>
    have hp := h.loops.pending _ hmem x rfl
    have hexits : exits w.loops = x :: exits outer := by rw [hl]; rfl
    have hd := h.loops.distinct
    rw [hexits] at hd hhere
    refine ⟨x, w, ?_, ⟨h.valid, .refl, rfl, rfl, fun _ => rfl, hl, .inl rfl, hp.inRange, hp.isOpen,
      hp.empty, hp.reach, ⟨fun he => hhere (he ▸ .head _), (nodup_cons.mp hd).1⟩,
      fun i hle hlt => absurd hlt (Nat.not_lt_of_le hle)⟩⟩
    simp only [Lower.loopExit, run_bind, run_get, hl, run_pure]
  | none =>
    have hR : ∀ v ∈ w.reach header.index, v.index < w.valueCount := fun v hv => (h.valid.fresh hv).1
    refine ⟨⟨w.blockCount⟩, { w.withBlock (w.reach header.index) with
      loops := ⟨header, some ⟨w.blockCount⟩⟩ :: outer }, ?_, ?_⟩
    · simp only [Lower.loopExit, run_bind, run_get, hl]
      rfl
    · have hnew := code_of_le (w := w) (Nat.le_refl w.blockCount)
      exact {
        valid := { h.valid.withBlock hR with }
        grows := { grows_withBlock w (w.reach header.index) with }
        current := rfl
        env := rfl
        terminators := terminator_withBlock w (w.reach header.index)
        loops := rfl
        kept := .inr ⟨rfl, ⟨header, none⟩, outer, ⟨w.blockCount⟩, hl, rfl, rfl, Nat.le_refl _⟩
        inRange := by
          show w.blockCount < (w.withBlock (w.reach header.index)).blockCount
          rw [blockCount_withBlock]
          exact Nat.lt_succ_self _
        isOpen := (terminator_withBlock w (w.reach header.index) _).trans hnew.2
        empty := (code_withBlock w (w.reach header.index) _).trans hnew.1
        reach := reach_withBlock h.valid.blocks
        apart := by
          refine ⟨fun he => ?_, fun hx => ?_⟩
          · have hlt : w.here < w.blockCount := h.valid.laid.here
            exact Nat.ne_of_lt hlt (congrArg BlockId.index he).symm
          · have hx : (⟨w.blockCount⟩ : BlockId) ∈ exits w.loops := by
              rw [hl]
              exact hx
            exact Nat.lt_irrefl _ (h.loops.exit_lt hx)
        blocks := fun i hle hlt => by
          have hlt : i < (w.withBlock (w.reach header.index)).blockCount := hlt
          rw [blockCount_withBlock] at hlt
          exact Nat.le_antisymm (Nat.le_of_lt_succ hlt) hle }

section Leave

variable {outer : List LoopTarget} {x : BlockId}

theorem Exits.here (he : Exits w w₁ X target outer x) : w₁.here = w.here := congrArg BlockId.index he.current

/-- Once the current block goes to it, the exit is entered. -/
theorem Exits.loopsOk (he : Exits w w₁ X target outer x) (h : w.LoopsOk) (hv : w.Valid X)
    (hl : w.loops = target :: outer) (hnot : w.builder.current ∉ exits w.loops) (hx : x ∈ t.successors) :
    (w₁.close t).LoopsOk := by
  have gc : Grows {w₁.here} w₁ (w₁.close t) := grows_close he.valid.laid
  have hhead : target ∈ w.loops := hl ▸ .head _
  have hout : ∀ s ∈ outer, s ∈ w.loops := fun s hs => hl ▸ .tail _ hs
  have hloops : (w₁.close t).loops = ⟨target.header, some x⟩ :: outer := he.loops
  refine ⟨fun s hs => ?_, fun s hs y hy => ?_, ?_⟩
  · refine Nat.lt_of_lt_of_le ?_ (Nat.le_trans he.grows.blocks gc.blocks)
    rcases mem_cons.mp (hloops ▸ hs) with rfl | hs
    · exact h.headers target hhead
    · exact h.headers s (hout s hs)
  · rcases mem_cons.mp (hloops ▸ hs) with rfl | hs
    · cases hy
      refine ⟨?_, ?_, ?_, ?_, w₁.builder.current, FunctionBuilder.mem_edges_close _ _ hx⟩
      · rw [blockCount_close]
        exact he.inRange
      · have hne : x.index ≠ w₁.here := fun heq => he.apart.1 ((congrArg BlockId.mk heq).trans he.current)
        rw [terminator_close he.valid.laid, if_neg hne]
        exact he.isOpen
      · rw [code_close he.valid.laid]
        exact he.empty
      · show w₁.reach x.index = w₁.reach target.header.index
        rw [he.reach, he.grows.reach_eq (hv.blocks ▸ h.headers target hhead)]
    · have hy' : y ∈ exits w.loops := mem_exits.mpr ⟨s, hout s hs, hy⟩
      have hp := (h.pending s (hout s hs) y hy).mono he.grows hv.blocks (h.headers s (hout s hs)) id
      refine hp.mono gc he.valid.blocks (Nat.lt_of_lt_of_le (h.headers s (hout s hs)) he.grows.blocks) ?_
      intro heq
      have heq : y = w.builder.current := (congrArg BlockId.mk heq).trans he.current
      exact hnot (heq ▸ hy')
  · have hd := h.distinct
    rw [hl] at hd
    rw [hloops]
    exact nodup_cons.mpr ⟨he.apart.2, hd.sublist ((sublist_cons_self target outer).filterMap _)⟩

/-- The current block ends with a way out of the innermost loop. -/
theorem Leads.leave (h : Leads w0 w X true E) (hi : w.here ∈ E) (hl : w.loops = target :: outer)
    (he : Exits w w₁ X target outer x) (ht : t.Typed X.sig w₁.typing)
    (ho : ∀ v ∈ t.operands, w.Known w.here v) (hx : x ∈ t.successors)
    (hs : ∀ j ∈ t.successors, j.index < w₁.blockCount ∧ ∀ v ∈ w₁.reach j.index, w.Known w.here v) :
    Leads w0 (w₁.close t) X true (E \ {w.here}) := by
  have hk : ∀ v, w.Known w.here v → w₁.Known w₁.here v := fun v hv => he.here ▸ he.grows.known hv
  have gc : Grows {w₁.here} w₁ (w₁.close t) := grows_close he.valid.laid
  have hfocus : ∀ i < w0.blockCount, i = w₁.here → i = w0.here := fun i hlt heq =>
    (heq.trans he.here ▸ (h.ends _ hi).1).resolve_right (Nat.not_le_of_lt hlt)
  refine ⟨he.valid.close ht (fun v hv => hk v (ho v hv))
      fun j hj => ⟨(hs j hj).1, fun v hv => hk v ((hs j hj).2 v hv)⟩,
    he.loopsOk h.loops h.valid hl (h.ends _ hi).2.2.2 hx,
    (h.grows.trans he.grows fun _ _ hi => absurd hi id).trans gc hfocus,
    h.kept.trans he.kept h.grows.blocks, fun i hnew hlt hopen => ?_, fun i hE => ?_⟩
  · rw [blockCount_close] at hlt
    rw [terminator_close he.valid.laid] at hopen
    split at hopen
    · cases hopen
    rename_i hne
    rw [he.terminators] at hopen
    by_cases hlt' : i < w.blockCount
    · rcases h.closed i hnew hlt' hopen with hE | hx
      · exact .inl ⟨hE, fun heq => hne (Eq.trans heq he.here.symm)⟩
      · exact .inr (he.kept.exits_subset hx)
    · have hix := he.blocks i (Nat.le_of_not_lt hlt') hlt
      refine .inr (mem_exits.mpr ⟨⟨target.header, some x⟩, ?_, congrArg some (congrArg BlockId.mk hix.symm)⟩)
      show _ ∈ w₁.loops
      rw [he.loops]
      exact .head _
  · obtain ⟨hE, hne⟩ := hE
    obtain ⟨hnew, hlt, hopen, hx⟩ := h.ends i hE
    rw [blockCount_close, terminator_close he.valid.laid, if_neg (he.here ▸ hne), he.terminators]
    exact ⟨hnew, Nat.lt_of_lt_of_le hlt he.grows.blocks, hopen, he.kept.not_mem_exits hlt hx⟩

end Leave

theorem At.yields_break (h : At w X Γ depth) (hd : 0 < depth) {Q : Lowered → World → Prop} :
    Yields X Γ depth true breakLoop w Q := by
  obtain ⟨target, outer, hl⟩ := h.loop_around hd
  have hleads := Leads.refl h true
  obtain ⟨x, w₁, hrun, he⟩ := hleads.loopExit rfl hl
  have hopen : w₁.terminator w₁.here = none := by
    rw [he.terminators, he.here]
    exact h.isOpen
  have htyped : (jump x).Typed X.sig w₁.typing := trivial
  refine Ensures.step hrun (.emit (Emit.run_terminate he.valid.laid hopen (.jump x))
    ⟨w₁.close (.jump x), rfl, (hleads.leave rfl hl he htyped ?_ ?_ ?_).of_eq ?_, ?_⟩)
  · simp [operands]
  · exact mem_singleton.mpr rfl
  · intro j hj
    obtain rfl := mem_singleton.mp hj
    exact ⟨he.inRange, fun v hv => (h.header_ok (hl ▸ .head _)).2 v (he.reach ▸ hv)⟩
  · ext i
    exact ⟨fun hi => hi.2 hi.1, fun hi => absurd hi id⟩
  · have hhere : (w₁.close (.jump x)).here = w₁.here := FunctionBuilder.here_close ..
    rw [hhere, terminator_close he.valid.laid]
    simp

/-! ## Loops -/

def looped (w : World) : World :=
  { ((w.withBlock w.knownHere).close (.jump ⟨w.blockCount⟩)).goingOn ⟨w.blockCount⟩ with
    loops := ⟨⟨w.blockCount⟩, none⟩ :: w.loops }

/-- A loop begins at a block that nothing but what is known reaches. -/
theorem At.pushLoop (h : At w X Γ depth) {header : BlockId} (hh : header.index < w.blockCount)
    (hk : ∀ v ∈ w.reach header.index, w.Known w.here v) :
    At { w with loops := ⟨header, none⟩ :: w.loops } X Γ (depth + 1) where
  valid := { h.valid with }
  isOpen := h.isOpen
  env := h.env.mono (F := ∅) { Grows.refl with } h.valid.cells fun _ => id
  distinct := h.distinct
  locals := h.locals
  loops := {
    headers := fun t ht => by
      rcases mem_cons.mp ht with rfl | ht
      · exact hh
      · exact h.loops.headers t ht
    pending := fun t ht x hx => by
      rcases mem_cons.mp ht with rfl | ht
      · cases hx
      · exact { h.loops.pending t ht x hx with }
    distinct := h.loops.distinct }
  depth := congrArg (· + 1) h.depth
  around t ht := by
    rcases mem_cons.mp ht with rfl | ht
    · exact hk
    · exact h.around t ht
  notExit := h.notExit

theorem insert_diff_here {i j : Nat} (h : i < j) : insert j ({i} : Set Nat) \ {i} = {j} := by
  ext k
  constructor
  · rintro ⟨rfl | hi, hne⟩
    · rfl
    · exact absurd hi hne
  · rintro rfl
    exact ⟨.inl rfl, fun he => Nat.ne_of_lt h (Eq.symm he)⟩

/-- The current block ends with a jump to a new one, where all that was known is. -/
theorem At.jumpOn (h : At w X Γ depth) (breaks : Bool) :
    Leads w ((w.withBlock w.knownHere).close (.jump ⟨w.blockCount⟩)) X breaks {w.blockCount} ∧
      At (((w.withBlock w.knownHere).close (.jump ⟨w.blockCount⟩)).goingOn ⟨w.blockCount⟩) X Γ depth := by
  have hhere : w.here < w.blockCount := h.valid.laid.here
  have hl := (Leads.refl h breaks).withBlock h.lt_of_knownHere
  have hreach : (w.withBlock w.knownHere).reach w.blockCount = w.knownHere := reach_withBlock h.valid.blocks
  have hcount : w.blockCount < (w.withBlock w.knownHere).blockCount := by
    rw [blockCount_withBlock]
    exact Nat.lt_succ_self _
  have htyped : (jump ⟨w.blockCount⟩).Typed X.sig (w.withBlock w.knownHere).typing := trivial
  have hl1 := hl.close (.inr rfl) htyped (by simp [operands]) fun j hj => by
    obtain rfl := mem_singleton.mp hj
    refine ⟨hcount, fun v hv => ?_⟩
    rw [hreach] at hv
    exact (grows_withBlock w w.knownHere).known hv
  have hl2 := hl1.of_eq (insert_diff_here hhere)
  refine ⟨hl2, h.enter hl2 rfl fun v hv => .inr (.inl ?_)⟩
  exact (hreach.symm ▸ hv : v ∈ (w.withBlock w.knownHere).reach w.blockCount)

theorem At.looped (h : At w X Γ depth) (breaks : Bool) : At w.looped X Γ (depth + 1) ∧
    Leads w { w.looped with loops := w.loops } X breaks {w.blockCount} := by
  obtain ⟨hl, hat⟩ := h.jumpOn breaks
  have hin := (hl.ends _ rfl).2.1
  exact ⟨hat.pushLoop hin fun v hv => .inr (.inl hv), hl.goingOn w.env ⟨w.blockCount⟩ hin⟩

theorem At.reach_looped (h : At w X Γ depth) : w.looped.reach w.blockCount = w.knownHere :=
  reach_withBlock h.valid.blocks

theorem blockCount_looped : w.looped.blockCount = w.blockCount + 1 :=
  blockCount_close.trans blockCount_withBlock

theorem Leads.exit_new (hl : Leads w.looped w' X flag E) {x : BlockId}
    (hloops : w'.loops = ⟨⟨w.blockCount⟩, some x⟩ :: w.loops) : flag = true ∧ w.blockCount ≤ x.index := by
  rcases hl.kept with he | ⟨hflag, t, rest, y, he, -, he', hle⟩
  · rw [hloops] at he
    cases he
  · rw [hloops] at he'
    cases he
    cases he'
    rw [blockCount_looped] at hle
    exact ⟨hflag, Nat.le_of_succ_le hle⟩

/-- After a loop control is at its exit, if it has one. -/
theorem At.leaveLoop (h : At w X Γ depth) (hl : Leads w.looped w' X flag ∅) {exit : Option BlockId}
    (hloops : w'.loops = ⟨⟨w.blockCount⟩, exit⟩ :: w.loops) (breaks : Bool) :
    Leads w { w' with env := w.env, loops := w.loops } X breaks {i | ∃ x, exit = some x ∧ x.index = i} := by
  obtain ⟨hat, hstart⟩ := h.looped breaks
  have hhere : w.here < w.blockCount := h.valid.laid.here
  have hin := (hstart.ends w.blockCount rfl).2.1
  have htail : ∀ t ∈ w.loops, t ∈ w'.loops := fun t ht => hloops ▸ .tail _ ht
  -- The block before the loop ends with the jump to it.
  have hclosed : w'.terminator w.here ≠ none := by
    rw [(hl.grows.same w.here (Nat.lt_trans hhere hin) (Nat.ne_of_lt hhere)).2]
    intro hopen
    rcases hstart.closed w.here (.inl rfl) (Nat.lt_trans hhere hin) hopen with he | he
    · exact Nat.ne_of_lt hhere he
    · exact h.notExit he
  refine ⟨{ hl.valid with }, ⟨fun t ht => hl.loops.headers t (htail t ht),
    fun t ht x hx => { hl.loops.pending t (htail t ht) x hx with }, h.loops.distinct⟩, ?_, .inl rfl,
    fun i hi hlt hopen => ?_, ?_⟩
  · have g1 : Grows {w.here} w w.looped := { hstart.grows with }
    have g : Grows {w.here} w w' :=
      g1.trans hl.grows fun i hlt hi => absurd (show i = w.blockCount from hi) (Nat.ne_of_lt hlt)
    exact { g with }
  · have hnew : i = w.looped.here ∨ w.looped.blockCount ≤ i := by
      rcases hi with rfl | hle
      · exact absurd hopen hclosed
      · rw [blockCount_looped]
        exact (Nat.eq_or_lt_of_le hle).imp_left Eq.symm
    rcases hl.closed i hnew hlt hopen with hE | hx
    · exact absurd hE id
    · obtain ⟨t, ht, hx⟩ := mem_exits.mp hx
      rcases mem_cons.mp (hloops ▸ ht) with rfl | ht
      · exact .inl ⟨_, hx, rfl⟩
      · exact .inr (mem_exits.mpr ⟨t, ht, hx⟩)
  · rintro i ⟨x, rfl, rfl⟩
    have hp := hl.loops.pending ⟨⟨w.blockCount⟩, some x⟩ (hloops ▸ .head _) x rfl
    have hd := hl.loops.distinct
    rw [hloops] at hd
    exact ⟨.inr (hl.exit_new hloops).2, hp.inRange, hp.isOpen, (nodup_cons.mp hd).1⟩

/-- Control goes on after a loop if something leaves it. -/
theorem At.afterLoop (h : At w X Γ depth) {G : Prop} (hl : Leads w.looped w' X flag ∅)
    (hs : w'.terminator w'.here ≠ none) (hG : flag = true → G) :
    Reaches X Γ depth breaks w (afterLoop w.env) w' fun a w' => AtLowered X Γ depth .unit a w' ∧ G := by
  obtain ⟨exit, hloops⟩ : ∃ exit, w'.loops = ⟨⟨w.blockCount⟩, exit⟩ :: w.loops := by
    rcases hl.kept with he | ⟨-, t, rest, x, he, -, he', -⟩
    · exact ⟨none, he⟩
    · cases he
      exact ⟨some x, he'⟩
  have hleave := h.leaveLoop hl hloops breaks
  refine .get (.change ?_)
  rw [hloops]
  cases exit with
  | none => exact ⟨_, rfl, hleave.of_eq (by ext; simp), hs⟩
  | some x =>
    have hp := hl.loops.pending ⟨⟨w.blockCount⟩, some x⟩ (hloops ▸ .head _) x rfl
    have hheader := (h.looped breaks).1.valid.laid.here
    have hx : x.index ∈ {i | ∃ y, some x = some y ∧ y.index = i} := ⟨x, rfl, rfl⟩
    have hk : ∀ v, w.Known w.here v → w'.Known x.index v := by
      intro v hv
      refine .inr (.inl ?_)
      rw [hp.reach, hl.grows.reach_eq ((h.looped breaks).1.valid.blocks ▸ hheader)]
      exact (h.reach_looped).symm ▸ hv
    refine .emit Emit.run_switchTo ⟨_, rfl, ?_, ⟨h.enter hleave hx hk, .unit⟩, hG (hl.exit_new hloops).1⟩
    refine Leads.flow ((hleave.goingOn w.env x hp.inRange).of_eq ?_)
      (.inr ⟨(hl.exit_new hloops).2, hp.entered⟩) hk rfl
    ext i
    constructor
    · rintro ⟨y, hy, rfl⟩
      cases hy
      rfl
    · rintro rfl
      exact hx

/-- Where the condition of a loop is known, control goes to the body or leaves the loop. -/
theorem At.branchLoop (h : At w X Γ (depth + 1)) {v : ValueId} (hv : w.HoldsAt X w.here v .bool) :
    ∃ (x : BlockId) (w₁ : World),
      Lower.loopExit.run.run (w.withBlock w.knownHere).toLowerState = .ok (some x, w₁.toLowerState) ∧
      (Emit.branch v ⟨w.blockCount⟩ x).run w₁.builder = .ok ((), (w₁.close (.branch v ⟨w.blockCount⟩ x)).builder) ∧
      Leads w (w₁.close (.branch v ⟨w.blockCount⟩ x)) X true {w.blockCount} ∧
      At ((w₁.close (.branch v ⟨w.blockCount⟩ x)).goingOn ⟨w.blockCount⟩) X Γ (depth + 1) := by
  obtain ⟨target, outer, hloops⟩ := h.loop_around (Nat.succ_pos depth)
  have hhere : w.here < w.blockCount := h.valid.laid.here
  have g := grows_withBlock w w.knownHere
  have hl := (Leads.refl h true).withBlock h.lt_of_knownHere
  have hi : (w.withBlock w.knownHere).here ∈ insert w.blockCount ({w.here} : Set Nat) := .inr rfl
  have hcount : w.blockCount < (w.withBlock w.knownHere).blockCount := by
    rw [blockCount_withBlock]
    exact Nat.lt_succ_self _
  obtain ⟨x, w₁, hrun, he⟩ := hl.loopExit hi hloops
  have hreach : w₁.reach w.blockCount = w.knownHere := by
    rw [he.grows.reach_eq (hl.valid.blocks ▸ hcount)]
    exact reach_withBlock h.valid.blocks
  have hheader := h.header_ok (hloops ▸ List.Mem.head _ : target ∈ w.loops)
  have hopen : w₁.terminator w₁.here = none := by
    rw [he.terminators, he.here]
    exact (terminator_withBlock w _ _).trans h.isOpen
  have hv1 := (hv.mono g h.valid.cells fun _ => g.known).mono he.grows hl.valid.cells fun _ => he.grows.known
  have htyped : (branch v ⟨w.blockCount⟩ x).Typed X.sig w₁.typing := hv1.typeOf rfl
  have hleave := hl.leave hi hloops he htyped (fun u hu => by
      obtain rfl := mem_singleton.mp hu
      exact g.known hv.2)
    (by simp [successors]) fun j hj => by
      rcases mem_cons.mp hj with rfl | hj
      · refine ⟨Nat.lt_of_lt_of_le hcount he.grows.blocks, fun u hu => g.known (?_ : u ∈ w.knownHere)⟩
        exact hreach ▸ hu
      · obtain rfl := mem_singleton.mp hj
        refine ⟨he.inRange, fun u hu => g.known (hheader.2 u ?_)⟩
        rw [he.reach, g.reach_eq (h.valid.blocks ▸ hheader.1)] at hu
        exact hu
  have hleads := hleave.of_eq (insert_diff_here hhere)
  have hat := h.enter hleads rfl fun u hu =>
    .inr (.inl (hreach.symm ▸ hu : u ∈ w₁.reach w.blockCount))
  refine ⟨x, w₁, hrun, Emit.run_terminate he.valid.laid hopen _, hleads, ?_⟩
  rwa [show w.env = (w₁.close (.branch v ⟨w.blockCount⟩ x)).env from he.env.symm] at hat

theorem loopEntry_ok {P : Prop} (h : At w X Γ (depth + 1))
    (hcond : infinite = false → Yields X Γ (depth + 1) breaks condition w fun v w' =>
      At w' X Γ (depth + 1) ∧ w'.HoldsAt X w'.here v .bool ∧ P) :
    Ensures X.passesUnit (loopEntry infinite condition) w.toLowerState
      (fun block s' => ∃ w' : World, w'.toLowerState = s' ∧ ∃ flag, Leads w w' X flag {block.index} ∧
        At (w'.goingOn block) X Γ (depth + 1) ∧ (flag = true → infinite = false ∧ P))
      (fun s' => ∃ w' : World, w'.toLowerState = s' ∧ Halt w w' X breaks) := by
  cases infinite with
  | true =>
    obtain ⟨hl, hat⟩ := h.jumpOn false
    have hopen : (w.withBlock w.knownHere).terminator w.here = none :=
      (terminator_withBlock w _ _).trans h.isOpen
    refine .emit Emit.run_newBlock (.emit (Emit.run_terminate h.valid.laid.withBlock hopen _) ?_)
    exact ⟨_, rfl, false, hl, hat, fun hf => by cases hf⟩
  | false =>
    refine .bind (Ensures.mono (hcond rfl) ?_ fun _ hs => hs)
    rintro v s ⟨w₁, rfl, hf, hat, hv, hP⟩
    obtain ⟨x, w2, hexit, hbranch, hl, hbody⟩ := hat.branchLoop hv
    refine .emit Emit.run_newBlock (.step hexit (.emit hbranch ?_))
    refine ⟨_, rfl, true, ?_, hbody, fun _ => ⟨rfl, hP⟩⟩
    refine (((hf.leads hat).mono fun _ => rfl).trans rfl hl).of_eq ?_
    ext i
    constructor
    · rintro (⟨hi, hne⟩ | hi)
      · exact absurd hi hne
      · exact hi
    · exact .inr

/-- Control goes on after a loop if its condition is computed or a `break` leaves it. -/
theorem yields_whileLoop {body : Lower Lowered} {P : Prop} {breaks1 breaks2 : Bool} (h : At w X Γ depth)
    (hcond : ∀ w', infinite = false → At w' X Γ (depth + 1) →
      Yields X Γ (depth + 1) breaks1 condition w' fun v w' =>
        At w' X Γ (depth + 1) ∧ w'.HoldsAt X w'.here v .bool ∧ P)
    (hbody : ∀ w', At w' X Γ (depth + 1) → Yields X Γ (depth + 1) breaks2 body w' fun _ w' => At w' X Γ (depth + 1)) :
    Yields X Γ depth breaks (whileLoop infinite condition body) w fun a w' => AtLowered X Γ depth .unit a w' ∧
        (breaks1 = true ∨ breaks2 = true ∨ infinite = false ∧ P) := by
  obtain ⟨hat, hstart⟩ := h.looped breaks
  have hopen : (w.withBlock w.knownHere).terminator w.here = none :=
    (terminator_withBlock w _ _).trans h.isOpen
  refine Ensures.emit Emit.run_newBlock (.emit (Emit.run_terminate h.valid.laid.withBlock hopen _)
    (.emit Emit.run_switchTo (.get (.change (.attempt (s := w.looped.toLowerState)
      (loopEntry_ok hat fun hi => hcond _ hi hat) ?_ ?_)))))
  · rintro block s ⟨w₁, rfl, flag, hl, hbl, hflag⟩
    have hgo : Leads w.looped (w₁.goingOn block) X (flag || breaks2) {block.index} :=
      (hl.goingOn w₁.env block (hl.ends _ rfl).2.1).mono fun hf => by rw [hf, Bool.true_or]
    have hG : (flag || breaks2) = true → breaks1 = true ∨ breaks2 = true ∨ infinite = false ∧ P := fun hb =>
      ((Bool.or_eq_true _ _).mp hb).elim (fun hf => .inr (.inr (hflag hf))) fun hb => .inr (.inl hb)
    -- The body halts, or its end goes back to the start of the loop.
    have hafter : ∀ {w2 : World}, Halt (w₁.goingOn block) w2 X breaks2 → Leads w.looped w2 X (flag || breaks2) ∅ := by
      intro w2 hh
      refine (hgo.trans rfl (hh.leads.mono fun hb => by rw [hb, Bool.or_true])).of_eq ?_
      ext i
      exact ⟨fun hi => hi.elim (fun hi => hi.2 hi.1) id, fun hi => absurd hi id⟩
    refine .emit Emit.run_switchTo (.attempt (s := (w₁.goingOn block).toLowerState) (hbody _ hbl) ?_ ?_)
    · rintro a s ⟨w2, rfl, hf, hat2⟩
      have hheader : ∃ target ∈ w2.loops, target.header = ⟨w.blockCount⟩ := by
        refine mem_map.mp ?_
        rw [hf.kept.headers_eq, show (w₁.goingOn block).loops = w₁.loops from rfl, hl.kept.headers_eq]
        exact .head _
      obtain ⟨target, hmem, htarget⟩ := hheader
      have hh := hat2.halt (t := .jump ⟨w.blockCount⟩) trivial (by simp [operands]) (fun j hj => by
          obtain rfl := mem_singleton.mp hj
          exact htarget ▸ hat2.header_ok hmem) breaks2
      refine .emit (Emit.run_terminate hat2.valid.laid hat2.isOpen _) ?_
      exact h.afterLoop (hafter (hf.halt hh)) hh.stopped hG
    · rintro s ⟨w2, rfl, hh⟩
      exact h.afterLoop (hafter hh) hh.stopped hG
  · rintro s ⟨w₁, rfl, hh⟩
    exact h.afterLoop hh.leads hh.stopped fun hb => .inl hb

end World

end SsaCompiler
