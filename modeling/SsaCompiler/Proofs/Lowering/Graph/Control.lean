import SsaCompiler.Proofs.Lowering.Graph.Flows

/-!
# Control structures and the control flow graph

The blocks of a control structure are made before control is led to them (`LowerState.Prepared`); when
the current block ends, all of them are reached (`Prepared.leave`). Each way through the structure is
then lowered in its own block and leaves the others as they are.
-/

namespace SsaCompiler

open List FunctionBuilder
open BlockId (index)

open World (exits mem_exits LoopsKept)
open FunctionBuilder.Leads (Ends)

namespace LowerState

variable {s s' s'' : LowerState} {fresh : Set Nat}

/-- Some blocks were made to lead control to from the current one. -/
structure Prepared (s s' : LowerState) (fresh : Set Nat) : Prop extends Open s' where
  leads : s.builder.Leads s'.builder s.targets fresh
  kept : LoopsKept true s.builder.blocks.size s.loops s'.loops
  current : s'.builder.current = s.builder.current

namespace Prepared

theorem refl (h : s.Open) : Prepared s s ∅ := ⟨h, .refl .., .refl .., rfl⟩

theorem here (h : Prepared s s' fresh) : s'.builder.here = s.builder.here := congrArg index h.current

theorem withBlock (h : Prepared s s' fresh) :
    Prepared s { s' with builder := s'.builder.withBlock } (insert s'.builder.blocks.size fresh) where
  graph := h.graph.withBlock
  loops := h.loops.withBlock
  isOpen := terminator_withBlock.trans h.isOpen
  notExit := h.notExit
  leads := h.leads.withBlock
  kept := h.kept
  current := h.current

theorem leave (h : Prepared s s' fresh) {t : Terminator} (ht : t ≠ .unreachable)
    (hf : ∀ i ∈ fresh, BlockId.mk i ∈ t.successors)
    (hs : ∀ j ∈ t.successors, (s.builder.blocks.size ≤ j.index ∨ j ∈ s.targets) ∧ j.index ≠ 0 ∧
      j.index < s'.builder.blocks.size ∧ NoPhi (s'.builder.code j.index)) :
    Reached s { s' with builder := s'.builder.close t } where
  sound := by
    have hself : s'.builder.Leads (s'.builder.close t) Set.univ ∅ :=
      (Leads.refl ..).close h.graph.laid h.isOpen (.inl rfl) fun _ _ => .inr trivial
    exact ⟨h.graph.close h.isOpen ht fun j hj => (hs j hj).2, h.loops.mono hself h.notExit⟩
  leads := by
    have hl := h.leads.close h.graph.laid h.isOpen (.inl h.here) fun j hj => (hs j hj).1
    refine hl.settle fun i hi => ⟨s'.builder.here, ?_, .inl h.here⟩
    exact edge_close.mpr (.inr ⟨rfl, hf i hi⟩)
  kept := h.kept
  here := .inl ((here_close ..).trans h.here)

end Prepared

theorem Reached.goingOn (h : Reached s s') {i : BlockId} (hi : Ends s.builder s'.builder ∅ i.index)
    (hlt : i.index < s'.builder.blocks.size) : Reached s { s' with builder := s'.builder.goingOn i } where
  sound := ⟨h.sound.graph.goingOn hlt, ⟨h.sound.loops.headers, h.sound.loops.exits⟩⟩
  leads := h.leads.goingOn
  kept := h.kept
  here := hi.imp_right And.left

theorem Reached.withValue (h : Reached s s') {kind : ValueKind} {type : IrType} :
    Reached s { s' with builder := s'.builder.withValue kind type } where
  sound :=
    ⟨(Quiet.withValue h.sound.graph.laid kind type).keeps h.sound.graph, ⟨h.sound.loops.headers, h.sound.loops.exits⟩⟩
  leads := h.leads.andThen h.ends ((Quiet.withValue h.sound.graph.laid kind type).leads _) (targets_kept h.kept)
  kept := h.kept
  here := h.here

theorem Sound.lt_of_target (h : s.Sound) {x : BlockId} (hx : x ∈ s.targets) :
    x.index < s.builder.blocks.size := (h.target hx).2.1

end LowerState

namespace Lower

open LowerState

variable {s s1 s2 s' : LowerState} {lowered : Lower Lowered} {r : Option (Option Arm)}
variable {targets : Set BlockId} {arms : List Arm} {v : ValueId} {env : Env} {block : BlockId}

theorem WayOpen.leads {b b' : FunctionBuilder} {loops loops' : List LoopTarget} {other : BlockId}
    (h : WayOpen b loops other) (hl : (b.goingOn block).Leads b' targets ∅)
    (hk : LoopsKept true b.blocks.size loops loops') (hne : other.index ≠ block.index) : WayOpen b' loops' other := by
  obtain ⟨hlt, ho, hx⟩ := h
  exact ⟨Nat.lt_of_lt_of_le hlt hl.size, (hl.same _ hlt hne).2.trans ho, hk.not_mem_exits hlt hx⟩

theorem Entered.leads {b b' : FunctionBuilder} {other : BlockId}
    {sources : Set Nat} (h : Entered b other sources) (hl : (b.goingOn block).Leads b' targets ∅)
    (hne : other.index ≠ block.index) (ht : other ∉ targets) : Entered b' other sources where
  notEntry := h.notEntry
  inRange := Nat.lt_of_lt_of_le h.inRange hl.size
  empty := (hl.same _ h.inRange hne).1.trans h.empty
  edge_iff i := by
    rw [← h.edge_iff i]
    refine ⟨fun he => ?_, fun he => hl.edge he⟩
    rcases hl.newEdge he with he | hlt | hm
    · exact he
    · exact absurd h.inRange (Nat.not_lt_of_le hlt)
    · exact absurd hm ht

theorem arm_reached (h : Reached s s1) (hend : Ends s.builder s1.builder ∅ block.index)
    (hway : WayOpen s1.builder s1.loops block) (hf : Flows lowered)
    (hr : Runs (arm block lowered) s1 r s') : ∃ way, r = some way ∧ Reached s s' ∧ Reached (goingOn s1 block) s' ∧
      ∀ a ∈ way, Open s' ∧ a.isOpen = true ∧ a.block = s'.builder.current := by
  obtain ⟨r', hlowered, rfl⟩ := runs_arm.mp hr
  have hreached := h.goingOn hend hway.1
  obtain ⟨h2, ho⟩ := hf ⟨hreached.sound, hway.2.1, hway.2.2⟩ hlowered
  refine ⟨_, rfl, hreached.trans h2, h2, fun a ha => ?_⟩
  obtain ⟨value, rfl, rfl⟩ := Option.map_eq_some_iff.mp ha
  exact ⟨ho (by simp), rfl, rfl⟩

/-! ## Two ways -/

/-- The current block was ended with a branch to two new blocks. -/
structure Forked (s s' : LowerState) : Prop where
  reached : Reached s s'
  loops : s'.loops = s.loops
  size : s'.builder.blocks.size = s.builder.blocks.size + 2
  isOpen : ∀ i, s.builder.blocks.size ≤ i → s'.builder.terminator i = none
  entered : ∀ i, s.builder.blocks.size ≤ i → i < s.builder.blocks.size + 2 → Entered s'.builder ⟨i⟩ {s.builder.here}

theorem forked_of_open (h : s.Open) {x y : BlockId}
    (hxy : (Terminator.branch v x y).successors.Perm [⟨s.builder.blocks.size⟩, ⟨s.builder.blocks.size + 1⟩]) :
    Forked s { s with builder := s.builder.withBlock.withBlock.close (.branch v x y) } := by
  have hp := ((Prepared.refl h).withBlock).withBlock
  have hlaid := hp.graph.laid
  have hlt := h.graph.laid.here
  have hnew : ∀ i, s.builder.blocks.size ≤ i → s.builder.code i = [] ∧ s.builder.terminator i = none :=
    fun i hi => code_of_size_le hi
  have hsucc : ∀ i, BlockId.mk i ∈ (Terminator.branch v x y).successors ↔
      i = s.builder.blocks.size ∨ i = s.builder.blocks.size + 1 := fun i => by
    rw [hxy.mem_iff]
    simp
  refine ⟨hp.leave (by simp) (fun i hi => (hsucc i).mpr ?_) (fun j hj => ?_), rfl, by simp, fun i hi => ?_,
    fun i hi hi' => ⟨by simp; omega, by simp at hi' ⊢; omega, ?_, fun j => ?_⟩⟩
  · simpa [or_comm] using hi
  · have hj := (hsucc j.index).mp hj
    refine ⟨.inl (by omega), by omega, by simp; omega, ?_⟩
    simp only [code_withBlock]
    rw [(hnew _ (by omega)).1]
    exact .nil
  · rw [terminator_close hlaid, if_neg (by simp; omega)]
    simpa using (hnew i hi).2
  · rw [code_close hlaid]
    simpa using (hnew i hi).1
  · rw [edge_close]
    constructor
    · rintro (he | ⟨rfl, -⟩)
      · have := (h.graph.target (show s.builder.Edge j i from he)).2
        omega
      · exact rfl
    · rintro rfl
      exact .inr ⟨rfl, (hsucc i).mpr (by omega)⟩

theorem second_new {n : Nat} : n ≤ (BlockId.mk (n + 1)).index ∧ (BlockId.mk (n + 1)).index < n + 2 :=
  ⟨Nat.le_succ n, Nat.lt_succ_self _⟩

/-- One of the two blocks is where a way is lowered, the other is where it meets the way from the
branch. -/
theorem Forked.meeting (hs : s.Open) (h : Forked s s1) {x merge : BlockId}
    (hx : s.builder.blocks.size ≤ x.index ∧ x.index < s.builder.blocks.size + 2)
    (hm : s.builder.blocks.size ≤ merge.index ∧ merge.index < s.builder.blocks.size + 2)
    (hne : merge.index ≠ x.index) (hf : Flows lowered)
    (hr : Runs (arm x lowered) s1 r s') : ∃ way, r = some way ∧ ∀ short : Arm, short.isOpen = false →
      short.block = s.builder.current → ∀ arms : List Arm, arms.Perm (short :: way.toList) →
      Meeting s s' ∅ merge arms := by
  have hexit : ∀ x ∈ s1.targets, x.index < s.builder.blocks.size := fun x hx => by
    have hx : x ∈ s.targets := by
      unfold LowerState.targets at hx ⊢
      rwa [h.loops] at hx
    exact hs.lt_of_target hx
  have hhere := hs.graph.laid.here
  have hway : WayOpen s1.builder s1.loops x :=
    ⟨by rw [h.size]; exact hx.2, h.isOpen _ hx.1, fun hm => Nat.not_lt_of_le hx.1 (hexit x (.inr hm))⟩
  obtain ⟨way, rfl, hreached, hled, hopen⟩ := arm_reached h.reached (.inr ⟨hx.1, hway.1, by simp⟩) hway hf hr
  refine ⟨way, rfl, fun short hshort hblock arms harms => ?_⟩
  have hends : s'.builder.here = x.index ∨ s.builder.blocks.size + 2 ≤ s'.builder.here :=
    hled.here.imp_right fun hle => h.size ▸ hle
  have hmem : ∀ a ∈ arms, a = short ∨ a ∈ way := fun a ha => by simpa using harms.mem_iff.mp ha
  have hdistinct : ((short :: way.toList).map (·.block)).Nodup := by
    cases way with
    | none => simp
    | some a =>
      have ha := (hopen a rfl).2.2
      simp only [Option.toList_some, map_cons, map_nil, nodup_cons, mem_singleton,
        not_mem_nil, not_false_eq_true, nodup_nil, and_true, hblock, ha]
      intro he
      have he : s.builder.here = s'.builder.here := congrArg index he
      omega
  exact {
    sound := hreached.sound
    leads := hreached.leads
    kept := hreached.kept
    onlyFresh := by simp
    new := hm.1
    isOpen := (hled.leads.same _ (by rw [show (goingOn s1 x).builder.blocks.size = _ from h.size]; exact hm.2)
      hne).2.trans (h.isOpen _ hm.1)
    notTarget := fun ht => by
      rcases targets_kept hled.kept merge ht with ht | hle
      · exact Nat.not_lt_of_le hm.1 (hexit merge ht)
      · have hle : s1.builder.blocks.size ≤ merge.index := hle
        rw [h.size] at hle
        omega
    entered := by
      have he := (h.entered merge.index hm.1 hm.2).leads hled.leads hne fun ht =>
        Nat.not_lt_of_le hm.1 (hexit merge ht)
      convert he using 1
      ext i
      constructor
      · rintro ⟨a, ha, ho, rfl⟩
        rcases hmem a ha with rfl | ha
        · exact congrArg index hblock
        · rw [(hopen a ha).2.1] at ho
          cases ho
      · rintro rfl
        exact ⟨short, harms.mem_iff.mpr (.head _), hshort, congrArg index hblock⟩
    distinct := (harms.map _).nodup_iff.mpr hdistinct
    ends := fun a ha => by
      rcases hmem a ha with rfl | ha
      · exact .inl (congrArg index hblock)
      · rw [(hopen a ha).2.2]
        exact hreached.ends
    ways := fun a ha ho => by
      rcases hmem a ha with rfl | ha
      · rw [hshort] at ho
        cases ho
      · obtain ⟨hopen, -, he⟩ := hopen a ha
        rw [he]
        refine ⟨⟨hopen.graph.laid.here, hopen.isOpen, hopen.notExit⟩, fun hmerge => ?_⟩
        have hmerge : s'.builder.here = merge.index := congrArg index hmerge
        omega }

theorem Branched.forked (hs : s.Open) {x y : BlockId} {b : FunctionBuilder} (h : Branched s v x y b)
    (hxy : [x, y].Perm [⟨s.builder.blocks.size⟩, ⟨s.builder.blocks.size + 1⟩]) : Forked s { s with builder := b } := by
  obtain ⟨-, rfl⟩ := Emit.eq_of_terminate ((Prepared.refl hs).withBlock).withBlock.graph.laid h
  exact forked_of_open hs hxy

theorem Forked.withValue (h : Forked s s1) (kind : ValueKind) (type : IrType) :
    Forked s { s1 with builder := s1.builder.withValue kind type } where
  reached := h.reached.withValue
  loops := h.loops
  size := h.size
  isOpen := h.isOpen
  entered i hi hi' := { h.entered i hi hi' with }

theorem Asks.runs_bind {α β : Type} {step : Lower α} {next : α → Lower β} {r : Option β} (h : Asks step)
    (hr : Runs (step >>= next) s r s') : ∃ a, Runs step s (some a) s ∧ Runs (next a) s r s' := by
  rcases Lower.runs_bind.mp hr with ⟨a, s1, hstep, hnext⟩ | ⟨-, hstep⟩
  · obtain ⟨-, rfl⟩ := h hstep
    exact ⟨a, hstep, hnext⟩
  · exact absurd rfl (h hstep).1

theorem Meeting.withEnv {fresh : Set Nat} {merge : BlockId}
    (h : Meeting s s' fresh merge arms) : Meeting s { s' with env := env } fresh merge arms :=
  { h with sound := { h.sound with } }

namespace Flows

variable {lhs rhs condition : Lower ValueId} {thenBranch elseBranch : Lower Lowered} {type : Lower (Option IrType)}

theorem logical {op : BinaryOp} (hl : Flows lhs) (hr : Flows rhs) : Flows (logical op lhs rhs) :=
  fun s r s' hs hrun => by
    rcases runs_logical hrun with ⟨rfl, hleft⟩ | ⟨left, s1, b, way, s2, hleft, hbranch, harm, hjoin⟩
    · exact ⟨(hl hs hleft).1, fun hne => absurd rfl hne⟩
    · obtain ⟨h1, ho1⟩ := hl hs hleft
      have ho1 := ho1 (by simp)
      have hforked : Forked s1 { s1 with builder := b } := by
        split at hbranch
        · exact hbranch.forked ho1 (.swap ..)
        · exact hbranch.forked ho1 (.refl _)
      have hforked := hforked.withValue (.const (.bool (decide (op = .or)))) .bool
      obtain ⟨_, he, hmeeting⟩ := hforked.meeting ho1 (by simp) second_new (by simp) hr.map harm
      cases he
      obtain ⟨h2, ho2⟩ := (hmeeting _ rfl rfl _ (.refl _)).join hjoin
      exact ⟨h1.trans h2, fun _ => ho2⟩

theorem ifThen (hc : Flows condition) (ht : Flows thenBranch) (htype : Asks type) :
    Flows (ifThen condition thenBranch type) := fun s r s' hs hrun => by
  rcases runs_ifThen hrun with ⟨rfl, hcond⟩ | ⟨v, s1, b, way, s2, hcond, hbranch, harm, hjoin⟩
  · exact ⟨(hc hs hcond).1, fun hne => absurd rfl hne⟩
  · obtain ⟨h1, ho1⟩ := hc hs hcond
    have ho1 := ho1 (by simp)
    obtain ⟨_, he, hmeeting⟩ := (hbranch.forked ho1 (.refl _)).meeting ho1 (by simp) second_new (by simp) ht harm
    cases he
    obtain ⟨type, -, hjoin⟩ := htype.runs_bind hjoin
    obtain ⟨h2, ho2⟩ := ((hmeeting _ rfl rfl _ perm_append_comm).withEnv).join hjoin
    exact ⟨h1.trans h2, fun _ => ho2⟩

end Flows

/-- Ways that are all open meet at a new block. -/
theorem meeting_of_reached (h : Reached s s') (hd : (arms.map (·.block)).Nodup)
    (hw : ∀ a ∈ arms, a.isOpen = true ∧ s.builder.blocks.size ≤ a.block.index ∧ WayOpen s'.builder s'.loops a.block) :
    Meeting s { s' with builder := s'.builder.withBlock, env := env } {s'.builder.blocks.size}
      ⟨s'.builder.blocks.size⟩ arms := by
  obtain ⟨hcode, hterm⟩ := code_of_size_le (b := s'.builder) (Nat.le_refl _)
  have hlt := h.sound.graph.laid.here
  exact {
    sound := ⟨h.sound.graph.withBlock, h.sound.loops.withBlock⟩
    leads := by simpa using h.leads.withBlock
    kept := h.kept
    onlyFresh := fun i hi => hi
    new := h.leads.size
    isOpen := terminator_withBlock.trans hterm
    notTarget := fun ht => Nat.lt_irrefl _ (h.sound.lt_of_target ht)
    entered := by
      refine ⟨show s'.builder.blocks.size ≠ 0 by omega, by simp, code_withBlock.trans hcode,
        fun i => ⟨fun he => ?_, ?_⟩⟩
      · exact absurd (h.sound.graph.target he).2 (Nat.lt_irrefl _)
      · rintro ⟨a, ha, ho, -⟩
        rw [(hw a ha).1] at ho
        cases ho
    distinct := hd
    ends := fun a ha => by
      obtain ⟨-, hle, hlt, -⟩ := hw a ha
      exact .inr ⟨hle, by simp; omega, fun he => Nat.ne_of_lt hlt he⟩
    ways := fun a ha _ => by
      obtain ⟨-, -, hlt, ho, hx⟩ := hw a ha
      refine ⟨⟨by simp; omega, terminator_withBlock.trans ho, hx⟩, fun he => ?_⟩
      exact Nat.ne_of_lt hlt (congrArg index he) }

theorem Flows.ifThenElse {condition : Lower ValueId} {thenBranch elseBranch : Lower Lowered}
    {type : Lower (Option IrType)} (hc : Flows condition) (ht : Flows thenBranch) (he : Flows elseBranch)
    (htype : Asks type) : Flows (ifThenElse condition thenBranch elseBranch type) :=
  fun s r s' hs hrun => by
    rcases runs_ifThenElse hrun with ⟨rfl, hcond⟩ | ⟨v, s1, b, way, s2, way', s3, hcond, hbranch, harm, harm', hend⟩
    · exact ⟨(hc hs hcond).1, fun hne => absurd rfl hne⟩
    · obtain ⟨h1, ho1⟩ := hc hs hcond
      have ho1 := ho1 (by simp)
      have hforked := hbranch.forked ho1 (.refl _)
      have hblock : ∀ i, s1.builder.blocks.size ≤ i → i < s1.builder.blocks.size + 2 →
          WayOpen b s1.loops ⟨i⟩ := fun i hle hlt =>
        ⟨hforked.size ▸ hlt, hforked.isOpen i hle, fun hx =>
          Nat.not_lt_of_le hle (ho1.lt_of_target (.inr hx))⟩
      obtain ⟨_, hway, h2, hled, hopen⟩ := arm_reached hforked.reached
        (.inr ⟨Nat.le_refl _, (hblock _ (by simp) (by simp)).1, by simp⟩) (hblock _ (by simp) (by simp)) ht harm
      cases hway
      have hother : WayOpen s2.builder s2.loops ⟨s1.builder.blocks.size + 1⟩ :=
        (hblock _ (by simp) (by simp)).leads hled.leads hled.kept (by simp)
      have h2' : Reached s1 { s2 with env := s1.env } := { h2 with sound := { h2.sound with } }
      obtain ⟨_, hway', h3, hled', hopen'⟩ := arm_reached h2' (.inr ⟨by simp, hother.1, by simp⟩) hother he harm'
      cases hway'
      rcases hend with ⟨-, -, rfl, rfl⟩ | ⟨-, hjoin⟩
      · exact ⟨h1.trans { h3 with sound := { h3.sound with } }, fun hne => absurd rfl hne⟩
      · obtain ⟨type, -, hjoin⟩ := htype.runs_bind hjoin
        have hsize2 : s1.builder.blocks.size + 2 ≤ s2.builder.blocks.size := hforked.size ▸ hled.leads.size
        have hhere : ∀ a ∈ way, a.block.index = s1.builder.blocks.size ∨
            s1.builder.blocks.size + 2 ≤ a.block.index := fun a ha => by
          rw [(hopen a ha).2.2, ← hforked.size]
          exact hled.here
        have hhere' : ∀ a ∈ way', a.block.index = s1.builder.blocks.size + 1 ∨
            s2.builder.blocks.size ≤ a.block.index := fun a ha => by
          rw [(hopen' a ha).2.2]
          exact hled'.here
        have hfirst : ∀ a ∈ way, WayOpen s2.builder s2.loops a.block := fun a ha => by
          obtain ⟨ho, -, hblock⟩ := hopen a ha
          exact hblock ▸ ⟨ho.graph.laid.here, ho.isOpen, ho.notExit⟩
        have hways : ∀ a ∈ way.toList ++ way'.toList, a.isOpen = true ∧
            s1.builder.blocks.size ≤ a.block.index ∧ WayOpen s3.builder s3.loops a.block := by
          intro a ha
          rcases mem_append.mp ha with ha | ha
          · have ha := Option.mem_toList.mp ha
            have hne := hhere a ha
            exact ⟨(hopen a ha).2.1, by omega, (hfirst a ha).leads hled'.leads hled'.kept (by simp; omega)⟩
          · have ha := Option.mem_toList.mp ha
            obtain ⟨ho, hopened, hblock⟩ := hopen' a ha
            have hne := hhere' a ha
            exact ⟨hopened, by omega, hblock ▸ ⟨ho.graph.laid.here, ho.isOpen, ho.notExit⟩⟩
        have hdistinct : ((way.toList ++ way'.toList).map (·.block)).Nodup := by
          cases way with
          | none => cases way' <;> simp
          | some a =>
            cases way' with
            | none => simp
            | some a' =>
              have hlt := (hfirst a rfl).1
              have hne := hhere a rfl
              have hne' := hhere' a' rfl
              simp only [Option.toList_some, singleton_append, map_cons, map_nil,
                nodup_cons, mem_singleton, not_mem_nil, not_false_eq_true, nodup_nil, and_true]
              intro heq
              have heq : a.block.index = a'.block.index := congrArg index heq
              omega
        obtain ⟨h4, ho4⟩ := (meeting_of_reached h3 hdistinct hways).join hjoin
        exact ⟨h1.trans h4, fun _ => ho4⟩

/-! ## Loops

The start of a loop is a new block without phis, so that edges back to it change nothing. The block after a loop is
made when something first leaves the loop, and nothing stands in it until the loop is lowered. -/

open Terminator

variable {s0 : LowerState} {fresh : Set Nat}
variable {condition : Lower ValueId} {body : Lower Lowered} {b : FunctionBuilder} {isInfinite : Bool}

theorem loopExit_prepared (h : Prepared s s1 fresh) {x : BlockId} (hr : Runs loopExit s1 (some x) s') :
    ∃ fresh', Prepared s s' fresh' ∧ (∀ i ∈ fresh', i ∈ fresh ∨ i = x.index) ∧
      (s.builder.blocks.size ≤ x.index ∨ x ∈ s.targets) ∧ x.index ≠ 0 ∧ x.index < s'.builder.blocks.size ∧
      s'.builder.code x.index = [] ∧ s1.builder.blocks.size ≤ s'.builder.blocks.size ∧
      (∀ i, s'.builder.code i = s1.builder.code i ∧ s'.builder.terminator i = s1.builder.terminator i) ∧
      LoopsKept true s1.builder.blocks.size s1.loops s'.loops := by
  obtain ⟨t, outer, x', hloops, he, ⟨hx, rfl⟩ | ⟨hx, rfl, rfl⟩⟩ := runs_loopExit hr
  · cases he
    have hm : x ∈ exits s'.loops := mem_exits.mpr ⟨t, hloops ▸ .head _, hx⟩
    obtain ⟨hne, hlt, hc, -⟩ := h.loops.exits x hm
    exact ⟨fresh, h, fun _ => .inl, (targets_kept h.kept x (.inr hm)).symm, hne, hlt, hc, Nat.le_refl _,
      fun _ => ⟨rfl, rfl⟩, .refl ..⟩
  · cases he
    have hnew := code_of_size_le (b := s1.builder) (Nat.le_refl _)
    have hp := h.withBlock
    have hlt := h.graph.laid.here
    have hexits : ∀ y, y ∈ exits (⟨t.header, some ⟨s1.builder.blocks.size⟩⟩ :: outer) ↔
        y = ⟨s1.builder.blocks.size⟩ ∨ y ∈ exits s1.loops := fun y => by
      rw [hloops]
      simp [exits, hx]
    refine ⟨_, {
      graph := hp.graph
      loops := ⟨fun t' ht => ?_, fun y hy => ?_⟩
      isOpen := hp.isOpen
      notExit := fun hm => ?_
      leads := hp.leads
      kept := h.kept.trans (.inr ⟨rfl, t, outer, _, hloops, hx, rfl, Nat.le_refl _⟩) h.leads.size
      current := hp.current }, fun i hi => ?_, .inl h.leads.size, show s1.builder.blocks.size ≠ 0 by omega,
      by simp, code_withBlock.trans hnew.1, by simp, fun i => ?_,
      .inr ⟨rfl, t, outer, _, hloops, hx, rfl, Nat.le_refl _⟩⟩
    · rcases mem_cons.mp ht with rfl | ht
      · exact hp.loops.headers t (hloops ▸ .head _)
      · exact hp.loops.headers t' (hloops ▸ .tail _ ht)
    · rcases (hexits y).mp hy with rfl | hy
      · refine ⟨show s1.builder.blocks.size ≠ 0 by omega, by simp, ?_, ?_⟩
        · exact code_withBlock.trans hnew.1
        · exact terminator_withBlock.trans hnew.2
      · exact hp.loops.exits y hy
    · rcases (hexits _).mp hm with he | hm
      · exact Nat.ne_of_lt hlt (congrArg BlockId.index he)
      · exact h.notExit hm
    · exact (Set.mem_insert_iff.mp hi).symm
    · exact ⟨code_withBlock, terminator_withBlock⟩

namespace Flows

theorem breakLoop : Flows breakLoop := fun s r s' hs hr => by
  obtain ⟨rfl, x, s1, b, hexit, hjump, rfl⟩ := runs_breakLoop hr
  obtain ⟨fresh, hp, hfresh, htarget, hne, hlt, hc, -⟩ := loopExit_prepared (.refl hs) hexit
  obtain ⟨-, rfl⟩ := Emit.eq_of_terminate hp.graph.laid hjump
  refine ⟨hp.leave (by simp) (fun i hi => ?_) (fun j hj => ?_), fun hne => absurd rfl hne⟩
  · obtain rfl : i = x.index := (hfresh i hi).resolve_left (by simp)
    simp [successors]
  · obtain rfl : j = x := by simpa [successors] using hj
    exact ⟨htarget, hne, hlt, hc ▸ .nil⟩

theorem continueLoop : Flows continueLoop := fun s r s' hs hr => by
  obtain ⟨rfl, t, outer, b, hloops, hjump, rfl⟩ := runs_continueLoop hr
  obtain ⟨-, rfl⟩ := Emit.eq_of_terminate hs.graph.laid hjump
  refine ⟨(Prepared.refl hs).leave (by simp) (by simp) (fun j hj => ?_), fun hne => absurd rfl hne⟩
  obtain rfl : j = t.header := by simpa [successors] using hj
  have ht : t ∈ s.loops := hloops ▸ .head _
  exact ⟨.inr (.inl ⟨t, ht, rfl⟩), hs.loops.headers t ht⟩

end Flows

/-- Where the body of a loop is lowered. -/
structure BodyAt (s s' : LowerState) (block : BlockId) : Prop where
  ends : Ends s.builder s'.builder ∅ block.index
  way : WayOpen s'.builder s'.loops block

theorem jump_reaches (h : s.Open) (hr : (Emit.jump ⟨s.builder.blocks.size⟩).run s.builder.withBlock = .ok ((), b)) :
    Reached s { s with builder := b } ∧ BodyAt s { s with builder := b } ⟨s.builder.blocks.size⟩ ∧
      b.code s.builder.blocks.size = [] := by
  have hp := (Prepared.refl h).withBlock
  have hnew := code_of_size_le (b := s.builder) (Nat.le_refl _)
  have hlt := h.graph.laid.here
  obtain ⟨-, rfl⟩ := Emit.eq_of_terminate hp.graph.laid hr
  have hreached := hp.leave (t := .jump ⟨s.builder.blocks.size⟩) (by simp) (fun i hi => by
      simpa [successors] using hi) fun j hj => by
    obtain rfl : j = ⟨s.builder.blocks.size⟩ := by simpa [successors] using hj
    refine ⟨.inl (Nat.le_refl _), show s.builder.blocks.size ≠ 0 by omega, by simp, ?_⟩
    exact (code_withBlock.trans hnew.1) ▸ .nil
  refine ⟨hreached, ⟨.inr ⟨Nat.le_refl _, by simp, by simp⟩, by simp, ?_, fun hx => ?_⟩, ?_⟩
  · refine (terminator_close hp.graph.laid).trans ((if_neg ?_).trans ?_)
    · exact (Nat.ne_of_lt hlt).symm
    · exact terminator_withBlock.trans hnew.2
  · exact Nat.lt_irrefl _ (h.lt_of_target (.inr hx))
  · rw [code_close hp.graph.laid]
    exact code_withBlock.trans hnew.1

/-- The start of a loop leads to its body, if control gets there. -/
theorem loopEntry_reaches {r : Option BlockId} (hc : Flows condition) (hs : s.Open)
    (hr : Runs (loopEntry isInfinite condition) s r s') : Reached s s' ∧ ∀ block ∈ r, BodyAt s s' block := by
  rcases runs_loopEntry hr with ⟨-, rfl, b, hjump, rfl⟩ | ⟨-, ⟨rfl, hcond⟩ |
    ⟨v, s1, x, s2, b, hcond, rfl, hexit, hbranch, rfl⟩⟩
  · obtain ⟨h, hbody, -⟩ := jump_reaches hs hjump
    exact ⟨h, by simpa using hbody⟩
  · exact ⟨(hc hs hcond).1, by simp⟩
  · obtain ⟨h1, ho1⟩ := hc hs hcond
    have ho1 := ho1 (by simp)
    have hnew := code_of_size_le (b := s1.builder) (Nat.le_refl _)
    have hlt := ho1.graph.laid.here
    obtain ⟨fresh, hp, hfresh, htarget, hne, hltx, hcx, hsize, hsame, hkept⟩ :=
      loopExit_prepared (Prepared.refl ho1).withBlock hexit
    have hsize : s1.builder.blocks.size + 1 ≤ s2.builder.blocks.size := by simpa using hsize
    have hcode : s2.builder.code s1.builder.blocks.size = [] :=
      (hsame _).1.trans (code_withBlock.trans hnew.1)
    have hopen : s2.builder.terminator s1.builder.blocks.size = none :=
      (hsame _).2.trans (terminator_withBlock.trans hnew.2)
    obtain ⟨-, rfl⟩ := Emit.eq_of_terminate hp.graph.laid hbranch
    have hleft := hp.leave (t := .branch v ⟨s1.builder.blocks.size⟩ x) (by simp) (fun i hi => by
        rcases hfresh i hi with hi | rfl
        · obtain rfl : i = s1.builder.blocks.size := by simpa using hi
          simp [successors]
        · simp [successors]) fun j hj => by
      rcases mem_cons.mp hj with rfl | hj
      · exact ⟨.inl (Nat.le_refl _), show s1.builder.blocks.size ≠ 0 by omega, hsize, hcode ▸ .nil⟩
      · obtain rfl := mem_singleton.mp hj
        exact ⟨htarget, hne, hltx, hcx ▸ .nil⟩
    refine ⟨h1.trans hleft, fun block hblock => ?_⟩
    obtain rfl : ⟨s1.builder.blocks.size⟩ = block := by simpa using hblock
    refine ⟨.inr ⟨h1.leads.size, by simp; omega, by simp⟩, by simp; omega, ?_, ?_⟩
    · refine (terminator_close hp.graph.laid).trans ((if_neg ?_).trans hopen)
      rw [hp.here]
      exact (Nat.ne_of_lt hlt).symm
    · exact hkept.not_mem_exits (by simp) fun hx => Nat.lt_irrefl _ (ho1.lt_of_target (.inr hx))

theorem open_header (hs : s.Open) (hr : (Emit.jump ⟨s.builder.blocks.size⟩).run s.builder.withBlock = .ok ((), b)) :
    Open { s with
      builder := b.goingOn ⟨s.builder.blocks.size⟩
      loops := ⟨⟨s.builder.blocks.size⟩, none⟩ :: s.loops } := by
  obtain ⟨h, hbody, hcode⟩ := jump_reaches hs hr
  obtain ⟨hlt, ho, hx⟩ := hbody.way
  have hexits : exits (⟨⟨s.builder.blocks.size⟩, none⟩ :: s.loops) = exits s.loops := rfl
  have hpos := hs.graph.laid.here
  refine ⟨⟨h.sound.graph.goingOn hlt, ⟨fun t ht => ?_, fun x hx => ?_⟩⟩, ho, hexits ▸ hx⟩
  · rcases mem_cons.mp ht with rfl | ht
    · exact ⟨show s.builder.blocks.size ≠ 0 by omega, hlt, hcode ▸ .nil⟩
    · exact h.sound.loops.headers t ht
  · exact h.sound.loops.exits x (hexits ▸ hx)

theorem loopRound_reaches {entered : Option BlockId} {header : BlockId} (hc : Flows condition) (hb : Flows body)
    (hs : s.Open) (hheader : header ∈ s.loops.map (·.header)) (hr : Runs (loopEntry isInfinite condition) s entered s1)
    (hround : entered = none ∧ s2 = s1 ∨ ∃ block again s3, entered = some block ∧
      Runs body (goingOn s1 block) again s3 ∧ (again = none ∧ s2 = s3 ∨
        again ≠ none ∧ ∃ b, (Emit.jump header).run s3.builder = .ok ((), b) ∧ s2 = { s3 with builder := b })) :
    Reached s s2 := by
  obtain ⟨h1, hbody⟩ := loopEntry_reaches hc hs hr
  rcases hround with ⟨-, rfl⟩ | ⟨block, again, s3, rfl, hrun, hback⟩
  · exact h1
  · have hat := hbody block rfl
    have hreached := h1.goingOn hat.ends hat.way.1
    obtain ⟨h3, ho3⟩ := hb ⟨hreached.sound, hat.way.2.1, hat.way.2.2⟩ hrun
    have h3 := hreached.trans h3
    rcases hback with ⟨rfl, rfl⟩ | ⟨hne, b, hjump, rfl⟩
    · exact h3
    · have ho3 := ho3 hne
      obtain ⟨-, rfl⟩ := Emit.eq_of_terminate ho3.graph.laid hjump
      refine h3.trans ((Prepared.refl ho3).leave (by simp) (by simp) fun j hj => ?_)
      obtain rfl : j = header := by simpa [successors] using hj
      rw [← h3.kept.headers_eq] at hheader
      obtain ⟨t, ht, rfl⟩ := mem_map.mp hheader
      exact ⟨.inr (.inl ⟨t, ht, rfl⟩), ho3.loops.headers t ht⟩

theorem Flows.whileLoop (hc : Flows condition) (hb : Flows body) : Flows (whileLoop isInfinite condition body) :=
  fun s r s' hs hr => by
    obtain ⟨b, entered, s1, s2, hjump, hentry, hround, hleft⟩ := runs_whileLoop hr
    obtain ⟨h0, hheader, -⟩ := jump_reaches hs hjump
    have h2 := loopRound_reaches hc hb (open_header hs hjump) (by simp) hentry hround
    have hled : s.builder.Leads s2.builder s.targets ∅ := by
      refine h0.leads.andThen hheader.ends h2.leads ?_
      rintro x (⟨t, ht, rfl⟩ | hx)
      · rcases mem_cons.mp ht with rfl | ht
        · exact .inr (Nat.le_refl _)
        · exact .inl (.inl ⟨t, ht, rfl⟩)
      · exact .inl (.inr hx)
    have hhere : s.builder.blocks.size ≤ s2.builder.here := by
      rcases h2.here with he | hle
      · exact Nat.le_of_eq he.symm
      · exact Nat.le_trans h0.leads.size hle
    have htail : s2.loops.tail = s.loops := h2.kept.tail_eq
    have hloops : LoopsLaid s2.builder s.loops := by
      have hl := h2.sound.loops
      cases hcons : s2.loops with
      | nil =>
        have := h2.kept.length_eq
        simp [hcons] at this
      | cons t outer =>
        rw [hcons] at htail hl
        exact htail ▸ hl.tail
    unfold LoopLeft at hleft
    rw [htail] at hleft
    split at hleft
    · obtain ⟨rfl, rfl⟩ := hleft
      exact ⟨⟨⟨h2.sound.graph, hloops⟩, hled, .refl .., .inr hhere⟩, fun hne => absurd rfl hne⟩
    · rename_i x hx
      obtain ⟨rfl, rfl⟩ := hleft
      -- The exit is newer than the exits of the loops around.
      obtain ⟨t, ht, hx⟩ := Option.bind_eq_some_iff.mp hx
      have hm : x ∈ exits s2.loops := mem_exits.mpr ⟨t, mem_of_mem_head? ht, hx⟩
      obtain ⟨-, hlt, -, ho⟩ := h2.sound.loops.exits x hm
      have hnew : b.blocks.size ≤ x.index := by
        rcases h2.kept with he | ⟨-, _, _, x', -, -, he, hle⟩
        · rw [he] at ht
          cases ht
          cases hx
        · rw [he] at ht
          cases ht
          cases hx
          exact hle
      have hle : s.builder.blocks.size ≤ x.index := Nat.le_trans h0.leads.size hnew
      have hsound : Sound { s2 with builder := s2.builder.goingOn x, env := s.env, loops := s.loops } :=
        ⟨h2.sound.graph.goingOn hlt, ⟨hloops.headers, hloops.exits⟩⟩
      refine ⟨⟨hsound, hled.goingOn, .refl .., .inr hle⟩, fun _ => ⟨hsound, ho, fun hx => ?_⟩⟩
      exact Nat.not_lt_of_le hle (hs.lt_of_target (.inr hx))

end Lower

end SsaCompiler
