import Mathlib.Data.Set.Insert
import SsaCompiler.Proofs.Lowering.Lockstep

/-!
# Lowering and the control flow graph

`LowerState.Open` holds wherever something is lowered: the graph so far is exact, the loops around
know where they start and end, and the current block is open. Every step of lowering that succeeds
leads control from there to a place that was reached (`LowerState.Reached`), and if control goes on
then something can be lowered there again. `Lower.Flows` says this of a step; it needs no types.
-/

namespace SsaCompiler

open World (exits mem_exits LoopsKept)
variable {loops : List LoopTarget} {b : FunctionBuilder}

/-- The starts of loops have no phis, and nothing stands at their ends yet. -/
structure LoopsLaid (b : FunctionBuilder) (loops : List LoopTarget) : Prop where
  headers : ∀ t ∈ loops, t.header.index ≠ 0 ∧ t.header.index < b.blocks.size ∧ NoPhi (b.code t.header.index)
  exits : ∀ x ∈ exits loops, x.index ≠ 0 ∧ x.index < b.blocks.size ∧ b.code x.index = [] ∧ b.terminator x.index = none

theorem LoopsLaid.mono {b' : FunctionBuilder} {targets : Set BlockId} {fresh : Set Nat} (h : LoopsLaid b loops)
    (hl : b.Leads b' targets fresh) (hx : b.current ∉ World.exits loops) : LoopsLaid b' loops where
  headers t ht := by
    obtain ⟨hne, hlt, hn⟩ := h.headers t ht
    obtain ⟨more, he, hm⟩ := hl.quiet _ hlt
    exact ⟨hne, Nat.lt_of_lt_of_le hlt hl.size, he ▸ hn.append hm⟩
  exits x hm := by
    obtain ⟨hne, hlt, hc, ho⟩ := h.exits x hm
    have hhere : x.index ≠ b.here := fun he => by
      have he : x = b.current := congrArg BlockId.mk he
      exact hx (he ▸ hm)
    obtain ⟨hc', ho'⟩ := hl.same _ hlt hhere
    exact ⟨hne, Nat.lt_of_lt_of_le hlt hl.size, hc'.trans hc, ho'.trans ho⟩

theorem LoopsLaid.withBlock (h : LoopsLaid b loops) : LoopsLaid b.withBlock loops where
  headers t ht := by
    obtain ⟨hne, hlt, hn⟩ := h.headers t ht
    exact ⟨hne, by simp; omega, by simpa using hn⟩
  exits x hx := by
    obtain ⟨hne, hlt, hc, ho⟩ := h.exits x hx
    exact ⟨hne, by simp; omega, by simpa using hc, by simpa using ho⟩

theorem LoopsLaid.tail {t : LoopTarget} (h : LoopsLaid b (t :: loops)) : LoopsLaid b loops where
  headers t' ht := h.headers t' (.tail _ ht)
  exits x hx := by
    obtain ⟨t', ht, hx⟩ := mem_exits.mp hx
    exact h.exits x (mem_exits.mpr ⟨t', .tail _ ht, hx⟩)

namespace LowerState

variable (s s' : LowerState)

/-- The blocks that control may go to out of the loops around. -/
def targets : Set BlockId := {x | (∃ t ∈ s.loops, t.header = x) ∨ x ∈ exits s.loops}

/-- The graph so far is exact. -/
structure Sound : Prop where
  graph : s.builder.Exact
  loops : LoopsLaid s.builder s.loops

/-- Something can be lowered here. -/
structure Open : Prop extends Sound s where
  isOpen : s.builder.terminator s.builder.here = none
  notExit : s.builder.current ∉ exits s.loops

/-- Control was led from one point to another, or does not go on after it. -/
structure Reached : Prop where
  sound : s'.Sound
  leads : s.builder.Leads s'.builder s.targets ∅
  kept : LoopsKept true s.builder.blocks.size s.loops s'.loops
  here : s'.builder.here = s.builder.here ∨ s.builder.blocks.size ≤ s'.builder.here

variable {s s'} {s1 : LowerState}

theorem Sound.target (h : s.Sound) {x : BlockId} (hx : x ∈ s.targets) :
    x.index ≠ 0 ∧ x.index < s.builder.blocks.size ∧ NoPhi (s.builder.code x.index) := by
  rcases hx with ⟨t, ht, rfl⟩ | hx
  · exact h.loops.headers t ht
  · obtain ⟨hne, hlt, hc, -⟩ := h.loops.exits x hx
    exact ⟨hne, hlt, hc ▸ .nil⟩

theorem targets_kept {n : Nat} (h : LoopsKept true n s.loops s'.loops) :
    ∀ x ∈ s'.targets, x ∈ s.targets ∨ n ≤ x.index := by
  rintro x (⟨t, ht, rfl⟩ | hx)
  · have hm : t.header ∈ s'.loops.map (·.header) := List.mem_map_of_mem ht
    rw [h.headers_eq] at hm
    obtain ⟨t', ht', he⟩ := List.mem_map.mp hm
    exact .inl (.inl ⟨t', ht', he⟩)
  · by_cases hn : x.index < n
    · by_contra hnot
      exact h.not_mem_exits hn (fun hm => hnot (.inl (.inr hm))) hx
    · exact .inr (Nat.le_of_not_lt hn)

namespace Reached

theorem refl (h : s.Sound) : Reached s s := ⟨h, .refl .., .refl .., .inl rfl⟩

theorem ends (h : Reached s s') : FunctionBuilder.Leads.Ends s.builder s'.builder ∅ s'.builder.here :=
  h.here.imp_right fun hle => ⟨hle, h.sound.graph.laid.here, by simp⟩

theorem trans (h : Reached s s1) (h' : Reached s1 s') : Reached s s' where
  sound := h'.sound
  leads := h.leads.andThen h.ends h'.leads (targets_kept h.kept)
  kept := h.kept.trans h'.kept h.leads.size
  here := by
    rcases h'.here with he | hle
    · rw [he]
      exact h.here
    · exact .inr (Nat.le_trans h.leads.size hle)

end Reached

theorem Open.quiet (h : s.Open) (hq : s.builder.Quiet b) :
    Reached s { s with builder := b } ∧ Open { s with builder := b } := by
  have hloops := h.loops.mono (hq.leads s.targets) h.notExit
  refine ⟨⟨⟨hq.keeps h.graph, hloops⟩, hq.leads _, .refl .., .inl hq.here⟩, ⟨⟨hq.keeps h.graph, hloops⟩, ?_, ?_⟩⟩
  · show b.terminator b.here = none
    rw [hq.here, hq.terminator]
    exact h.isOpen
  · show b.current ∉ _
    rw [hq.current]
    exact h.notExit

theorem Open.withEnv (h : s.Open) (env : Env) : Open { s with env := env } := { h with }

end LowerState

namespace Lower

open LowerState

variable {α β : Type}

/-- A step leads control on from wherever something can be lowered. -/
def Flows (step : Lower α) : Prop :=
  ∀ ⦃s r s'⦄, Open s → Runs step s r s' → Reached s s' ∧ (r ≠ none → Open s')

namespace Flows

variable {step : Lower α} {next : α → Lower β}

theorem bind (h : Flows step) (hn : ∀ a, Flows (next a)) : Flows (step >>= next) := fun s r s' hs hr => by
  rcases runs_bind.mp hr with ⟨a, s1, hfirst, hrest⟩ | ⟨rfl, hfirst⟩
  · obtain ⟨h1, ho⟩ := h hs hfirst
    obtain ⟨h2, ho'⟩ := hn a (ho (by simp)) hrest
    exact ⟨h1.trans h2, ho'⟩
  · exact ⟨(h hs hfirst).1, fun hne => absurd rfl hne⟩

theorem pure {a : α} : Flows (Pure.pure a : Lower α) := fun s r s' hs hr => by
  obtain ⟨-, rfl⟩ := runs_pure.mp hr
  exact ⟨.refl hs.toSound, fun _ => hs⟩

theorem fault {fault : Fault} : Flows (Lower.fault fault : Lower α) := fun _ _ _ _ hr =>
  absurd hr not_runs_fault

theorem get {next : LowerState → Lower β} (hn : ∀ s, Flows (next s)) : Flows (MonadState.get >>= next) :=
  fun s _ _ hs hr => hn s hs (runs_get_bind.mp hr)

theorem emit {step : Emit α} (h : step.Quietly) : Flows (emit step) := fun s r s' hs hr => by
  obtain ⟨a, b, hemit, -, rfl⟩ := runs_emit.mp hr
  obtain ⟨h1, ho⟩ := hs.quiet (h hs.graph.laid hemit)
  exact ⟨h1, fun _ => ho⟩

theorem modifyEnv (f : LowerState → Env) : Flows (modify fun s => { s with env := f s }) :=
  fun s r s' hs hr => by
    obtain ⟨-, rfl⟩ := runs_modify.mp hr
    have ho := hs.withEnv (f s)
    exact ⟨{ Reached.refl ho.toSound with }, fun _ => ho⟩

theorem map {f : α → β} (h : Flows step) : Flows (f <$> step) := by exact h.bind fun _ => .pure

theorem inScope (h : Flows step) : Flows (inScope step) := fun s r s' hs hr => by
  obtain ⟨s1, hinside, rfl⟩ := runs_inScope.mp hr
  obtain ⟨h1, ho⟩ := h hs hinside
  exact ⟨{ h1 with sound := { h1.sound with } }, fun hne => (ho hne).withEnv _⟩

end Flows

/-! ## Phis and the blocks before them

Where ways meet, each way ends with an edge to a new block (`closeArms_reaches`), and the phis of that block have one
value for each way (`Merging`). So they name the blocks before it, each once. -/

open List FunctionBuilder
open FunctionBuilder.Leads (Ends)

/-- A way that is still open ends at an open block, which no loop goes to. -/
def WayOpen (b : FunctionBuilder) (loops : List LoopTarget) (block : BlockId) : Prop :=
  block.index < b.blocks.size ∧ b.terminator block.index = none ∧ block ∉ exits loops

section

variable {b0 b b' : FunctionBuilder} {loops : List LoopTarget} {targets : Set BlockId} {fresh : Set Nat}
  {merge : BlockId} {arms : List Arm}

/-- Edges to a block come from the ends of `sources`; it has no instructions yet. -/
structure Entered (b : FunctionBuilder) (merge : BlockId) (sources : Set Nat) : Prop where
  notEntry : merge.index ≠ 0
  inRange : merge.index < b.blocks.size
  empty : b.code merge.index = []
  edge_iff : ∀ i, b.Edge i merge.index ↔ i ∈ sources

theorem closeArms_reaches {sources : Set Nat} (h : b0.Leads b targets fresh) (hx : b.Exact)
    (hl : LoopsLaid b loops) (hm : Entered b merge sources) (hnew : b0.blocks.size ≤ merge.index)
    (hends : ∀ arm ∈ arms, arm.isOpen = true → Ends b0 b fresh arm.block.index ∧ WayOpen b loops arm.block)
    (hd : ((arms.filter (·.isOpen)).map (·.block)).Nodup) (hr : (closeArms merge arms).run b = .ok ((), b')) :
    b0.Leads b' targets fresh ∧ b'.Exact ∧ LoopsLaid b' loops ∧ b'.blocks.size = b.blocks.size ∧
      Entered b' merge (sources ∪ {i | ∃ arm ∈ arms, arm.isOpen = true ∧ arm.block.index = i}) ∧
      ∀ i, (∀ arm ∈ arms, arm.isOpen = true → arm.block.index ≠ i) → b'.terminator i = b.terminator i := by
  induction arms generalizing b sources with
  | nil =>
    obtain ⟨-, rfl⟩ := run_pure_eq_ok.mp hr
    exact ⟨h, hx, hl, rfl, by simpa using hm, fun _ _ => rfl⟩
  | cons arm rest ih =>
    cases ho : arm.isOpen with
    | false =>
      have hr : (closeArms merge rest).run b = .ok ((), b') := by
        rw [closeArms, ho] at hr
        exact hr
      have := ih h hx hl hm (fun a ha => hends a (.tail _ ha)) (by simpa [ho] using hd) hr
      simpa [ho] using this
    | true =>
      obtain ⟨hend, hlt, hopen, hne⟩ := hends arm (.head _) ho
      have hr : (do Emit.switchTo arm.block; Emit.jump merge; closeArms merge rest : Emit Unit).run b =
          .ok ((), b') := by
        rw [closeArms, ho] at hr
        exact hr
      obtain ⟨_, b1, hswitch, hr⟩ := run_bind_eq_ok.mp hr
      obtain ⟨_, b2, hjump, hr⟩ := run_bind_eq_ok.mp hr
      cases hswitch
      have hx1 := hx.goingOn hlt
      obtain ⟨-, rfl⟩ := Emit.eq_of_terminate hx1.laid hjump
      have hsucc : ∀ j ∈ (Terminator.jump merge).successors, j = merge := by simp [Terminator.successors]
      have h2 := h.goingOn.close hx1.laid hopen hend (t := .jump merge) fun j hj =>
        .inl (hsucc j hj ▸ hnew)
      have hx2 := hx1.close hopen (t := .jump merge) (by simp) fun j hj => by
        obtain rfl := hsucc j hj
        exact ⟨hm.notEntry, hm.inRange, hm.empty ▸ .nil⟩
      have hl2 : LoopsLaid ((b.goingOn arm.block).close (.jump merge)) loops := by
        have hself : (b.goingOn arm.block).Leads ((b.goingOn arm.block).close (.jump merge)) Set.univ ∅ :=
          (Leads.refl ..).close hx1.laid hopen (.inl rfl) fun _ _ => .inr trivial
        have hgoing : LoopsLaid (b.goingOn arm.block) loops := ⟨hl.headers, hl.exits⟩
        exact hgoing.mono hself hne
      have hm2 : Entered ((b.goingOn arm.block).close (.jump merge)) merge (sources ∪ {arm.block.index}) := by
        refine ⟨hm.notEntry, by simpa using hm.inRange, ?_, fun i => ?_⟩
        · rw [code_close hx1.laid]
          exact hm.empty
        · rw [edge_close]
          refine or_congr (hm.edge_iff i) ?_
          simp only [Terminator.successors, mem_singleton, and_true]
          exact Iff.rfl
      simp only [filter_cons_of_pos ho, map_cons, nodup_cons] at hd
      have hother : ∀ a ∈ rest, a.isOpen = true → a.block.index ≠ arm.block.index := fun a ha hao he => by
        have he : a.block = arm.block := congrArg BlockId.mk he
        exact hd.1 (mem_map.mpr ⟨a, mem_filter.mpr ⟨ha, hao⟩, he⟩)
      have hends2 : ∀ a ∈ rest, a.isOpen = true →
          Ends b0 ((b.goingOn arm.block).close (.jump merge)) fresh a.block.index ∧
            WayOpen ((b.goingOn arm.block).close (.jump merge)) loops a.block := by
        intro a ha hao
        obtain ⟨hend, hlt, hopen, hnot⟩ := hends a (.tail _ ha) hao
        refine ⟨by simpa [Ends] using hend, by simpa using hlt, ?_, hnot⟩
        exact (terminator_close hx1.laid).trans ((if_neg (hother a ha hao)).trans hopen)
      obtain ⟨hlead, hexact, hloops, hsize, hentered, hsame⟩ := ih h2 hx2 hl2 hm2 hends2 hd.2 hr
      refine ⟨hlead, hexact, hloops, by simpa using hsize, ?_, fun i hi => ?_⟩
      · convert hentered using 1
        ext i
        simp only [mem_cons, exists_eq_or_imp, ho, true_and, Set.mem_union, Set.mem_ofPred_eq,
          Set.mem_singleton_iff, or_assoc]
        rw [eq_comm (a := i)]
      · rw [hsame i fun a ha => hi a (.tail _ ha), terminator_close hx1.laid]
        exact if_neg (Ne.symm (hi arm (.head _) ho))

end

/-! ## Phis -/

theorem LoopsLaid.append {b : FunctionBuilder} {loops : List LoopTarget} (h : LoopsLaid b loops)
    (hb : b.Laid) (hh : ∀ t ∈ loops, t.header ≠ b.current) (hx : b.current ∉ exits loops)
    {inst : Instruction} : LoopsLaid (b.append inst) loops := by
  have hcode : ∀ i : BlockId, i ≠ b.current → (b.append inst).code i.index = b.code i.index :=
    fun i hi => by
      rw [code_append hb]
      exact if_neg fun he => hi (congrArg BlockId.mk he)
  refine ⟨fun t ht => ?_, fun x hm => ?_⟩
  · rw [hcode _ (hh t ht), size_append]
    exact h.headers t ht
  · have hne : x ≠ b.current := fun he => hx (he ▸ hm)
    rw [hcode _ hne, size_append, terminator_append hb]
    exact h.exits x hm

/-- Ways meet at the current point, which was led to from `s`. Nothing but phis stands there yet. -/
structure Merging (s s' : LowerState) (arms : List Arm) : Prop where
  sound : s'.Sound
  leads : s.builder.Leads s'.builder s.targets ∅
  kept : LoopsKept true s.builder.blocks.size s.loops s'.loops
  new : s.builder.blocks.size ≤ s'.builder.here
  notEntry : s'.builder.here ≠ 0
  isOpen : s'.builder.terminator s'.builder.here = none
  notTarget : s'.builder.current ∉ s'.targets
  phis : ∀ inst ∈ s'.builder.code s'.builder.here, inst.operation.isPhi = true
  distinct : (arms.map (·.block)).Nodup
  edge_iff : ∀ i, s'.builder.Edge i s'.builder.here ↔ BlockId.mk i ∈ arms.map (·.block)

namespace Merging

variable {s s' s'' : LowerState} {arms : List Arm}

variable (h : Merging s s' arms) {r : Option ValueId} {type : IrType} {index : Nat}
include h

theorem reached : Reached s s' ∧ Open s' :=
  ⟨⟨h.sound, h.leads, h.kept, .inr h.new⟩, ⟨h.sound, h.isOpen, fun hx => h.notTarget (.inr hx)⟩⟩

theorem withEnv (env : Env) : Merging s { s' with env := env } arms :=
  { h with sound := { h.sound with } }

theorem phi {ways : List (BlockId × ValueId)} (hw : ways.map (·.1) = arms.map (·.block))
    (hr : Runs (emit (.phi type ways)) s' r s'') : r ≠ none ∧ Merging s s'' arms := by
  obtain ⟨v, b, hrun, rfl, rfl⟩ := runs_emit.mp hr
  obtain ⟨-, rfl, rfl⟩ := Emit.eq_of_pushValue h.sound.graph.laid hrun
  have hq := Quiet.withValue h.sound.graph.laid .result type
  have hx := hq.keeps h.sound.graph
  have hlead : s.builder.Leads (s'.builder.withValue .result type) s.targets ∅ :=
    h.leads.andThen (i := s'.builder.current) (.inr ⟨h.new, h.sound.graph.laid.here, by simp⟩) (hq.leads ∅) (by simp)
  have hloops : LoopsLaid (s'.builder.withValue .result type) s'.loops :=
    ⟨h.sound.loops.headers, h.sound.loops.exits⟩
  refine ⟨by simp, {
    sound := ⟨hx.phi h.notEntry h.phis (hw ▸ h.distinct) (fun j => ?_), ?_⟩
    leads := hlead.append hx.laid h.isOpen h.new
    kept := h.kept
    new := h.new
    notEntry := h.notEntry
    isOpen := (terminator_append hx.laid _).trans h.isOpen
    notTarget := h.notTarget
    phis := fun inst hi => ?_
    distinct := h.distinct
    edge_iff := h.edge_iff }⟩
  · rw [hw]
    exact (h.edge_iff j).symm
  · exact LoopsLaid.append hloops hx.laid (fun t ht he => h.notTarget (.inl ⟨t, ht, he⟩))
      (fun hm => h.notTarget (.inr hm))
  · have hi : inst ∈ ((s'.builder.withValue .result type).append
        ⟨.phi ways, some ⟨s'.builder.values.size⟩⟩).code s'.builder.here := hi
    rw [code_append hx.laid, here_withValue, if_pos rfl] at hi
    rcases mem_append.mp hi with hi | hi
    · exact h.phis inst hi
    · rw [mem_singleton.mp hi]
      rfl

theorem joinBound {first : Bound} {r : Option Bound}
    (hr : Runs (joinBound arms index first) s' r s'') : r ≠ none ∧ Merging s s'' arms := by
  rcases runs_joinBound hr with ⟨-, rfl, rfl⟩ | ⟨ways, type, v, hways, hphi, rfl⟩
  · exact ⟨by simp, h⟩
  · exact ⟨by simp, (h.phi hways.map_fst hphi).2⟩

theorem joinEnv {entries : List (BindingId × Bound)} {r : Option (List (BindingId × Bound))}
    (hr : Runs (joinEnv arms index entries) s' r s'') : r ≠ none ∧ Merging s s'' arms := by
  induction entries generalizing index s' s'' r with
  | nil =>
    obtain ⟨rfl, rfl⟩ := runs_pure.mp hr
    exact ⟨by simp, h⟩
  | cons entry rest ih =>
    rcases runs_bind.mp hr with ⟨bound, s1, hfirst, hr⟩ | ⟨-, hfirst⟩
    · have h1 := (h.joinBound hfirst).2
      rcases runs_bind.mp hr with ⟨others, s2, hrest, hpure⟩ | ⟨-, hrest⟩
      · obtain ⟨rfl, rfl⟩ := runs_pure.mp hpure
        exact ⟨by simp, (ih h1 hrest).2⟩
      · exact absurd rfl (ih h1 hrest).1
    · exact absurd rfl (h.joinBound hfirst).1

theorem joinValue (hr : Runs (joinValue arms type) s' r s'') : r ≠ none ∧ Merging s s'' arms := by
  obtain ⟨ways, v, hways, rfl, ⟨-, rfl⟩ | hphi⟩ := runs_joinValue hr
  · exact ⟨by simp, h⟩
  · exact h.phi hways.map_fst hphi

end Merging

/-! ## Ways that meet -/

/-- Ways that were led to from `s` meet at a new block. Those that are not open have an edge to it. -/
structure Meeting (s s' : LowerState) (fresh : Set Nat) (merge : BlockId) (arms : List Arm) : Prop where
  sound : s'.Sound
  leads : s.builder.Leads s'.builder s.targets fresh
  kept : LoopsKept true s.builder.blocks.size s.loops s'.loops
  onlyFresh : ∀ i ∈ fresh, i = merge.index
  new : s.builder.blocks.size ≤ merge.index
  isOpen : s'.builder.terminator merge.index = none
  notTarget : merge ∉ s'.targets
  entered : Entered s'.builder merge {i | ∃ arm ∈ arms, arm.isOpen = false ∧ arm.block.index = i}
  distinct : (arms.map (·.block)).Nodup
  ends : ∀ arm ∈ arms, Ends s.builder s'.builder fresh arm.block.index
  ways : ∀ arm ∈ arms, arm.isOpen = true → WayOpen s'.builder s'.loops arm.block ∧ arm.block ≠ merge

namespace Meeting

variable {s s' s'' : LowerState} {fresh : Set Nat} {merge : BlockId} {arms : List Arm}

theorem merging (h : Meeting s s' fresh merge arms) {b : FunctionBuilder} (hne : arms ≠ [])
    (hr : (closeArms merge arms).run s'.builder = .ok ((), b)) :
    Merging s { s' with builder := b.goingOn merge } arms := by
  have hd : ((arms.filter (·.isOpen)).map (·.block)).Nodup :=
    h.distinct.sublist (filter_sublist.map _)
  obtain ⟨hl, hx, hloops, hsize, hentered, hsame⟩ := closeArms_reaches h.leads h.sound.graph h.sound.loops
    h.entered h.new (fun arm harm ho => ⟨h.ends arm harm, (h.ways arm harm ho).1⟩) hd hr
  have hedge : ∀ i, b.Edge i merge.index ↔ BlockId.mk i ∈ arms.map (·.block) := fun i => by
    rw [hentered.edge_iff, mem_map]
    constructor
    · rintro (⟨arm, harm, -, rfl⟩ | ⟨arm, harm, -, rfl⟩) <;> exact ⟨arm, harm, rfl⟩
    · rintro ⟨arm, harm, he⟩
      have he : arm.block.index = i := congrArg BlockId.index he
      cases ho : arm.isOpen with
      | false => exact .inl ⟨arm, harm, ho, he⟩
      | true => exact .inr ⟨arm, harm, ho, he⟩
  have hsettled : s.builder.Leads b s.targets ∅ := hl.settle fun i hi => by
    obtain ⟨arm, harm⟩ := exists_mem_of_ne_nil arms hne
    refine ⟨arm.block.index, ?_, ?_⟩
    · rw [h.onlyFresh i hi]
      exact (hedge _).mpr (mem_map_of_mem harm)
    · have := h.ends arm harm
      unfold Ends at this ⊢
      rwa [hsize]
  exact {
    sound := ⟨hx.goingOn hentered.inRange, ⟨hloops.headers, hloops.exits⟩⟩
    leads := hsettled.goingOn
    kept := h.kept
    new := h.new
    notEntry := hentered.notEntry
    isOpen := (hsame _ fun arm harm ho he => (h.ways arm harm ho).2 (congrArg BlockId.mk he)).trans h.isOpen
    notTarget := h.notTarget
    phis := fun inst hi => by
      have hi : inst ∈ b.code merge.index := hi
      rw [hentered.empty] at hi
      cases hi
    distinct := h.distinct
    edge_iff := hedge }

theorem join (h : Meeting s s' fresh merge arms) {keys : Nat} {type : Option IrType} {r : Option Lowered}
    (hr : Runs (join merge keys arms type) s' r s'') : Reached s s'' ∧ Open s'' := by
  obtain ⟨_, b, hclose, hr⟩ := runs_emit_bind.mp hr
  obtain ⟨_, b1, hswitch, hr⟩ := runs_emit_bind.mp hr
  cases hswitch
  cases arms with
  | nil => exact absurd hr not_runs_fault
  | cons first rest =>
    have hmerging := h.merging (by simp) hclose
    rcases runs_bind.mp hr with ⟨entries, s1, henv, hr⟩ | ⟨-, henv⟩
    · have h1 := ((hmerging.joinEnv henv).2.withEnv ⟨entries⟩)
      have hr := runs_setEnv_bind.mp hr
      cases type with
      | none =>
        obtain ⟨-, rfl⟩ := runs_pure.mp hr
        exact h1.reached
      | some type =>
        rcases runs_bind.mp hr with ⟨v, s2, hvalue, hpure⟩ | ⟨-, hvalue⟩
        · obtain ⟨-, rfl⟩ := runs_pure.mp hpure
          exact (h1.joinValue hvalue).2.reached
        · exact absurd rfl (h1.joinValue hvalue).1
    · exact absurd rfl (hmerging.joinEnv henv).1

end Meeting

end Lower

end SsaCompiler
