import SsaCompiler.Proofs.Lowering.Functions
import SsaCompiler.Proofs.Lowering.Graph.Control

/-!
# Bodies with an exact control flow graph

Every expression is lowered with an exact graph (`Lower.flows_lowerExpr`), by induction on its tree. A
body that lowering gives is exact (`CheckedFunction.exact_of_lower`): its last block is the entry or
has a block before it, so that it never ends in a place that control does not get to.
-/

namespace SsaCompiler

open FunctionBuilder.Leads (Ends)
open FunctionBuilder (Edge new)

namespace Lower

open LowerState

theorem flows_ret {α : Type} {lowered : Lowered} : Flows (ret lowered : Lower α) := fun s r s' hs hr => by
  have hret : ∀ v, Runs (emit (.ret v) >>= fun _ => stop : Lower α) s r s' →
      Reached s s' ∧ (r ≠ none → Open s') := fun v hr => by
    obtain ⟨_, b, hret, hr⟩ := runs_emit_bind.mp hr
    obtain ⟨rfl, rfl⟩ := runs_stop.mp hr
    obtain ⟨-, rfl⟩ := Emit.eq_of_terminate hs.graph.laid hret
    exact ⟨(Prepared.refl hs).leave (by simp) (by simp) (by simp [Terminator.successors]), fun hne => absurd rfl hne⟩
  cases lowered with
  | value v => exact hret _ hr
  | unit => exact hret _ hr

variable {ctx : LowerContext}

theorem lockstep_flows : Lockstep ctx.items ctx.items ctx.function fun {_} x _ => Flows x where
  agrees := ⟨List.prefix_rfl, fun _ => rfl, fun _ => rfl⟩
  pure _ := .pure
  bind := .bind
  fault _ := .fault
  answer _ hf s r s' hs hr := by
    obtain ⟨a, ha, hr⟩ := runs_answer_bind.mp hr
    exact hf a ha hs hr
  get := .get
  emit := .emit
  modifyEnv := .modifyEnv
  inScope := .inScope
  logical _ := .logical
  ifThen hx hy ht _ := .ifThen hx hy ht
  ifThenElse hx hy hz ht _ := .ifThenElse hx hy hz ht
  whileLoop _ := .whileLoop
  breakLoop := .breakLoop
  continueLoop := .continueLoop
  ret _ := flows_ret

/-! ## Finished bodies -/

/-- A block that was reached from the entry ends with a return, if it is not ended yet. -/
theorem finishBody_cases {result : Option Lowered} {b b' : FunctionBuilder}
    (hb : b.Laid) (hhere : b.here = 0 ∨ ∃ i, b.Edge i b.here) (hr : (finishBody ctx result).run b = .ok ((), b')) :
    b' = b ∨ b.terminator b.here = none ∧ ∃ v, b' = b.close (.ret v) := by
  obtain ⟨_, _, hget, hr⟩ := run_bind_eq_ok.mp hr
  obtain ⟨rfl, rfl⟩ := run_get_eq_ok.mp hget
  obtain ⟨closed, _, hasked, hr⟩ := run_bind_eq_ok.mp hr
  obtain ⟨hasked, rfl⟩ := run_lift_eq_ok.mp hasked
  have hret : ∀ {v}, (Emit.ret v).run b = .ok ((), b') →
      b' = b ∨ b.terminator b.here = none ∧ ∃ v, b' = b.close (.ret v) := fun hret => by
    obtain ⟨ho, rfl⟩ := Emit.eq_of_terminate hb hret
    exact .inr ⟨ho, _, rfl⟩
  split at hr
  · exact .inl (run_pure_eq_ok.mp hr).2.symm
  · split at hr
    · rename_i hdead
      -- The block is not the entry, so it has a block before it.
      simp only [Bool.and_eq_true, decide_eq_true_eq, List.isEmpty_iff] at hdead
      rcases hhere with h0 | ⟨i, he⟩
      · exact absurd (congrArg BlockId.mk h0) hdead.1
      · have hm : BlockId.mk i ∈ b.predecessors b.current :=
          List.mem_map.mpr ⟨_, List.mem_filter.mpr ⟨he, decide_eq_true rfl⟩, rfl⟩
        rw [hdead.2] at hm
        cases hm
    · split at hr
      · exact hret hr
      · exact hret hr
      · exact absurd hr run_throw_ne_ok

end Lower

open LowerState

variable {sig : FunctionSig}

theorem open_start : Open ⟨new sig, .empty, []⟩ := by
  have hcode : ∀ i, (new sig).code i = [] := World.code_start sig
  have hterm : ∀ i, (new sig).terminator i = none := World.terminator_start sig
  refine ⟨⟨⟨⟨Nat.zero_le _, Nat.zero_lt_one⟩, ?_, fun i j => ?_, ?_, ?_, fun i => ?_, ?_, ?_⟩, ?_, ?_⟩, hterm _, ?_⟩
  · exact .nil
  · simp only [hterm]
    simp [Edge, new]
  · simp [Edge, new]
  · simp [hterm]
  · rw [hcode]
    exact NoPhi.nil.phisFirst
  · rw [hcode]
    exact .nil
  · simp [hcode]
  · simp
  · simp [World.exits]
  · simp [World.exits]

theorem FunctionBuilder.Exact.body {b : FunctionBuilder} (h : b.Exact)
    (hreach : ∀ i, 0 < i → i < b.blocks.size → Relation.ReflTransGen b.Edge 0 i) : b.body.Exact := by
  have hedge : ∀ i j, b.body.Edge i j ↔ b.Edge i j := fun i j => by
    unfold FunctionBody.Edge
    simp only [b.terminator?_eq]
    exact (h.edge_iff i j).symm
  refine ⟨fun i hi => ?_, fun i => ?_, fun i he => ?_, fun block hm => ?_, fun {i k inst} hi ways hw => ?_⟩
  · rcases Nat.eq_zero_or_pos i with rfl | hpos
    · exact ⟨_, .entry⟩
    · have hpath := hreach i hpos hi
      clear hpos hi
      induction hpath with
      | refl => exact ⟨_, .entry⟩
      | tail _ he ih =>
        obtain ⟨visited, hp⟩ := ih
        exact ⟨_, hp.step ((hedge ..).mpr he)⟩
  · rw [b.terminator?_eq]
    exact h.ends i
  · exact (h.target ((hedge ..).mp he)).1 rfl
  · obtain ⟨i, hi⟩ := List.mem_iff_getElem?.mp hm
    have hblock : b.block i = block := by
      have hi : b.blocks[i]? = some block := (Array.getElem?_toList ..).symm.trans hi
      simp [FunctionBuilder.block, hi]
    rw [← hblock]
    by_cases h0 : i = 0
    · subst h0
      rw [b.insts_zero]
      exact (h.slots.append h.entry).phisFirst
    · rw [b.insts_of_ne_zero h0]
      exact h.phisFirst i
  · have hm : inst ∈ b.code i := by
      rcases FunctionBuilder.instAt?_cases h.laid hi with ⟨-, -, hs⟩ | ⟨j, -, hc⟩
      · exact absurd hw (h.slots.ne_phi (List.mem_of_getElem? hs))
      · exact List.mem_of_getElem? hc
    obtain ⟨hn, hj⟩ := h.incoming hm ways hw
    exact ⟨hn, fun j => (hj j).trans (hedge j i).symm⟩

variable {root : Expr}

/-- The body that lowering makes has an exact graph, and all its blocks are reached. -/
theorem Lower.lowerBody_reaches {ctx : LowerContext} {s s' : LowerState} {r : Option Unit}
    (hs : s.Open) (h0 : s.builder.here = 0) (hr : Runs (lowerBody ctx root) s r s') :
    s'.builder.Exact ∧ s.builder.Leads s'.builder s.targets ∅ := by
  rcases runs_bind.mp hr with ⟨_, s1, hparams, hr⟩ | ⟨-, hparams⟩
  · obtain ⟨h1, ho1⟩ := lockstep_flows.declareParams _ hs hparams
    obtain ⟨result, s2, hroot, hr⟩ := runs_attempt_bind.mp hr
    have h2 := h1.trans (lockstep_flows.lowerExpr root (ho1 (by simp)) hroot).1
    obtain ⟨_, b, hdone, -, rfl⟩ := runs_emit.mp hr
    have hhere : s2.builder.here = 0 ∨ ∃ i, s2.builder.Edge i s2.builder.here := by
      rcases (h2.leads.reach_end h2.ends).cases_tail with he | ⟨i, -, he⟩
      · exact .inl (he.trans h0)
      · exact .inr ⟨i, he⟩
    rcases finishBody_cases h2.sound.graph.laid hhere hdone with rfl | ⟨ho, v, rfl⟩
    · exact ⟨h2.sound.graph, h2.leads⟩
    · exact ⟨h2.sound.graph.close ho (by simp) (by simp [Terminator.successors]),
        h2.leads.close h2.sound.graph.laid ho h2.ends (by simp [Terminator.successors])⟩
  · obtain ⟨h1, -⟩ := lockstep_flows.declareParams _ hs hparams
    exact ⟨h1.sound.graph, h1.leads⟩

/-- The graph of a lowered body is exact. -/
theorem CheckedFunction.exact_of_lower {function : CheckedFunction} {items : ItemMap}
    {body : FunctionBody} (h : function.lower items sig root = .ok body) : body.Exact := by
  obtain ⟨⟨r, s⟩, hrun, hfinish⟩ := bind_eq_ok.mp h
  obtain ⟨hx, hl⟩ := Lower.lowerBody_reaches open_start rfl hrun
  have hbody : s.builder.body = body := by
    have hfinish : s.builder.finish = .ok body := hfinish
    unfold FunctionBuilder.finish at hfinish
    split at hfinish
    · cases hfinish
    · exact Except.ok.inj hfinish
  exact hbody ▸ hx.body fun i hpos hlt => hl.reach i hpos hlt (by simp)

end SsaCompiler
