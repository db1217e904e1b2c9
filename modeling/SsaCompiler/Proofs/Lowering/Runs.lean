import SsaCompiler.Lowering.Body
import SsaCompiler.Proofs.Lowering.Flow

/-!
# Runs of lowering

`Lower.Runs` says that a step succeeds, and how: with an answer if control goes on after it, without
one if it does not. A run of a sequence is made of runs of its parts, a run of a simple step says what
the step does.
-/

namespace SsaCompiler

namespace Lower

variable {α β : Type} {s s' : LowerState} {r : Option α}
variable {step : Lower α} {next : α → Lower β}
variable {f : LowerState → LowerState} {result : Except Fault α}

/-- A step succeeds with an answer, or without one if control does not go on. -/
def Runs (step : Lower α) (s : LowerState) (r : Option α) (s' : LowerState) : Prop :=
  step.run.run s = .ok (r, s')

theorem runs_bind {r : Option β} : Runs (step >>= next) s r s' ↔
    (∃ a s1, Runs step s (some a) s1 ∧ Runs (next a) s1 r s') ∨ r = none ∧ Runs step s none s' := by
  unfold Runs
  rw [run_bind]
  cases step.run.run s with
  | error fault => simp
  | ok p =>
    obtain ⟨a, s1⟩ := p
    cases a with
    | none => simp [eq_comm]
    | some a => simp

/-- A step that always gives an answer is gone on from. -/
theorem Runs.bind_parts {r : Option β} (h : Runs (step >>= next) s r s') (hsome : ¬ Runs step s none s') :
    ∃ a s1, Runs step s (some a) s1 ∧ Runs (next a) s1 r s' :=
  (runs_bind.mp h).resolve_right fun hnone => hsome hnone.2

theorem Runs.bind_iff {a : α} {s1 : LowerState} {r : Option β} (h : Runs step s (some a) s1) :
    Runs (step >>= next) s r s' ↔ Runs (next a) s1 r s' := by
  unfold Runs at h ⊢
  rw [run_bind, h]

theorem runs_pure {a : α} : Runs (pure a) s r s' ↔ r = some a ∧ s' = s := by
  unfold Runs
  rw [run_pure]
  simp [eq_comm]

theorem runs_modify {r : Option PUnit} : Runs (modify f) s r s' ↔ r = some ⟨⟩ ∧ s' = f s := by
  unfold Runs
  rw [run_modify]
  simp [eq_comm]

theorem runs_stop : Runs stop s r s' ↔ r = none ∧ s' = s := by
  unfold Runs
  rw [run_stop]
  simp [eq_comm]

theorem not_runs_fault {fault : Fault} : ¬ Runs (Lower.fault fault) s r s' := by
  unfold Runs
  rw [run_fault]
  simp

theorem runs_answer : Runs (answer result) s r s' ↔ ∃ a, result = .ok a ∧ r = some a ∧ s' = s := by
  unfold Runs
  rw [run_answer]
  cases result with
  | error fault => simp [Except.map]
  | ok a => simp [Except.map, eq_comm]

theorem runs_emit {step : Emit α} : Runs (emit step) s r s' ↔
    ∃ a b, step.run s.builder = .ok (a, b) ∧ r = some a ∧ s' = { s with builder := b } := by
  unfold Runs
  rw [run_emit]
  cases step.run s.builder with
  | error fault => simp [Except.map]
  | ok p =>
    obtain ⟨a, b⟩ := p
    simp [Except.map, eq_comm]

theorem runs_attempt {r : Option (Option α)} : Runs (attempt step) s r s' ↔ ∃ r', Runs step s r' s' ∧ r = some r' := by
  unfold Runs
  rw [run_attempt]
  cases step.run.run s with
  | error fault => simp [Except.map]
  | ok p =>
    obtain ⟨a, s1⟩ := p
    simp only [Except.map, Except.ok.injEq, Prod.mk.injEq]
    constructor
    · rintro ⟨rfl, rfl⟩
      exact ⟨a, ⟨rfl, rfl⟩, rfl⟩
    · rintro ⟨r', ⟨rfl, rfl⟩, rfl⟩
      exact ⟨rfl, rfl⟩

theorem runs_emit_bind {step : Emit α} {r : Option β} : Runs (emit step >>= next) s r s' ↔
      ∃ a b, step.run s.builder = .ok (a, b) ∧ Runs (next a) { s with builder := b } r s' := by
  unfold Runs
  rw [run_bind, run_emit]
  cases step.run s.builder with
  | error fault => simp [Except.map]
  | ok p => simp [Except.map, Prod.ext_iff]

theorem runs_answer_bind {r : Option β} :
    Runs (answer result >>= next) s r s' ↔ ∃ a, result = .ok a ∧ Runs (next a) s r s' := by
  unfold Runs
  rw [run_bind, run_answer]
  cases result <;> simp [Except.map]

theorem runs_get_bind {next : LowerState → Lower β} {r : Option β} :
    Runs (get >>= next) s r s' ↔ Runs (next s) s r s' :=
  Runs.bind_iff run_get

theorem runs_modify_bind {next : PUnit → Lower β} {r : Option β} :
    Runs (modify f >>= next) s r s' ↔ Runs (next ⟨⟩) (f s) r s' :=
  Runs.bind_iff run_modify

theorem runs_setEnv_bind {env : Env} {next : Unit → Lower β} {r : Option β} :
    Runs (setEnv env >>= next) s r s' ↔ Runs (next ()) { s with env := env } r s' :=
  runs_modify_bind

theorem runs_attempt_bind {next : Option α → Lower β} {r : Option β} :
    Runs (attempt step >>= next) s r s' ↔ ∃ r' s1, Runs step s r' s1 ∧ Runs (next r') s1 r s' := by
  unfold Runs
  rw [run_bind, run_attempt]
  cases step.run.run s with
  | error fault => simp [Except.map]
  | ok p => simp [Except.map, Prod.ext_iff]

theorem runs_mapM_bind {γ : Type} {f : α → Lower β} {R : α → β → Prop} {xs : List α}
    {next : List β → Lower γ} {r : Option γ} (h : Runs (xs.mapM f >>= next) s r s')
    (hf : ∀ x, (∃ y, f x = pure y ∧ R x y) ∨ ∃ fault, f x = Lower.fault fault) :
    ∃ ys, List.Forall₂ R xs ys ∧ Runs (next ys) s r s' := by
  induction xs generalizing next with
  | nil => exact ⟨[], .nil, h⟩
  | cons x rest ih =>
    rw [List.mapM_cons] at h
    rcases hf x with ⟨y, hy, hR⟩ | ⟨fault, hy⟩
    · rw [hy, pure_bind, bind_assoc] at h
      obtain ⟨ys, hall, hn⟩ := ih h
      exact ⟨y :: ys, .cons hR hall, hn⟩
    · rw [hy] at h
      rcases runs_bind.mp h with ⟨y, s1, h, -⟩ | ⟨-, h⟩
      · exact absurd h not_runs_fault
      · exact absurd h not_runs_fault

/-! ## Joins -/

section

variable {arms : List Arm}
variable {ways : List (BlockId × ValueId)} {index : Nat}

/-- A binding holds a value at the end of each way. -/
def BoundWays (index : Nat) : List Arm → List (BlockId × ValueId) → Prop :=
  List.Forall₂ fun arm way => way.1 = arm.block ∧ ∃ key, arm.env.entries[index]? = some (key, .value way.2)

def ValueWays : List Arm → List (BlockId × ValueId) → Prop :=
  List.Forall₂ fun arm way => way.1 = arm.block ∧ arm.value = .value way.2

theorem BoundWays.map_fst (h : BoundWays index arms ways) : ways.map (·.1) = arms.map (·.block) := by
  induction h with
  | nil => rfl
  | cons hw _ ih => simp [hw.1, ih]

theorem ValueWays.map_fst (h : ValueWays arms ways) : ways.map (·.1) = arms.map (·.block) := by
  induction h with
  | nil => rfl
  | cons hw _ ih => simp [hw.1, ih]

theorem runs_joinBound {first : Bound} {r : Option Bound} (h : Runs (joinBound arms index first) s r s') :
    (∀ arm ∈ arms, ∃ key, arm.env.entries[index]? = some (key, first)) ∧ r = some first ∧ s' = s ∨
      ∃ ways type v, BoundWays index arms ways ∧ Runs (emit (.phi type ways)) s (some v) s' ∧ r = some (.value v) := by
  obtain ⟨bounds, hheld, hrest⟩ := runs_mapM_bind (R := fun arm (bound : BlockId × Bound) =>
    bound.1 = arm.block ∧ ∃ key, arm.env.entries[index]? = some (key, bound.2)) h fun arm => by
      split
      · rename_i key bound hk
        exact .inl ⟨_, rfl, rfl, key, hk⟩
      · exact .inr ⟨_, rfl⟩
  split at hrest
  · rename_i hall
    obtain ⟨rfl, rfl⟩ := runs_pure.mp hrest
    refine .inl ⟨fun arm harm => ?_, rfl, rfl⟩
    obtain ⟨bound, hm, -, key, hk⟩ := forall₂_exists_right hheld harm
    have hfirst : bound.2 = first := by simpa using List.all_eq_true.mp hall bound hm
    exact ⟨key, hfirst ▸ hk⟩
  · rename_i hdiffer
    obtain ⟨ways, hways, hphi⟩ := runs_mapM_bind (R := fun bound (way : BlockId × ValueId) =>
      way.1 = bound.1 ∧ bound.2 = .value way.2) hrest fun bound => by
        split
        split
        · exact .inl ⟨_, rfl, rfl, rfl⟩
        · exact .inr ⟨_, rfl⟩
        · exact .inr ⟨_, rfl⟩
    have hall : BoundWays index arms ways := (forall₂_comp hheld hways).imp fun arm way => by
      rintro ⟨bound, ⟨hblock, key, hk⟩, hway, hv⟩
      exact ⟨hway.trans hblock, key, hv ▸ hk⟩
    cases ways with
    | nil =>
      cases hways
      simp at hdiffer
    | cons way rest =>
      obtain ⟨type, b, hask, hphi⟩ := runs_emit_bind.mp hphi
      obtain ⟨-, rfl⟩ := Emit.eq_of_ask hask
      obtain ⟨v, b, hrun, hpure⟩ := runs_emit_bind.mp hphi
      obtain ⟨rfl, rfl⟩ := runs_pure.mp hpure
      exact .inr ⟨way :: rest, type, v, hall, runs_emit.mpr ⟨v, b, hrun, rfl, rfl⟩, rfl⟩

theorem runs_joinValue {type : IrType} {r : Option ValueId} (h : Runs (joinValue arms type) s r s') :
    ∃ ways v, ValueWays arms ways ∧ r = some v ∧
      ((∃ block, ways = [(block, v)]) ∧ s' = s ∨ Runs (emit (.phi type ways)) s (some v) s') := by
  obtain ⟨ways, hways, hrest⟩ := runs_mapM_bind (R := fun arm (way : BlockId × ValueId) =>
    way.1 = arm.block ∧ arm.value = .value way.2) h fun arm => by
      split
      · rename_i v hv
        exact .inl ⟨_, rfl, rfl, hv⟩
      · exact .inr ⟨_, rfl⟩
  split at hrest
  · rename_i block v
    obtain ⟨rfl, rfl⟩ := runs_pure.mp hrest
    exact ⟨_, v, hways, rfl, .inl ⟨⟨block, rfl⟩, rfl⟩⟩
  · obtain ⟨v, b, hphi, rfl, rfl⟩ := runs_emit.mp hrest
    exact ⟨ways, v, hways, rfl, .inr (runs_emit.mpr ⟨v, b, hphi, rfl, rfl⟩)⟩

end

/-! ## Control structures -/

section

variable {lhs rhs condition : Lower ValueId} {lowered thenBranch elseBranch body : Lower Lowered}
  {type : Lower (Option IrType)} {r : Option Lowered} {block : BlockId} {isInfinite : Bool}

def goingOn (s : LowerState) (block : BlockId) : LowerState :=
  { s with builder := s.builder.goingOn block }

theorem runs_arm {r : Option (Option Arm)} : Runs (arm block lowered) s r s' ↔
    ∃ r', Runs lowered (goingOn s block) r' s' ∧
      r = some (r'.map fun value => ⟨s'.builder.current, s'.env, value, true⟩) := by
  unfold arm
  simp only [runs_emit_bind, Emit.run_switchTo, Except.ok.injEq, Prod.mk.injEq]
  constructor
  · rintro ⟨_, b, ⟨-, rfl⟩, h⟩
    obtain ⟨r', s1, hl, h⟩ := runs_attempt_bind.mp h
    cases r' with
    | none =>
      obtain ⟨rfl, rfl⟩ := runs_pure.mp h
      exact ⟨none, hl, rfl⟩
    | some value =>
      obtain ⟨rfl, rfl⟩ := runs_pure.mp h
      exact ⟨some value, hl, rfl⟩
  · rintro ⟨r', hl, rfl⟩
    refine ⟨(), _, ⟨trivial, rfl⟩, runs_attempt_bind.mpr ⟨r', s', hl, ?_⟩⟩
    cases r' with
    | none => exact runs_pure.mpr ⟨rfl, rfl⟩
    | some value => exact runs_get_bind.mpr (runs_pure.mpr ⟨rfl, rfl⟩)

theorem not_runs_arm : ¬ Runs (arm block lowered) s none s' := by
  rw [runs_arm]
  simp

theorem runs_newBlock_bind {next : BlockId → Lower β} {r : Option β} : Runs (emit .newBlock >>= next) s r s' ↔
    Runs (next ⟨s.builder.blocks.size⟩) { s with builder := s.builder.withBlock } r s' :=
  Runs.bind_iff rfl

theorem runs_switchTo_bind {next : Unit → Lower β} {r : Option β} :
    Runs (emit (.switchTo block) >>= next) s r s' ↔ Runs (next ()) (goingOn s block) r s' :=
  Runs.bind_iff rfl

/-- The blocks of a structure with two new blocks, after a branch to them. -/
def Branched (s : LowerState) (v : ValueId) (x y : BlockId) (b : FunctionBuilder) : Prop :=
  (Emit.branch v x y).run s.builder.withBlock.withBlock = .ok ((), b)

theorem runs_newBlocks {next : BlockId → BlockId → Lower β} {r : Option β}
    (h : Runs (do let x ← emit .newBlock; let y ← emit .newBlock; next x y) s r s') :
    Runs (next ⟨s.builder.blocks.size⟩ ⟨s.builder.blocks.size + 1⟩)
      { s with builder := s.builder.withBlock.withBlock } r s' := by
  rw [← FunctionBuilder.size_withBlock]
  exact runs_newBlock_bind.mp (runs_newBlock_bind.mp h)

theorem runs_logical {op : BinaryOp} (h : Runs (logical op lhs rhs) s r s') :
    r = none ∧ Runs lhs s none s' ∨ ∃ left s1 b way s2, Runs lhs s (some left) s1 ∧ (if op = .or then
        Branched s1 left ⟨s1.builder.blocks.size + 1⟩ ⟨s1.builder.blocks.size⟩ b
      else Branched s1 left ⟨s1.builder.blocks.size⟩ ⟨s1.builder.blocks.size + 1⟩ b) ∧
      Runs (arm ⟨s1.builder.blocks.size⟩ (.value <$> rhs))
        { s1 with builder := b.withValue (.const (.bool (decide (op = .or)))) .bool } (some way) s2 ∧
      Runs (join ⟨s1.builder.blocks.size + 1⟩ s1.env.size
        (⟨s1.builder.current, s1.env, .value ⟨b.values.size⟩, false⟩ :: way.toList) (some .bool)) s2 r s' := by
  rcases runs_bind.mp h with ⟨left, s1, hleft, h⟩ | ⟨rfl, hleft⟩
  · have h := runs_get_bind.mp h
    obtain ⟨_, b, hbranch, h⟩ := runs_emit_bind.mp (runs_newBlocks h)
    obtain ⟨_, _, hshort, h⟩ := runs_emit_bind.mp h
    cases hshort
    obtain ⟨way, s2, harm, h⟩ := h.bind_parts not_runs_arm
    refine .inr ⟨left, s1, b, way, s2, hleft, ?_, ?_, h⟩
    · by_cases hop : op = .or
      · subst hop
        simpa [Branched] using hbranch
      · simpa [Branched, hop] using hbranch
    · rw [map_eq_pure_bind]
      exact harm
  · exact .inl ⟨rfl, hleft⟩

theorem runs_ifThen (h : Runs (ifThen condition thenBranch type) s r s') :
    r = none ∧ Runs condition s none s' ∨ ∃ v s1 b way s2, Runs condition s (some v) s1 ∧
      Branched s1 v ⟨s1.builder.blocks.size⟩ ⟨s1.builder.blocks.size + 1⟩ b ∧
      Runs (arm ⟨s1.builder.blocks.size⟩ thenBranch) { s1 with builder := b } (some way) s2 ∧
      Runs (type >>= fun type => join ⟨s1.builder.blocks.size + 1⟩ s1.env.size
        (way.toList ++ [⟨s1.builder.current, s1.env, .unit, false⟩]) type) { s2 with env := s1.env } r s' := by
  rcases runs_bind.mp h with ⟨v, s1, hv, h⟩ | ⟨rfl, hv⟩
  · have h := runs_get_bind.mp h
    obtain ⟨_, b, hbranch, h⟩ := runs_emit_bind.mp (runs_newBlocks h)
    obtain ⟨way, s2, harm, h⟩ := h.bind_parts not_runs_arm
    exact .inr ⟨v, s1, b, way, s2, hv, hbranch, harm, runs_setEnv_bind.mp h⟩
  · exact .inl ⟨rfl, hv⟩

theorem runs_ifThenElse (h : Runs (ifThenElse condition thenBranch elseBranch type) s r s') :
    r = none ∧ Runs condition s none s' ∨ ∃ v s1 b way s2 way' s3, Runs condition s (some v) s1 ∧
      Branched s1 v ⟨s1.builder.blocks.size⟩ ⟨s1.builder.blocks.size + 1⟩ b ∧
      Runs (arm ⟨s1.builder.blocks.size⟩ thenBranch) { s1 with builder := b } (some way) s2 ∧
      Runs (arm ⟨s1.builder.blocks.size + 1⟩ elseBranch) { s2 with env := s1.env } (some way') s3 ∧
      (way = none ∧ way' = none ∧ r = none ∧ s' = { s3 with env := s1.env } ∨
        way.toList ++ way'.toList ≠ [] ∧ Runs (type >>= fun type =>
          join ⟨s3.builder.blocks.size⟩ s1.env.size (way.toList ++ way'.toList) type)
            { s3 with builder := s3.builder.withBlock, env := s1.env } r s') := by
  rcases runs_bind.mp h with ⟨v, s1, hv, h⟩ | ⟨rfl, hv⟩
  · have h := runs_get_bind.mp h
    obtain ⟨_, b, hbranch, h⟩ := runs_emit_bind.mp (runs_newBlocks h)
    obtain ⟨way, s2, harm, h⟩ := h.bind_parts not_runs_arm
    obtain ⟨way', s3, harm', h⟩ := (runs_setEnv_bind.mp h).bind_parts not_runs_arm
    have h := runs_setEnv_bind.mp h
    refine .inr ⟨v, s1, b, way, s2, way', s3, hv, hbranch, harm, harm', ?_⟩
    split at h
    · rename_i hnil
      obtain ⟨rfl, rfl⟩ := runs_stop.mp h
      simp only [List.append_eq_nil_iff, Option.toList_eq_nil_iff] at hnil
      exact .inl ⟨hnil.1, hnil.2, rfl, rfl⟩
    · rename_i hne
      exact .inr ⟨hne, runs_newBlock_bind.mp h⟩
  · exact .inl ⟨rfl, hv⟩

theorem runs_loopExit {r : Option BlockId} (h : Runs loopExit s r s') :
    ∃ t outer x, s.loops = t :: outer ∧ r = some x ∧ (t.exit = some x ∧ s' = s ∨
      t.exit = none ∧ x = ⟨s.builder.blocks.size⟩ ∧
        s' = { s with builder := s.builder.withBlock, loops := ⟨t.header, some x⟩ :: outer }) := by
  have h := runs_get_bind.mp h
  split at h
  · exact absurd h not_runs_fault
  · rename_i t outer hl
    split at h
    · rename_i x hx
      obtain ⟨rfl, rfl⟩ := runs_pure.mp h
      exact ⟨t, outer, x, hl, rfl, .inl ⟨hx, rfl⟩⟩
    · rename_i hx
      obtain ⟨rfl, rfl⟩ := runs_pure.mp h
      exact ⟨t, outer, _, hl, rfl, .inr ⟨hx, rfl, rfl⟩⟩

theorem not_runs_loopExit : ¬ Runs loopExit s none s' := fun h => by
  obtain ⟨_, _, _, -, he, -⟩ := runs_loopExit h
  cases he

theorem runs_breakLoop (h : Runs breakLoop s r s') : r = none ∧ ∃ x s1 b, Runs loopExit s (some x) s1 ∧
    (Emit.jump x).run s1.builder = .ok ((), b) ∧ s' = { s1 with builder := b } := by
  obtain ⟨x, s1, hexit, h⟩ := h.bind_parts not_runs_loopExit
  obtain ⟨_, b, hjump, h⟩ := runs_emit_bind.mp h
  obtain ⟨rfl, rfl⟩ := runs_stop.mp h
  exact ⟨rfl, x, s1, b, hexit, hjump, rfl⟩

theorem runs_continueLoop (h : Runs continueLoop s r s') : r = none ∧ ∃ t outer b, s.loops = t :: outer ∧
    (Emit.jump t.header).run s.builder = .ok ((), b) ∧ s' = { s with builder := b } := by
  have h := runs_get_bind.mp h
  split at h
  · exact absurd h not_runs_fault
  · rename_i t outer hl
    obtain ⟨_, b, hjump, h⟩ := runs_emit_bind.mp h
    obtain ⟨rfl, rfl⟩ := runs_stop.mp h
    exact ⟨rfl, t, outer, b, hl, hjump, rfl⟩

theorem runs_loopEntry {r : Option BlockId} (h : Runs (loopEntry isInfinite condition) s r s') :
    (isInfinite = true ∧ r = some ⟨s.builder.blocks.size⟩ ∧ ∃ b,
      (Emit.jump ⟨s.builder.blocks.size⟩).run s.builder.withBlock = .ok ((), b) ∧ s' = { s with builder := b }) ∨
    isInfinite = false ∧ (r = none ∧ Runs condition s none s' ∨ ∃ v s1 x s2 b,
      Runs condition s (some v) s1 ∧ r = some ⟨s1.builder.blocks.size⟩ ∧
      Runs loopExit { s1 with builder := s1.builder.withBlock } (some x) s2 ∧
      (Emit.branch v ⟨s1.builder.blocks.size⟩ x).run s2.builder = .ok ((), b) ∧
      s' = { s2 with builder := b }) := by
  cases isInfinite with
  | true =>
    obtain ⟨_, b, hjump, h⟩ := runs_emit_bind.mp (runs_newBlock_bind.mp h)
    obtain ⟨rfl, rfl⟩ := runs_pure.mp h
    exact .inl ⟨rfl, rfl, b, hjump, rfl⟩
  | false =>
    refine .inr ⟨rfl, ?_⟩
    rcases runs_bind.mp h with ⟨v, s1, hv, h⟩ | ⟨rfl, hv⟩
    · obtain ⟨x, s2, hexit, h⟩ := (runs_newBlock_bind.mp h).bind_parts not_runs_loopExit
      obtain ⟨_, b, hbranch, h⟩ := runs_emit_bind.mp h
      obtain ⟨rfl, rfl⟩ := runs_pure.mp h
      exact .inr ⟨v, s1, x, s2, b, hv, rfl, hexit, hbranch, rfl⟩
    · exact .inl ⟨rfl, hv⟩

/-- After a loop control goes on at its exit, if it has one. -/
def LoopLeft (env : Env) (s : LowerState) (r : Option Lowered) (s' : LowerState) : Prop :=
  match s.loops.head?.bind (·.exit) with
  | none => r = none ∧ s' = { s with env := env, loops := s.loops.tail }
  | some x => r = some .unit ∧
    s' = { s with builder := s.builder.goingOn x, env := env, loops := s.loops.tail }

theorem runs_afterLoop {env : Env} (h : Runs (afterLoop env) s r s') : LoopLeft env s r s' := by
  have h := runs_get_bind.mp h
  have h := runs_modify_bind.mp h
  unfold LoopLeft
  cases hx : s.loops.head?.bind (·.exit) with
  | none =>
    rw [hx] at h
    exact runs_stop.mp h
  | some x =>
    rw [hx] at h
    exact runs_pure.mp (runs_switchTo_bind.mp h)

theorem runs_whileLoop (h : Runs (whileLoop isInfinite condition body) s r s') :
    ∃ b entered s1 s2, (Emit.jump ⟨s.builder.blocks.size⟩).run s.builder.withBlock = .ok ((), b) ∧
      Runs (loopEntry isInfinite condition) { s with
        builder := b.goingOn ⟨s.builder.blocks.size⟩
        loops := ⟨⟨s.builder.blocks.size⟩, none⟩ :: s.loops } entered s1 ∧
      (entered = none ∧ s2 = s1 ∨ ∃ block again s3, entered = some block ∧
        Runs body (goingOn s1 block) again s3 ∧ (again = none ∧ s2 = s3 ∨ again ≠ none ∧ ∃ b',
          (Emit.jump ⟨s.builder.blocks.size⟩).run s3.builder = .ok ((), b') ∧ s2 = { s3 with builder := b' })) ∧
      LoopLeft s.env s2 r s' := by
  obtain ⟨_, b, hjump, h⟩ := runs_emit_bind.mp (runs_newBlock_bind.mp h)
  obtain ⟨entered, s1, hentry, h⟩ := runs_attempt_bind.mp h
  cases entered with
  | none => exact ⟨b, none, s1, s1, hjump, hentry, .inl ⟨rfl, rfl⟩, runs_afterLoop h⟩
  | some block =>
    obtain ⟨again, s3, hbody, h⟩ := runs_attempt_bind.mp (runs_switchTo_bind.mp h)
    cases again with
    | none =>
      exact ⟨b, some block, s1, s3, hjump, hentry, .inr ⟨block, none, s3, rfl, hbody, .inl ⟨rfl, rfl⟩⟩,
        runs_afterLoop h⟩
    | some value =>
      obtain ⟨_, b', hback, h⟩ := runs_emit_bind.mp h
      exact ⟨b, some block, s1, _, hjump, hentry,
        .inr ⟨block, some value, s3, rfl, hbody, .inr ⟨by simp, b', hback, rfl⟩⟩, runs_afterLoop h⟩

theorem runs_inScope {inside : Lower α} {r : Option α} : Runs (inScope inside) s r s' ↔
    ∃ s1, Runs inside s r s1 ∧ s' = { s1 with env := s1.env.truncate s.env.size } := by
  unfold inScope
  rw [runs_get_bind, runs_attempt_bind]
  constructor
  · rintro ⟨r', s1, hr, h⟩
    cases r' with
    | none =>
      obtain ⟨rfl, rfl⟩ := runs_stop.mp h
      exact ⟨s1, hr, rfl⟩
    | some a =>
      obtain ⟨rfl, rfl⟩ := runs_pure.mp h
      exact ⟨s1, hr, rfl⟩
  · rintro ⟨s1, hr, rfl⟩
    refine ⟨r, s1, hr, ?_⟩
    cases r with
    | none => exact runs_stop.mpr ⟨rfl, rfl⟩
    | some a => exact runs_pure.mpr ⟨rfl, rfl⟩

end

end Lower

end SsaCompiler
