import SsaCompiler.Ir.Function
import Mathlib.Data.Set.Basic

/-!
# Single assignment form

What it means for a body to be in single assignment form (`FunctionBody.Ssa`): each value of an
instruction has one instruction, and each use comes after it on every path from the entry.

`FunctionBody.Reaching` is a certificate for the second part: a set of values for each block, such
that what is in the set of a block is known at the end of each block before it. A value in the set of
a block is then defined on every path to the block (`Reaching.dominates`), and a body with a
certificate is in single assignment form (`Reaching.ssa`).
-/

namespace SsaCompiler

/-- The values that an operation reads in its own block. A phi reads its values in the blocks that
control comes from. -/
def Operation.operands : Operation → List ValueId
  | .binary _ lhs rhs | .compare _ lhs rhs => [lhs, rhs]
  | .unary _ value | .cast _ value | .load value | .fieldAddr value _ _ | .extractField value _ => [value]
  | .call (.direct _) args _ => args
  | .call (.indirect callee) args _ => callee :: args
  | .alloca _ | .phi _ => []
  | .store pointer value => [pointer, value]
  | .makeAggregate _ values => values

/-- The values that belong to the blocks that control may come from. -/
def Operation.incoming : Operation → List (BlockId × ValueId)
  | .phi incoming => incoming
  | _ => []

def Terminator.operands : Terminator → List ValueId
  | .branch condition _ _ => [condition]
  | .ret (some value) => [value]
  | .jump _ | .ret none | .unreachable => []

namespace FunctionBody

variable {body : FunctionBody} {visited : List Nat}

def instAt? (body : FunctionBody) (i k : Nat) : Option Instruction :=
  (body.blocks[i]?).bind (·.insts[k]?)

def terminator? (body : FunctionBody) (i : Nat) : Option Terminator :=
  (body.blocks[i]?).bind (·.terminator)

/-- The instruction at a position of a block gives a value. -/
def DefinedAt (body : FunctionBody) (value : ValueId) (i k : Nat) : Prop :=
  ∃ inst, body.instAt? i k = some inst ∧ inst.result = some value

def IsResult (body : FunctionBody) (value : ValueId) : Prop :=
  (body.values[value.index]?).map (·.kind) = some .result

def Edge (body : FunctionBody) (i j : Nat) : Prop :=
  ∃ t, body.terminator? i = some t ∧ BlockId.mk j ∈ t.successors

/-- A path from the entry to a block, with the blocks it visits. -/
inductive Path (body : FunctionBody) : Nat → List Nat → Prop
  | entry : Path body 0 [0]
  | step {i j : Nat} {visited : List Nat} : Path body i visited → body.Edge i j → Path body j (j :: visited)

/-- Every path to a block visits another. -/
def Dominates (body : FunctionBody) (d i : Nat) : Prop := ∀ visited, body.Path i visited → d ∈ visited

/-- Every path to a block visits another before. -/
def StrictlyDominates (body : FunctionBody) (d i : Nat) : Prop := d ≠ i ∧ body.Dominates d i

/-- A body is in single assignment form. -/
structure Ssa (body : FunctionBody) : Prop where
  /-- A value of an instruction is the result of exactly one. -/
  once : ∀ value, body.IsResult value → ∃! p : Nat × Nat, body.DefinedAt value p.1 p.2
  /-- An operand is defined before in its block, or in a block that strictly dominates it. -/
  operands : ∀ {i k : Nat} {inst : Instruction}, body.instAt? i k = some inst →
    ∀ value ∈ inst.operation.operands, body.IsResult value →
      ∃ d j, body.DefinedAt value d j ∧ (d = i ∧ j < k ∨ body.StrictlyDominates d i)
  /-- A value of a phi is defined in a block that dominates the one that it belongs to. -/
  incoming : ∀ {i k : Nat} {inst : Instruction}, body.instAt? i k = some inst →
    ∀ arm ∈ inst.operation.incoming, body.IsResult arm.2 →
      ∃ d j, body.DefinedAt arm.2 d j ∧ body.Dominates d arm.1.index
  /-- What a terminator reads is defined in its block, or in a block that strictly dominates it. -/
  terminators : ∀ {i : Nat} {t : Terminator}, body.terminator? i = some t →
    ∀ value ∈ t.operands, body.IsResult value → ∃ d j, body.DefinedAt value d j ∧ (d = i ∨ body.StrictlyDominates d i)

/-- The results of instructions, in the order of the body. -/
def results (body : FunctionBody) : List ValueId :=
  body.blocks.toList.flatMap fun block => block.insts.filterMap (·.result)

/-- Parameters and results are all different, and the table of values tells them from the rest. -/
structure Marked (body : FunctionBody) : Prop where
  nodup : (body.params ++ body.results).Nodup
  mem_iff : ∀ {v}, v ∈ body.params ++ body.results ↔
    ∃ data, body.values[v.index]? = some data ∧ (data.kind = .result ∨ ∃ i, data.kind = .param i)

/-! ## Certificates -/

/-- A value needs no definition before the position `k` of block `i`, or is known to have one: it
does not come from an instruction, it is one of the first `slots` of the entry, it reaches the block,
or it is defined in it. -/
inductive Known (body : FunctionBody) (slots : Nat) (reaching : Nat → Set ValueId) (i k : Nat)
    (value : ValueId) : Prop
  | free : ¬ body.IsResult value → Known body slots reaching i k value
  | slot {j : Nat} : j < slots → body.DefinedAt value 0 j → Known body slots reaching i k value
  | reaching : value ∈ reaching i → Known body slots reaching i k value
  | before {j : Nat} : j < k → body.DefinedAt value i j → Known body slots reaching i k value

def length (body : FunctionBody) (i : Nat) : Nat := ((body.blocks[i]?).getD .empty).insts.length

/-- The values in `reaching i` are defined on every path to block `i`, and `slots` instructions that
read nothing stand first in the entry. -/
structure Reaching (body : FunctionBody) (slots : Nat) (reaching : Nat → Set ValueId) : Prop where
  once : ∀ value, body.IsResult value → ∃! p : Nat × Nat, body.DefinedAt value p.1 p.2
  slotsFirst : ∀ {k : Nat} {inst : Instruction}, k < slots → body.instAt? 0 k = some inst →
    inst.operation.operands = []
  entry : reaching 0 = ∅
  apart : ∀ {value : ValueId} {i k : Nat}, value ∈ reaching i → ¬ body.DefinedAt value i k
  edges : ∀ {i j : Nat}, body.Edge i j → ∀ value ∈ reaching j, body.Known slots reaching i (body.length i) value
  operands : ∀ {i k : Nat} {inst : Instruction}, body.instAt? i k = some inst →
    ∀ value ∈ inst.operation.operands, body.Known slots reaching i k value
  incoming : ∀ {i k : Nat} {inst : Instruction}, body.instAt? i k = some inst →
    ∀ arm ∈ inst.operation.incoming, body.Known slots reaching arm.1.index (body.length arm.1.index) arm.2
  terminators : ∀ {i : Nat} {t : Terminator}, body.terminator? i = some t →
    ∀ value ∈ t.operands, body.Known slots reaching i (body.length i) value

theorem Path.entry_mem {i : Nat} (h : body.Path i visited) : 0 ∈ visited := by
  induction h with
  | entry => exact List.mem_singleton_self _
  | step _ _ ih => exact .tail _ ih

theorem Path.end_mem {i : Nat} (h : body.Path i visited) : i ∈ visited := by
  cases h with
  | entry => exact List.mem_singleton_self _
  | step => exact .head _

namespace Reaching

variable {slots : Nat} {reaching : Nat → Set ValueId} {value : ValueId} {i k d j : Nat}

section

variable (h : body.Reaching slots reaching) (hv : body.IsResult value)
include h hv

theorem eq_of_definedAt {d' j' : Nat}
    (hd : body.DefinedAt value d j) (hd' : body.DefinedAt value d' j') : d = d' ∧ j = j' := by
  obtain ⟨p, -, hp⟩ := h.once value hv
  have he := (hp (d, j) hd).trans (hp (d', j') hd').symm
  exact ⟨congrArg (·.1) he, congrArg (·.2) he⟩

theorem dominates (hd : body.DefinedAt value d j) (hr : value ∈ reaching i) : body.Dominates d i := by
  intro visited hp
  induction hp with
  | entry => simp [h.entry] at hr
  | @step i i' visited hp he ih =>
    refine .tail _ ?_
    cases h.edges he value hr with
    | free hf => exact absurd hv hf
    | slot _ hs => exact (h.eq_of_definedAt hv hd hs).1 ▸ hp.entry_mem
    | reaching hr => exact ih hr
    | before _ hb => exact (h.eq_of_definedAt hv hd hb).1 ▸ hp.end_mem

theorem dominates_of_known
    (hd : body.DefinedAt value d j) (hk : body.Known slots reaching i k value) : body.Dominates d i := by
  cases hk with
  | free hf => exact absurd hv hf
  | slot _ hs => exact fun visited hp => (h.eq_of_definedAt hv hd hs).1 ▸ hp.entry_mem
  | reaching hr => exact h.dominates hv hd hr
  | before _ hb => exact fun visited hp => (h.eq_of_definedAt hv hd hb).1 ▸ hp.end_mem

/-- Where a value is known it was defined before, at a position of the block or on all paths to it. -/
theorem definedBefore (hk : body.Known slots reaching i k value) (hslots : i = 0 → slots ≤ k) :
    ∃ d j, body.DefinedAt value d j ∧ (d = i ∧ j < k ∨ body.StrictlyDominates d i) := by
  obtain ⟨⟨d, j⟩, hd, -⟩ := h.once value hv
  refine ⟨d, j, hd, ?_⟩
  by_cases hi : d = i
  · refine .inl ⟨hi, ?_⟩
    cases hk with
    | free hf => exact absurd hv hf
    | @slot j' hj hs =>
      obtain ⟨h0, rfl⟩ := h.eq_of_definedAt hv hd hs
      have hk := hslots (hi ▸ h0)
      exact Nat.lt_of_lt_of_le hj hk
    | reaching hr => exact absurd (hi ▸ hd) (h.apart hr)
    | before hj hb =>
      obtain ⟨-, rfl⟩ := h.eq_of_definedAt hv hd hb
      exact hj
  · exact .inr ⟨hi, h.dominates_of_known hv hd hk⟩

end

/-- A body with a certificate is in single assignment form. -/
theorem ssa (h : body.Reaching slots reaching) : body.Ssa where
  once := h.once
  operands {i k inst} hi value hm hv := by
    refine h.definedBefore hv (h.operands hi value hm) fun h0 => ?_
    by_contra hk
    rw [h0] at hi
    rw [h.slotsFirst (Nat.lt_of_not_le hk) hi] at hm
    cases hm
  incoming {i k inst} hi arm hm hv := by
    obtain ⟨⟨d, j⟩, hd, -⟩ := h.once arm.2 hv
    exact ⟨d, j, hd, h.dominates_of_known hv hd (h.incoming hi arm hm)⟩
  terminators {i t} ht value hm hv := by
    obtain ⟨⟨d, j⟩, hd, -⟩ := h.once value hv
    refine ⟨d, j, hd, ?_⟩
    by_cases hi : d = i
    · exact .inl hi
    · exact .inr ⟨hi, h.dominates_of_known hv hd (h.terminators ht value hm)⟩

end Reaching

end FunctionBody

end SsaCompiler
