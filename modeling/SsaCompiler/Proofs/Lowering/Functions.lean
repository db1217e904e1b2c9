import SsaCompiler.Proofs.Lowering.Bodies

/-!
# Lowering functions

The body of a valid world whose blocks are all ended is well typed (`World.Valid.wellTyped`) and in
single assignment form (`World.Valid.ssa`): the sets of values that are promised to reach the blocks
are a certificate for it. So is what a typed function is lowered to, unless a value is asked for where
there is none (`CheckedFunction.lower_ok`).
-/

namespace SsaCompiler

open List
open FunctionBuilder (new)

namespace World

open FunctionBuilder (length_slots)

variable {w : World} {X : Setting} {i k : Nat} {v : ValueId} {inst : Instruction}
variable {pre post : List Instruction}

def body (w : World) : FunctionBody := w.builder.body

theorem terminator?_eq : w.body.terminator? i = w.terminator i :=
  w.builder.terminator?_eq

theorem instAt?_code (h : w.builder.Laid) :
    w.body.instAt? i (w.builder.slotsIn i + k) = (w.code i)[k]? := FunctionBuilder.instAt?_code h

theorem instAt?_slot (h : w.builder.Laid) (hk : k < w.builder.allocas) :
    w.body.instAt? 0 k = w.builder.slots[k]? := FunctionBuilder.instAt?_slot h hk

theorem instAt?_cases (h : w.builder.Laid) (hi : w.body.instAt? i k = some inst) :
    (i = 0 ∧ k < w.builder.allocas ∧ w.builder.slots[k]? = some inst) ∨
      ∃ j, k = w.builder.slotsIn i + j ∧ (w.code i)[j]? = some inst := FunctionBuilder.instAt?_cases h hi

theorem length_body (h : w.builder.Laid) :
    w.body.length i = w.builder.slotsIn i + (w.code i).length := FunctionBuilder.length_body h

theorem mem_instructions (h : w.builder.Laid) (hi : inst ∈ w.body.instructions) :
    inst ∈ w.builder.slots ∨ ∃ i, inst ∈ w.code i := by
  obtain ⟨block, hb, hi⟩ := mem_flatMap.mp hi
  obtain ⟨i, hb⟩ := mem_iff_getElem?.mp hb
  obtain ⟨k, hk⟩ := mem_iff_getElem?.mp hi
  rw [Array.getElem?_toList] at hb
  have hat : w.body.instAt? i k = some inst := by
    unfold FunctionBody.instAt?
    rw [hb]
    exact hk
  rcases instAt?_cases h hat with ⟨-, -, hs⟩ | ⟨j, -, hc⟩
  · exact .inl (mem_of_getElem? hs)
  · exact .inr ⟨i, mem_of_getElem? hc⟩

/-! ## Types -/

/-- What the body says about addresses is what was promised. -/
theorem Valid.le_typing (h : w.Valid X) : w.typing.Le (w.body.typing X.mod) where
  typeOf h := h
  holds {v type held} _ hp := by
    cases hp with
    | slot hm => exact (h.typed _ (mem_instructions h.laid hm)).2
    | global hv hg => exact h.values hv _ hg
    | field hm hf hi => exact (h.typed _ (mem_instructions h.laid hm)).2 _ _ hf hi

theorem Valid.wellTyped (h : w.Valid X) (hclosed : ∀ i < w.blockCount, w.terminator i ≠ none) :
    w.body.WellTyped X.mod X.sig where
  instructions inst hi := (h.typed inst (mem_instructions h.laid hi)).1.mono h.le_typing
  terminators block hb := by
    obtain ⟨i, hb⟩ := mem_iff_getElem?.mp hb
    rw [Array.getElem?_toList] at hb
    have hb : w.builder.blocks[i]? = some block := hb
    have hblock : w.terminator i = block.terminator := by
      simp [terminator, FunctionBuilder.terminator, FunctionBuilder.block, hb]
    obtain ⟨t, ht⟩ := Option.ne_none_iff_exists'.mp (hclosed i (lt_of_getElem? hb))
    exact ⟨t, hblock ▸ ht, (h.terminators ht).1.mono h.le_typing⟩

/-! ## Single assignment -/

theorem position_unique {insts : List Instruction} (hn : (defs insts).Nodup) {a b : Nat}
    {x y : Instruction} (hx : insts[a]? = some x) (hy : insts[b]? = some y) (hvx : x.result = some v)
    (hvy : y.result = some v) : a = b := by
  induction insts generalizing a b with
  | nil => simp at hx
  | cons inst rest ih =>
    have hrest : ∀ {c : Nat} {z : Instruction}, rest[c]? = some z → z.result = some v → v ∈ defs rest :=
      fun hz hvz => mem_defs.mpr ⟨_, mem_of_getElem? hz, hvz⟩
    have hn' : (defs rest).Nodup := hn.sublist ((sublist_cons_self inst rest).filterMap _)
    have hhead : inst.result = some v → v ∉ defs rest := fun hv => by
      simp only [defs, filterMap_cons, hv] at hn
      exact (nodup_cons.mp hn).1
    cases a with
    | zero =>
      cases b with
      | zero => rfl
      | succ b =>
        cases hx
        exact absurd (hrest hy hvy) (hhead hvx)
    | succ a =>
      cases b with
      | zero =>
        cases hy
        exact absurd (hrest hx hvx) (hhead hvy)
      | succ b => exact congrArg (· + 1) (ih hn' hx hy)

theorem definedAt_cases (h : w.builder.Laid) (hd : w.body.DefinedAt v i k) :
    (i = 0 ∧ k < w.builder.allocas ∧ ∃ inst, w.builder.slots[k]? = some inst ∧ inst.result = some v) ∨
      ∃ j inst, k = w.builder.slotsIn i + j ∧ (w.code i)[j]? = some inst ∧ inst.result = some v := by
  obtain ⟨inst, hi, hv⟩ := hd
  rcases instAt?_cases h hi with ⟨h0, hk, hs⟩ | ⟨j, hj, hc⟩
  · exact .inl ⟨h0, hk, inst, hs, hv⟩
  · exact .inr ⟨j, inst, hj, hc, hv⟩

theorem definedAt_slot (h : w.builder.Laid) (hv : v ∈ defs w.builder.slots) :
    ∃ k < w.builder.allocas, w.body.DefinedAt v 0 k := by
  obtain ⟨inst, hm, hr⟩ := mem_defs.mp hv
  obtain ⟨k, hk⟩ := mem_iff_getElem?.mp hm
  have hlt : k < w.builder.allocas := length_slots h ▸ (List.getElem?_eq_some_iff.mp hk).1
  exact ⟨k, hlt, inst, (instAt?_slot h hlt).trans hk, hr⟩

theorem definedAt_code (h : w.builder.Laid) (hc : w.code i = pre ++ post) (hv : v ∈ defs pre) :
    ∃ k < w.builder.slotsIn i + pre.length, w.body.DefinedAt v i k := by
  obtain ⟨inst, hm, hr⟩ := mem_defs.mp hv
  obtain ⟨k, hk⟩ := mem_iff_getElem?.mp hm
  have hlt : k < pre.length := (List.getElem?_eq_some_iff.mp hk).1
  refine ⟨w.builder.slotsIn i + k, Nat.add_lt_add_left hlt _, inst, (instAt?_code h).trans ?_, hr⟩
  rw [hc, getElem?_append_left hlt, hk]

theorem Valid.definedAt_unique (h : w.Valid X) {i' k' : Nat} (hd : w.body.DefinedAt v i k)
    (hd' : w.body.DefinedAt v i' k') : i = i' ∧ k = k' := by
  have hslot : ∀ {k : Nat} {inst : Instruction}, w.builder.slots[k]? = some inst → inst.result = some v →
      v ∈ defs w.builder.slots := fun hs hv => mem_defs.mpr ⟨_, mem_of_getElem? hs, hv⟩
  have hcode : ∀ {i j : Nat} {inst : Instruction}, (w.code i)[j]? = some inst → inst.result = some v →
      v ∈ defs (w.code i) := fun hs hv => mem_defs.mpr ⟨_, mem_of_getElem? hs, hv⟩
  rcases definedAt_cases h.laid hd with ⟨rfl, -, x, hx, hvx⟩ | ⟨j, x, rfl, hx, hvx⟩
  · rcases definedAt_cases h.laid hd' with ⟨rfl, -, y, hy, hvy⟩ | ⟨j', y, rfl, hy, hvy⟩
    · exact ⟨rfl, position_unique h.distinctSlots hx hy hvx hvy⟩
    · exact absurd (hcode hy hvy) ((h.distinct i').2 (hslot hx hvx))
  · rcases definedAt_cases h.laid hd' with ⟨rfl, -, y, hy, hvy⟩ | ⟨j', y, rfl, hy, hvy⟩
    · exact absurd (hcode hx hvx) ((h.distinct i).2 (hslot hy hvy))
    · by_cases hi : i = i'
      · subst hi
        exact ⟨rfl, congrArg _ (position_unique (h.distinct i).1 hx hy hvx hvy)⟩
      · exact absurd (hcode hy hvy) (h.apart hi (hcode hx hvx))

theorem Valid.known_body (h : w.Valid X) (hc : w.code i = pre ++ post) (hv : w.KnownAfter pre i v) :
    w.body.Known w.builder.allocas w.reach i (w.builder.slotsIn i + pre.length) v := by
  rcases hv with (⟨data, hd, hk⟩ | hs) | hr | hd
  · refine .free fun hresult => hk ?_
    have hresult : (w.builder.values[v.index]?).map (·.kind) = some .result := hresult
    rw [hd] at hresult
    exact Option.some.inj hresult
  · obtain ⟨k, hk, hd⟩ := definedAt_slot h.laid hs
    exact .slot hk hd
  · exact .reaching hr
  · obtain ⟨k, hk, hd⟩ := definedAt_code h.laid hc hd
    exact .before hk hd

theorem Valid.known_end (h : w.Valid X) (hv : w.Known i v) :
    w.body.Known w.builder.allocas w.reach i (w.body.length i) v := by
  rw [length_body h.laid]
  exact h.known_body (append_nil _).symm hv

/-- The promises are a certificate. -/
theorem Valid.reaching (h : w.Valid X) : w.body.Reaching w.builder.allocas w.reach where
  once v hv := by
    obtain ⟨i, k, hd⟩ : ∃ i k, w.body.DefinedAt v i k := by
      rcases (h.results v).mp hv with hs | ⟨i, hc⟩
      · obtain ⟨k, -, hd⟩ := definedAt_slot h.laid hs
        exact ⟨0, k, hd⟩
      · obtain ⟨k, -, hd⟩ := definedAt_code h.laid (append_nil _).symm hc
        exact ⟨i, k, hd⟩
    refine ⟨(i, k), hd, fun p hp => ?_⟩
    obtain ⟨hi, hk⟩ := h.definedAt_unique hp hd
    exact Prod.ext hi hk
  slotsFirst {k inst} hk hi := by
    rw [instAt?_slot h.laid hk] at hi
    obtain ⟨type, v, rfl⟩ := h.slots inst (mem_of_getElem? hi)
    rfl
  entry := h.entry
  apart {v i k} hr hd := by
    rcases definedAt_cases h.laid hd with ⟨rfl, -⟩ | ⟨j, inst, -, hc, hv⟩
    · rw [h.entry] at hr
      exact hr
    · exact (h.fresh hr).2 (mem_defs.mpr ⟨inst, mem_of_getElem? hc, hv⟩)
  edges {i j} he v hv := by
    obtain ⟨t, ht, hj⟩ := he
    rw [terminator?_eq] at ht
    exact h.known_end (((h.terminators ht).2.2 _ hj).2 v hv)
  operands {i k inst} hi v hv := by
    rcases instAt?_cases h.laid hi with ⟨-, -, hs⟩ | ⟨j, rfl, hc⟩
    · obtain ⟨type, u, rfl⟩ := h.slots inst (mem_of_getElem? hs)
      cases hv
    · obtain ⟨hj, rfl⟩ := List.getElem?_eq_some_iff.mp hc
      have hsplit : w.code i = (w.code i).take j ++ (w.code i)[j] :: (w.code i).drop (j + 1) := by
        rw [← drop_eq_getElem_cons hj, take_append_drop]
      have hknown := h.known_body hsplit (h.operands hsplit v hv)
      rwa [length_take, Nat.min_eq_left (Nat.le_of_lt hj)] at hknown
  incoming {i k inst} hi arm harm := by
    rcases instAt?_cases h.laid hi with ⟨-, -, hs⟩ | ⟨j, rfl, hc⟩
    · obtain ⟨type, u, rfl⟩ := h.slots inst (mem_of_getElem? hs)
      cases harm
    · exact h.known_end (h.incoming (mem_of_getElem? hc) arm harm).2
  terminators {i t} ht v hv := by
    rw [terminator?_eq] at ht
    exact h.known_end ((h.terminators ht).2.1 v hv)

theorem Valid.ssa (h : w.Valid X) : w.body.Ssa := h.reaching.ssa

/-! ## Results -/

theorem mem_defs_block : v ∈ defs (w.builder.block i).insts ↔ i = 0 ∧ v ∈ defs w.builder.slots ∨ v ∈ defs (w.code i) := by
  by_cases hi : i = 0
  · subst hi
    rw [w.builder.insts_zero, defs_append, mem_append]
    simp [code]
  · rw [w.builder.insts_of_ne_zero hi]
    simp [hi, code]

theorem results_body : w.body.results = (range w.blockCount).flatMap fun i => defs (w.builder.block i).insts := by
  have hblocks : w.body.blocks.toList = (range w.blockCount).map w.builder.block := by
    refine ext_getElem (by simp [blockCount, body, FunctionBuilder.body]) fun i hi _ => ?_
    have hi : i < w.builder.blocks.size := by simpa [body, FunctionBuilder.body] using hi
    simp [FunctionBuilder.block, body, FunctionBuilder.body, hi]
  rw [FunctionBody.results, hblocks, flatMap_map]
  rfl

theorem Valid.nodup_results (h : w.Valid X) : w.body.results.Nodup := by
  rw [results_body]
  refine nodup_flatMap.mpr ⟨fun i _ => ?_, nodup_range.imp fun {i j} hij v hi hj => ?_⟩
  · by_cases hi : i = 0
    · subst hi
      rw [w.builder.insts_zero, defs_append]
      exact h.distinctSlots.append (h.distinct 0).1 (h.distinct 0).2
    · rw [w.builder.insts_of_ne_zero hi]
      exact (h.distinct i).1
  · rcases mem_defs_block.mp hi with ⟨hi, hs⟩ | hc <;> rcases mem_defs_block.mp hj with ⟨hj, hs'⟩ | hc'
    · exact hij (hi.trans hj.symm)
    · exact (h.distinct j).2 hs hc'
    · exact (h.distinct i).2 hs' hc
    · exact h.apart hij hc hc'

theorem Valid.mem_results (h : w.Valid X) :
    v ∈ w.body.results ↔ (w.builder.values[v.index]?).map (·.kind) = some .result := by
  rw [results_body, h.results, mem_flatMap]
  constructor
  · rintro ⟨i, -, hv⟩
    exact (mem_defs_block.mp hv).imp And.right fun hc => ⟨i, hc⟩
  · rintro (hs | ⟨i, hc⟩)
    · exact ⟨0, mem_range.mpr (Nat.zero_lt_of_lt h.laid.here), mem_defs_block.mpr (.inl ⟨rfl, hs⟩)⟩
    · refine ⟨i, mem_range.mpr (Nat.lt_of_not_le fun hi => ?_), mem_defs_block.mpr (.inr hc)⟩
      simp [(code_of_le hi).1, defs] at hc

/-! ## The start -/

open Lower

variable {units : List SourceUnit} {Γ : List Local} {breaks : Bool} {item : FunctionItem} {binding : BindingId}
  {index depth : Nat}

def start (sig : FunctionSig) : World where
  builder := .new sig
  env := .empty
  loops := []
  cells := List.replicate sig.params.length none
  reaching := [∅]

section

variable (sig : FunctionSig)
include sig

theorem block_start : (start sig).builder.block i = .empty := by cases i <;> rfl

theorem slots_start : (start sig).builder.slots = [] := rfl

theorem code_start (i : Nat) : (start sig).code i = [] := by
  unfold code FunctionBuilder.code
  rw [block_start]
  exact drop_nil

theorem terminator_start (i : Nat) : (start sig).terminator i = none := by
  unfold terminator FunctionBuilder.terminator
  rw [block_start]
  rfl

theorem values_start : (start sig).builder.values[i]? = (sig.params[i]?).map fun type => ⟨.param i, type⟩ := by
  simp [start, new, Function.comp_def]

theorem reach_start : (start sig).reach i = ∅ := by cases i <;> rfl

end

theorem valid_start : (start X.sig).Valid X where
  laid := ⟨Nat.zero_le _, Nat.zero_lt_one⟩
  cells := by simp [start, valueCount, new]
  blocks := rfl
  slots := by simp [slots_start]
  typed := by simp [slots_start, code_start]
  values {i data} hv := by
    rw [values_start] at hv
    obtain ⟨type, htype, rfl⟩ := Option.map_eq_some_iff.mp hv
    exact mem_map_of_mem (mem_range.mpr (List.getElem?_eq_some_iff.mp htype).1)
  operands {i pre post inst} hc := by simp [code_start] at hc
  incoming {i inst} hi := by simp [code_start] at hi
  terminators {i t} ht := by simp [terminator_start] at ht
  entry := reach_start ..
  fresh {i v} hv := by
    rw [reach_start] at hv
    exact absurd hv id
  distinctSlots := by simp [slots_start, defs]
  distinct i := by simp [code_start, defs]
  apart {i j} _ := by simp [code_start, defs]
  results v := by
    rw [values_start]
    cases h : X.sig.params[v.index]? <;> simp [slots_start, code_start, defs]

theorem at_start : At (start X.sig) X [] 0 where
  valid := valid_start
  isOpen := terminator_start ..
  env := ⟨rfl, by simp⟩
  distinct := by simp
  locals := by simp
  loops := ⟨by simp [start], by simp [start], by simp [start, exits]⟩
  depth := rfl
  around := by simp [start]
  notExit := by simp [start, exits]

/-! ## Parameters -/

/-- A parameter of a type is there. -/
structure ParamOk (w : World) (X : Setting) (binding : BindingId) (index : Nat) : Prop where
  found : ∃ type v, X.function.localTypes.get? binding = some type ∧ type.Proper X.decls.structs.size ∧
    type ≠ .unit ∧ w.builder.params[index]? = some v ∧ w.HoldsAt X w.here v type
  isLocal : ∃ unit index, binding = .local unit index

theorem ParamOk.flow {w' : World} (h : w.ParamOk X binding index) (hf : Flow w w' X Γ depth breaks) (hv : w.Valid X) :
    w'.ParamOk X binding index := by
  obtain ⟨type, v, ht, hp, hu, hparam, hh⟩ := h.found
  exact ⟨⟨type, v, ht, hp, hu, hf.grows.params ▸ hparam, hf.holdsAt hv hh⟩, h.isLocal⟩

/-- A parameter is kept as a value or in a stack slot, and the next step goes on with that. -/
theorem At.yields_paramBound {α : Type} {next : Bound → Lower α} {Q : α → World → Prop}
    (h : At w X Γ depth) {type : Ty} {lowered : IrType} {v : ValueId}
    (hl : X.items.lowerType type = .ok lowered) (hu : type ≠ .unit) (hv : w.HoldsAt X w.here v type)
    (hn : ∀ bound w', Flow w w' X Γ depth breaks → At w' X Γ depth →
      w'.BoundOk X w'.here binding type bound → Yields X Γ depth breaks (next bound) w' Q) :
    Yields X Γ depth breaks (if X.function.isMemoryResident binding then do
        let slot ← emit (.alloca lowered)
        emit (.store slot v)
        next (.slot slot lowered)
      else next (.value v)) w Q := by
  cases hm : X.function.isMemoryResident binding with
  | false => exact hn _ w (.refl ..) h (.value hu hm hv)
  | true =>
    refine (h.yields_alloca hl).bind fun slot w1 hf ⟨h1, hs⟩ => ?_
    refine (h1.yields_store (hs.holdsAt _) (hf.holdsAt h.valid hv)).bind fun _ w2 hf2 h2 => ?_
    exact hn _ w2 (hf.trans hf2) h2 (.slot hu hm (hs.mono hf2.grows h1.valid.cells))

theorem yields_declareParams (hX : X.Fits units) {xs : List Local} (h : At w X Γ 0)
    (hx : ∀ p ∈ (xs.map (·.binding)).zipIdx index, w.ParamOk X p.1 p.2) (hd : ((Γ ++ xs).map (·.binding)).Nodup) :
    Yields X Γ 0 breaks (declareParams X.lowering ((xs.map (·.binding)).zipIdx index)) w
      fun _ w' => At w' X (Γ ++ xs) 0 := by
  induction xs generalizing w Γ index with
  | nil =>
    rw [append_nil]
    exact .pure h
  | cons x rest ih =>
    obtain ⟨type, v, ht, hp, hu, hparam, hv⟩ := (hx _ (.head _)).found
    obtain ⟨lowered, hl⟩ := hX.realized.lowerType hp
    have hfresh : ∀ y ∈ Γ, y.binding ≠ x.binding := by
      intro y hy he
      rw [map_append, nodup_append] at hd
      exact hd.2.2 _ (mem_map_of_mem hy) _ (.head _) he
    have hask : (Emit.ask (·.param index)).run w.builder = .ok (v, w.builder) := by
      refine Emit.run_ask ?_
      simp [FunctionBuilder.param, hparam]
    have htype : localType X.lowering x.binding = .ok type := by simp [localType, Setting.lowering, ht]
    have hnext : ∀ bound w1, Flow w w1 X Γ 0 breaks → At w1 X Γ 0 →
        w1.BoundOk X w1.here x.binding type bound → Yields X Γ 0 breaks (do
          modify fun s => { s with env := s.env.insert x.binding bound }
          declareParams X.lowering ((rest.map (·.binding)).zipIdx (index + 1))) w1
            fun _ w' => At w' X (Γ ++ x :: rest) 0 := by
      intro bound w1 hf h1 hb
      obtain ⟨h2, hf2⟩ := h1.declare (hx _ (.head _)).isLocal hfresh ht hp hb
      have hparams : ∀ p ∈ (rest.map (·.binding)).zipIdx (index + 1),
          ({ w1 with env := w1.env.insert x.binding bound } : World).ParamOk X p.1 p.2 := fun p hp =>
        ((hx p (.tail _ hp)).flow hf h.valid).flow (hf2 breaks) h1.valid
      have hrest := ih h2 hparams (by simpa using hd)
      rw [append_assoc] at hrest
      exact Ensures.change ((hrest.weaken (subset_append_left ..) fun hb => hb).after (hf2 breaks))
    exact Ensures.emit hask (.answer htype (.answer hl (h.yields_paramBound hl hu hv hnext)))

theorem paramOk_start (hX : X.Fits units) (hf : item ∈ X.decls.functions.toList)
    (hsig : X.items.lowerSig item.params item.result item.varargs = .ok X.sig)
    (ht : Forall₂ (fun binding type => (∃ unit index, binding = .local unit index) ∧
      X.function.localTypes.get? binding = some type) X.function.params item.params) :
    ∀ p ∈ X.function.params.zipIdx, (start X.sig).ParamOk X p.1 p.2 := by
  rintro ⟨binding, index⟩ hp
  have hb : X.function.params[index]? = some binding := mk_mem_zipIdx_iff_getElem?.mp hp
  obtain ⟨hi, rfl⟩ := List.getElem?_eq_some_iff.mp hb
  simp only [ItemMap.lowerSig, bind_eq_ok, pure_eq_ok] at hsig
  obtain ⟨types, htypes, result, -, hsig⟩ := hsig
  have htypes := mapM_eq_ok htypes
  have hi1 : index < item.params.length := ht.length_eq ▸ hi
  have hi2 : index < types.length := htypes.length_eq ▸ hi1
  obtain ⟨hlocal, htype⟩ := ht.get hi hi1
  have hl : X.items.lowerType item.params[index] = .ok types[index] := htypes.get hi1 hi2
  have hparams : X.sig.params = types := by rw [← hsig]
  obtain ⟨⟨hproper, -⟩, hunit, -⟩ := hX.wellFormed.functions item hf
  have hmem : item.params[index] ∈ item.params := getElem_mem hi1
  have hvalue : (start X.sig).builder.values[index]? = some ⟨.param index, types[index]⟩ := by
    rw [values_start, hparams, getElem?_eq_getElem hi2]
    rfl
  refine ⟨⟨item.params[index], ⟨index⟩, htype, Ty.allProper_iff.mp hproper _ hmem, fun hu => hunit (hu ▸ hmem),
    ?_, ⟨types[index], hl, ?_, ?_⟩, .inl (.inl ⟨_, hvalue, by simp⟩)⟩, hlocal⟩
  · simp [start, new, hparams, hi2]
  · exact Option.map_eq_some_iff.mpr ⟨_, hvalue, rfl⟩
  · intro pointee _ held hh
    have hh : (replicate X.sig.params.length (none : Option IrType))[index]? = some (some held) := hh
    rw [hparams, getElem?_replicate, if_pos hi2] at hh
    cases hh

/-! ## The end -/

section

variable {ctx : LowerContext} {b : FunctionBuilder} {result : Option Lowered}

theorem run_finishBody_closed (hb : b.here < b.blocks.size) (ht : b.terminator b.here ≠ none) :
    (finishBody ctx result).run b = .ok ((), b) := by
  have hterm := Emit.run_isTerminated hb
  rw [Option.isSome_iff_ne_none.mpr ht] at hterm
  unfold finishBody
  simp only [run_bind_eq_ok, run_get_eq_ok, run_lift_eq_ok]
  exact ⟨b, b, ⟨rfl, rfl⟩, true, b, ⟨hterm, rfl⟩, rfl⟩

theorem run_finishBody_open (hb : b.Laid) (ho : b.terminator b.here = none)
    (he : b.current = b.entry ∨ ∃ source, (source, b.current) ∈ b.edges)
    {value : Option ValueId} (hv : ctx.function.result = .unit ∧ value = none ∨
      ∃ v, result = some (.value v) ∧ ctx.function.result ≠ .unit ∧ value = some v) :
    (finishBody ctx result).run b = .ok ((), b.close (.ret value)) := by
  have hterm := Emit.run_isTerminated hb.here
  rw [ho] at hterm
  have hentered : (b.current ≠ b.entry && (b.predecessors b.current).isEmpty) = false := by
    rcases he with he | ⟨source, he⟩
    · simp [he]
    · have hmem : source ∈ b.predecessors b.current :=
        mem_map.mpr ⟨_, mem_filter.mpr ⟨he, by simp⟩, rfl⟩
      simp only [Bool.and_eq_false_iff]
      exact .inr (isEmpty_eq_false_iff_exists_mem.mpr ⟨source, hmem⟩)
  have hrun := Emit.run_terminate hb ho (.ret value)
  unfold finishBody
  simp only [run_bind_eq_ok, run_get_eq_ok, run_lift_eq_ok]
  refine ⟨b, b, ⟨rfl, rfl⟩, false, b, ⟨hterm, rfl⟩, ?_⟩
  simp only [hentered]
  rcases hv with ⟨hu, rfl⟩ | ⟨v, rfl, hu, rfl⟩
  · simp only [hu]
    exact hrun
  · cases hresult : ctx.function.result with
    | unit => exact absurd hresult hu
    | _ => exact hrun

end

/-- Where control does not go on from the start of a function, all blocks are ended. -/
theorem Leads.all_closed {sig : FunctionSig} (h : Leads (start sig) w X breaks ∅) :
    ∀ i < w.blockCount, w.terminator i ≠ none := by
  intro i hi hopen
  have hloops : w.loops = [] := by
    rcases h.kept with he | ⟨-, t, rest, x, he, -⟩
    · exact he
    · cases he
  have hnew : i = (start sig).here ∨ (start sig).blockCount ≤ i := by
    cases i with
    | zero => exact .inl rfl
    | succ i => exact .inr (Nat.succ_le_succ (Nat.zero_le i))
  rcases h.closed i hnew hi hopen with hE | hx
  · exact hE
  · rw [hloops] at hx
    cases hx

theorem LoweredOk.returned (hX : X.Fits units) {lowered : Lowered}
    (h : w.LoweredOk X w.here X.function.result lowered) : ∃ value, (X.function.result = .unit ∧ value = none ∨
        ∃ v, some lowered = some (Lowered.value v) ∧ X.function.result ≠ .unit ∧ value = some v) ∧
      (Terminator.ret value).Typed X.sig w.typing ∧ ∀ v ∈ (Terminator.ret value).operands, w.Known w.here v := by
  cases lowered with
  | unit =>
    have hu := h.of_unit
    have hresult := hX.result
    rw [hu] at hresult
    exact ⟨none, .inl ⟨hu, rfl⟩, (Except.ok.inj hresult).symm, by simp [Terminator.operands]⟩
  | value v =>
    obtain ⟨hu, hv⟩ := h.of_value
    refine ⟨some v, .inr ⟨v, rfl, hu, rfl⟩, hv.typeOf hX.result, fun u hm => ?_⟩
    obtain rfl := mem_singleton.mp hm
    exact hv.2

/-- The body of a typed function is lowered to the end. -/
theorem lowerBody_ok (hX : X.Fits units) {decl : FunctionDecl} {root : Expr} (hf : item ∈ X.decls.functions.toList)
    (hsig : X.items.lowerSig item.params item.result item.varargs = .ok X.sig)
    (ht : X.typing.FunctionTyped item decl root) (hr : X.ReadyFor .top root) :
    Ensures X.passesUnit (lowerBody X.lowering root) (start X.sig).toLowerState
      (fun _ s => ∃ w : World, w.toLowerState = s ∧ Leads (start X.sig) w X root.breaks ∅)
      (fun s => ∃ w : World, w.toLowerState = s ∧ Leads (start X.sig) w X root.breaks ∅) := by
  have hbindings : (X.typing.params decl).map (·.binding) = X.function.params := by
    unfold TypingContext.params
    rw [← map_uncurry_zip_eq_zipWith, map_map]
    exact map_snd_zip (Nat.le_of_eq ht.arity)
  have hparams := paramOk_start hX hf hsig ht.paramTypes
  rw [← hbindings] at hparams
  have hdistinct : ((X.typing.params decl).map (·.binding)).Nodup := by
    rw [hbindings]
    exact ht.distinct
  have hresult : item.result.Proper X.decls.structs.size := (hX.wellFormed.functions item hf).1.2
  have hdeclare : Yields X [] 0 root.breaks (declareParams X.lowering X.function.params.zipIdx)
      (start X.sig) fun _ w' => At w' X (X.typing.params decl) 0 := by
    rw [← hbindings]
    exact yields_declareParams hX at_start hparams hdistinct
  refine .bind (Ensures.mono hdeclare ?_ ?_)
  · rintro _ s ⟨w1, rfl, hf1, h1⟩
    have hroot := lowersOk hX root ht.body hr (Setting.converts_of_branchTyped ht.returned hr.proper hresult) h1 fun hb => hb
    refine .attempt hroot ?_ ?_
    · rintro lowered s ⟨w2, rfl, hf2, ⟨h2, hl⟩, hd⟩
      have hbranch : w2.LoweredOk X w2.here X.function.result lowered := by
        rw [show X.function.result = item.result from ht.result]
        rcases ht.returned with hused | ⟨hdiv, -⟩
        · exact hused.1 ▸ hl
        · rw [hd] at hdiv
          cases hdiv
      obtain ⟨value, hvalue, hvtyped, hvknown⟩ := hbranch.returned hX
      have hentered : w2.builder.current = w2.builder.entry ∨
          ∃ source, (source, w2.builder.current) ∈ w2.builder.edges := by
        have hf := hf1.trans (hf2.mono (nil_subset _) fun hb => hb)
        exact hf.here.imp (congrArg BlockId.mk) And.right
      have hleads := ((hf1.leads h1).trans rfl (hf2.leads h2)).close (.inr rfl) hvtyped hvknown
        (by simp [Terminator.successors])
      unfold Ensures
      rw [run_emit, run_finishBody_open h2.valid.laid h2.isOpen hentered hvalue]
      refine ⟨w2.close (.ret value), rfl, hleads.of_eq ?_⟩
      ext i
      refine ⟨fun hi => ?_, fun hi => absurd hi id⟩
      rcases hi with ⟨⟨hi, hne⟩ | hi, hne'⟩
      · exact hne hi
      · exact hne' hi
    · rintro s ⟨w2, rfl, hh⟩
      have hleads := (hf1.leads h1).trans rfl hh.leads
      unfold Ensures
      rw [run_emit, run_finishBody_closed hh.leads.valid.laid.here hh.stopped]
      refine ⟨w2, rfl, hleads.of_eq ?_⟩
      ext i
      exact ⟨fun hi => hi.elim (fun hi => hi.2 hi.1) id, fun hi => absurd hi id⟩
  · rintro s ⟨w1, rfl, hh⟩
    exact ⟨w1, rfl, hh.leads⟩

theorem Leads.marked {w : World} {breaks : Bool} {ends : Set Nat} (h : Leads (start X.sig) w X breaks ends) :
    w.body.Marked := by
  have hparams : ∀ v, v ∈ w.body.params ↔ ∃ data, w.body.values[v.index]? = some data ∧ ∃ i, data.kind = .param i := by
    intro v
    constructor
    · intro hv
      have hv : v ∈ w.builder.params := hv
      rw [h.grows.params] at hv
      obtain ⟨i, hi, rfl⟩ := mem_map.mp hv
      have hparam := getElem?_eq_getElem (mem_range.mp hi)
      exact ⟨_, h.grows.values_get (by rw [values_start, hparam]; rfl), i, rfl⟩
    · rintro ⟨⟨_, type⟩, hv, i, rfl⟩
      exact h.valid.values hv
  refine ⟨nodup_append.mpr ⟨?_, h.valid.nodup_results, ?_⟩, fun {v} => ?_⟩
  · show w.builder.params.Nodup
    rw [h.grows.params]
    exact nodup_range.map fun _ _ he => congrArg ValueId.index he
  · rintro v hv _ hv' rfl
    obtain ⟨data, hdata, i, hi⟩ := (hparams v).mp hv
    obtain ⟨_, hdata', hk⟩ := Option.map_eq_some_iff.mp (h.valid.mem_results.mp hv')
    cases hdata.symm.trans hdata'
    cases hi.symm.trans hk
  · rw [mem_append, or_comm, hparams, h.valid.mem_results, Option.map_eq_some_iff, ← exists_or]
    exact exists_congr fun data => and_or_left.symm

end World

open World in
/-- A typed function is lowered to a body that is well typed and in single assignment form, or a call
passes an argument that has no value and it is asked for. -/
theorem CheckedFunction.lower_ok {units : List SourceUnit} {X : Setting} (hX : X.Fits units)
    {item : FunctionItem} {decl : FunctionDecl} {root : Expr} (hf : item ∈ X.decls.functions.toList)
    (hsig : X.items.lowerSig item.params item.result item.varargs = .ok X.sig)
    (ht : X.typing.FunctionTyped item decl root) (hr : X.ReadyFor .top root) :
    (X.function.lower X.items X.sig root = .error .unitAsValue ∧ X.passesUnit) ∨
      ∃ body, X.function.lower X.items X.sig root = .ok body ∧ body.WellTyped X.mod X.sig ∧ body.Ssa ∧ body.Marked := by
  have hbody := lowerBody_ok hX hf hsig ht hr
  have hfinish : ∀ {w : World}, Leads (World.start X.sig) w X root.breaks ∅ → w.builder.finish = .ok w.body := by
    intro w hl
    have hnone : w.builder.unterminated? = none := by
      unfold FunctionBuilder.unterminated?
      rw [Option.map_eq_none_iff, Array.findIdx?_eq_none_iff]
      intro block hb
      obtain ⟨i, hi⟩ := Array.getElem?_of_mem hb
      have hclosed := hl.all_closed i (lt_of_getElem? hi)
      have hclosed : block.terminator ≠ none := by
        simpa [World.terminator, FunctionBuilder.terminator, FunctionBuilder.block, hi] using hclosed
      simpa using Option.isSome_iff_ne_none.mpr hclosed
    simp [FunctionBuilder.finish, hnone, World.body, FunctionBuilder.body]
  unfold Lower.Ensures at hbody
  unfold CheckedFunction.lower
  split at hbody
  · rename_i a s hrun
    obtain ⟨w, rfl, hl⟩ := hbody
    refine .inr ⟨w.body, ?_, hl.valid.wellTyped hl.all_closed, hl.valid.ssa, hl.marked⟩
    exact bind_eq_ok.mpr ⟨_, hrun, hfinish hl⟩
  · rename_i s hrun
    obtain ⟨w, rfl, hl⟩ := hbody
    refine .inr ⟨w.body, ?_, hl.valid.wellTyped hl.all_closed, hl.valid.ssa, hl.marked⟩
    exact bind_eq_ok.mpr ⟨_, hrun, hfinish hl⟩
  · rename_i fault hrun
    refine .inl ⟨?_, hbody.2⟩
    rw [hbody.1] at hrun
    have herror : (Lower.lowerBody ⟨X.items, X.function⟩ root).run
        ⟨new X.sig, .empty, []⟩ = .error .unitAsValue := hrun
    simp only [herror]
    rfl

end SsaCompiler
