import SsaCompiler.Proofs.Lowering.Variables

/-!
# Joins

Where several ways meet, a local that does not hold the same on all of them becomes a phi. That is
sound because a local in memory holds the same on all ways, and because what is known at the end of
all ways is known where they meet (`World.Meets`).
-/

namespace SsaCompiler

open List

theorem mapM_eq_pure {m : Type → Type} [Monad m] [LawfulMonad m] {α β : Type} {f : α → m β}
    {xs : List α} {ys : List β} (h : Forall₂ (fun x y => f x = pure y) xs ys) : xs.mapM f = pure ys := by
  induction h with
  | nil => rfl
  | cons hy _ ih => simp [hy, ih]

theorem exists_forall₂ {α β : Type} {R : α → β → Prop} {xs : List α} (h : ∀ x ∈ xs, ∃ y, R x y) :
    ∃ ys, Forall₂ R xs ys := by
  induction xs with
  | nil => exact ⟨[], .nil⟩
  | cons x rest ih =>
    obtain ⟨y, hy⟩ := h x (.head _)
    obtain ⟨ys, hys⟩ := ih fun x hx => h x (.tail _ hx)
    exact ⟨y :: ys, .cons hy hys⟩

namespace World

open Lower

variable {w₀ w w' w'' : World} {X : Setting} {Γ : List Local} {depth : Nat} {breaks : Bool} {E : Set Nat}
  {env : Env} {type : Ty} {arms : List Arm} {i : Nat} {v : ValueId}
variable {merge : BlockId} {x : Local}

/-! ## Ending the ways -/

/-- Nothing but terminators and the current block changed. -/
structure Rewires (w w' : World) : Prop where
  values : w'.builder.values = w.builder.values
  slots : w'.builder.slots = w.builder.slots
  code : ∀ i, w'.code i = w.code i
  reaching : w'.reaching = w.reaching
  cells : w'.cells = w.cells
  edges : w.builder.edges <+: w'.builder.edges
  params : w'.builder.params = w.builder.params
  blocks : w'.blockCount = w.blockCount
  env : w'.env = w.env
  loops : w'.loops = w.loops

namespace Rewires

theorem refl : Rewires w w :=
  ⟨rfl, rfl, fun _ => rfl, rfl, rfl, prefix_rfl, rfl, rfl, rfl, rfl⟩

theorem trans (h : Rewires w w') (h' : Rewires w' w'') : Rewires w w'' where
  values := h'.values.trans h.values
  slots := h'.slots.trans h.slots
  code i := (h'.code i).trans (h.code i)
  reaching := h'.reaching.trans h.reaching
  cells := h'.cells.trans h.cells
  edges := h.edges.trans h'.edges
  params := h'.params.trans h.params
  blocks := h'.blocks.trans h.blocks
  env := h'.env.trans h.env
  loops := h'.loops.trans h.loops

theorem grows (h : Rewires w w') : Grows Set.univ w w' where
  values := h.values ▸ prefix_rfl
  cells := h.cells ▸ prefix_rfl
  reaching := h.reaching ▸ prefix_rfl
  slots := h.slots ▸ prefix_rfl
  edges := h.edges
  params := h.params
  blocks := Nat.le_of_eq h.blocks.symm
  code i := ⟨[], by simp [h.code], by simp [defs]⟩
  same _ _ hi := absurd trivial hi

theorem known_iff (h : Rewires w w') : w'.Known i v ↔ w.Known i v := by
  unfold Known KnownAfter Free reach
  rw [h.values, h.slots, h.code, h.reaching]

theorem close (h : w.builder.Laid) {t : Terminator} : Rewires w (w.close t) where
  values := by simp [World.close]
  slots := FunctionBuilder.slots_close h
  code := code_close h
  reaching := rfl
  cells := rfl
  edges := FunctionBuilder.edges_close_prefix ..
  params := FunctionBuilder.params_close ..
  blocks := blockCount_close
  env := rfl
  loops := rfl

theorem goingOn {block : BlockId} : Rewires w (w.goingOn block) :=
  { refl with }

end Rewires

theorem closeArms_ok (h : Leads w₀ w X breaks E) (hm : merge.index < w.blockCount)
    (hopen : ∀ arm ∈ arms, arm.isOpen = true → arm.block.index ∈ E)
    (hd : ((arms.filter (·.isOpen)).map (·.block)).Nodup)
    (hreach : ∀ arm ∈ arms, arm.isOpen = true → ∀ v ∈ w.reach merge.index, w.Known arm.block.index v) :
    ∃ w', (closeArms merge arms).run w.builder = .ok ((), w'.builder) ∧ Rewires w w' ∧
      Leads w₀ w' X breaks (E \ {i | ∃ arm ∈ arms, arm.isOpen = true ∧ arm.block.index = i}) ∧
      ∀ arm ∈ arms, arm.isOpen = true → (arm.block, merge) ∈ w'.builder.edges := by
  induction arms generalizing w E with
  | nil => exact ⟨w, rfl, .refl, h.of_eq (by ext; simp), by simp⟩
  | cons arm rest ih =>
    cases ho : arm.isOpen with
    | false =>
      obtain ⟨w', hrun, hrew, hl, hedges⟩ := ih h hm (fun a ha => hopen a (.tail _ ha)) (by simpa [ho] using hd)
        fun a ha => hreach a (.tail _ ha)
      refine ⟨w', ?_, hrew, hl.of_eq ?_, ?_⟩
      · simp only [closeArms, ho]
        exact hrun
      · simp [ho]
      · simpa [ho] using hedges
    | true =>
      have hE := hopen arm (.head _) ho
      have hl1 := h.goingOn w.env arm.block (h.ends _ hE).2.1
      have hl2 : Leads w₀ ((w.goingOn arm.block).close (.jump merge)) X breaks (E \ {arm.block.index}) := by
        refine hl1.close hE trivial (by simp [Terminator.operands]) fun j hj => ?_
        obtain rfl := mem_singleton.mp hj
        exact ⟨hm, hreach arm (.head _) ho⟩
      have hrew : Rewires w ((w.goingOn arm.block).close (.jump merge)) :=
        Rewires.goingOn.trans (.close hl1.valid.laid)
      simp only [filter_cons_of_pos ho, map_cons, nodup_cons] at hd
      have hne : ∀ a ∈ rest, a.isOpen = true → a.block.index ≠ arm.block.index := fun a ha hao he => by
        have he : a.block = arm.block := congrArg BlockId.mk he
        exact hd.1 (mem_map.mpr ⟨a, mem_filter.mpr ⟨ha, hao⟩, he⟩)
      obtain ⟨w', hrun, hrew', hl', hedges⟩ := ih hl2 (hrew.blocks ▸ hm)
        (fun a ha hao => ⟨hopen a (.tail _ ha) hao, hne a ha hao⟩) hd.2
        fun a ha hao v hv => hrew.known_iff.mpr (hreach a (.tail _ ha) hao v hv)
      refine ⟨w', ?_, hrew.trans hrew', hl'.of_eq ?_, ?_⟩
      · have hjump := Emit.run_terminate hl1.valid.laid (h.ends _ hE).2.2.1 (.jump merge)
        simp only [closeArms, ho]
        exact run_bind_eq_ok.mpr ⟨(), _, Emit.run_switchTo, run_bind_eq_ok.mpr ⟨(), _, hjump, hrun⟩⟩
      · ext i
        constructor
        · rintro ⟨⟨hE, hne⟩, hr⟩
          refine ⟨hE, ?_⟩
          rintro ⟨a, ha, hao, rfl⟩
          rcases mem_cons.mp ha with rfl | ha
          · exact hne rfl
          · exact hr ⟨a, ha, hao, rfl⟩
        · rintro ⟨hE, hr⟩
          exact ⟨⟨hE, fun he => hr ⟨arm, .head _, ho, Eq.symm he⟩⟩,
            fun ⟨a, ha, hao, he⟩ => hr ⟨a, .tail _ ha, hao, he⟩⟩
      · intro a ha hao
        rcases mem_cons.mp ha with rfl | ha
        · exact hrew'.edges.subset (FunctionBuilder.mem_edges_close _ _ (by simp [Terminator.successors]))
        · exact hedges a ha hao

/-! ## What holds where ways meet -/

/-- A way to a join: the locals hold what their types say at its end, and those that no way changes
hold what they did before. -/
structure ArmOk (w : World) (X : Setting) (Γ : List Local) (depth : Nat) (before : Env) (type : Ty)
    (arm : Arm) : Prop where
  inRange : arm.block.index < w.blockCount
  env : w.EnvOk X arm.block.index Γ arm.env
  held : ∀ x ∈ Γ, x.depth < depth ∨ X.function.isMemoryResident x.binding = true →
    arm.env.get? x.binding = before.get? x.binding
  value : type ≠ .unit → w.LoweredOk X arm.block.index type arm.value

theorem ArmOk.mono {F : Set Nat} {arm : Arm} (h : w.ArmOk X Γ depth env type arm) (g : Grows F w w')
    (hc : w.cells.length = w.valueCount) : w'.ArmOk X Γ depth env type arm where
  inRange := Nat.lt_of_lt_of_le h.inRange g.blocks
  env := h.env.mono g hc fun _ => g.known
  held := h.held
  value hu := (h.value hu).mono g hc fun _ => g.known

theorem BoundOk.of_value {binding : BindingId} (h : w.BoundOk X i binding type (.value v)) :
    type ≠ .unit ∧ X.function.isMemoryResident binding = false ∧ w.HoldsAt X i v type := by
  cases h with
  | value hu hm hv => exact ⟨hu, hm, hv⟩

/-- What a local holds where ways meet. -/
def Joined (w : World) (X : Setting) (depth : Nat) (env : Env) (x : Local) (bound : Bound) : Prop :=
  (∃ type, X.function.localTypes.get? x.binding = some type ∧ type.Proper X.decls.structs.size ∧
    w.BoundOk X w.here x.binding type bound) ∧
  (x.depth < depth ∨ X.function.isMemoryResident x.binding = true → env.get? x.binding = some bound)

theorem EnvOk.entry {index : Nat} (h : w.EnvOk X i Γ env) (hd : (Γ.map (·.binding)).Nodup)
    (hx : Γ[index]? = some x) : ∃ type bound, X.function.localTypes.get? x.binding = some type ∧
      type.Proper X.decls.structs.size ∧ env.entries[index]? = some (x.binding, bound) ∧
      env.get? x.binding = some bound ∧ w.BoundOk X i x.binding type bound := by
  obtain ⟨type, bound, ht, hp, hg, hb⟩ := h.bounds x (mem_of_getElem? hx)
  refine ⟨type, bound, ht, hp, ?_, hg, hb⟩
  have hkeys : env.entries.map (·.1) = Γ.map (·.binding) := h.keys
  have hkey : (env.entries.map (·.1))[index]? = some x.binding := by
    rw [hkeys, getElem?_map, hx]
    rfl
  rw [getElem?_map] at hkey
  obtain ⟨⟨key, bound'⟩, he, hkey⟩ := Option.map_eq_some_iff.mp hkey
  subst hkey
  have hfind : env.get? x.binding = some bound' :=
    Table.find?_of_mem (hkeys ▸ hd) (mem_of_getElem? he)
  rw [hg] at hfind
  cases hfind
  exact he

theorem Joined.emits {bound : Bound} (h : w.Joined X depth env x bound) (hv : w.Valid X)
    (e : Emits w w' X) : w'.Joined X depth env x bound := by
  obtain ⟨⟨type, ht, hp, hb⟩, hheld⟩ := h
  exact ⟨⟨type, ht, hp, hb.mono e.grows hv.cells fun _ => e.known⟩, hheld⟩

/-- Ways meet at the current point: the block is open, and knows what all ways know. -/
structure Meets (w : World) (X : Setting) (Γ : List Local) (depth : Nat) (before : Env) (type : Ty)
    (arms : List Arm) : Prop where
  valid : w.Valid X
  isOpen : w.terminator w.here = none
  nonempty : arms ≠ []
  distinct : (Γ.map (·.binding)).Nodup
  ways : ∀ arm ∈ arms, w.ArmOk X Γ depth before type arm
  known : ∀ v, (∀ arm ∈ arms, w.Known arm.block.index v) → w.Known w.here v

/-- What a local of a type holds at the end of each way. -/
def Bounds (w : World) (X : Setting) (x : Local) (index : Nat) (held : Ty) :
    List Arm → List (BlockId × Bound) → Prop :=
  Forall₂ fun arm bound => bound.1 = arm.block ∧
    arm.env.entries[index]? = some (x.binding, bound.2) ∧ arm.env.get? x.binding = some bound.2 ∧
    w.BoundOk X arm.block.index x.binding held bound.2

namespace Meets

variable {x : Local} {index : Nat} {first : Bound} {arm : Arm} {held : Ty} {bounds : List (BlockId × Bound)}

section

variable (h : w.Meets X Γ depth env type arms)
include h

theorem exists_bounds (hx : Γ[index]? = some x) :
    ∃ held, X.function.localTypes.get? x.binding = some held ∧ held.Proper X.decls.structs.size ∧
      ∃ bounds, w.Bounds X x index held arms bounds := by
  obtain ⟨arm0, hm0⟩ := exists_mem_of_ne_nil arms h.nonempty
  obtain ⟨held, -, ht, hp, -⟩ := (h.ways arm0 hm0).env.entry h.distinct hx
  refine ⟨held, ht, hp, exists_forall₂ fun arm hm => ?_⟩
  obtain ⟨held', bound, ht', -, hentry, hget, hb⟩ := (h.ways arm hm).env.entry h.distinct hx
  rw [ht] at ht'
  cases ht'
  exact ⟨(arm.block, bound), rfl, hentry, hget, hb⟩

theorem unchanged (hb : w.Bounds X x index held arms bounds)
    (hx : x ∈ Γ) (hk : x.depth < depth ∨ X.function.isMemoryResident x.binding = true) :
    ∀ b ∈ bounds, env.get? x.binding = some b.2 := by
  intro b hbm
  obtain ⟨arm, harm, -, -, hget, -⟩ := forall₂_exists_left hb hbm
  exact ((h.ways arm harm).held x hx hk).symm.trans hget

theorem same (hb : w.Bounds X x index held arms bounds)
    (hall : ∀ b ∈ bounds, b.2 = first) : w.BoundOk X w.here x.binding held first := by
  have hways : ∀ arm ∈ arms, w.BoundOk X arm.block.index x.binding held first := by
    intro arm harm
    obtain ⟨b, hbm, -, -, -, hok⟩ := forall₂_exists_right hb harm
    exact hall b hbm ▸ hok
  obtain ⟨arm, harm⟩ := exists_mem_of_ne_nil arms h.nonempty
  cases hways arm harm with
  | unit => exact .unit
  | slot hu hm hs => exact .slot hu hm hs
  | value hu hm hv => exact .value hu hm ⟨hv.1, h.known _ fun arm harm => (hways arm harm).of_value.2.2.2⟩

/-- A local that does not hold the same on all ways holds a value on each. -/
theorem incoming (hb : w.Bounds X x index held arms bounds)
    (hx : x ∈ Γ) (hf : first ∈ bounds.map (·.2)) (hdiffer : ¬ ∀ b ∈ bounds, b.2 = first) :
    ¬ x.depth < depth ∧ X.function.isMemoryResident x.binding = false ∧ held ≠ .unit ∧
      ∃ incoming : List (BlockId × ValueId), Forall₂ (fun b way => way.1 = b.1 ∧ b.2 = .value way.2) bounds incoming ∧
        ∀ way ∈ incoming, way.1.index < w.blockCount ∧ w.HoldsAt X way.1.index way.2 held := by
  obtain ⟨b0, hb0, rfl⟩ := mem_map.mp hf
  have hfree : ¬ (x.depth < depth ∨ X.function.isMemoryResident x.binding = true) := by
    intro hk
    have hall := h.unchanged hb hx hk
    exact hdiffer fun b hbm => Option.some.inj ((hall b hbm).symm.trans (hall b0 hb0))
  obtain ⟨hdepth, hm⟩ := not_or.mp hfree
  have hu : held ≠ .unit := by
    rintro rfl
    have hunit : ∀ b ∈ bounds, b.2 = .unit := by
      rintro ⟨block, bound⟩ hbm
      obtain ⟨arm, -, -, -, -, hok⟩ := forall₂_exists_left hb hbm
      cases hok with
      | unit => rfl
      | slot hu | value hu => exact absurd rfl hu
    exact hdiffer fun b hbm => (hunit b hbm).trans (hunit b0 hb0).symm
  have hvalue : ∀ b ∈ bounds, ∃ v, b.2 = .value v ∧ b.1.index < w.blockCount ∧ w.HoldsAt X b.1.index v held := by
    rintro ⟨block, bound⟩ hbm
    obtain ⟨arm, harm, hblock, -, -, hok⟩ := forall₂_exists_left hb hbm
    subst hblock
    cases hok with
    | unit => exact absurd rfl hu
    | slot _ hm' => exact absurd hm' hm
    | value _ _ hv => exact ⟨_, rfl, (h.ways arm harm).inRange, hv⟩
  obtain ⟨incoming, hin⟩ := exists_forall₂ (R := fun b (way : BlockId × ValueId) => way.1 = b.1 ∧
    b.2 = .value way.2 ∧ way.1.index < w.blockCount ∧ w.HoldsAt X way.1.index way.2 held)
    fun b hbm => (hvalue b hbm).elim fun v hv => ⟨(b.1, v), rfl, hv⟩
  refine ⟨hdepth, Bool.eq_false_iff.mpr hm, hu, incoming, hin.imp fun _ _ h => ⟨h.1, h.2.1⟩, ?_⟩
  intro way hway
  obtain ⟨b, -, -, -, hok⟩ := forall₂_exists_left hin hway
  exact hok

theorem phi (e : Emits w w' X) (hu : held ≠ .unit)
    {incoming : List (BlockId × ValueId)} (hin : ∀ way ∈ incoming, way.1.index < w.blockCount ∧
      w.HoldsAt X way.1.index way.2 held) {lowered : IrType} (hl : X.items.lowerType held = .ok lowered) :
    ∃ w'', (Emit.phi lowered incoming).run w'.builder = .ok (⟨w'.valueCount⟩, w''.builder) ∧
      w''.toLowerState = { w'.toLowerState with builder := w''.builder } ∧ Emits w' w'' X ∧
      w''.HoldsAt X w''.here ⟨w'.valueCount⟩ held := by
  have hready : w'.Ready X (.phi incoming) (some lowered) := by
    refine ⟨⟨rfl, fun way hway => ?_⟩, by simp [Operation.operands], fun way hway => ?_⟩
    · exact ((hin way hway).2.mono e.grows h.valid.cells fun _ => e.grows.known).typeOf hl
    · exact ⟨e.blocks ▸ (hin way hway).1, e.grows.known (hin way hway).2.2⟩
  refine ⟨w'.push (.phi incoming) (some (lowered, none)), ?_, rfl,
    e.valid.emits_push (some (lowered, none)) hready trivial, e.valid.holdsAt_push hl (by simp)⟩
  exact Emit.run_pushValue e.valid.laid (e.isOpen h.isOpen) _ (lowerType_ne_void hl hu)

/-- A local holds the same on all ways, or a phi of what it holds on each. -/
theorem joinBound_ok (hr : X.items.Realizes X.decls X.mod) (e : Emits w w' X)
    (hx : Γ[index]? = some x) (harm : arm ∈ arms) (hfirst : arm.env.entries[index]? = some (x.binding, first)) :
    Ensures X.passesUnit (joinBound arms index first) w'.toLowerState
      (fun bound s' => ∃ w'', w''.toLowerState = s' ∧ Emits w' w'' X ∧ w''.Joined X depth env x bound)
      (fun _ => False) := by
  have hxΓ := mem_of_getElem? hx
  obtain ⟨held, ht, hp, bounds, hb⟩ := h.exists_bounds hx
  have hf : first ∈ bounds.map (·.2) := by
    obtain ⟨b, hbm, -, hentry, -⟩ := forall₂_exists_right hb harm
    rw [hfirst] at hentry
    cases hentry
    exact mem_map_of_mem hbm
  have hmapM : ∀ f : Arm → Lower (BlockId × Bound), (∀ arm bound, (bound.1 = arm.block ∧
      arm.env.entries[index]? = some (x.binding, bound.2) ∧ _) → f arm = pure bound) →
      arms.mapM f = pure bounds := fun f hf => mapM_eq_pure (Forall₂.imp hf hb)
  unfold joinBound
  rw [hmapM, pure_bind]
  · split
    · rename_i hall
      have hall : ∀ b ∈ bounds, b.2 = first := by simpa using hall
      refine ⟨w', rfl, .refl e.valid, ⟨held, ht, hp, ?_⟩, fun hk => ?_⟩
      · exact (h.same hb hall).mono e.grows h.valid.cells fun _ => e.known
      · obtain ⟨b, hbm, rfl⟩ := mem_map.mp hf
        exact h.unchanged hb hxΓ hk b hbm
    · rename_i hall
      obtain ⟨hdepth, hm, hu, incoming, hin, hways⟩ := h.incoming hb hxΓ hf (by simpa using hall)
      have hmapM' : ∀ f : BlockId × Bound → Lower (BlockId × ValueId), (∀ b way, (way.1 = b.1 ∧
          b.2 = .value way.2) → f b = pure way) → bounds.mapM f = pure incoming :=
        fun f hf => mapM_eq_pure (hin.imp hf)
      rw [hmapM']
      · obtain ⟨lowered, hl⟩ := hr.lowerType hp
        obtain ⟨w'', hrun, hw'', e', hv⟩ := h.phi e hu hways hl
        match incoming, hin, hways, hrun with
        | [], hin, _, _ =>
          cases hin
          simp at hf
        | (block, v) :: rest, _, hways, hrun =>
          have htype := ((hways _ (.head _)).2.mono e.grows h.valid.cells fun _ => e.grows.known).typeOf hl
          refine .emit (Emit.run_ask (HasTy.valueType htype)) (.emit hrun ?_)
          exact ⟨w'', hw'', e', ⟨held, ht, hp, .value hu hm hv⟩, fun hk => absurd hk (by simp [hdepth, hm])⟩
      · rintro ⟨block, bound⟩ way ⟨hblock, hbound⟩
        dsimp only at hbound hblock ⊢
        rw [hbound, ← hblock]
  · rintro arm b ⟨hblock, hentry, -⟩
    rw [hentry, ← hblock]

theorem joinEnv_ok (hr : X.items.Realizes X.decls X.mod) (harm : arm ∈ arms)
    {entries : List (BindingId × Bound)} (e : Emits w w' X) (hentries : arm.env.entries.drop index = entries) :
    Ensures X.passesUnit (joinEnv arms index entries) w'.toLowerState
      (fun joined s' => ∃ w'', w''.toLowerState = s' ∧ Emits w' w'' X ∧
        Forall₂ (fun x entry => entry.1 = x.binding ∧ w''.Joined X depth env x entry.2) (Γ.drop index) joined)
      (fun _ => False) := by
  have hkeys : arm.env.entries.map (·.1) = Γ.map (·.binding) := (h.ways arm harm).env.keys
  have hlength : arm.env.entries.length = Γ.length := by simpa using congrArg List.length hkeys
  induction entries generalizing index w' with
  | nil =>
    have hΓ : Γ.drop index = [] := by
      rw [drop_eq_nil_iff] at hentries ⊢
      exact hlength ▸ hentries
    rw [hΓ]
    exact ⟨w', rfl, .refl e.valid, .nil⟩
  | cons entry rest ih =>
    obtain ⟨binding, first⟩ := entry
    have hfirst : arm.env.entries[index]? = some (binding, first) := by
      rw [← head?_drop, hentries]
      rfl
    have hrest : arm.env.entries.drop (index + 1) = rest := by
      rw [← tail_drop, hentries]
      rfl
    have hlt : index < Γ.length := hlength ▸ (List.getElem?_eq_some_iff.mp hfirst).1
    have hx : Γ[index]? = some Γ[index] := getElem?_eq_getElem hlt
    obtain ⟨-, bound, -, -, hentry, -⟩ := (h.ways arm harm).env.entry h.distinct hx
    rw [hfirst] at hentry
    cases hentry
    rw [drop_eq_getElem_cons hlt]
    refine Ensures.bind ((h.joinBound_ok hr e hx harm hfirst).mono ?_ fun _ => id)
    rintro bound _ ⟨w1, rfl, e1, hjoined⟩
    refine Ensures.bind ((ih (e.trans e1) hrest).mono ?_ fun _ => id)
    rintro joined _ ⟨w2, rfl, e2, hall⟩
    exact ⟨w2, rfl, e1.trans e2, .cons ⟨rfl, hjoined.emits e1.valid e2⟩ hall⟩

end

theorem joinValue_ok (hat : At w X Γ depth) {lowered : IrType} (hu : type ≠ .unit)
    (hl : X.items.lowerType type = .ok lowered)
    (hways : ∀ arm ∈ arms, arm.block.index < w.blockCount ∧ w.LoweredOk X arm.block.index type arm.value)
    (hone : ∀ arm v, arms = [arm] → arm.value = .value v → w.Known w.here v) :
    Yields X Γ depth breaks (joinValue arms lowered) w (AtValue X Γ depth type) := by
  have hvalue : ∀ arm ∈ arms, ∃ way : BlockId × ValueId, way.1 = arm.block ∧ arm.value = .value way.2 ∧
      way.1.index < w.blockCount ∧ w.HoldsAt X way.1.index way.2 type := by
    intro arm harm
    obtain ⟨hlt, hok⟩ := hways arm harm
    cases hv : arm.value with
    | unit => exact absurd (hv ▸ hok).of_unit hu
    | value v => exact ⟨(arm.block, v), rfl, rfl, hlt, (hv ▸ hok).of_value.2⟩
  obtain ⟨incoming, hin⟩ := exists_forall₂ hvalue
  have hmapM : ∀ f : Arm → Lower (BlockId × ValueId), (∀ arm way, (way.1 = arm.block ∧
      arm.value = .value way.2 ∧ _) → f arm = pure way) → arms.mapM f = pure incoming :=
    fun f hf => mapM_eq_pure (hin.imp hf)
  unfold joinValue
  rw [hmapM, pure_bind]
  · split
    · rename_i block v
      cases hin with
      | cons hway hrest =>
        cases hrest
        obtain ⟨-, hval, -, hv⟩ := hway
        exact .pure ⟨hat, hv.1, hone _ _ rfl hval⟩
    · refine hat.yields_push none ⟨⟨rfl, fun way hway => ?_⟩, by simp [Operation.operands],
        fun way hway => ?_⟩ trivial hl hu (by simp)
      · obtain ⟨arm, -, -, -, -, hv⟩ := forall₂_exists_left hin hway
        exact hv.typeOf hl
      · obtain ⟨arm, -, -, -, hlt, hv⟩ := forall₂_exists_left hin hway
        exact ⟨hlt, hv.2⟩
  · rintro arm ⟨block, v⟩ ⟨hblock, hval, -⟩
    rw [hval]
    exact congrArg pure (Prod.ext hblock.symm rfl)

end Meets

/-! ## Going on -/

/-- What lowering takes the type of a value for, none for `unit`. -/
inductive ResultType (X : Setting) : Ty → Option IrType → Prop
  | unit : ResultType X .unit none
  | value {type : Ty} {lowered : IrType} : type ≠ .unit → X.items.lowerType type = .ok lowered →
    ResultType X type (some lowered)

/-- Ways from one point that are about to meet in a block. -/
structure Gathers (w₀ w : World) (X : Setting) (Γ : List Local) (depth : Nat) (breaks : Bool) (type : Ty)
    (merge : BlockId) (arms : List Arm) : Prop where
  leads : Leads w₀ w X breaks (insert merge.index {i | ∃ arm ∈ arms, arm.isOpen = true ∧ arm.block.index = i})
  fresh : w₀.blockCount ≤ merge.index
  nonempty : arms ≠ []
  ways : ∀ arm ∈ arms, w.ArmOk X Γ depth w₀.env type arm
  /-- What was known where the ways part is known on each. -/
  base : ∀ arm ∈ arms, ∀ v, w₀.Known w₀.here v → w.Known arm.block.index v
  reach : ∀ arm ∈ arms, ∀ v ∈ w.reach merge.index, w.Known arm.block.index v
  known : ∀ v, (∀ arm ∈ arms, w.Known arm.block.index v) → w.Known merge.index v
  apart : ∀ arm ∈ arms, arm.isOpen = true → arm.block ≠ merge
  distinct : ((arms.filter (·.isOpen)).map (·.block)).Nodup
  entered : (∃ arm ∈ arms, arm.isOpen = true) ∨ ∃ source, (source, merge) ∈ w.builder.edges

theorem Gathers.close (h : Gathers w₀ w X Γ depth breaks type merge arms) (hat : At w₀ X Γ depth) : ∃ w1 : World,
      (closeArms merge arms).run w.builder = .ok ((), w1.builder) ∧ Rewires w w1 ∧
      (w1.goingOn merge).Meets X Γ depth w₀.env type arms ∧ At ({ w1 with env := w₀.env }.goingOn merge) X Γ depth ∧
      Flow w₀ ({ w1 with env := w₀.env }.goingOn merge) X Γ depth breaks := by
  have hmerge := (h.leads.ends merge.index (.inl rfl)).2.1
  obtain ⟨w1, hrun, hrew, hl, hedges⟩ := closeArms_ok h.leads hmerge
    (fun arm harm ho => .inr ⟨arm, harm, ho, rfl⟩) h.distinct fun arm harm _ => h.reach arm harm
  have hl : Leads w₀ w1 X breaks {merge.index} := hl.of_eq <| by
    ext i
    constructor
    · rintro ⟨rfl | hi, hno⟩
      · rfl
      · exact absurd hi hno
    · rintro rfl
      exact ⟨.inl rfl, fun ⟨arm, harm, ho, he⟩ => h.apart arm harm ho (congrArg BlockId.mk he)⟩
  have hmerge1 := (hl.ends merge.index rfl).2
  have hk : ∀ v, w₀.Known w₀.here v → w1.Known merge.index v := fun v hv =>
    hrew.known_iff.mpr (h.known v fun arm harm => h.base arm harm v hv)
  have hgo := hl.goingOn w₀.env merge hmerge1.1
  refine ⟨w1, hrun, hrew, ?_, hat.enter hl rfl hk, hgo.flow (.inr ⟨h.fresh, ?_⟩) hk rfl⟩
  · exact {
      valid := (hl.goingOn w1.env merge hmerge1.1).valid
      isOpen := hmerge1.2.1
      nonempty := h.nonempty
      distinct := hat.distinct
      ways := fun arm harm =>
        (h.ways arm harm).mono (hrew.trans .goingOn).grows h.leads.valid.cells
      known := fun v hv => hrew.known_iff.mpr (h.known v fun arm harm => hrew.known_iff.mp (hv arm harm)) }
  · rcases h.entered with ⟨arm, harm, ho⟩ | ⟨source, hs⟩
    · exact ⟨arm.block, hedges arm harm ho⟩
    · exact ⟨source, hrew.edges.subset hs⟩

theorem Gathers.withEnv (h : Gathers w₀ w X Γ depth breaks type merge arms) (env : Env) :
    Gathers w₀ { w with env := env } X Γ depth breaks type merge arms :=
  have g : Grows ∅ w { w with env := env } := { Grows.refl with }
  { h with
    leads := h.leads.grow g { h.leads.valid with } (fun _ => rfl) rfl rfl
    ways := fun arm harm => (h.ways arm harm).mono g h.leads.valid.cells }

/-- An environment of what the locals hold where ways meet. -/
theorem Joined.env_ok {before : Env} {joined : List (BindingId × Bound)} (hd : (Γ.map (·.binding)).Nodup)
    (h : Forall₂ (fun x entry => entry.1 = x.binding ∧ w.Joined X depth before x entry.2) Γ joined) :
    w.EnvOk X w.here Γ ⟨joined⟩ ∧ ∀ x ∈ Γ, x.depth < depth ∨ X.function.isMemoryResident x.binding = true →
      (⟨joined⟩ : Env).get? x.binding = before.get? x.binding := by
  have hkeys : joined.map (·.1) = Γ.map (·.binding) := by
    clear hd
    induction h with
    | nil => rfl
    | cons hx _ ih => rw [map_cons, map_cons, hx.1, ih]
  have hget : ∀ x ∈ Γ, ∃ bound, (⟨joined⟩ : Env).get? x.binding = some bound ∧
      w.Joined X depth before x bound := by
    intro x hx
    obtain ⟨⟨key, bound⟩, hmem, hkey, hj⟩ := forall₂_exists_right h hx
    subst hkey
    exact ⟨bound, Table.find?_of_mem (hkeys ▸ hd) hmem, hj⟩
  refine ⟨⟨hkeys, fun x hx => ?_⟩, fun x hx hk => ?_⟩
  · obtain ⟨bound, hb, ⟨type, ht, hp, hok⟩, -⟩ := hget x hx
    exact ⟨type, bound, ht, hp, hb, hok⟩
  · obtain ⟨bound, hb, -, hheld⟩ := hget x hx
    exact hb.trans (hheld hk).symm

/-- Control goes on where ways meet, with what the locals and the value are there. -/
theorem join_ok {lowered : Option IrType} (hX : X.items.Realizes X.decls X.mod) (hat : At w₀ X Γ depth)
    (h : Gathers w₀ w X Γ depth breaks type merge arms) (hl : ResultType X type lowered) :
    Reaches X Γ depth breaks w₀ (join merge Γ.length arms lowered) w (AtLowered X Γ depth type) := by
  obtain ⟨w1, hrun, hrew, hmeets, hat1, hf1⟩ := h.close hat
  refine .emit hrun (.emit Emit.run_switchTo ?_)
  obtain ⟨first, rest, rfl⟩ := exists_cons_of_ne_nil hmeets.nonempty
  have hfirst : first ∈ first :: rest := .head _
  have htake : first.env.entries.take Γ.length = first.env.entries :=
    take_of_length_le (Nat.le_of_eq (hmeets.ways first hfirst).env.size_eq)
  dsimp only
  rw [htake, ← hrew.env, ← hrew.loops]
  refine Ensures.bind ((hmeets.joinEnv_ok hX hfirst (.refl hmeets.valid) drop_zero).mono ?_ fun _ => False.elim)
  rintro joined _ ⟨w2, rfl, e, hall⟩
  obtain ⟨henv, hheld⟩ := Joined.env_ok hat.distinct hall
  obtain ⟨hat2, hf2⟩ := hat1.emits e.withEnv
  have hsame : Grows ∅ w2 { w2 with env := w₀.env } := { Grows.refl with }
  have hat3 : At { w2 with env := ⟨joined⟩ } X Γ depth :=
    hat2.withEnv (henv.mono hsame e.valid.cells fun _ => hsame.known) hat.distinct hat.locals
  have hf3 : Flow w₀ { w2 with env := ⟨joined⟩ } X Γ depth breaks :=
    (hf1.trans (hf2 breaks)).trans (flow_withEnv hheld)
  refine .setEnv ?_
  cases hl with
  | unit => exact ⟨_, rfl, hf3, hat3, .unit⟩
  | value hu hl =>
    have hsame' : Grows ∅ w2 { w2 with env := ⟨joined⟩ } := { Grows.refl with }
    have hways : ∀ arm ∈ first :: rest, ArmOk { w2 with env := ⟨joined⟩ } X Γ depth w₀.env type arm :=
      fun arm harm => ((hmeets.ways arm harm).mono e.grows hmeets.valid.cells).mono hsame' e.valid.cells
    refine Yields.after (Yields.bind (Meets.joinValue_ok hat3 hu hl (fun arm harm =>
      ⟨(hways arm harm).inRange, (hways arm harm).value hu⟩) fun arm v hone hv => ?_) ?_) hf3
    · obtain ⟨rfl, rfl⟩ : first = arm ∧ rest = [] := by simpa using hone
      have hk := (hv ▸ (hmeets.ways first hfirst).value hu).of_value.2.2
      exact hsame'.known (e.known (hmeets.known v (by simpa using hk)))
    · rintro v w3 - ⟨hat4, hv⟩
      exact .pure ⟨hat4, .value hu hv⟩

end World

end SsaCompiler
