import SsaCompiler.Proofs.Compilation.Names

/-!
# Which locals are kept in memory

A parameter or local of an accepted function is kept in memory exactly if a part of the body needs it
there (`AcceptedUnit.memoryResident_iff`): one that takes the address of the local or of a field of it,
one that assigns a field of it, or one that assigns it inside more loops than its declaration is in.
-/

namespace SsaCompiler

open List CheckedFunction

/-- A binding is a parameter of a function, or what a `let` of its body declares inside `depth`
loops. -/
def CheckedFunction.DeclaredAt (F : CheckedFunction) (root : Expr) (binding : BindingId) (depth : Nat) :
    Prop :=
  (binding ∈ F.params ∧ depth = 0) ∨ ∃ site id span name annotation init,
    (site, .stmt (.bind id span name annotation init)) ∈ root.parts .top ∧
      F.lets.get? id = some binding ∧ depth = site.loops

variable {units : List SourceUnit} {decls : Declarations} {unit owner : UnitId} {unitName : String}
  {source : SourceUnit} {checked : CheckedUnit} {F : CheckedFunction} {decl : FunctionDecl} {body : Body}
  {root : Expr} {depths : Table BindingId Nat}

namespace CheckedFunction.LocalsRecorded

theorem declaredAt (h : F.LocalsRecorded decls unitName root owner depths) {binding : BindingId}
    {depth : Nat} (hd : F.DeclaredAt root binding depth) :
    (∃ index, binding = .local owner index) ∧ depths.get? binding = some depth := by
  rcases hd with ⟨hp, rfl⟩ | ⟨site, id, span, name, annotation, init, hp, hlet, rfl⟩
  · exact h.params binding hp
  · obtain ⟨index, type, hlet', -, hdepth, -⟩ := h.lets hp
    rw [hlet] at hlet'
    cases hlet'
    exact ⟨⟨index, rfl⟩, hdepth⟩

/-- The locals that are visible at a part are known with the number of loops around them. -/
theorem depth_of_visible (h : F.LocalsRecorded decls unitName root owner depths) {p : Site × Part}
    (hp : p ∈ root.parts .top) {x : Local} (hx : x ∈ TypingContext.visible ⟨decls, unitName, F⟩
      (TypingContext.params ⟨decls, unitName, F⟩ decl) p.1.blocks) : depths.get? x.binding = some x.depth := by
  have hblocks : ∀ block ∈ p.1.blocks, block.Listed (root.parts .top) :=
    fun _ hb => Expr.listed_of_mem_parts hp hb
  generalize p.1.blocks = blocks at hx hblocks
  induction blocks with
  | nil =>
    obtain ⟨i, hi⟩ := mem_iff_getElem?.mp hx
    obtain ⟨param, binding, -, hbinding, rfl⟩ := getElem?_zipWith_eq_some.mp hi
    exact (h.params binding (mem_of_getElem? hbinding)).2
  | cons block blocks ih =>
    rcases mem_append.mp hx with hx | hx
    · exact ih hx fun b hb => hblocks b (mem_cons_of_mem _ hb)
    · obtain ⟨stmt, hstmt, hx⟩ := mem_flatMap.mp hx
      obtain ⟨⟨site, part⟩, hq, hpart, hloops⟩ := hblocks block mem_cons_self stmt hstmt
      obtain rfl : part = .stmt stmt := hpart
      cases stmt with
      | eval => cases hx
      | ret => cases hx
      | bind id span name annotation init =>
        obtain ⟨index, type, hlet, -, hdepth, -⟩ := h.lets hq
        simp only [TypingContext.declared, hlet, Option.toList_some, map_cons, map_nil, mem_singleton] at hx
        subst hx
        exact hdepth.trans (congrArg some hloops)

end CheckedFunction.LocalsRecorded

namespace TypingContext

variable {C : TypingContext} {Γ : List Local} {depth index : Nat}

theorem VarTyped.visible (hw : C.decls.WellFormed units) {id : ExprId} {name : String}
    (h : C.VarTyped Γ id name) (hr : C.function.refs.get? id = some (.local owner index)) :
    ∃ x ∈ Γ, local? Γ name = some x ∧ x.binding = .local owner index := by
  unfold VarTyped at h
  split at h
  · rename_i x hx
    rw [h.1] at hr
    exact ⟨x, mem_of_local? hx, hx, Option.some.inj hr⟩
  · obtain ⟨item, hitem, href, -⟩ := h
    rw [hr] at href
    have hid := hw.item?_id (Declarations.WellFormed.mem_of_lookup? hitem)
    rw [← Option.some.inj href] at hid
    cases hid

theorem resident_of_stored (hw : C.decls.WellFormed units) : ∀ {expr : Expr}, C.Typed Γ depth expr →
    C.Stored Γ expr → C.function.root? expr = some (.local owner index) → .local owner index ∈ C.function.memoryResident
  | .var id span name, ht, hs, hr => by
    obtain ⟨x, -, hx, hb⟩ := VarTyped.visible hw ht hr
    simpa [Stored, hx, isMemoryResident, hb] using hs
  | .field id span base name, ht, hs, hr => by
    obtain ⟨hbase, -, ref, -, -, href, htype, -⟩ := ht
    obtain ⟨field, hfield, hstored⟩ := hs
    rw [href] at hfield
    cases hfield
    simp only [root?] at hr
    split at hr
    · cases hr
    · rename_i hptr
      refine resident_of_stored hw hbase (hstored.resolve_left fun hthrough => hptr ?_) hr
      rw [show C.function.typeOf base.id = _ from htype, if_pos hthrough]
      rfl
  | .literal .., _, _, hr | .binary .., _, _, hr | .call .., _, _, hr | .assign .., _, _, hr
  | .breakLoop .., _, _, hr | .continueLoop .., _, _, hr => by simp [root?] at hr

end TypingContext

/-- What a part of a typed body needs in memory is there. -/
theorem CheckedFunction.LocalsRecorded.resident_of_needs (hw : decls.WellFormed units)
    (h : F.LocalsRecorded decls unitName root owner depths)
    (ht : TypingContext.Typed ⟨decls, unitName, F⟩ (TypingContext.params ⟨decls, unitName, F⟩ decl) 0 root)
    {site : Site} {part : Part} (hp : (site, part) ∈ root.parts .top) {index depth : Nat}
    (hd : depths.get? (.local owner index) = some depth)
    (hn : F.Needs (.local owner index) depth site part) : .local owner index ∈ F.memoryResident := by
  have hpart := TypingContext.partTyped_of_mem_parts ht hp
  unfold Needs at hn
  split at hn
  · obtain ⟨hoperand, -, hstored, -⟩ := hpart
    exact TypingContext.resident_of_stored hw hoperand hstored hn
  · rename_i id span target value
    obtain ⟨htarget, -, -, hassign, -⟩ := hpart
    obtain ⟨hr, hdeep⟩ := hn
    by_cases hv : target.isVar = true
    · cases target <;> simp [Expr.isVar] at hv
      obtain ⟨x, hmem, hx, hb⟩ := TypingContext.VarTyped.visible hw htarget hr
      have hdepth := h.depth_of_visible hp hmem
      rw [hb, hd] at hdepth
      cases hdepth
      simp only [TypingContext.Assignable, hx] at hassign
      simpa [isMemoryResident, hb] using hassign (hdeep rfl)
    · have hstored := hassign.stored fun _ _ _ he => hv (by rw [he]; rfl)
      exact TypingContext.resident_of_stored hw htarget hstored hr
  · exact hn.elim

/-- The storage of a parameter or local of an accepted function: it is kept in memory exactly if a
part of the body needs it there. -/
theorem AcceptedUnit.memoryResident_iff (h : AcceptedUnit units decls unit source checked)
    (hc : Collected units decls) (hF : F ∈ checked.functions)
    (hdecl : source.items[F.itemIndex]? = some (.function decl)) (hbody : decl.body = some body)
    (hroot : body.tree = .ok root) {binding : BindingId} {depth : Nat}
    (hb : F.DeclaredAt root binding depth) :
    binding ∈ F.memoryResident ↔ ∃ p ∈ root.parts .top, F.Needs binding depth p.1 p.2 := by
  obtain ⟨⟨item, -, htyped⟩, depths, hlocals⟩ :=
    h.recorded hc hF hdecl hbody hroot
  obtain ⟨⟨index, rfl⟩, hdepth⟩ := hlocals.declaredAt hb
  constructor
  · exact fun hm => hlocals.memory hdepth hm
  · rintro ⟨p, hp, hn⟩
    exact hlocals.resident_of_needs hc.wellFormed htyped.body hp hdepth hn

namespace Hiding

/-- Whether a part is a `let` of a local that is kept in memory, or of one that is not. -/
def isLet (F : CheckedFunction) (kept : Bool) : Site × Part → Bool
  | (_, .stmt (.bind id ..)) => (F.lets.get? id).any fun binding => F.isMemoryResident binding = kept
  | _ => false

theorem declaredAt_of_isLet {kept : Bool} {p : Site × Part} (hp : p ∈ root.parts .top) (h : isLet F kept p = true) :
    ∃ binding, F.DeclaredAt root binding p.1.loops ∧ F.isMemoryResident binding = kept := by
  unfold isLet at h
  split at h
  · obtain ⟨binding, hb, hk⟩ := (Option.any_eq_true _ _).mp h
    exact ⟨binding, .inr ⟨_, _, _, _, _, _, hp, hb, rfl⟩, by simpa using hk⟩
  · cases h

end Hiding

theorem AcceptedUnit.memoryResident_iff_hiding : ∃ decls checked F root kept free depth depth',
    AcceptedUnit [Hiding.program] decls ⟨0⟩ Hiding.program checked ∧ F ∈ checked.functions ∧
    F.DeclaredAt root kept depth ∧ (∃ p ∈ root.parts .top, F.Needs kept depth p.1 p.2) ∧
    F.DeclaredAt root free depth' ∧ ¬ ∃ p ∈ root.parts .top, F.Needs free depth' p.1 p.2 := by
  -- Of the two locals of the program, the one that the loop assigns is kept in memory.
  obtain ⟨decls, checked, F, decl, body, root, hc, hu, hF, hdecl, hbody, hroot, htest⟩ :=
    accepted_parts Hiding.program (by decide +kernel)
      (fun F parts => parts.any (Hiding.isLet F true) && parts.any (Hiding.isLet F false)) (by decide +kernel)
  rw [Bool.and_eq_true, List.any_eq_true, List.any_eq_true] at htest
  obtain ⟨⟨p, hp, hkept⟩, q, hq, hfree⟩ := htest
  obtain ⟨kept, hk, hresident⟩ := Hiding.declaredAt_of_isLet hp hkept
  obtain ⟨free, hf, hnot⟩ := Hiding.declaredAt_of_isLet hq hfree
  have hkept := AcceptedUnit.memoryResident_iff hu hc hF hdecl hbody hroot hk
  have hfree := AcceptedUnit.memoryResident_iff hu hc hF hdecl hbody hroot hf
  refine ⟨decls, checked, F, root, kept, free, _, _, hu, hF, hk, hkept.mp ?_, hf, fun hn => ?_⟩
  · simpa [CheckedFunction.isMemoryResident] using hresident
  · simp [CheckedFunction.isMemoryResident, hfree.mpr hn] at hnot

end SsaCompiler
