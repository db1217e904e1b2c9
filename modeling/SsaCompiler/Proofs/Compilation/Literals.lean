import SsaCompiler.Proofs.Compilation.Names

/-!
# Struct literals in layout order

The values of a struct literal are computed in the order in which the initializers are written, and put
together in the order of the fields (`AcceptedUnit.structLiteral_inLayoutOrder`). What ties the two orders
are the positions that checking records, which are those of the fields that the initializers name.
-/

namespace SsaCompiler

open List

namespace Lower

/-- Initializers are lowered one after another, and control goes on after each. -/
inductive InitsRun (ctx : LowerContext) : List Init → LowerState → List ValueId → LowerState → Prop
  | nil {s : LowerState} : InitsRun ctx [] s [] s
  | cons {init : Init} {rest : List Init} {s s₁ s' : LowerState} {value : ValueId} {values : List ValueId} :
    Runs (asValue (lowerExpr ctx init.value)) s (some value) s₁ → InitsRun ctx rest s₁ values s' →
    InitsRun ctx (init :: rest) s (value :: values) s'

variable {ctx : LowerContext} {inits : List Init} {s s₁ s' : LowerState} {values : List ValueId}

theorem InitsRun.length_eq (h : InitsRun ctx inits s values s₁) : values.length = inits.length := by
  induction h with
  | nil => rfl
  | cons _ _ ih => rw [length_cons, length_cons, ih]

theorem InitsRun.runs (h : InitsRun ctx inits s values s₁) {positions : List Nat}
    (hlen : inits.length = positions.length) :
    Runs (lowerInits ctx inits positions) s (some (positions.zip values)) s₁ := by
  induction h generalizing positions with
  | nil =>
    rw [zip_nil_right]
    exact runs_pure.mpr ⟨rfl, rfl⟩
  | @cons init rest s s₁ s' value values hvalue _ ih =>
    cases positions with
    | nil => cases hlen
    | cons position positions =>
      obtain ⟨name, span, expr⟩ := init
      exact runs_bind.mpr (.inl ⟨value, s₁, hvalue,
        runs_bind.mpr (.inl ⟨_, s', ih (Nat.succ.inj hlen), runs_pure.mpr ⟨rfl, rfl⟩⟩)⟩)

/-- After the initializers of a struct literal there is one instruction, and the conversion of its value. -/
theorem InitsRun.structLiteral (h : InitsRun ctx inits s values s₁) {id : ExprId} {span : FileSpan} {name : String}
    {literal : StructLiteralRef} (href : ctx.function.structLiterals.get? id = some literal)
    (hlen : inits.length = literal.positions.length) {operands : List ValueId}
    (horder : inLayoutOrder (literal.positions.zip values) literal.positions.length = .ok operands) {r : Option Lowered}
    (hrun : Runs (lowerExpr ctx (.structLiteral id span name inits)) s r s') : ∃ layout value builder,
      ctx.items.layout literal.struct = .ok layout ∧
      (Emit.makeAggregate layout operands).run s₁.builder = .ok (value, builder) ∧
      Runs (coerced ctx id (pure (.value value))) { s₁ with builder := builder } r s' := by
  rw [lowerExpr, coerced, href] at hrun
  simp only [bind_assoc] at hrun
  rw [(h.runs hlen).bind_iff, runs_answer_bind] at hrun
  obtain ⟨_, hordered, hrun⟩ := hrun
  cases hordered.symm.trans horder
  obtain ⟨layout, hlayout, hrun⟩ := runs_answer_bind.mp hrun
  obtain ⟨value, builder, hmake, hrun⟩ := runs_emit_bind.mp hrun
  exact ⟨layout, value, builder, hlayout, hmake, hrun⟩

end Lower

variable {units : List SourceUnit} {decls : Declarations} {unit : UnitId} {source : SourceUnit} {checked : CheckedUnit}
  {F : CheckedFunction} {decl : FunctionDecl} {body : Body} {root : Expr}

/-- A struct literal of an accepted function has a position for each field. If all its initializers are
lowered, in the order in which they are written, and control goes on after them, then what follows is one
instruction that makes the struct, and its operand for a field is the value of the initializer that names
the field. -/
theorem AcceptedUnit.structLiteral_inLayoutOrder (h : AcceptedUnit units decls unit source checked)
    (hc : Collected units decls) (hF : F ∈ checked.functions)
    (hdecl : source.items[F.itemIndex]? = some (.function decl)) (hbody : decl.body = some body)
    (hroot : body.tree = .ok root) {site : Site} {id : ExprId} {span : FileSpan} {name : String} {inits : List Init}
    (hp : (site, .expr (.structLiteral id span name inits)) ∈ root.parts .top) :
    ∃ literal struct, F.structLiterals.get? id = some literal ∧ decls.struct? literal.struct = some struct ∧
      F.typeOf id = .aggregate literal.struct ∧ literal.positions.Perm (List.range struct.fields.length) ∧
      ∀ {items : ItemMap} {s s₁ s' : LowerState} {values : List ValueId} {r : Option Lowered},
        Lower.InitsRun ⟨items, F⟩ inits s values s₁ →
        Lower.Runs (Lower.lowerExpr ⟨items, F⟩ (.structLiteral id span name inits)) s r s' →
        ∃ layout operands value builder, items.layout literal.struct = .ok layout ∧
          operands.length = struct.fields.length ∧
          (∀ (k : Nat) (field : FieldDef), struct.fields[k]? = some field → ∃ (j : Nat) (init : Init),
            inits[j]? = some init ∧ init.name = field.name ∧ j < values.length ∧ operands[k]? = values[j]?) ∧
          (Emit.makeAggregate layout operands).run s₁.builder = .ok (value, builder) ∧
          Lower.Runs (Lower.coerced ⟨items, F⟩ id (pure (.value value))) { s₁ with builder := builder } r s' := by
  obtain ⟨⟨item, hitem, htyped⟩, depths, hlocals⟩ := h.recorded hc hF hdecl hbody hroot
  have hliteral : TypingContext.LiteralTyped ⟨decls, source.name, F⟩ id inits :=
    (TypingContext.partTyped_of_mem_parts htyped.body hp).2
  obtain ⟨literal, struct, href, hstruct, htype, hnd, hlen, hin⟩ := hliteral
  obtain ⟨_, _, href', hstruct', hnamed⟩ := hlocals.literals hp
  cases href.symm.trans href'
  cases hstruct.symm.trans hstruct'
  have hlt : ∀ position ∈ literal.positions, position < struct.fields.length := by
    intro position hm
    obtain ⟨init, -, field, hfield, -⟩ := forall₂_exists_left hin hm
    exact (List.getElem?_eq_some_iff.mp hfield).1
  have hperm : literal.positions.Perm (List.range struct.fields.length) :=
    (hnd.subperm fun position hm => List.mem_range.mpr (hlt position hm)).perm_of_length_le (by simp [hlen])
  refine ⟨literal, struct, href, hstruct, htype, hperm, fun {items s s₁ s' values r} hinits hrun => ?_⟩
  have hzip : (literal.positions.zip values).map (·.1) = literal.positions :=
    List.map_fst_zip (by rw [hinits.length_eq, hin.length_eq])
  obtain ⟨operands, horder, hordered⟩ := @World.inLayoutOrder_ok (literal.positions.zip values)
    literal.positions.length (hzip.symm ▸ hnd) (by simpa using congrArg List.length hzip)
    fun p hp => hlen ▸ hlt p.1 (List.of_mem_zip hp).1
  obtain ⟨layout, value, builder, hlayout, hmake, hrest⟩ := hinits.structLiteral href hin.length_eq horder hrun
  have hcount : operands.length = struct.fields.length := by
    rw [← hordered.length_eq, List.length_range, hlen]
  refine ⟨layout, operands, value, builder, hlayout, hcount, fun k field hfield => ?_, hmake, hrest⟩
  have hk : k < struct.fields.length := (List.getElem?_eq_some_iff.mp hfield).1
  have hmem := hordered.get (by simpa [hlen] using hk) (hcount ▸ hk)
  simp only [List.get_eq_getElem, List.getElem_range] at hmem
  obtain ⟨j, hj⟩ := List.mem_iff_getElem?.mp hmem
  obtain ⟨hj, hvalue⟩ := List.getElem?_zip_eq_some.mp hj
  obtain ⟨init, hinit, hname⟩ := forall₂_exists_getElem? hnamed.flip hj
  rw [hfield] at hname
  refine ⟨j, init, hinit, (Option.some.inj hname).symm, (List.getElem?_eq_some_iff.mp hvalue).1, ?_⟩
  rw [hvalue, List.getElem?_eq_getElem (hcount ▸ hk)]

namespace Swapped

/-- `fn make() -> i32 { let p = P { y: 1, x: 2 }; 0 }` -/
def make : Build FunctionDecl := do
  let result ← .type (.named "i32")
  let one ← .expr (.literal (.int 1 none))
  let two ← .expr (.literal (.int 2 none))
  let pair ← .structLiteral "P" [("y", one), ("x", two)]
  let bound ← .stmt (.bind "p" none (some pair))
  let zero ← .expr (.literal (.int 0 none))
  .finishFunction "make" [] (some result) [bound] (some zero)

def program : SourceUnit where
  name := "m"
  file := ⟨0⟩
  path := none
  items := [.struct ⟨"P", [⟨"x", .named "i32" default, default⟩, ⟨"y", .named "i32" default, default⟩], default⟩,
    .function (make.run (.new ⟨0⟩ 0)).1]

def start : LowerState := ⟨.new ⟨[], .void, false⟩, .empty, []⟩

/-- Whether a part is a struct literal that can be lowered at the start, with control going on after both
initializers. -/
def isLowered (ctx : LowerContext) : Site × Part → Bool
  | (_, .expr (.structLiteral id span name [first, second])) =>
    ((Lower.lowerExpr ctx (.structLiteral id span name [first, second])).run.run start).toOption.isSome &&
      ((Lower.asValue (Lower.lowerExpr ctx first.value)).run.run start).toOption.any fun r => r.1.isSome &&
        ((Lower.asValue (Lower.lowerExpr ctx second.value)).run.run r.2).toOption.any (·.1.isSome)
  | _ => false

end Swapped

theorem AcceptedUnit.structLiteral_inLayoutOrder_swapped : ∃ decls checked F literal struct operands,
    AcceptedUnit [Swapped.program] decls ⟨0⟩ Swapped.program checked ∧ F ∈ checked.functions ∧
    decls.struct? (StructLiteralRef.struct literal) = some struct ∧
    literal.positions.Perm (List.range struct.fields.length) ∧ operands.length = struct.fields.length ∧
    ∃ layout value builder builder', (Emit.makeAggregate layout operands).run builder = .ok (value, builder') := by
  obtain ⟨decls, checked, F, decl, body, root, hc, hu, hF, hdecl, hbody, hroot, htest⟩ :=
    accepted_parts Swapped.program (by decide +kernel)
      (fun F parts => parts.any (Swapped.isLowered ⟨⟨[⟨0⟩], .empty, .empty⟩, F⟩)) (by decide +kernel)
  obtain ⟨part, hp, htest⟩ := List.any_eq_true.mp htest
  unfold Swapped.isLowered at htest
  split at htest
  · rename_i site id span name first second
    obtain ⟨hrun, hinits⟩ := Bool.and_eq_true_iff.mp htest
    obtain ⟨⟨r, s'⟩, hrun, -⟩ := exists_ok (p := fun _ => true) (by simpa [Option.any_true] using hrun)
    obtain ⟨⟨v1, s₁⟩, hfirst, hinits⟩ := exists_ok hinits
    obtain ⟨hv1, hinits⟩ := Bool.and_eq_true_iff.mp hinits
    obtain ⟨⟨v2, s2⟩, hsecond, hv2⟩ := exists_ok hinits
    obtain ⟨v1, rfl⟩ := Option.isSome_iff_exists.mp hv1
    obtain ⟨v2, rfl⟩ := Option.isSome_iff_exists.mp hv2
    obtain ⟨literal, struct, -, hstruct, -, hperm, hlowered⟩ :=
      AcceptedUnit.structLiteral_inLayoutOrder hu hc hF hdecl hbody hroot hp
    obtain ⟨layout, operands, value, builder, -, hcount, -, hmake, -⟩ :=
      hlowered (.cons hfirst (.cons hsecond .nil)) hrun
    exact ⟨decls, checked, F, literal, struct, operands, hu, hF, hstruct, hperm, hcount, layout, value, _, builder, hmake⟩
  · cases htest

end SsaCompiler
