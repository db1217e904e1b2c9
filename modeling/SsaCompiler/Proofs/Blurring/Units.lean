import SsaCompiler.Proofs.Blurring.Rules
import SsaCompiler.Proofs.Compilation.Complete

/-!
# Bodies checked against blurred types

Blurred types cause no mistakes in bodies: a unit without mistakes in its bodies has none against
declarations in which types of globals, struct fields, parameters and results are blurred
(`bodyErrors_blurs`), if functions with blurred types inside their own are only called. A function that
is used as a value has them inside the type of that value, and there `error` does not fit another type
(`BlurredParameter.mismatch_follows`).
-/

namespace SsaCompiler

variable {valued : String → Prop} {decls decls' : Declarations}

theorem Check.lenient_function {ctx ctx' : CheckContext} (hc : ctx.Blurs ctx') {item item' : FunctionItem}
    (hitem : item.Blurs item') {decl : FunctionDecl} {root : Expr} (hv : ∀ name ∈ root.valueNames, valued name) :
    Lenient valued (· = ·) (function ctx item decl root) (function ctx' item' decl root) := by
  have hbody := (lenient_lockstep hc).functionBody hitem.params decl hv
  exact .within hbody

theorem checkFunctions_blurs (h : decls.Blurs decls') {unit : UnitId} {unitName : String}
    {functions : List (Nat × FunctionDecl)}
    (hv : ∀ f ∈ functions, ∀ body ∈ f.2.body, ∀ root, body.tree = .ok root → ∀ name ∈ root.valueNames, valued name)
    {symbols symbols' after : SymbolTable Ty} {checked : List CheckedFunction} (hs : symbols.Blurs valued symbols')
    (hrun : checkFunctions decls unit unitName functions symbols = (.ok ([], checked, after) : Except Fault _)) :
    ∃ checked' after', checkFunctions decls' unit unitName functions symbols' =
      (.ok ([], checked', after') : Except Fault _) := by
  induction functions generalizing symbols symbols' checked with
  | nil => exact ⟨[], symbols', rfl⟩
  | cons f rest ih =>
    obtain ⟨itemIndex, decl⟩ := f
    have hrest := fun f hf => hv f (.tail _ hf)
    have hfunction := h.functionAt? unit itemIndex
    rw [checkFunctions] at hrun ⊢
    cases hbody : decl.body with
    | none =>
      simp only [hbody] at hrun ⊢
      exact ih hrest hs hrun
    | some body =>
      generalize decls.functionAt? unit itemIndex = found, decls'.functionAt? unit itemIndex = found' at hrun hfunction ⊢
      cases hfunction with
      | none =>
        simp only [hbody] at hrun ⊢
        exact ih hrest hs hrun
      | @some item item' hitem =>
        simp only [hbody, bind_eq_ok] at hrun ⊢
        obtain ⟨root, hroot, ⟨_, s⟩, hcheck, ⟨errors, others, last⟩, hothers, hrun⟩ := hrun
        simp only [pure_eq_ok, Prod.mk.injEq, List.append_eq_nil_iff] at hrun
        obtain ⟨⟨hclean, rfl⟩, rfl, rfl⟩ := hrun
        have hc : CheckContext.Blurs ⟨decls, unitName, item.result⟩ ⟨decls', unitName, item'.result⟩ :=
          ⟨h, rfl, hitem.result⟩
        obtain ⟨_, hlenient⟩ := Check.lenient_function hc hitem (hv _ (.head _) body hbody root hroot) hcheck
        obtain ⟨_, s', hcheck', -, hs'⟩ := (hlenient hclean).2 ⟨symbols', .start item' body.exprs.size, [], .empty⟩
          ⟨hs, rfl, List.forall₂_same.mpr fun _ _ => .whole (.refl _), rfl⟩
        obtain ⟨checked', after', hothers'⟩ := ih hrest hs'.symbols hothers
        refine ⟨s'.function :: checked', after', root, hroot, _, hcheck', _, hothers', ?_⟩
        simp only [hs'.errors]
        rfl

def SourceUnit.UsesValue (source : SourceUnit) (name : String) : Prop :=
  ∃ f ∈ source.functions, ∃ body ∈ f.2.body, ∃ root, body.tree = .ok root ∧ name ∈ root.valueNames

/-- If the bodies of a unit are checked without mistakes, they are checked without mistakes against blurred
types too, and what is reported for the unit are the mistakes in its declarations. Names used as values
have to stand for something whose type is kept or blurred as a whole. -/
theorem bodyErrors_blurs {unit : UnitId} {source : SourceUnit} (h : decls.Blurs decls')
    (hk : decls.KeepsValues decls' unit source.UsesValue) (hb : bodyErrors decls unit source = .ok []) :
    bodyErrors decls' unit source = .ok [] ∧
      (decls'.errorsOf unit = [] → ∃ checked, checkUnit decls' unit source = .ok (.ok checked)) ∧
      (decls'.errorsOf unit ≠ [] → checkUnit decls' unit source = .ok (.error (decls'.errorsOf unit))) := by
  simp only [bodyErrors, bind_eq_ok] at hb
  obtain ⟨symbols, hsymbols, unitName, hname, ⟨errors, checked, after⟩, hrun, hb⟩ := hb
  cases hb
  obtain ⟨symbols', hsymbols', hs⟩ := SymbolTable.forUnit_blurs h hk hsymbols
  have hv : ∀ f ∈ source.functions, ∀ body ∈ f.2.body, ∀ root, body.tree = .ok root →
      ∀ name ∈ root.valueNames, source.UsesValue name :=
    fun f hf body hbody root hroot name hn => ⟨f, hf, body, hbody, root, hroot, hn⟩
  obtain ⟨checked', after', hrun'⟩ := checkFunctions_blurs h hv hs hrun
  have hname' : decls'.index.unitName unit = .ok unitName := by
    rw [← hname, ModuleIndex.unitName, ModuleIndex.unitName, h.units]
  rw [checkUnit_eq]
  simp only [bodyErrors, bind_eq_ok]
  refine ⟨⟨symbols', hsymbols', unitName, hname', _, hrun', rfl⟩, fun hnone => ?_, fun hsome => ?_⟩
  · exact ⟨⟨unit, checked', after'.locals.toList⟩, symbols', hsymbols', unitName, hname', _, hrun', by simp [hnone]; rfl⟩
  · refine ⟨symbols', hsymbols', unitName, hname', _, hrun', ?_⟩
    simp only [List.append_nil]
    rfl

namespace BlurredItems

/-- `f(limit) + p.a` -/
def body : Body where
  exprs := #[.var "f" default, .var "limit" default, .call ⟨0⟩ [⟨1⟩] default, .var "p" default,
    .field ⟨3⟩ "a" default, .binary .add ⟨2⟩ ⟨4⟩ default]
  stmts := #[]
  root := ⟨5⟩

def run : FunctionDecl where
  name := "run"
  params := [⟨"p", .named "P" default, default⟩]
  result := some (.named "i32" default)
  body := some body
  attributes := []
  span := default

/-- A struct `P` with a field `a`, a global `limit` and a function `f` of one parameter, all of these of
the same type, and a function that uses them. -/
def program (type : TypeExpr) : SourceUnit where
  name := "main"
  file := ⟨0⟩
  path := none
  items := [.struct ⟨"P", [⟨"a", type, default⟩], default⟩, .global ⟨"limit", type, none, default⟩,
    .function ⟨"f", [⟨"x", type, default⟩], some (.named "i32" default), none, [], default⟩, .function run]

def declared (type : Ty) (errors : Array (UnitId × TypeError)) : Declarations where
  index := ⟨#["main"], #[⟨.item 0, ⟨0⟩, "limit", "main::limit", type, .global, default⟩,
    ⟨.item 1, ⟨0⟩, "f", "main::f", .function [type] (.int 32) false, .function, default⟩,
    ⟨.item 2, ⟨0⟩, "run", "main::run", .function [.aggregate ⟨0⟩] (.int 32) false, .function, default⟩], .empty⟩
  structs := #[⟨"main::P", [⟨"a", type, default⟩], default⟩]
  functions := #[⟨.item 1, ⟨0⟩, 2, "main::f", [type], .int 32, false, none, true, default⟩,
    ⟨.item 2, ⟨0⟩, 3, "main::run", [.aggregate ⟨0⟩], .int 32, false, none, false, default⟩]
  globals := #[⟨.item 0, ⟨0⟩, "main::limit", type, none, default⟩]
  types := ⟨[("main::P", .aggregate ⟨0⟩)]⟩
  typeSpans := ⟨[("main::P", default)]⟩
  errors := errors

theorem declared_blurs {errors errors' : Array (UnitId × TypeError)} :
    (declared (.int 32) errors).Blurs (declared .error errors') where
  units := rfl
  items := .cons ⟨rfl, .whole .error⟩ (.cons ⟨rfl, .signature _ (.cons .error .nil) (.refl _)⟩
    (.cons ⟨rfl, .whole (.refl _)⟩ .nil))
  structs := .cons ⟨rfl, .cons ⟨rfl, .error⟩ .nil⟩ .nil
  functions := .cons ⟨rfl, .cons .error .nil, .refl _⟩ (.cons ⟨rfl, .cons (.refl _) .nil, .refl _⟩ .nil)
  types := rfl

theorem keepsValues {type : TypeExpr} {errors errors' : Array (UnitId × TypeError)} :
    (declared (.int 32) errors).KeepsValues (declared .error errors') ⟨0⟩ (program type).UsesValue := by
  intro t t' ht ht' name hv span b b' hr hr'
  have hname : name = "limit" ∨ name = "p" := by
    obtain ⟨f, hf, body, hbody, root, hroot, hn⟩ := hv
    have hf : f ∈ [(2, (⟨"f", [⟨"x", type, default⟩], some (.named "i32" default), none, [], default⟩ : FunctionDecl)),
      (3, run)] := hf
    simp only [List.mem_cons, List.not_mem_nil, or_false] at hf
    rcases hf with rfl | rfl
    · cases hbody
    · cases hbody
      cases hroot
      simpa [Expr.valueNames, Expr.allValueNames, Expr.isVar] using hn
  cases ht
  cases ht'
  rcases hname with rfl | rfl
  · cases hr'
    exact .inr rfl
  · cases hr

end BlurredItems

/-- A field, a global and a parameter whose type is unknown cause no mistakes in a body that uses them. -/
theorem bodyErrors_blurs_items : ∃ decls decls',
    Declarations.collect [BlurredItems.program (.named "i32" default)] = .ok decls ∧
    Declarations.collect [BlurredItems.program (.named "Missing" default)] = .ok decls' ∧ decls.Blurs decls' ∧
    decls.KeepsValues decls' ⟨0⟩ (BlurredItems.program (.named "Missing" default)).UsesValue ∧
    bodyErrors decls ⟨0⟩ (BlurredItems.program (.named "Missing" default)) = .ok [] ∧
    bodyErrors decls' ⟨0⟩ (BlurredItems.program (.named "Missing" default)) = .ok [] := by
  have hcollect : Declarations.collect [BlurredItems.program (.named "i32" default)] =
      .ok (BlurredItems.declared (.int 32) #[]) := by decide +kernel
  have hcollect' : Declarations.collect [BlurredItems.program (.named "Missing" default)] =
      .ok (BlurredItems.declared .error (.replicate 3 (⟨0⟩, .unboundName "Missing" default []))) := by decide +kernel
  have hclean : bodyErrors (BlurredItems.declared (.int 32) #[]) ⟨0⟩ (BlurredItems.program (.named "Missing" default)) =
      .ok [] := by decide +kernel
  exact ⟨_, _, hcollect, hcollect', BlurredItems.declared_blurs, BlurredItems.keepsValues, hclean,
    (bodyErrors_blurs BlurredItems.declared_blurs BlurredItems.keepsValues hclean).1⟩

namespace BlurredParameter

/-- `{ let g: fn(i32) -> i32 = f; 0 }` -/
def body : Body where
  exprs := #[.var "f" default, .literal (.int 0 none) default, .block [⟨0⟩] (some ⟨1⟩) default]
  stmts := #[.bind "g" (some (.function [.named "i32" default] (some (.named "i32" default)) false default))
    (some ⟨0⟩) default]
  root := ⟨2⟩

/-- A function `f` with a parameter, and one that uses it as a value. -/
def program (type : TypeExpr) : SourceUnit where
  name := "main"
  file := ⟨0⟩
  path := none
  items := [.function ⟨"f", [⟨"x", type, default⟩], some (.named "i32" default), none, [], default⟩,
    .function ⟨"run", [], some (.named "i32" default), some body, [], default⟩]

def declared (type : Ty) (errors : Array (UnitId × TypeError)) : Declarations where
  index := ⟨#["main"], #[⟨.item 0, ⟨0⟩, "f", "main::f", .function [type] (.int 32) false, .function, default⟩,
    ⟨.item 1, ⟨0⟩, "run", "main::run", .function [] (.int 32) false, .function, default⟩], .empty⟩
  structs := #[]
  functions := #[⟨.item 0, ⟨0⟩, 0, "main::f", [type], .int 32, false, none, true, default⟩,
    ⟨.item 1, ⟨0⟩, 1, "main::run", [], .int 32, false, none, false, default⟩]
  globals := #[]
  types := .empty
  typeSpans := .empty
  errors := errors

/-- The type of `f` as a value has its parameter type inside, which is no longer the one asked for. -/
theorem mismatch_follows : ∃ decls decls', Declarations.collect [program (.named "i32" default)] = .ok decls ∧
    Declarations.collect [program (.named "Missing" default)] = .ok decls' ∧ decls.Blurs decls' ∧
    bodyErrors decls ⟨0⟩ (program (.named "Missing" default)) = .ok [] ∧
    bodyErrors decls' ⟨0⟩ (program (.named "Missing" default)) =
      .ok [.mismatch "fn(i32) -> i32" "fn(\x7berror\x7d) -> i32" default] := by
  have hcollect : Declarations.collect [program (.named "i32" default)] = .ok (declared (.int 32) #[]) := by decide +kernel
  have hcollect' : Declarations.collect [program (.named "Missing" default)] =
      .ok (declared .error #[(⟨0⟩, .unboundName "Missing" default [])]) := by decide +kernel
  refine ⟨_, _, hcollect, hcollect', ?_, by decide +kernel, by decide +kernel⟩
  exact {
    units := rfl
    items := .cons ⟨rfl, .signature _ (.cons .error .nil) (.refl _)⟩ (.cons ⟨rfl, .whole (.refl _)⟩ .nil)
    structs := .nil
    functions := .cons ⟨rfl, .cons .error .nil, .refl _⟩ (.cons ⟨rfl, .nil, .refl _⟩ .nil)
    types := rfl }

end BlurredParameter

end SsaCompiler
