import SsaCompiler.Proofs.Declarations.Expansion
import SsaCompiler.Proofs.Declarations.Naming
import SsaCompiler.Proofs.Declarations.Values

/-!
# Collection as a whole

Collection goes through the type names, the aliases, the fields of structs, the check that no struct
holds itself, and then the globals and functions. It never stops with a fault. `Declarations.Collected`
says what it ends with: the types of the aliases, the structs with their fields and the globals and
functions as they are entered, and the errors of each phase.
-/

namespace SsaCompiler

open List Collect

variable {structs : List DeclaredStruct} {units : List SourceUnit} {items : List (UnitRef × Item)}
  {u : UnitRef × SourceUnit} {base : Collector}

/-- Units with their positions and names. -/
def unitRefs (units : List SourceUnit) : List (UnitRef × SourceUnit) :=
  units.zipIdx.map fun (unit, position) => (⟨⟨position⟩, unit.name⟩, unit)

theorem mem_unitRefs {unit : UnitRef} {source : SourceUnit} :
    (unit, source) ∈ unitRefs units ↔ units[unit.id.index]? = some source ∧ unit.name = source.name := by
  obtain ⟨⟨position⟩, name⟩ := unit
  simp only [unitRefs, mem_map, Prod.exists, mk_mem_zipIdx_iff_getElem?, Prod.mk.injEq,
    UnitRef.mk.injEq, UnitId.mk.injEq]
  constructor
  · rintro ⟨source, position, h, ⟨rfl, rfl⟩, rfl⟩
    exact ⟨h, rfl⟩
  · rintro ⟨h, rfl⟩
    exact ⟨source, position, h, ⟨rfl, rfl⟩, rfl⟩

namespace Declarations

open Collect (DeclaredStruct)

/-- The globals and functions of units whose type names stand for `types`. -/
def valuesOf (types : String → Option Ty) (units : List SourceUnit) : Values :=
  Values.enterAll types ⟨#[], #[], #[]⟩ (writtenItems (unitRefs units))

/-- The errors of a collection: of type names, of aliases, of fields, of structs that hold themselves, and of
globals and functions. Without errors of a phase, the phase has found all types it looked for. -/
structure Errors (units : List SourceUnit) (base : Collector) (structs : List DeclaredStruct) (decls : Declarations)
    (aliases fields values : List (UnitId × TypeError)) : Prop where
  all : decls.errors.toList = base.decls.errors.toList ++ aliases ++ fields ++
    decls.cycleErrors (structs.map fun struct => (struct.unit, struct.id)) [] ++ values
  ofAliases : ∀ e ∈ aliases, base.AliasError e
  others : ∀ e ∈ fields ++ values, e.1.index < units.length ∧ e.2.isCyclic = false
  denotes : aliases = [] → ∀ key type, decls.types.get? key = some type → base.Denotes key type
  exact : fields = [] → ∀ struct ∈ structs, struct.Exact decls.types.get?
  declared : values = [] → Values.AllDeclared decls.types.get? ⟨#[], #[], #[]⟩ (writtenItems (unitRefs units))

/-- What collection ends with, if type names were declared in `base` with the structs `structs`. -/
structure Collected (units : List SourceUnit) (base : Collector) (structs : List DeclaredStruct) (decls : Declarations) :
    Prop where
  named : nameAll (unitRefs units) (.start (units.map (·.name)).toArray) = (structs, base)
  naming : base.Naming (itemsOf (unitRefs units)) structs
  settled : ∀ key, base.aliases.contains key = true → (decls.types.get? key).isSome = true
  before : ∀ key type, base.decls.types.get? key = some type → decls.types.get? key = some type
  sound : ∀ key type type', decls.types.get? key = some type → base.Denotes key type' → type = type'
  typesOver : ∀ key type, decls.types.get? key = some type → type.Over structs.length
  filled : decls.structs.toList = structs.map (·.filled decls.types.get?)
  index : decls.index = (valuesOf decls.types.get? units).index (units.map (·.name)).toArray
  functions : decls.functions = (valuesOf decls.types.get? units).functions
  globals : decls.globals = (valuesOf decls.types.get? units).globals
  errors : ∃ aliases fields values, decls.Errors units base structs aliases fields values

end Declarations

namespace Collect

variable {c : Collector}

theorem forIn_apply {α β : Type} {xs : List α} {f : α → Collect β} :
    outcome (forIn xs PUnit.unit fun x _ => f x >>= fun _ => pure (.yield ⟨⟩)) c =
      (⟨⟩, xs.foldl (fun c x => (outcome (f x) c).2) c) := by
  induction xs generalizing c with
  | nil => rfl
  | cons x rest ih =>
    rw [forIn_cons, foldl_cons, ← ih]
    rfl

theorem declareTypes_apply {units : List (UnitRef × SourceUnit)}
    (h : nameAll units c = (structs, base)) : outcome (declareTypes units) c =
      outcome (checkContainments (structs.map fun struct => (struct.unit, struct.id)) [])
        (structs.foldl (fun c struct => (outcome (fillStruct struct.unit struct.id struct.decl) c).2)
          (base.aliases.keys.foldl (fun c key => (outcome (expand key) c).2) base)) := by
  obtain ⟨rfl, rfl⟩ := Prod.mk.injEq .. ▸ h
  unfold declareTypes
  rw [outcome_bind]
  have hget : ∀ (f : Collector → Collect Unit) c, outcome (get >>= f) c = outcome (f c) c := fun _ _ => rfl
  rw [hget, outcome_bind, outcome_bind, forIn_apply, forIn_apply]

end Collect

theorem Collector.Naming.fresh (h : base.Naming items structs) : base.Fresh := by
  intro key found hfound
  by_contra hsome
  obtain ⟨type, ht⟩ := Option.ne_none_iff_exists'.mp hsome
  obtain ⟨struct, hs, rfl, -⟩ := (h.types key type).mp ht
  have hboth := ((h.aliases _ found).mp hfound).symm.trans (h.declared struct hs)
  simp at hboth

theorem Collector.Naming.typesOver (h : base.Naming items structs) :
    ∀ key type, base.decls.types.get? key = some type → type.Over base.decls.structs.size := by
  intro key type ht
  obtain ⟨struct, hs, -, rfl⟩ := (h.types key type).mp ht
  obtain ⟨i, hi⟩ := mem_iff_getElem?.mp hs
  rw [h.ids i struct hi, h.size]
  exact (List.getElem?_eq_some_iff.mp hi).1

theorem unitName_start (hu : u ∈ unitRefs units) : (units.map (·.name)).toArray[u.1.id.index]? = some u.1.name := by
  obtain ⟨hsource, hname⟩ := mem_unitRefs.mp hu
  simp [hsource, hname]

theorem index_lt (hu : u ∈ unitRefs units) : u.1.id.index < units.length :=
  (List.getElem?_eq_some_iff.mp (mem_unitRefs.mp hu).1).1

/-- Units of any kind have declarations. -/
theorem Declarations.exists_collected (units : List SourceUnit) : ∃ base structs decls,
    collect units = .ok decls ∧ Collected units base structs decls := by
  rcases hnamed : nameAll (unitRefs units) (.start (units.map (·.name)).toArray) with ⟨structs, base⟩
  have hnaming : base.Naming (itemsOf (unitRefs units)) structs := by
    have h := naming_all (.start (units.map (·.name)).toArray) (unitRefs units)
    rw [hnamed] at h
    exact h
  have hindex : base.decls.index = { ModuleIndex.empty with units := (units.map (·.name)).toArray } := by
    have h := nameAll_withIndex { ModuleIndex.empty with units := (units.map (·.name)).toArray } (unitRefs units)
      (.start (units.map (·.name)).toArray)
    have h := h.symm.trans hnamed
    exact congrArg (·.2.decls.index) h.symm
  -- the aliases
  have hkeys : ∀ key ∈ base.aliases.keys, base.aliases.contains key = true := fun _ => Table.contains_of_mem_keys
  obtain ⟨c2, hexpand, hc2, -, hall⟩ := expand_spec hnaming.fresh hkeys (.start hnaming.expanding hnaming.typesOver)
  have hsettled : ∀ key, base.aliases.contains key = true → (c2.decls.types.get? key).isSome = true := by
    intro key hcontains
    obtain ⟨found, hfound⟩ := Table.contains_eq_true_iff.mp hcontains
    exact hall key (mem_map_of_mem (Table.mem_of_find? hfound))
  obtain ⟨types, aliases, rfl, haliases⟩ := hc2.frame
  -- the structs
  have hknown : (⟨{ base.decls with types, errors := base.decls.errors ++ aliases.toArray }, base.aliases, []⟩ :
    Collector).Settled types.get? := ⟨rfl, hsettled⟩
  have hids : ∀ (i : Nat) (struct : DeclaredStruct), structs[i]? = some struct →
      struct.id = ⟨([] : List DeclaredStruct).length + i⟩ := by
    simpa using hnaming.ids
  obtain ⟨fields, hfill, hfields, hexact⟩ := fillStructs_settled hknown hids hnaming.bare
  let c3 : Collector := ⟨{ base.decls with
    types, structs := (structs.map (·.filled types.get?)).toArray, errors := base.decls.errors ++ aliases.toArray },
    base.aliases, []⟩
  let cycles := (c3.noting fields).decls.cycleErrors (structs.map fun struct => (struct.unit, struct.id)) []
  have hcontain := checkContainments_apply (structs.map fun struct => (struct.unit, struct.id)) [] (c3.noting fields)
  -- the globals and functions
  have hunits : ∀ u ∈ unitRefs units, ((c3.noting fields).noting cycles).decls.index.unitName u.1.id = .ok u.1.name := by
    intro u hu
    show base.decls.index.unitName u.1.id = _
    rw [hindex, ModuleIndex.unitName, unitName_start hu]
  obtain ⟨_, hrun, values, rfl, hvalues, hdeclared⟩ := declareItems_settled (c := (c3.noting fields).noting cycles)
    ⟨rfl, hsettled⟩ hunits
  have hempty : ((c3.noting fields).noting cycles).values = ⟨#[], #[], #[]⟩ := by
    show (⟨base.decls.index.items, base.decls.functions, base.decls.globals⟩ : Values) = _
    rw [hindex, hnaming.functions, hnaming.globals]
    rfl
  rw [hempty] at hrun hdeclared
  let c5 := (((c3.noting fields).noting cycles).withValues (valuesOf types.get? units)).noting values
  refine ⟨base, structs, c5.decls, ?_, ?_⟩
  · rw [collect_eq]
    refine bind_eq_ok.mpr ⟨((), _), run_bind_eq_ok.mpr ⟨(), _, ?_, run_bind_eq_ok.mpr ⟨_, _, hrun, rfl⟩⟩, rfl⟩
    refine congrArg Except.ok ((declareTypes_apply hnamed).trans ?_)
    rw [hexpand, hfill]
    exact hcontain
  · constructor
    · exact hnamed
    · exact hnaming
    · exact hsettled
    · exact hc2.before.types
    · exact hc2.sound
    · rw [← hnaming.size]
      exact hc2.typesOver
    · rfl
    · show (⟨base.decls.index.units, _, base.decls.index.locals⟩ : ModuleIndex Ty) = _
      rw [hindex]
      rfl
    · rfl
    · rfl
    · refine ⟨aliases, fields, values, ?_, haliases, ?_, ?_, hexact, hdeclared⟩
      · have hstructs : (c3.noting fields).decls.structs = c5.decls.structs := rfl
        have hcycles : cycles = c5.decls.cycleErrors _ _ := cycleErrors_congr hstructs
        show (((base.decls.errors ++ aliases.toArray) ++ fields.toArray ++ cycles.toArray) ++ values.toArray).toList = _
        rw [hcycles]
        simp
      · refine forall_mem_append.mpr ⟨fun e he => ?_, fun e he => ?_⟩
        · obtain ⟨⟨struct, hs, hu⟩, hcyclic⟩ := hfields e he
          obtain ⟨u, hmem, hunit, -⟩ := mem_itemsOf (mem_of_firstOf (hnaming.declared struct hs))
          have hunit : u.1 = struct.unit := hunit
          exact ⟨hu ▸ hunit ▸ index_lt hmem, hcyclic⟩
        · obtain ⟨⟨u, hmem, hu⟩, hcyclic⟩ := hvalues e he
          exact ⟨hu ▸ index_lt hmem, hcyclic⟩
      · rintro rfl
        exact hc2.quiet (by simp)

end SsaCompiler
