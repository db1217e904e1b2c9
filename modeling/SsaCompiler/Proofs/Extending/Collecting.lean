import SsaCompiler.Proofs.Declarations.Items

/-!
# Declarations of more units

What some units declare without an error is declared in the same places if further units are added
(`Declarations.collect_partOf`). Further units add structs, aliases and type names that were not
there. So the aliases of the first units stand for what they stood for, and with the same type names
their structs, globals and functions are the same.
-/

namespace SsaCompiler

open List WrittenFunction

variable {types types' : String → Option Ty}

theorem prefix_push {α : Type} {xs ys : Array α} (h : xs.toList <+: ys.toList) {y : α} :
    xs.toList <+: (ys.push y).toList := by
  rw [Array.toList_push]
  exact h.trans (prefix_append _ _)

/-! ## What is declared and what is declared further -/

/-- All that is declared is declared in the same place among other declarations, and these are not
those of its units. -/
structure Declarations.PartOf (decls decls' : Declarations) : Prop where
  units : decls.index.units.toList <+: decls'.index.units.toList
  items : decls.index.items.toList <+: decls'.index.items.toList
  structs : decls.structs.toList <+: decls'.structs.toList
  functions : decls.functions.toList <+: decls'.functions.toList
  globals : decls.globals.toList <+: decls'.globals.toList
  types : ∀ {key : String} {type : Ty}, decls.types.get? key = some type → decls'.types.get? key = some type
  unitItems : ∀ {unit : UnitId}, unit.index < decls.index.units.size →
    decls'.index.unitItems unit = decls.index.unitItems unit
  functionAt : ∀ {unit : UnitId}, unit.index < decls.index.units.size → ∀ itemIndex,
    decls'.functionAt? unit itemIndex = decls.functionAt? unit itemIndex

theorem Collect.unitName_of_isPrefix {index index' : ModuleIndex Ty} (h : index.units.toList <+: index'.units.toList)
    {unit : UnitId} {name : String} (hn : index.unitName unit = .ok name) : index'.unitName unit = .ok name := by
  unfold ModuleIndex.unitName at hn ⊢
  split at hn <;> cases hn
  rename_i hname
  rw [← Array.getElem?_toList] at hname
  rw [← Array.getElem?_toList, getElem?_of_isPrefix h hname]

theorem TypeExpr.valueType?_mono (hmono : ∀ key type, types key = some type → types' key = some type)
    {unitName : String} {expr : TypeExpr} (hsome : (expr.valueType? unitName types).isSome = true) :
    expr.valueType? unitName types' = expr.valueType? unitName types := by
  obtain ⟨type, ht⟩ := Option.isSome_iff_exists.mp hsome
  have htype := (Option.filter_eq_some_iff.mp ht).1
  rw [valueType?, valueType?, type?_mono hmono htype, htype]

theorem Collect.DeclaredStruct.filled_mono (hmono : ∀ key type, types key = some type → types' key = some type)
    {struct : DeclaredStruct} (h : struct.Exact types) : struct.filled types' = struct.filled types := by
  have hfold : ∀ (decls : List FieldDecl) (fields : List FieldDef),
      (∀ decl ∈ decls, (decl.type.valueType? struct.unit.name types).isSome = true) →
      decls.foldl (fun fields decl => decl.addTo struct.unit.name types' fields) fields =
        decls.foldl (fun fields decl => decl.addTo struct.unit.name types fields) fields := by
    intro decls
    induction decls with
    | nil => exact fun _ _ => rfl
    | cons decl rest ih =>
      intro fields hall
      rw [forall_mem_cons] at hall
      have hone : decl.addTo struct.unit.name types' fields = decl.addTo struct.unit.name types fields := by
        unfold FieldDecl.addTo FieldDecl.field
        rw [TypeExpr.valueType?_mono hmono hall.1]
      rw [foldl_cons, foldl_cons, hone, ih _ hall.2]
  unfold filled
  rw [hfold _ _ h.1]

/-! ## Globals and functions -/

namespace Values

variable {values : Values}
variable {written : List (UnitRef × Item × Nat)}

theorem enterAll_mono (hmono : ∀ key type, types key = some type → types' key = some type)
    (h : values.AllDeclared types written) : values.enterAll types' written = values.enterAll types written := by
  have henter : ∀ (values : Values) (unit : UnitRef) (item : Item × Nat), values.Declared types unit item →
      values.enter types' unit item = values.enter types unit item := by
    intro values unit item hd
    obtain ⟨item, index⟩ := item
    cases item with
    | global decl =>
      have htype : decl.typeIn types' unit = decl.typeIn types unit := by
        unfold GlobalDecl.typeIn
        rw [TypeExpr.valueType?_mono hmono hd.1]
      simp only [enter, GlobalDecl.item, htype]
    | function decl =>
      have hparams : params types' ⟨unit, index, decl⟩ = params types ⟨unit, index, decl⟩ :=
        map_congr_left fun param hp => by rw [TypeExpr.valueType?_mono hmono (hd.1.1 param hp)]
      have hresult : result types' ⟨unit, index, decl⟩ = result types ⟨unit, index, decl⟩ := by
        have hknown := hd.1.2
        unfold result
        cases hr : decl.result with
        | none => simp
        | some type =>
          obtain ⟨found, hf⟩ := Option.isSome_iff_exists.mp (hknown type hr)
          simp [TypeExpr.type?_mono hmono hf, hf]
      simp only [enter, item, hparams, hresult]
    | struct | typeAlias => rfl
  induction written generalizing values with
  | nil => rfl
  | cons item rest ih =>
    show (values.enter types' item.1 item.2).enterAll types' rest = (values.enter types item.1 item.2).enterAll types rest
    rw [henter values item.1 item.2 h.1, ih h.2]

/-- Items and functions are only added, and those that are added are of units from `count` on. -/
structure Adds (count : Nat) (values values' : Values) : Prop where
  items : ∃ more, values'.items.toList = values.items.toList ++ more ∧ ∀ item ∈ more, count ≤ item.unit.index
  functions : ∃ more, values'.functions.toList = values.functions.toList ++ more ∧ ∀ f ∈ more, count ≤ f.unit.index
  globals : values.globals.toList <+: values'.globals.toList

theorem adds_enterAll (types : String → Option Ty) (values : Values) {count : Nat}
    (h : ∀ item ∈ written, count ≤ item.1.id.index) : Adds count values (values.enterAll types written) := by
  have hone : ∀ {base values : Values} {unit : UnitRef}, Adds count base values → count ≤ unit.id.index →
      ∀ item, Adds count base (values.enter types unit item) := by
    intro base values unit hv hle item
    obtain ⟨item, index⟩ := item
    obtain ⟨⟨items, hitems, hunits⟩, ⟨functions, hfunctions, hunits'⟩, hglobals⟩ := hv
    cases item with
    | global decl =>
      rw [enter]
      split
      · exact ⟨⟨items, hitems, hunits⟩, ⟨functions, hfunctions, hunits'⟩, hglobals⟩
      · refine ⟨⟨items ++ [values.place unit decl.name (decl.typeIn types unit) .global decl.span], by simp [hitems], ?_⟩,
          ⟨functions, hfunctions, hunits'⟩, prefix_push hglobals⟩
        exact forall_mem_append.mpr ⟨hunits, by simpa [place] using hle⟩
    | function decl =>
      rw [enter]
      split
      · exact ⟨⟨items, hitems, hunits⟩, ⟨functions, hfunctions, hunits'⟩, hglobals⟩
      · refine ⟨⟨items ++ [values.place unit decl.name _ .function decl.span],
            by rw [Array.toList_push, hitems, append_assoc], ?_⟩,
          ⟨functions ++ [item types ⟨unit, index, decl⟩ (.item values.items.size)], by simp [hfunctions], ?_⟩,
          hglobals⟩
        · exact forall_mem_append.mpr ⟨hunits, by simpa [place] using hle⟩
        · exact forall_mem_append.mpr ⟨hunits', by simpa [item] using hle⟩
    | struct | typeAlias => exact ⟨⟨items, hitems, hunits⟩, ⟨functions, hfunctions, hunits'⟩, hglobals⟩
  have hall : ∀ (written : List (UnitRef × Item × Nat)) (mid : Values), Adds count values mid →
      (∀ item ∈ written, count ≤ item.1.id.index) → Adds count values (mid.enterAll types written) := by
    intro written
    induction written with
    | nil => exact fun _ hv _ => hv
    | cons item rest ih =>
      intro mid hv hle
      rw [forall_mem_cons] at hle
      exact ih _ (hone hv hle.1 item.2) hle.2
  exact hall written values ⟨⟨[], by simp, by simp⟩, ⟨[], by simp, by simp⟩, prefix_rfl⟩ h

end Values

/-! ## Type names -/

open Collect (DeclaredStruct)

theorem Collect.nameAll_append {units more : List (UnitRef × SourceUnit)} {c : Collector} :
    nameAll (units ++ more) c = ((nameAll units c).1 ++ (nameAll more (nameAll units c).2).1,
      (nameAll more (nameAll units c).2).2) := by
  induction units generalizing c with
  | nil => rfl
  | cons unit rest ih => rw [cons_append, nameAll_cons, ih, nameAll_cons, append_assoc]

/-- What a name stands for, it stands for if more is declared behind. -/
theorem Collector.Denotes.mono {base base' : Collector} (hf' : base'.Fresh)
    (htypes : ∀ key type, base.decls.types.get? key = some type → base'.decls.types.get? key = some type)
    (haliases : ∀ key found, base.aliases.get? key = some found → base'.aliases.get? key = some found)
    {key : String} {type : Ty} (h : base.Denotes key type) : base'.Denotes key type := by
  obtain ⟨depth, h⟩ := h
  refine ⟨depth, ?_⟩
  induction depth generalizing key type with
  | zero => exact htypes key type h
  | succ depth ih =>
    rcases Option.or_eq_some_iff.mp h with h | ⟨-, h⟩
    · exact Option.or_eq_some_iff.mpr (.inl (htypes key type h))
    · obtain ⟨found, hfound, h⟩ := Option.bind_eq_some_iff.mp h
      have hfound' := haliases key found hfound
      exact Option.or_eq_some_iff.mpr (.inr ⟨hf' key found hfound',
        Option.bind_eq_some_iff.mpr ⟨found, hfound', TypeExpr.type?_mono (fun _ _ => ih) h⟩⟩)

theorem unitRefs_append (units more : List SourceUnit) : unitRefs (units ++ more) = unitRefs units ++
    (more.zipIdx units.length).map fun (unit, position) => (⟨⟨position⟩, unit.name⟩, unit) := by
  unfold unitRefs
  rw [zipIdx_append, map_append, Nat.zero_add]

/-- Declarations without errors stay in their places if further units are added. -/
theorem Declarations.collect_partOf {units more : List SourceUnit} {decls decls' : Declarations}
    (h : collect units = .ok decls) (hc : decls.hasErrors = false) (h' : collect (units ++ more) = .ok decls') :
    decls.PartOf decls' := by
  obtain ⟨base, structs, h⟩ := collected h
  obtain ⟨base', structs', h'⟩ := collected h'
  have herrors := h.clean hc
  have hrefs := unitRefs_append units more
  generalize hfurther : (more.zipIdx units.length).map (fun (unit, position) =>
    ((⟨⟨position⟩, unit.name⟩ : UnitRef), unit)) = further at hrefs
  have hcount : ∀ u ∈ further, units.length ≤ u.1.id.index := by
    rw [← hfurther]
    intro u hu
    obtain ⟨⟨unit, position⟩, hm, rfl⟩ := mem_map.mp hu
    exact le_snd_of_mem_zipIdx hm
  -- the type names of the first units are declared first
  have hstructs : structs <+: structs' := by
    have hnamed := h'.named
    rw [hrefs, Collect.nameAll_append] at hnamed
    have hfirst := Collect.nameAll_withIndex { ModuleIndex.empty with units := ((units ++ more).map (·.name)).toArray }
      (unitRefs units) (.start (units.map (·.name)).toArray)
    rw [h.named] at hfirst
    have hprefix := congrArg Prod.fst hnamed
    exact ⟨_, (congrArg (· ++ _) (congrArg Prod.fst hfirst)).symm.trans hprefix⟩
  have hdenotes : ∀ key type, base.Denotes key type → base'.Denotes key type := by
    refine fun key type hd => hd.mono h'.naming.fresh (fun key type ht => ?_) fun key found hf => ?_
    · obtain ⟨struct, hs, he⟩ := (h.naming.types key type).mp ht
      exact (h'.naming.types key type).mpr ⟨struct, hstructs.subset hs, he⟩
    · have hfirst := (h.naming.aliases key found).mp hf
      refine (h'.naming.aliases key found).mpr ?_
      rw [hrefs, itemsOf, flatMap_append, firstOf_append, ← itemsOf, hfirst, Option.some_or]
  have htypes : ∀ key type, decls.types.get? key = some type → decls'.types.get? key = some type :=
    fun key type ht => h'.types_of_denotes (hdenotes key type (herrors.denotes rfl key type ht))
  -- with the same types, globals and functions are entered in the same way
  have hvalues : valuesOf decls'.types.get? (units ++ more) =
      (valuesOf decls.types.get? units).enterAll decls'.types.get? (writtenItems further) := by
    rw [valuesOf, hrefs, writtenItems, flatMap_append, Values.enterAll_append, ← writtenItems,
      Values.enterAll_mono htypes (herrors.declared rfl)]
    rfl
  have hwritten : ∀ item ∈ writtenItems further, units.length ≤ item.1.id.index := by
    intro item hi
    obtain ⟨u, hu, hi⟩ := mem_flatMap.mp hi
    obtain ⟨_, -, rfl⟩ := mem_map.mp hi
    exact hcount u hu
  have hadds := Values.adds_enterAll decls'.types.get? (valuesOf decls.types.get? units) hwritten
  rw [← hvalues] at hadds
  obtain ⟨⟨items, hitems, hunits⟩, ⟨functions, hfunctions, hunits'⟩, hglobals⟩ := hadds
  have hsize : decls.index.units.size = units.length := by
    rw [h.index]
    simp [Values.index]
  constructor
  · rw [h.index, h'.index]
    simp [Values.index]
  · rw [h.index, h'.index]
    exact ⟨items, hitems.symm⟩
  · obtain ⟨rest, rfl⟩ := hstructs
    rw [h.filled, h'.filled, map_append]
    refine ⟨_, congrArg (· ++ _) (map_congr_left fun struct hs => ?_)⟩
    exact (Collect.DeclaredStruct.filled_mono htypes (herrors.exact rfl struct hs)).symm
  · rw [h.functions, h'.functions]
    exact ⟨functions, hfunctions.symm⟩
  · rw [h.globals, h'.globals]
    exact hglobals
  · exact htypes _ _
  · intro unit hu
    rw [h.index, h'.index]
    show ((valuesOf decls'.types.get? (units ++ more)).items.toList).filter _ = _
    have hnone : items.filter (fun item => decide (item.unit = unit)) = [] := by
      rw [filter_eq_nil_iff]
      intro item hi he
      have hle := hunits item hi
      rw [of_decide_eq_true he] at hle
      omega
    rw [hitems, filter_append, hnone, append_nil]
    rfl
  · intro unit hu itemIndex
    unfold functionAt?
    rw [h.functions, h'.functions, ← Array.find?_toList, ← Array.find?_toList, hfunctions, find?_append]
    have hnone : functions.find? (fun f => decide (f.unit = unit) && decide (f.itemIndex = itemIndex)) = none := by
      rw [find?_eq_none]
      intro f hf he
      have hle := hunits' f hf
      rw [of_decide_eq_true (Bool.and_eq_true_iff.mp he).1] at hle
      omega
    rw [hnone, Option.or_none]

end SsaCompiler
