import SsaCompiler.Proofs.Declarations.Settled

/-!
# Type names

Type names are declared in the order of the items. The first item of a name declares it
(`firstOf`), and further ones are errors. `Collector.Naming` says what is declared after some
items: structs in order, without fields, and aliases without types.
-/

namespace SsaCompiler

open List Declarations

/-- The type name that an item declares. -/
def Item.typeKey? (unit : UnitRef) : Item → Option String
  | .struct decl => some (qualify unit.name decl.name)
  | .typeAlias decl => some (qualify unit.name decl.name)
  | _ => none

/-- The first item that declares a type name. -/
def firstOf (items : List (UnitRef × Item)) (key : String) : Option (UnitRef × Item) :=
  items.find? fun item => item.2.typeKey? item.1 = some key

theorem firstOf_append {items more : List (UnitRef × Item)} {key : String} :
    firstOf (items ++ more) key = (firstOf items key).or (firstOf more key) :=
  find?_append

theorem firstOf_singleton {item : UnitRef × Item} {key : String} :
    firstOf [item] key = if item.2.typeKey? item.1 = some key then some item else none := by
  simp [firstOf, find?_cons]
  split <;> simp_all

def itemsOf (units : List (UnitRef × SourceUnit)) : List (UnitRef × Item) :=
  units.flatMap fun unit => unit.2.items.map fun item => (unit.1, item)

variable {item : UnitRef × Item}

theorem mem_of_firstOf {items : List (UnitRef × Item)} {key : String}
    (h : firstOf items key = some item) : item ∈ items :=
  mem_of_find?_eq_some h

theorem mem_itemsOf {units : List (UnitRef × SourceUnit)} (h : item ∈ itemsOf units) :
    ∃ unit ∈ units, unit.1 = item.1 ∧ item.2 ∈ unit.2.items := by
  obtain ⟨unit, hu, hi⟩ := mem_flatMap.mp h
  obtain ⟨found, hf, rfl⟩ := mem_map.mp hi
  exact ⟨unit, hu, rfl, hf⟩

namespace Collect.DeclaredStruct

def key (struct : DeclaredStruct) : String := qualify struct.unit.name struct.decl.name

def filled (types : String → Option Ty) (struct : DeclaredStruct) : StructDef :=
  ⟨struct.key, struct.decl.fields.foldl (fun fields decl => decl.addTo struct.unit.name types fields) [],
    struct.decl.span⟩

end Collect.DeclaredStruct

namespace Collector

open Collect (DeclaredStruct)

def withStruct (c : Collector) (key : String) (span : FileSpan) : Collector :=
  { c with decls :=
    { c.decls with
      typeSpans := c.decls.typeSpans.insert key span
      structs := c.decls.structs.push ⟨key, [], span⟩
      types := c.decls.types.insert key (.aggregate ⟨c.decls.structs.size⟩) } }

def withAlias (c : Collector) (key : String) (unit : UnitRef) (decl : AliasDecl) : Collector :=
  { c with
    decls := { c.decls with typeSpans := c.decls.typeSpans.insert key decl.span }
    aliases := c.aliases.insert key ⟨unit, decl⟩ }

def start (names : Array String) : Collector :=
  ⟨{ empty with index := { ModuleIndex.empty with units := names } }, .empty, []⟩

def withIndex (c : Collector) (index : ModuleIndex Ty) : Collector := { c with decls := { c.decls with index } }

/-- The type names of `items` are declared, among them the structs `structs`. -/
structure Naming (items : List (UnitRef × Item)) (structs : List DeclaredStruct) (c : Collector) : Prop where
  spans : ∀ key, c.decls.typeSpans.contains key = (firstOf items key).isSome
  aliases : ∀ key found, c.aliases.get? key = some found ↔ firstOf items key = some (found.unit, .typeAlias found.decl)
  types : ∀ key type, c.decls.types.get? key = some type ↔ ∃ struct ∈ structs, struct.key = key ∧ type = .aggregate struct.id
  declared : ∀ struct ∈ structs, firstOf items struct.key = some (struct.unit, .struct struct.decl)
  complete : ∀ key unit decl, firstOf items key = some (unit, .struct decl) →
    ∃ struct ∈ structs, struct.unit = unit ∧ struct.decl = decl
  bare : c.decls.structs.toList = structs.map fun struct => ⟨struct.key, [], struct.decl.span⟩
  ids : ∀ (i : Nat) (struct : DeclaredStruct), structs[i]? = some struct → struct.id = ⟨i⟩
  errors : ∀ e ∈ c.decls.errors.toList, (∃ item ∈ items, e.1 = item.1.id) ∧ e.2.isCyclic = false
  expanding : c.expanding = []
  functions : c.decls.functions = #[]
  globals : c.decls.globals = #[]

namespace Naming

variable {items : List (UnitRef × Item)} {structs : List DeclaredStruct} {c : Collector} {unit : UnitRef}
variable {key : String}

theorem start (names : Array String) : (Collector.start names).Naming [] [] where
  spans _ := rfl
  aliases _ _ := by simp [Collector.start, firstOf]
  types _ _ := by simp [Collector.start, empty]
  declared := by simp
  complete := by simp [firstOf]
  bare := rfl
  ids := by simp
  errors := by simp [Collector.start, empty]
  expanding := rfl
  functions := rfl
  globals := rfl

theorem size (h : c.Naming items structs) : c.decls.structs.size = structs.length := by
  rw [← Array.length_toList, h.bare, length_map]

theorem skip (h : c.Naming items structs) (unit : UnitRef) (item : Item)
    (hskip : ∀ key, item.typeKey? unit = some key → (firstOf items key).isSome = true)
    (errors : List (UnitId × TypeError)) (herrors : ∀ e ∈ errors, e.1 = unit.id ∧ e.2.isCyclic = false) :
    (c.noting errors).Naming (items ++ [(unit, item)]) structs := by
  have hfirst : ∀ key, firstOf (items ++ [(unit, item)]) key = firstOf items key := by
    intro key
    rw [firstOf_append, firstOf_singleton]
    split
    · rename_i hk
      obtain ⟨_, hsome⟩ := Option.isSome_iff_exists.mp (hskip key hk)
      rw [hsome, Option.some_or]
    · rw [Option.or_none]
  constructor
  · exact fun key => (hfirst key).symm ▸ h.spans key
  · exact fun key found => (hfirst key).symm ▸ h.aliases key found
  · exact h.types
  · exact fun struct hs => (hfirst _).trans (h.declared struct hs)
  · exact fun key unit decl hk => h.complete key unit decl ((hfirst key).symm.trans hk)
  · exact h.bare
  · exact h.ids
  · intro e he
    simp only [noting, Array.toList_append, mem_append] at he
    rcases he with he | he
    · obtain ⟨⟨item, hi, hu⟩, hc⟩ := h.errors e he
      exact ⟨⟨item, mem_append_left _ hi, hu⟩, hc⟩
    · obtain ⟨hu, hc⟩ := herrors e he
      exact ⟨⟨(unit, item), by simp, hu⟩, hc⟩
  · exact h.expanding
  · exact h.functions
  · exact h.globals

theorem firstOf_new (item : Item) (hkey : item.typeKey? unit = some key) (hnone : firstOf items key = none)
    (other : String) :
    firstOf (items ++ [(unit, item)]) other = if other = key then some (unit, item) else firstOf items other := by
  rw [firstOf_append, firstOf_singleton, hkey]
  by_cases h : other = key
  · subst h
    simp [hnone]
  · simp [h, Ne.symm h]

variable (h : c.Naming items structs)
include h

theorem new (hnew : c.decls.typeSpans.get? key = none) : firstOf items key = none := by
  have hspan := h.spans key
  rw [Table.contains, hnew] at hspan
  exact Option.isNone_iff_eq_none.mp (by simpa using hspan.symm)

theorem spans_insert {item : Item} (hkey : item.typeKey? unit = some key) (hnone : firstOf items key = none)
    (span : FileSpan) (other : String) :
    (c.decls.typeSpans.insert key span).contains other = (firstOf (items ++ [(unit, item)]) other).isSome := by
  rw [firstOf_new item hkey hnone, Table.contains, Table.get?_insert]
  split
  · rfl
  · exact h.spans other

theorem errors_append : ∀ e ∈ c.decls.errors.toList,
    (∃ found ∈ items ++ [item], e.1 = found.1.id) ∧ e.2.isCyclic = false := by
  intro e he
  obtain ⟨⟨found, hi, hu⟩, hc⟩ := h.errors e he
  exact ⟨⟨found, mem_append_left _ hi, hu⟩, hc⟩

theorem withAlias {decl : AliasDecl} (hnew : c.decls.typeSpans.get? (qualify unit.name decl.name) = none) :
    (c.withAlias (qualify unit.name decl.name) unit decl).Naming (items ++ [(unit, .typeAlias decl)]) structs := by
  have hnone := h.new hnew
  have hfirst := firstOf_new (.typeAlias decl) rfl hnone
  constructor
  · exact h.spans_insert rfl hnone decl.span
  · intro key found
    show (c.aliases.insert _ _).get? key = _ ↔ _
    rw [hfirst, Table.get?_insert]
    split
    · rw [Option.some.injEq, Option.some.injEq, Prod.mk.injEq, Item.typeAlias.injEq]
      constructor
      · rintro rfl
        exact ⟨rfl, rfl⟩
      · rintro ⟨rfl, rfl⟩
        rfl
    · exact h.aliases key found
  · exact h.types
  · intro struct hs
    have hold := h.declared struct hs
    rw [hfirst, if_neg (fun he => by rw [he, hnone] at hold; cases hold), hold]
  · intro key unit' decl' hk
    rw [hfirst] at hk
    split at hk
    · cases hk
    · exact h.complete key unit' decl' hk
  · exact h.bare
  · exact h.ids
  · exact h.errors_append
  · exact h.expanding
  · exact h.functions
  · exact h.globals

theorem withStruct {decl : StructDecl} (hnew : c.decls.typeSpans.get? (qualify unit.name decl.name) = none) :
    (c.withStruct (qualify unit.name decl.name) decl.span).Naming (items ++ [(unit, .struct decl)])
      (structs ++ [⟨unit, ⟨c.decls.structs.size⟩, decl⟩]) := by
  have hnone := h.new hnew
  have hfirst := firstOf_new (.struct decl) rfl hnone
  have hold : ∀ struct ∈ structs, struct.key ≠ qualify unit.name decl.name := by
    intro struct hs he
    have hd := h.declared struct hs
    rw [he, hnone] at hd
    cases hd
  constructor
  · exact h.spans_insert rfl hnone decl.span
  · intro key found
    rw [hfirst]
    split
    · rename_i hk
      simp only [Option.some.injEq, Prod.mk.injEq, reduceCtorEq, and_false, iff_false]
      intro hfound
      have hf := (h.aliases key found).mp hfound
      rw [hk, hnone] at hf
      cases hf
    · exact h.aliases key found
  · intro key type
    show (c.decls.types.insert _ _).get? key = _ ↔ _
    rw [Table.get?_insert]
    simp only [mem_append, mem_singleton, or_and_right, exists_or, exists_eq_left]
    split
    · rename_i hk
      constructor
      · rintro ⟨⟩
        exact .inr ⟨hk.symm, rfl⟩
      · rintro (⟨struct, hs, he, -⟩ | ⟨-, rfl⟩)
        · exact absurd (he.trans hk) (hold struct hs)
        · rfl
    · rename_i hk
      rw [h.types key type]
      constructor
      · exact .inl
      · rintro (he | ⟨he, -⟩)
        · exact he
        · exact absurd he.symm hk
  · intro struct hs
    rw [hfirst]
    rcases mem_append.mp hs with hs | hs
    · rw [if_neg (hold struct hs)]
      exact h.declared struct hs
    · cases mem_singleton.mp hs
      exact if_pos rfl
  · intro key unit' decl' hk
    rw [hfirst] at hk
    split at hk
    · cases hk
      exact ⟨⟨unit, ⟨c.decls.structs.size⟩, decl⟩, by simp, rfl, rfl⟩
    · obtain ⟨struct, hs, he⟩ := h.complete key unit' decl' hk
      exact ⟨struct, mem_append_left _ hs, he⟩
  · show (c.decls.structs.push _).toList = _
    rw [Array.toList_push, h.bare, map_append]
    rfl
  · intro i struct hs
    rw [getElem?_append] at hs
    split at hs
    · exact h.ids i struct hs
    · obtain ⟨hi, hs⟩ := List.getElem?_eq_some_iff.mp hs
      have hi : i = structs.length := by simp at hi; omega
      subst hs hi
      simp [h.size]
  · exact h.errors_append
  · exact h.expanding
  · exact h.functions
  · exact h.globals

end Naming

end Collector

/-! ## Declaring type names -/

namespace Collect

variable {items : List (UnitRef × Item)} {structs : List DeclaredStruct} {c : Collector} {unit : UnitRef}
variable {rest : List Item} {item : Item}

theorem outcome_claimTypeName (unit : UnitRef) (name : String) (span : FileSpan) (c : Collector) :
    (c.decls.typeSpans.get? (qualify unit.name name) = none ∧
      outcome (claimTypeName unit name span) c = (some (qualify unit.name name), { c with decls :=
        { c.decls with typeSpans := c.decls.typeSpans.insert (qualify unit.name name) span } })) ∨
    ∃ first, c.decls.typeSpans.get? (qualify unit.name name) = some first ∧
      outcome (claimTypeName unit name span) c = (none, c.noting [(unit.id, .duplicate name span first)]) := by
  have hget : ∀ f : String → Collector → Collect (Option String), outcome
    ((liftM (Names.intern (m := Id) (qualify unit.name name)) : Collect String) >>= fun key => get >>= f key)
      c = outcome (f (qualify unit.name name) c) c := fun _ => rfl
  generalize hrun : outcome (claimTypeName unit name span) c = result
  replace hrun := (hget _).symm.trans hrun
  rw [← hrun]
  cases hspan : c.decls.typeSpans.get? (qualify unit.name name) with
  | none => exact .inl ⟨rfl, rfl⟩
  | some first =>
    refine .inr ⟨first, rfl, ?_⟩
    show (none, (outcome (report unit.id _) c).2) = _
    rw [outcome, report_apply]

def nameItem (unit : UnitRef) (item : Item) (c : Collector) : List DeclaredStruct × Collector :=
  outcome (declareTypeNames unit [item]) c

theorem declareTypeNames_cons : outcome (declareTypeNames unit (item :: rest)) c =
      ((nameItem unit item c).1 ++ (outcome (declareTypeNames unit rest) (nameItem unit item c).2).1,
        (outcome (declareTypeNames unit rest) (nameItem unit item c).2).2) := by
  unfold nameItem
  cases item with
  | struct decl =>
    rw [declareTypeNames, declareTypeNames, outcome_bind, outcome_bind]
    cases (outcome (declareStruct unit decl) c).1 <;> rfl
  | typeAlias decl => rfl
  | function | global => rfl

theorem naming_item (h : c.Naming items structs) :
    (nameItem unit item c).2.Naming (items ++ [(unit, item)]) (structs ++ (nameItem unit item c).1) := by
  have hsome : ∀ {key : String} {span : FileSpan}, c.decls.typeSpans.get? key = some span →
      (firstOf items key).isSome = true := by
    intro key span hspan
    rw [← h.spans, Table.contains, hspan]
    rfl
  unfold nameItem
  cases item with
  | struct decl =>
    rw [declareTypeNames, declareStruct, outcome_bind, outcome_bind]
    rcases outcome_claimTypeName unit decl.name decl.span c with ⟨hnew, hrun⟩ | ⟨first, hspan, hrun⟩ <;> rw [hrun]
    · exact h.withStruct hnew
    · refine (structs.append_nil).symm ▸ h.skip _ _ ?_ _ (by simp [TypeError.isCyclic])
      rintro _ ⟨⟩
      exact hsome hspan
  | typeAlias decl =>
    rw [declareTypeNames, declareAlias, outcome_bind, outcome_bind]
    rcases outcome_claimTypeName unit decl.name decl.span c with ⟨hnew, hrun⟩ | ⟨first, hspan, hrun⟩ <;> rw [hrun]
    · exact (structs.append_nil).symm ▸ h.withAlias hnew
    · refine (structs.append_nil).symm ▸ h.skip _ _ ?_ _ (by simp [TypeError.isCyclic])
      rintro _ ⟨⟩
      exact hsome hspan
  | function decl =>
    have hskip := h.skip unit (.function decl) (by simp [Item.typeKey?]) [] (by simp)
    exact (structs.append_nil).symm ▸ hskip
  | global decl =>
    have hskip := h.skip unit (.global decl) (by simp [Item.typeKey?]) [] (by simp)
    exact (structs.append_nil).symm ▸ hskip

theorem naming_items (h : c.Naming items structs) :
    (outcome (declareTypeNames unit rest) c).2.Naming (items ++ rest.map fun item => (unit, item))
      (structs ++ (outcome (declareTypeNames unit rest) c).1) := by
  induction rest generalizing items structs c with
  | nil =>
    show c.Naming (items ++ []) (structs ++ [])
    simpa using h
  | cons item rest ih =>
    rw [declareTypeNames_cons]
    simpa using ih (naming_item h)

def nameAll (units : List (UnitRef × SourceUnit)) (c : Collector) : List DeclaredStruct × Collector :=
  ((outcome (units.mapM fun unit => declareTypeNames unit.1 unit.2.items) c).1.flatten,
    (outcome (units.mapM fun unit => declareTypeNames unit.1 unit.2.items) c).2)

theorem nameAll_cons {unit : UnitRef × SourceUnit} {rest : List (UnitRef × SourceUnit)} :
    nameAll (unit :: rest) c = ((outcome (declareTypeNames unit.1 unit.2.items) c).1 ++
      (nameAll rest (outcome (declareTypeNames unit.1 unit.2.items) c).2).1,
      (nameAll rest (outcome (declareTypeNames unit.1 unit.2.items) c).2).2) := by
  unfold nameAll
  rw [mapM_cons]
  rfl

theorem naming_all (h : c.Naming items structs) (units : List (UnitRef × SourceUnit)) :
    (nameAll units c).2.Naming (items ++ itemsOf units) (structs ++ (nameAll units c).1) := by
  induction units generalizing items structs c with
  | nil =>
    show c.Naming (items ++ []) (structs ++ [])
    simpa using h
  | cons unit rest ih =>
    rw [nameAll_cons]
    simpa [itemsOf] using ih (naming_items h)

/-! ## Names do not depend on the index -/

theorem nameItem_withIndex (index : ModuleIndex Ty) (unit : UnitRef) (item : Item) (c : Collector) :
    nameItem unit item (c.withIndex index) = ((nameItem unit item c).1, (nameItem unit item c).2.withIndex index) := by
  unfold nameItem
  have hclaim : ∀ name span, outcome (claimTypeName unit name span) (c.withIndex index) =
      ((outcome (claimTypeName unit name span) c).1, (outcome (claimTypeName unit name span) c).2.withIndex index) := by
    intro name span
    rcases outcome_claimTypeName unit name span c with ⟨h, hrun⟩ | ⟨_, h, hrun⟩ <;>
      rcases outcome_claimTypeName unit name span (c.withIndex index) with ⟨h', hrun'⟩ | ⟨_, h', hrun'⟩
    · rw [hrun, hrun']
      rfl
    · cases h.symm.trans h'
    · cases h.symm.trans h'
    · cases h.symm.trans h'
      rw [hrun, hrun']
      rfl
  cases item with
  | struct decl =>
    rw [declareTypeNames, declareStruct, outcome_bind, outcome_bind, outcome_bind, outcome_bind, hclaim]
    cases (outcome (claimTypeName unit decl.name decl.span) c).1 <;> rfl
  | typeAlias decl =>
    rw [declareTypeNames, declareAlias, outcome_bind, outcome_bind, outcome_bind, outcome_bind, hclaim]
    cases (outcome (claimTypeName unit decl.name decl.span) c).1 <;> rfl
  | function | global => rfl

theorem nameAll_withIndex (index : ModuleIndex Ty) (units : List (UnitRef × SourceUnit)) (c : Collector) :
    nameAll units (c.withIndex index) = ((nameAll units c).1, (nameAll units c).2.withIndex index) := by
  have hitems : ∀ (unit : UnitRef) (items : List Item) (c : Collector),
      outcome (declareTypeNames unit items) (c.withIndex index) = ((outcome (declareTypeNames unit items) c).1,
        (outcome (declareTypeNames unit items) c).2.withIndex index) := by
    intro unit items
    induction items with
    | nil => exact fun _ => rfl
    | cons item rest ih =>
      intro c
      rw [declareTypeNames_cons, declareTypeNames_cons, nameItem_withIndex, ih]
  induction units generalizing c with
  | nil => rfl
  | cons unit rest ih => rw [nameAll_cons, nameAll_cons, hitems, ih]

/-! ## Fields

Once all type names stand for something, the structs get their fields in order (`Collect.fillStructs_settled`). -/

variable {types : String → Option Ty} {struct : DeclaredStruct}

theorem modify_append {α : Type} {before after : List α} {a : α} {f : α → α} :
    (before ++ a :: after).modify before.length f = before ++ f a :: after := by
  induction before with
  | nil => rfl
  | cons b before ih => simpa using ih

theorem DeclaredStruct.mem_filled {field : FieldDef} (h : field ∈ (struct.filled types).fields) :
    ∃ decl ∈ struct.decl.fields, field = decl.field struct.unit.name types := by
  revert h
  refine List.foldlRecOn (motive := fun fields => field ∈ fields → _) _ _ (absurd · not_mem_nil) fun fields ih decl hd h => ?_
  dsimp only [FieldDecl.addTo] at h
  split at h
  · exact ih h
  · rcases mem_append.mp h with h | h
    · exact ih h
    · exact ⟨decl, hd, mem_singleton.mp h⟩

theorem DeclaredStruct.nodup_filled : ((struct.filled types).fields.map (·.name)).Nodup := by
  refine List.foldlRecOn (motive := fun fields : List FieldDef => (fields.map FieldDef.name).Nodup) _ _ nodup_nil
    fun fields ih decl _ => ?_
  dsimp only [FieldDecl.addTo]
  split
  · exact ih
  · rename_i hnew
    rw [map_append, nodup_append]
    exact ⟨ih, by simp, by simpa [FieldDecl.field] using hnew⟩

def withFields (types : String → Option Ty) (struct : DeclaredStruct) (c : Collector) : Collector :=
  { c with decls := { c.decls with structs := c.decls.structs.modify struct.id.index fun found =>
    { found with fields := (struct.filled types).fields } } }

/-- The fields of a struct all have types, and names of their own. -/
def DeclaredStruct.Exact (types : String → Option Ty) (struct : DeclaredStruct) : Prop :=
  (∀ decl ∈ struct.decl.fields, (decl.type.valueType? struct.unit.name types).isSome = true) ∧
    (struct.filled types).fields = struct.decl.fields.map fun decl => decl.field struct.unit.name types

theorem fillStruct_settled (hc : c.Settled types) :
    Noted (· = struct.unit.id) (outcome (fillStruct struct.unit struct.id struct.decl) c) ()
      (withFields types struct c) (struct.Exact types) := by
  refine ((addFields_settled hc []).bind (Q := True) fun errors => ?_).mono (fun _ h => h) fun h => h.1
  exact .pure trivial

theorem fillStructs_settled (hc : c.Settled types) {done rest : List DeclaredStruct}
    (hids : ∀ (i : Nat) (struct : DeclaredStruct), rest[i]? = some struct → struct.id = ⟨done.length + i⟩)
    (hstructs : c.decls.structs.toList = done.map (·.filled types) ++
      rest.map fun struct => ⟨struct.key, [], struct.decl.span⟩) :
    ∃ errors, rest.foldl (fun c struct => (outcome (fillStruct struct.unit struct.id struct.decl) c).2) c =
      ({ c with decls := { c.decls with structs := ((done ++ rest).map (·.filled types)).toArray } } : Collector).noting
        errors ∧
      (∀ e ∈ errors, (∃ struct ∈ rest, e.1 = struct.unit.id) ∧ e.2.isCyclic = false) ∧
      (errors = [] → ∀ struct ∈ rest, struct.Exact types) := by
  induction rest generalizing c done with
  | nil =>
    refine ⟨[], ?_, by simp, by simp⟩
    rw [map_nil, append_nil] at hstructs
    rw [append_nil, ← hstructs]
    rfl
  | cons struct rest ih =>
    obtain ⟨errors, hrun, herrors, hexact⟩ := fillStruct_settled hc
    have hid : struct.id = ⟨done.length⟩ := hids 0 struct rfl
    rw [foldl_cons, hrun]
    have hids' : ∀ (i : Nat) (other : DeclaredStruct), rest[i]? = some other →
        other.id = ⟨(done ++ [struct]).length + i⟩ := by
      intro i other ho
      rw [hids (i + 1) other ho, length_append, length_singleton, Nat.add_assoc, Nat.add_comm 1]
    have hstructs' : (withFields types struct c).decls.structs.toList = (done ++ [struct]).map (·.filled types) ++
        rest.map fun struct => ⟨struct.key, [], struct.decl.span⟩ := by
      show (c.decls.structs.modify _ _).toList = _
      have hlength : done.length = (done.map (·.filled types)).length := by rw [length_map]
      rw [Array.toList_modify, hstructs, hid, map_cons, hlength, modify_append, map_append, append_assoc]
      rfl
    obtain ⟨more, hrest, hmore, hexact'⟩ := ih (c := (withFields types struct c).noting errors)
      ⟨hc.known, hc.aliases⟩ hids' hstructs'
    refine ⟨errors ++ more, ?_, fun e he => ?_, fun hnil => ?_⟩
    · rw [hrest]
      simp [Collector.noting, withFields]
    · rcases mem_append.mp he with he | he
      · exact ⟨⟨struct, mem_cons_self, (herrors e he).1⟩, (herrors e he).2⟩
      · obtain ⟨⟨found, hf, hu⟩, hcyclic⟩ := hmore e he
        exact ⟨⟨found, .tail _ hf, hu⟩, hcyclic⟩
    · obtain ⟨hnil, hnil'⟩ := append_eq_nil_iff.mp hnil
      exact forall_mem_cons.mpr ⟨hexact hnil, hexact' hnil'⟩

end Collect

/-! ## Containment

The check that no struct holds itself notes errors and changes nothing else (`Collect.checkContainments_apply`). -/

namespace Declarations

variable {decls decls' : Declarations} {structs : List (UnitRef × StructId)} {reported : List StructId}

theorem struct?_congr {κ κ' : Type} {decls : Declarations κ} {decls' : Declarations κ'} (h : decls'.structs = decls.structs) :
    decls'.struct? = decls.struct? := by
  unfold struct?
  rw [h]

theorem reachable_congr {κ κ' : Type} {decls : Declarations κ} {decls' : Declarations κ'}
    (h : decls'.structs = decls.structs) : decls'.reachable = decls.reachable := by
  have hheld : decls'.heldBy = decls.heldBy := by
    unfold heldBy
    rw [struct?_congr h]
  have hclose : ∀ rounds reached, decls'.closeHeld rounds reached = decls.closeHeld rounds reached := by
    intro rounds
    induction rounds with
    | zero => exact fun _ => rfl
    | succ rounds ih =>
      intro reached
      rw [closeHeld, closeHeld, hheld, ih]
  funext id
  unfold reachable
  rw [hclose, h, hheld]

/-- The errors of structs that hold themselves: one for each struct that is not in a cycle reported
before. -/
def cycleErrors (decls : Declarations) : List (UnitRef × StructId) → List StructId → List (UnitId × TypeError)
  | [], _ => []
  | (unit, id) :: rest, reported =>
    if id ∈ reported then decls.cycleErrors rest reported
    else if id ∈ decls.reachable id then
      ((decls.struct? id).map fun struct => (unit.id, .cyclic struct.name struct.span)).toList ++
        decls.cycleErrors rest (reported ++
          if (decls.struct? id).isSome then
            (decls.reachable id).filter fun member => (decls.reachable member).contains id
          else [])
    else decls.cycleErrors rest reported

theorem mem_cycleErrors
    {e : UnitId × TypeError} (h : e ∈ decls.cycleErrors structs reported) : ∃ struct ∈ structs, e.1 = struct.1.id := by
  induction structs generalizing reported with
  | nil => cases h
  | cons struct rest ih =>
    obtain ⟨unit, id⟩ := struct
    have hrest : ∀ {reported}, e ∈ decls.cycleErrors rest reported → ∃ struct ∈ (unit, id) :: rest, e.1 = struct.1.id := by
      intro reported h
      obtain ⟨found, hf, he⟩ := ih h
      exact ⟨found, .tail _ hf, he⟩
    rw [cycleErrors] at h
    split at h
    · exact hrest h
    · split at h
      · rcases mem_append.mp h with h | h
        · obtain ⟨struct, -, rfl⟩ := Option.map_eq_some_iff.mp (Option.mem_toList.mp h)
          exact ⟨_, mem_cons_self, rfl⟩
        · exact hrest h
      · exact hrest h

theorem cycleErrors_congr (h : decls'.structs = decls.structs) :
    decls'.cycleErrors structs reported = decls.cycleErrors structs reported := by
  induction structs generalizing reported with
  | nil => rfl
  | cons struct rest ih => rw [cycleErrors, cycleErrors, reachable_congr h, struct?_congr h, ih, ih]

end Declarations

namespace Collect

theorem checkContainments_apply (structs : List (UnitRef × StructId)) (reported : List StructId) (c : Collector) :
    outcome (checkContainments structs reported) c = ((), c.noting (c.decls.cycleErrors structs reported)) := by
  induction structs generalizing reported c with
  | nil => rfl
  | cons struct rest ih =>
    obtain ⟨unit, id⟩ := struct
    rw [checkContainments, Declarations.cycleErrors]
    simp only [contains_iff_mem]
    by_cases hreported : id ∈ reported
    · rw [if_pos hreported, if_pos hreported]
      exact ih reported c
    · rw [if_neg hreported, if_neg hreported, outcome_bind]
      have hget : ∀ f : Collector → Collect (List StructId), outcome (get >>= f) c = outcome (f c) c := fun _ => rfl
      rw [checkContainment, hget]
      simp only [contains_iff_mem]
      by_cases hcyclic : id ∈ c.decls.reachable id
      · rw [if_pos hcyclic, if_pos hcyclic]
        cases hstruct : c.decls.struct? id with
        | none => exact ih (reported ++ []) c
        | some struct =>
          have hreport : (outcome (report unit.id (.cyclic struct.name struct.span)) c).2 =
              c.noting [(unit.id, .cyclic struct.name struct.span)] := by
            rw [outcome, report_apply]
          show outcome (checkContainments rest _) (outcome (report unit.id _) c).2 = _
          have hstructs : (c.noting [(unit.id, .cyclic struct.name struct.span)]).decls.structs = c.decls.structs := rfl
          have hsame : ∀ reported, (c.noting [(unit.id, .cyclic struct.name struct.span)]).decls.cycleErrors rest
              reported = c.decls.cycleErrors rest reported :=
            fun _ => Declarations.cycleErrors_congr hstructs
          rw [hreport, ih, hsame, Collector.noting_noting]
          rfl
      · rw [if_neg hcyclic, if_neg hcyclic]
        exact (congrArg (outcome · c) (congrArg (checkContainments rest) reported.append_nil)).trans (ih reported c)

end Collect

end SsaCompiler
