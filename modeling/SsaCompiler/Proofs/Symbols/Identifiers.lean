import Mathlib.Logic.Relation
import SsaCompiler.Proofs.Symbols.Stack

/-!
# Identifiers of bindings

The items of a module are declared in its index; each unit is then resolved with a table of its own,
and the index takes over the locals of the table. `ModuleRun` is a module on this way, together with a
record of the bindings that calls have made, and `ModuleRun.Step` is one call. Nothing is assumed about
the order of calls, except that a unit is resolved once.

Items are numbered through the module and locals through their unit. After any calls, no two bindings
share an identifier, and the answers of the index are those that the record gives
(`ModuleRun.identifies`).
-/

namespace SsaCompiler

open List
open List.Perm (append_left)

variable {τ : Type}

/-- A module that is being declared and resolved, with a record of what was made. -/
structure ModuleRun (τ : Type) where
  index : ModuleIndex τ
  tables : List (SymbolTable τ)
  begun : List UnitId
  declared : List (Binding τ)
  absorbed : List (Binding τ)
  made : List (Binding τ)

/-- The bindings that a call makes, by its answer and the table it leaves. -/
def SymbolTable.made (table : SymbolTable τ) : ScopeCall τ → ScopeAnswer τ → List (Binding τ)
  | .declare name type storage span, .declared (.ok id) =>
    let unitName := (table.index.unitName table.unit).toOption.getD ""
    let owner := (table.tree.owner table.current).toOption.join
    [⟨id, table.unit, name, Name.path (unitName :: owner.toList ++ [name]), type, storage, span⟩]
  | _, _ => []

namespace ModuleRun

def start : ModuleRun τ := ⟨.empty, [], [], [], [], []⟩

/-- Declares an item; the index is then what the call leaves, also if it is refused. -/
def declareItem (run : ModuleRun τ) (unit : UnitId) (name : String) (type : τ) (storage : Storage)
    (span : FileSpan) : Except Fault (Except SymbolError BindingId × ModuleRun τ) := do
  let unitName ← run.index.unitName unit
  let (result, index) ← run.index.declareItem unit name type storage span
  let items : List (Binding τ) := result.toOption.toList.map fun id =>
    ⟨id, unit, name, Name.path [unitName, name], type, storage, span⟩
  return (result, { run with index, declared := run.declared ++ items, made := run.made ++ items })

inductive Step : ModuleRun τ → ModuleRun τ → Prop
  | addUnit (run : ModuleRun τ) (name : String) : Step run { run with index := (run.index.addUnit name).2 }
  | declareItem {run run' : ModuleRun τ} {unit : UnitId} {name : String} {type : τ} {storage : Storage}
      {span : FileSpan} {result : Except SymbolError BindingId}
      (called : run.declareItem unit name type storage span = .ok (result, run')) : Step run run'
  | resolve {run : ModuleRun τ} {unit : UnitId} {table : SymbolTable τ} (once : unit ∉ run.begun)
      (made : SymbolTable.forUnit run.index unit = .ok table) :
      Step run { run with tables := table :: run.tables, begun := unit :: run.begun }
  | call {run : ModuleRun τ} {before after : List (SymbolTable τ)} {table table' : SymbolTable τ}
      {c : ScopeCall τ} {answer : ScopeAnswer τ} (found : run.tables = before ++ table :: after)
      (called : table.call c = .ok (answer, table')) :
      Step run { run with tables := before ++ table' :: after, made := run.made ++ table'.made c answer }
  /-- The table of a unit ends, and the index takes over its locals. -/
  | absorb {run : ModuleRun τ} {before after : List (SymbolTable τ)} {table : SymbolTable τ}
      (found : run.tables = before ++ table :: after) :
      Step run { run with
        index := run.index.absorb table.locals.toList
        tables := before ++ after
        absorbed := run.absorbed ++ table.locals.toList }

def Runs : ModuleRun τ → ModuleRun τ → Prop := Relation.ReflTransGen Step

end ModuleRun

/-! ## Calls of a table -/

namespace SymbolTable

variable {table table' : SymbolTable τ}

theorem declare_ok {name : String} {type : τ} {storage : Storage} {span : FileSpan} {id : BindingId}
    (h : table.declare name type storage span = (.ok (.ok id, table') : Except Fault _)) :
    id = .local table.unit table.locals.size ∧ table'.unit = table.unit ∧ table'.locals.toList = table.locals.toList ++
        table'.made (.declare name type storage span) (.declared (.ok id)) := by
  obtain ⟨rfl, tree, unitName, owner, -, hunit, howner, rfl⟩ := declare_eq_ok.mp h
  simp [made, hunit, howner, Except.toOption]

/-- A call keeps the unit of the table; the bindings it makes stand behind the other locals, under the
next number of the unit. -/
theorem call_ok {c : ScopeCall τ} {answer : ScopeAnswer τ} (h : table.call c = .ok (answer, table')) :
    table'.unit = table.unit ∧ table'.locals.toList = table.locals.toList ++ table'.made c answer ∧
      (table'.made c answer).map (·.id) =
        (List.range' table.locals.size (table'.made c answer).length).map (.local table.unit) := by
  cases c with
  | enter kind =>
    cases h
    exact ⟨rfl, by simp [made, enter, enterOwned], rfl⟩
  | enterFunction name =>
    cases h
    exact ⟨rfl, by simp [made, enterFunction, enterOwned], rfl⟩
  | exit =>
    obtain ⟨outer, hexit, h⟩ := bind_eq_ok.mp h
    obtain ⟨scope, -, hexit⟩ := bind_eq_ok.mp hexit
    split at hexit <;> cases hexit
    cases h
    exact ⟨rfl, by simp [made], rfl⟩
  | declare name type storage span =>
    obtain ⟨⟨result, _⟩, hdeclare, h⟩ := bind_eq_ok.mp h
    cases h
    cases result with
    | error error =>
      obtain ⟨_, _, -, -, -, rfl⟩ := declare_eq_error.mp hdeclare
      exact ⟨rfl, by simp [made], rfl⟩
    | ok id =>
      obtain ⟨hid, hunit, hlocals⟩ := declare_ok hdeclare
      exact ⟨hunit, hlocals, by simp [made, hid]⟩
  | resolve name span =>
    obtain ⟨result, -, h⟩ := bind_eq_ok.mp h
    cases h
    exact ⟨rfl, by simp [made], rfl⟩
  | loopDepth =>
    obtain ⟨depth, -, h⟩ := bind_eq_ok.mp h
    cases h
    exact ⟨rfl, by simp [made], rfl⟩

theorem forUnit_locals {index : ModuleIndex τ} {unit : UnitId} (h : forUnit index unit = .ok table) :
    table.unit = unit ∧ table.locals = #[] := by
  obtain ⟨tree, -, h⟩ := bind_eq_ok.mp h
  cases h
  exact ⟨rfl, rfl⟩

end SymbolTable

/-! ## What calls keep -/

namespace ModuleRun

variable {run run' : ModuleRun τ}

theorem declareItem_ok {unit : UnitId} {name : String} {type : τ} {storage : Storage} {span : FileSpan}
    {result : Except SymbolError BindingId} (h : run.declareItem unit name type storage span = .ok (result, run')) :
    (∃ error, result = .error error ∧ run' = run) ∨ ∃ item, result = .ok item.id ∧
      item.id = .item run.index.items.size ∧ run.index.declareItem unit name type storage span =
        (.ok (.ok item.id, run.index.withItem item) : Except Fault _) ∧ run' = { run with
        index := run.index.withItem item, declared := run.declared ++ [item], made := run.made ++ [item] } := by
  obtain ⟨unitName, hunit, h⟩ := bind_eq_ok.mp h
  obtain ⟨⟨declared, index⟩, hdeclare, h⟩ := bind_eq_ok.mp h
  cases h
  obtain ⟨unitName', hunit', hcases⟩ := ModuleIndex.declareItem_eq_ok.mp hdeclare
  obtain rfl := Except.ok.inj (hunit.symm.trans hunit')
  rcases hcases with ⟨first, -, rfl, rfl⟩ | ⟨-, rfl, rfl⟩
  · exact .inl ⟨_, rfl, by simp [Except.toOption]⟩
  · exact .inr ⟨_, rfl, rfl, hdeclare, rfl⟩

/-- The index and the tables hold what was made, and nothing else, each under a number of its own. -/
structure Numbered (run : ModuleRun τ) : Prop where
  built : run.index.Built
  items : run.index.items.toList = run.declared
  locals : ∀ qualified, run.index.localsNamed qualified = run.absorbed.filter (·.qualified = qualified)
  kept : (run.declared ++ run.absorbed ++ run.tables.flatMap (·.locals.toList)).Perm run.made
  once : (run.tables.map (·.unit)).Nodup
  begun : ∀ table ∈ run.tables, table.unit ∈ run.begun
  itemIds : ∀ binding ∈ run.made, ∀ k, binding.id = .item k → k < run.declared.length
  localIds : ∀ binding ∈ run.made, ∀ unit i, binding.id = .local unit i →
    unit ∈ run.begun ∧ ∀ table ∈ run.tables, table.unit = unit → i < table.locals.size
  distinct : (run.made.map (·.id)).Nodup

theorem numbered_start : (start : ModuleRun τ).Numbered where
  built := .empty
  items := rfl
  locals _ := rfl
  kept := .nil
  once := .nil
  begun := by simp [start]
  itemIds := by simp [start]
  localIds := by simp [start]
  distinct := .nil

namespace Numbered

variable (h : run.Numbered) {table : SymbolTable τ}
include h

theorem addUnit {name : String} : Numbered { run with index := (run.index.addUnit name).2 } :=
  { h with built := h.built.addUnit name }

theorem withItem {item : Binding τ} (hid : item.id = .item run.index.items.size)
    (hb : (run.index.withItem item).Built) : Numbered { run with
      index := run.index.withItem item, declared := run.declared ++ [item], made := run.made ++ [item] } where
  built := hb
  items := by
    show (run.index.items.push item).toList = _
    rw [Array.toList_push, h.items]
  locals := h.locals
  kept := by
    have hp := h.kept.append_right [item]
    refine Perm.trans ?_ hp
    rw [append_assoc, append_assoc, append_assoc, append_assoc]
    refine append_left _ ?_
    exact perm_append_comm.trans (by rw [append_assoc])
  once := h.once
  begun := h.begun
  itemIds binding hm k hk := by
    rw [length_append]
    rcases mem_append.mp hm with hm | hm
    · exact Nat.lt_add_right _ (h.itemIds binding hm k hk)
    · obtain rfl := mem_singleton.mp hm
      rw [hid] at hk
      obtain rfl := BindingId.item.inj hk
      rw [← h.items]
      exact Nat.lt_succ_self _
  localIds binding hm unit i hi := by
    rcases mem_append.mp hm with hm | hm
    · exact h.localIds binding hm unit i hi
    · obtain rfl := mem_singleton.mp hm
      rw [hid] at hi
      cases hi
  distinct := by
    rw [map_append, nodup_append]
    refine ⟨h.distinct, by simp, ?_⟩
    rintro a ha b hb rfl
    obtain rfl : a = item.id := by simpa using hb
    obtain ⟨binding, hm, he⟩ := mem_map.mp ha
    have hlt := h.itemIds binding hm _ (he.trans hid)
    rw [← h.items] at hlt
    exact Nat.lt_irrefl _ hlt

theorem resolve {unit : UnitId} (honce : unit ∉ run.begun) (hmade : SymbolTable.forUnit run.index unit = .ok table) :
    Numbered { run with tables := table :: run.tables, begun := unit :: run.begun } := by
  obtain ⟨rfl, hempty⟩ := SymbolTable.forUnit_locals hmade
  exact { h with
    kept := by simpa [hempty] using h.kept
    once := by
      rw [map_cons, nodup_cons]
      refine ⟨fun hm => honce ?_, h.once⟩
      obtain ⟨other, hother, he⟩ := mem_map.mp hm
      exact he ▸ h.begun other hother
    begun := by
      intro other hm
      rcases mem_cons.mp hm with rfl | hm
      · exact .head _
      · exact .tail _ (h.begun other hm)
    localIds := by
      intro binding hm unit i hi
      obtain ⟨hbegun, hlt⟩ := h.localIds binding hm unit i hi
      refine ⟨mem_cons_of_mem _ hbegun, fun other ho hu => ?_⟩
      rcases mem_cons.mp ho with rfl | ho
      · exact absurd (hu ▸ hbegun) honce
      · exact hlt other ho hu }

theorem call {before after : List (SymbolTable τ)} {table' : SymbolTable τ}
    {c : ScopeCall τ} {answer : ScopeAnswer τ} (hfound : run.tables = before ++ table :: after)
    (hcall : table.call c = .ok (answer, table')) :
    Numbered { run with tables := before ++ table' :: after, made := run.made ++ table'.made c answer } := by
  obtain ⟨hunit, hlocals, hids⟩ := SymbolTable.call_ok hcall
  generalize table'.made c answer = new at hlocals hids ⊢
  have hsize : table'.locals.size = table.locals.size + new.length := by
    rw [← Array.length_toList, hlocals, length_append, Array.length_toList]
  have hnew : ∀ binding ∈ new, ∃ i, binding.id = .local table.unit i ∧ table.locals.size ≤ i ∧
      i < table'.locals.size := by
    intro binding hm
    have hid : binding.id ∈ new.map (·.id) := mem_map_of_mem hm
    rw [hids] at hid
    obtain ⟨i, hi, he⟩ := mem_map.mp hid
    rw [mem_range'_1] at hi
    exact ⟨i, he.symm, hi.1, hsize ▸ hi.2⟩
  have hunits : (before ++ table' :: after).map (·.unit) = run.tables.map (·.unit) := by
    rw [hfound, map_append, map_append, map_cons, map_cons, hunit]
  have hmem : table ∈ run.tables := by simp [hfound]
  have hbegun := h.begun table hmem
  exact { h with
    kept := by
      refine Perm.trans ?_ (h.kept.append_right new)
      rw [hfound]
      simp only [flatMap_append, flatMap_cons, hlocals, append_assoc]
      refine append_left _ (append_left _ (append_left _ (append_left _ ?_)))
      exact perm_append_comm
    once := hunits ▸ h.once
    begun := by
      intro other ho
      have hu : other.unit ∈ run.tables.map (·.unit) := hunits ▸ mem_map_of_mem ho
      obtain ⟨old, hold, he⟩ := mem_map.mp hu
      exact he ▸ h.begun old hold
    itemIds := by
      intro binding hm k hk
      rcases mem_append.mp hm with hm | hm
      · exact h.itemIds binding hm k hk
      · obtain ⟨i, hi, -⟩ := hnew binding hm
        rw [hi] at hk
        cases hk
    localIds := by
      -- The other tables are of other units, and the one that was called has grown.
      have htables : ∀ unit i, (∀ other ∈ run.tables, other.unit = unit → i < other.locals.size) →
          ∀ other ∈ before ++ table' :: after, other.unit = unit → i < other.locals.size := by
        intro unit i hlt other ho hu
        rcases mem_append.mp ho with ho | ho
        · exact hlt other (by simp [hfound, ho]) hu
        · rcases mem_cons.mp ho with rfl | ho
          · have := hlt table hmem (hunit ▸ hu)
            omega
          · exact hlt other (by simp [hfound, ho]) hu
      intro binding hm unit i hi
      rcases mem_append.mp hm with hm | hm
      · obtain ⟨hb, hlt⟩ := h.localIds binding hm unit i hi
        exact ⟨hb, htables unit i hlt⟩
      · obtain ⟨j, hj, -, hlt⟩ := hnew binding hm
        rw [hj] at hi
        cases hi
        refine ⟨hbegun, fun other ho hu => ?_⟩
        obtain rfl : other = table' := by
          have hnodup : ((before ++ table' :: after).map (·.unit)).Nodup := hunits ▸ h.once
          exact inj_on_of_nodup_map hnodup ho (by simp) (hu.trans hunit.symm)
        exact hlt
    distinct := by
      rw [map_append, nodup_append]
      refine ⟨h.distinct, ?_, ?_⟩
      · rw [hids]
        exact Nodup.map (fun a b he => (BindingId.local.inj he).2) nodup_range'
      · rintro a ha b hb rfl
        obtain ⟨old, hold, hid⟩ := mem_map.mp ha
        obtain ⟨binding, hm, hid'⟩ := mem_map.mp hb
        obtain ⟨i, hi, hle, -⟩ := hnew binding hm
        have hlt := (h.localIds old hold table.unit i (hid.trans (hid'.symm.trans hi))).2 table hmem rfl
        omega }

theorem absorb {before after : List (SymbolTable τ)} (hfound : run.tables = before ++ table :: after) :
    Numbered { run with
      index := run.index.absorb table.locals.toList
      tables := before ++ after
      absorbed := run.absorbed ++ table.locals.toList } := by
  have hsub : (before ++ after).Sublist run.tables := by
    rw [hfound]
    exact (List.Sublist.refl _).append (sublist_cons_self ..)
  exact { h with
    built := h.built.absorb _
    items := by rw [ModuleIndex.absorb_eq, h.items]
    locals := fun qualified => by rw [ModuleIndex.localsNamed_absorb, h.locals, filter_append]
    kept := by
      refine Perm.trans ?_ h.kept
      rw [hfound]
      simp only [flatMap_append, append_assoc]
      refine append_left _ (append_left _ ?_)
      exact (perm_append_comm_assoc ..)
    once := h.once.sublist (hsub.map _)
    begun := fun other ho => h.begun other (hsub.subset ho)
    localIds := by
      intro binding hm unit i hi
      obtain ⟨hb, hlt⟩ := h.localIds binding hm unit i hi
      exact ⟨hb, fun other ho => hlt other (hsub.subset ho)⟩ }

theorem step (hs : Step run run') : run'.Numbered := by
  cases hs with
  | addUnit name => exact h.addUnit
  | declareItem called =>
    rcases declareItem_ok called with ⟨-, -, rfl⟩ | ⟨item, -, hid, hdeclare, rfl⟩
    · exact h
    · exact h.withItem hid (h.built.declareItem hdeclare)
  | resolve once made => exact h.resolve once made
  | call found called => exact h.call found called
  | absorb found => exact h.absorb found

theorem runs (hr : Runs run run') : run'.Numbered := by
  induction hr with
  | refl => exact h
  | tail _ hs ih => exact ih.step hs

end Numbered

theorem Step.declared_grows (h : Step run run') : run.declared <+: run'.declared := by
  cases h with
  | declareItem called =>
    rcases declareItem_ok called with ⟨-, -, rfl⟩ | ⟨item, -, -, -, rfl⟩
    · exact prefix_rfl
    · exact prefix_append ..
  | addUnit | resolve | call | absorb => exact prefix_rfl

theorem Runs.declared_grows (h : Runs run run') : run.declared <+: run'.declared := by
  induction h with
  | refl => exact prefix_rfl
  | tail _ hs ih => exact ih.trans hs.declared_grows

end ModuleRun

/-! ## Answers of the index -/

namespace ModuleIndex

variable {index : ModuleIndex τ}

theorem Sound.lookup?_qualified (h : index.Sound) {item : Binding τ} (hi : item ∈ index.items.toList) :
    index.lookup? item.qualified = some item := by
  unfold lookup?
  rw [← Array.find?_toList]
  cases hf : index.items.toList.find? (·.qualified = item.qualified) with
  | none =>
    rw [find?_eq_none] at hf
    exact absurd (decide_eq_true rfl) (hf item hi)
  | some found =>
    have hq : found.qualified = item.qualified := by simpa using find?_some hf
    rw [inj_on_of_nodup_map h.distinct (mem_of_find?_eq_some hf) hi hq]

theorem filter_units_perm {items : List (Binding τ)} {count : Nat} :
    ((List.range count).flatMap fun u => items.filter (·.unit = ⟨u⟩)).Perm (items.filter (·.unit.index < count)) := by
  induction count with
  | zero => simp
  | succ count ih =>
    rw [range_succ, flatMap_append, flatMap_singleton]
    refine (ih.append_right _).trans ?_
    have hsplit := filter_append_perm (·.unit.index < count) (items.filter (·.unit.index < count + 1))
    rw [filter_filter, filter_filter] at hsplit
    refine Perm.trans (.of_eq ?_) hsplit
    congr 1 <;> refine filter_congr fun item _ => ?_
    · simp only [← Bool.decide_and, decide_eq_decide]
      omega
    · have hunit : item.unit = ⟨count⟩ ↔ item.unit.index = count :=
        ⟨congrArg UnitId.index, fun he => congrArg UnitId.mk he⟩
      simp only [← Bool.decide_and, ← decide_not, decide_eq_decide, hunit]
      omega

theorem Sound.unitItems_perm (h : index.Sound) :
    ((List.range index.units.size).flatMap fun u => index.unitItems ⟨u⟩).Perm index.items.toList := by
  refine filter_units_perm.trans (.of_eq ?_)
  rw [filter_eq_self]
  intro item hi
  obtain ⟨unitName, hunit, -⟩ := h.qualified item hi
  unfold ModuleIndex.unitName at hunit
  split at hunit <;> cases hunit
  rename_i hname
  exact decide_eq_true (lt_of_getElem? hname)

end ModuleIndex

/-! ## The identifiers of a module -/

/-- After any calls, no two bindings that were ever made share an identifier. The item with a number is
the item that was declared in that place, for good, and is found under its qualified name; a failed
declaration changes nothing. The items of the units are those of the module, each once, in the order of
their declaration, and with names of their own, so that each unit can be resolved. The locals of a
qualified name are those that were taken over with that name, in order. -/
theorem ModuleRun.identifies {run : ModuleRun τ} (h : Runs start run) :
    (run.made.map (·.id)).Nodup ∧
    (run.declared ++ run.absorbed ++ run.tables.flatMap (·.locals.toList)).Perm run.made ∧
    (∀ k, run.index.item? (.item k) = run.declared[k]?) ∧
    (∀ later, Runs run later → ∀ id item, run.index.item? id = some item → later.index.item? id = some item) ∧
    (∀ item ∈ run.declared, run.index.lookup? item.qualified = some item) ∧
    (∀ unit name type storage span error failed,
      run.declareItem unit name type storage span = .ok (.error error, failed) → failed = run) ∧
    ((List.range run.index.units.size).flatMap fun u => run.index.unitItems ⟨u⟩).Perm run.declared ∧
    (∀ unit, (run.index.unitItems unit).Sublist run.declared ∧
      ((run.index.unitItems unit).map (·.name)).Nodup) ∧
    (∀ u < run.index.units.size, ∃ table, SymbolTable.forUnit run.index ⟨u⟩ = .ok table) ∧
    (∀ qualified, run.index.localsNamed qualified = run.absorbed.filter (·.qualified = qualified)) := by
  have hn := numbered_start.runs h
  have hsound := hn.built.sound
  have hitem : ∀ {run : ModuleRun τ}, run.Numbered → ∀ k, run.index.item? (.item k) = run.declared[k]? := by
    intro run hn k
    rw [← hn.items, Array.getElem?_toList]
    rfl
  refine ⟨hn.distinct, hn.kept, hitem hn, ?_, ?_, ?_, hn.items ▸ hsound.unitItems_perm, ?_, ?_, hn.locals⟩
  · intro later hlater id item hid
    cases id with
    | «local» unit i => cases hid
    | item k =>
      rw [hitem hn] at hid
      rw [hitem (hn.runs hlater)]
      exact getElem?_of_isPrefix hlater.declared_grows hid
  · exact hn.items ▸ fun item hi => hsound.lookup?_qualified hi
  · intro unit name type storage span error failed hfail
    rcases declareItem_ok hfail with ⟨-, -, rfl⟩ | ⟨item, hresult, -⟩
    · rfl
    · cases hresult
  · exact fun unit => ⟨hn.items ▸ List.filter_sublist, hsound.nodup_unitItems⟩
  · intro u hu
    obtain ⟨table, htable, -⟩ := SymbolTable.forUnit_represents hsound (Array.getElem?_eq_getElem hu)
    exact ⟨table, htable⟩

/-- Two units of one name: the second may not declare `x` again, and the locals `x` of both are taken
over in the order in which the units end. -/
theorem ModuleRun.identifies_twins : ∃ run : ModuleRun Unit, Runs start run ∧
    run.made.map (·.id) = [.item 0, .item 1, .local ⟨1⟩ 0, .local ⟨0⟩ 0] ∧ (run.made.map (·.id)).Nodup ∧
    run.index.items.toList.map (·.qualified) = ["main::x", "main::y"] ∧
    (run.index.localsNamed "main::x").map (·.id) = [.local ⟨0⟩ 0, .local ⟨1⟩ 0] := by
  have h := Relation.ReflTransGen.single (Step.addUnit (start : ModuleRun Unit) "main")
  replace h := h.tail (.addUnit _ "main")
  replace h := h.tail (.declareItem
    (show declareItem _ ⟨0⟩ "x" () .global (.ofOffsets 0 0 1) = .ok (.ok (.item 0), _) from rfl))
  replace h := h.tail (.declareItem
    (show declareItem _ ⟨1⟩ "y" () .function (.ofOffsets 0 4 5) = .ok (.ok (.item 1), _) from rfl))
  replace h := h.tail (.resolve List.not_mem_nil (show SymbolTable.forUnit _ ⟨0⟩ = .ok _ from rfl))
  replace h := h.tail (.resolve (by decide) (show SymbolTable.forUnit _ ⟨1⟩ = .ok _ from rfl))
  replace h := h.tail (.call (show _ = [] ++ _ :: [_] from rfl)
    (show SymbolTable.call _ (.declare "x" () .local (.ofOffsets 0 6 7)) = .ok (_, _) from rfl))
  replace h := h.tail (.call (show _ = [_] ++ _ :: [] from rfl)
    (show SymbolTable.call _ (.enter .block) = .ok (_, _) from rfl))
  replace h := h.tail (.call (show _ = [_] ++ _ :: [] from rfl)
    (show SymbolTable.call _ (.declare "x" () .local (.ofOffsets 0 8 9)) = .ok (_, _) from rfl))
  replace h := h.tail (.absorb (show _ = [_] ++ _ :: [] from rfl))
  replace h := h.tail (.absorb (show _ = [] ++ _ :: [] from rfl))
  exact ⟨_, h, rfl, (identifies h).1, rfl, rfl⟩

end SsaCompiler
