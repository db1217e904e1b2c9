import Mathlib.Data.List.Nodup
import SsaCompiler.ModuleIndex
import SsaCompiler.Proofs.Steps
import SsaCompiler.Proofs.Table

/-!
# The items of an index

An index is made by adding units, declaring items and absorbing locals (`ModuleIndex.Built`). Then an
item stands at the position that its identifier names, is qualified by the name of its unit, and
shares its qualified name with no other item (`ModuleIndex.Built.sound`).
-/

namespace SsaCompiler

open List

namespace ModuleIndex

variable {τ : Type} {index index' : ModuleIndex τ} {unitName : String} {item : Binding τ} {unit : UnitId}
variable {name : String}

/-- An index is made from the empty one. -/
inductive Built : ModuleIndex τ → Prop
  | empty : Built .empty
  | addUnit {index : ModuleIndex τ} (before : Built index) (name : String) : Built (index.addUnit name).2
  | declareItem {index index' : ModuleIndex τ} {unit : UnitId} {name : String} {type : τ} {storage : Storage}
      {span : FileSpan} {result : Except SymbolError BindingId} (before : Built index)
      (declared : index.declareItem unit name type storage span = (.ok (result, index') : Except Fault _)) :
      Built index'
  | absorb {index : ModuleIndex τ} (before : Built index) (locals : List (Binding τ)) :
      Built (index.absorb locals)

/-- The items of an index stand under their identifiers and their names. -/
structure Sound (index : ModuleIndex τ) : Prop where
  ids : ∀ {i : Nat} {item : Binding τ}, index.items[i]? = some item → item.id = .item i
  qualified : ∀ item ∈ index.items.toList, ∃ unitName,
    index.unitName item.unit = .ok unitName ∧ item.qualified = Name.path [unitName, item.name]
  distinct : (index.items.toList.map (·.qualified)).Nodup

def withItem (index : ModuleIndex τ) (item : Binding τ) : ModuleIndex τ :=
  { index with items := index.items.push item }

theorem Sound.withItem (h : index.Sound) (hid : item.id = .item index.items.size)
    (hu : index.unitName item.unit = .ok unitName) (hq : item.qualified = Name.path [unitName, item.name])
    (hn : index.lookup? item.qualified = none) : (index.withItem item).Sound where
  ids {i found} hf := by
    have hf : (index.items.push item)[i]? = some found := hf
    rw [Array.getElem?_push] at hf
    split at hf
    · rename_i hi
      cases hf
      rw [hid, hi]
    · exact h.ids hf
  qualified found hf := by
    have hf : found ∈ (index.items.push item).toList := hf
    rw [Array.toList_push, mem_append, mem_singleton] at hf
    rcases hf with hf | rfl
    · exact h.qualified found hf
    · exact ⟨unitName, hu, hq⟩
  distinct := by
    show ((index.items.push item).toList.map (·.qualified)).Nodup
    rw [Array.toList_push, map_append, nodup_append]
    refine ⟨h.distinct, by simp, ?_⟩
    rintro a ha b hb rfl
    obtain rfl : a = item.qualified := by simpa using hb
    obtain ⟨found, hf, he⟩ := mem_map.mp ha
    unfold lookup? at hn
    rw [Array.find?_eq_none] at hn
    exact hn found (Array.mem_toList_iff.mp hf) (by simpa using he)

/-- An item is entered if its qualified name is free; otherwise the index stays as it is. -/
theorem declareItem_eq_ok {type : τ} {storage : Storage} {span : FileSpan} {result : Except SymbolError BindingId} :
    index.declareItem unit name type storage span = (.ok (result, index') : Except Fault _) ↔
      ∃ unitName, index.unitName unit = .ok unitName ∧
        ((∃ first, index.lookup? (Name.path [unitName, name]) = some first ∧
            result = .error (.duplicate name span first.span) ∧ index' = index) ∨
          index.lookup? (Name.path [unitName, name]) = none ∧ result = .ok (.item index.items.size) ∧ index' =
            index.withItem ⟨.item index.items.size, unit, name, Name.path [unitName, name], type, storage, span⟩) := by
  simp only [declareItem, Names.intern, Names.text, pure_bind, bind_eq_ok]
  refine exists_congr fun unitName => and_congr_right fun _ => ?_
  cases index.lookup? (Name.path [unitName, name]) with
  | some first => simp [pure, Except.pure, eq_comm]
  | none => simp [pure, Except.pure, eq_comm, withItem]

theorem unitName_addUnit (h : index.unitName unit = .ok unitName) :
    (index.addUnit name).2.unitName unit = .ok unitName := by
  unfold ModuleIndex.unitName at h ⊢
  split at h <;> cases h
  rename_i hname
  obtain ⟨hlt, hname⟩ := Array.getElem?_eq_some_iff.mp hname
  simp only [addUnit, Array.getElem?_push_lt hlt, hname]

/-- Absorbed locals stand behind those of their names; nothing else changes. -/
theorem absorb_eq {locals : List (Binding τ)} : index.absorb locals = { index with
    locals := (index.absorb locals).locals } := by
  induction locals generalizing index with
  | nil => rfl
  | cons binding rest ih => exact ih.trans rfl

theorem localsNamed_absorb {locals : List (Binding τ)} {qualified : String} :
    (index.absorb locals).localsNamed qualified =
      index.localsNamed qualified ++ locals.filter (·.qualified = qualified) := by
  induction locals generalizing index with
  | nil => simp [absorb]
  | cons binding rest ih =>
    refine ih.trans ?_
    have hstep : (index.addLocal binding).localsNamed qualified =
        index.localsNamed qualified ++ [binding].filter (·.qualified = qualified) := by
      by_cases hq : qualified = binding.qualified
      · subst hq
        simp [localsNamed, addLocal, Table.get?_insert_self]
      · simp [localsNamed, addLocal, Table.get?_insert_of_ne _ hq, Ne.symm hq]
    rw [hstep, append_assoc, ← filter_append, singleton_append]

theorem Built.sound (h : index.Built) : index.Sound := by
  induction h with
  | empty => exact ⟨by simp [ModuleIndex.empty], by simp [ModuleIndex.empty], by simp [ModuleIndex.empty]⟩
  | addUnit _ name ih =>
    refine ⟨ih.ids, fun item hi => ?_, ih.distinct⟩
    obtain ⟨unitName, hname, hq⟩ := ih.qualified item hi
    exact ⟨unitName, unitName_addUnit hname, hq⟩
  | declareItem _ declared ih =>
    obtain ⟨unitName, hname, ⟨_, -, -, rfl⟩ | ⟨hnone, -, rfl⟩⟩ := declareItem_eq_ok.mp declared
    · exact ih
    · exact ih.withItem rfl hname rfl hnone
  | @absorb index _ locals ih =>
    rw [absorb_eq]
    exact ⟨ih.ids, ih.qualified, ih.distinct⟩

theorem Sound.nodup_unitItems (h : index.Sound) : ((index.unitItems unit).map (·.name)).Nodup := by
  have hq : ((index.unitItems unit).map (·.qualified)).Nodup :=
    h.distinct.sublist (filter_sublist.map _)
  rw [Nodup, pairwise_map] at hq ⊢
  refine hq.imp_of_mem fun {item item'} hi hi' hne hsame => hne ?_
  obtain ⟨hi, hu⟩ := mem_filter.mp hi
  obtain ⟨hi', hu'⟩ := mem_filter.mp hi'
  obtain ⟨unitName, hname, hq⟩ := h.qualified item hi
  obtain ⟨unitName', hname', hq'⟩ := h.qualified item' hi'
  have hunit : item.unit = item'.unit := (of_decide_eq_true hu).trans (of_decide_eq_true hu').symm
  rw [hunit, hname'] at hname
  cases hname
  rw [hq, hq', hsame]

theorem Sound.item?_id (h : index.Sound) (hi : item ∈ index.items.toList) : index.item? item.id = some item := by
  obtain ⟨i, hi⟩ := mem_iff_getElem?.mp hi
  rw [Array.getElem?_toList] at hi
  rw [h.ids hi]
  exact hi

end ModuleIndex

end SsaCompiler
