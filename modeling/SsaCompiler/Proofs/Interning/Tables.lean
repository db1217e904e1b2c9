import SsaCompiler.Proofs.Interning.Job
import SsaCompiler.Proofs.Suggestion
import SsaCompiler.Proofs.Symbols.Scopes

/-!
# Tables by symbols

A table whose keys are symbols stands for one whose keys are the texts of these symbols: the entries
are the same in the same order (`Table.Keyed`), and a text that is not interned is no key
(`Table.Keyed.get?_eq`). The same is said of scopes, of the index of a module and of the names visible
in a unit, and each operation on them keeps it.
-/

namespace SsaCompiler

open List

variable {τ α : Type} {names names' : Interner} {text : String} {symbol : Symbol}

/-! ## Tables -/

/-- The entries of two tables are the same, by text and by symbol. -/
def Table.Keyed (names : Interner) (t : Table String α) (t' : Table Symbol α) : Prop :=
  Forall₂ (fun entry entry' => names.Holds entry.1 entry'.1 ∧ entry.2 = entry'.2) t.entries t'.entries

namespace Table.Keyed

variable {t : Table String α} {t' : Table Symbol α}

theorem grow (h : t.Keyed names t') (hg : names.Grows names') : t.Keyed names' t' :=
  Forall₂.imp (fun _ _ he => ⟨he.1.grow hg, he.2⟩) h

theorem empty : (Table.empty : Table String α).Keyed names .empty := .nil

variable (h : t.Keyed names t')
include h

theorem get?_eq (text : String) : t.get? text = (names.get? text).bind t'.get? := by
  unfold Table.get?
  revert h
  unfold Table.Keyed
  generalize t.entries = entries, t'.entries = entries'
  intro h
  induction h with
  | nil => cases names.get? text <;> rfl
  | @cons entry entry' rest rest' he _ ih =>
    obtain ⟨hk, hv⟩ := he
    cases ht : names.get? text with
    | none =>
      have hne : entry.1 ≠ text := by
        rintro rfl
        exact absurd (hk.symm.trans ht) (by simp)
      rw [ht] at ih
      simpa [Table.find?, hne] using ih
    | some symbol =>
      have hiff : entry.1 = text ↔ entry'.1 = symbol := hk.eq_iff ht
      rw [ht] at ih
      simp only [Option.bind_some, Table.find?, hiff, hv] at ih ⊢
      rw [ih]

theorem get? (ht : names.Holds text symbol) : t.get? text = t'.get? symbol := by rw [h.get?_eq, ht, Option.bind_some]

theorem contains (ht : names.Holds text symbol) : t.contains text = t'.contains symbol := by
  rw [Table.contains, Table.contains, h.get? ht]

theorem insert (ht : names.Holds text symbol) {value : α} :
    (t.insert text value).Keyed names (t'.insert symbol value) := by
  unfold Table.insert Table.Keyed
  revert h
  unfold Table.Keyed
  generalize t.entries = entries, t'.entries = entries'
  intro h
  induction h with
  | nil => exact .cons ⟨ht, rfl⟩ .nil
  | @cons entry entry' rest rest' he hrest ih =>
    have hiff : entry.1 = text ↔ entry'.1 = symbol := he.1.eq_iff ht
    simp only [Table.put, hiff]
    split
    · exact .cons ⟨ht, rfl⟩ hrest
    · exact .cons he ih

theorem keys : Forall₂ names.Holds t.keys t'.keys := by
  rw [Table.keys, Table.keys, List.forall₂_map_left_iff, List.forall₂_map_right_iff]
  exact Forall₂.imp (fun _ _ he => he.1) h

theorem size : t.size = t'.size := Forall₂.length_eq h

end Table.Keyed

/-! ## Bindings and scopes -/

structure Binding.Keyed (names : Interner) (b : Binding τ) (b' : Binding τ Symbol) : Prop where
  id : b.id = b'.id
  unit : b.unit = b'.unit
  name : names.Holds b.name b'.name
  qualified : names.Holds b.qualified b'.qualified
  type : b.type = b'.type
  storage : b.storage = b'.storage
  span : b.span = b'.span

theorem Binding.Keyed.grow {b : Binding τ} {b' : Binding τ Symbol} (h : b.Keyed names b')
    (hg : names.Grows names') : b.Keyed names' b' :=
  { h with name := h.name.grow hg, qualified := h.qualified.grow hg }

structure Scope.Keyed (names : Interner) (s : Scope) (s' : Scope Symbol) : Prop where
  parent : s.parent = s'.parent
  kind : s.kind = s'.kind
  owner : Option.Rel names.Holds s.owner s'.owner
  entries : s.entries.Keyed names s'.entries

theorem Scope.Keyed.grow {s : Scope} {s' : Scope Symbol} (h : s.Keyed names s')
    (hg : names.Grows names') : s.Keyed names' s' :=
  { h with owner := optionRel_imp h.owner fun _ _ ho => ho.grow hg, entries := h.entries.grow hg }

namespace ScopeTree

variable {id : ScopeId} {entry : ScopeEntry} {tree' : ScopeTree}

/-- Scopes stand in older ones. -/
def Nested (tree : ScopeTree) : Prop :=
  ∀ (i : Nat) (scope : Scope), tree.scopes[i]? = some scope → ∀ parent, scope.parent = some parent → parent.index < i

variable {tree : ScopeTree} {parent : ScopeId} {kind : ScopeKind} {fuel : Nat} {β : Type}

theorem nested_new : (ScopeTree.new : ScopeTree).Nested := by
  intro i scope hs parent hp
  cases i with
  | zero =>
    cases hs
    cases hp
  | succ i => simp [new] at hs

theorem Nested.addChild (h : tree.Nested) (hp : parent.index < tree.scopes.size)
    {owner : Option String} : (tree.addChild parent kind owner).2.Nested := by
  intro i scope hs outer ho
  simp only [ScopeTree.addChild, Array.getElem?_push] at hs
  split at hs
  · rename_i hi
    cases hs
    cases ho
    exact hi ▸ hp
  · exact h i scope hs outer ho

theorem Nested.define (h : tree.Nested) (hd : tree.define id text entry = .ok (.ok (), tree')) :
    tree'.Nested ∧ tree'.scopes.size = tree.scopes.size := by
  obtain ⟨found, hfound, -, rfl⟩ := define_eq_ok.mp hd
  refine ⟨?_, Array.size_setIfInBounds⟩
  intro i scope hs parent hp
  rw [Array.getElem?_setIfInBounds] at hs
  split at hs
  · split at hs
    · cases hs
      rename_i hi _
      exact h i found (hi ▸ hfound) parent hp
    · cases hs
  · exact h i scope hs parent hp

theorem Nested.chain (h : tree.Nested) (hid : id.index < tree.scopes.size) :
    ∃ scopes, tree.Chain id scopes ∧ ∀ scope ∈ scopes, scope ∈ tree.scopes.toList := by
  induction hn : id.index using Nat.strongRecOn generalizing id with
  | ind n ih =>
    subst hn
    have hs : tree.scopes[id.index]? = some tree.scopes[id.index] := Array.getElem?_eq_getElem hid
    have hm : tree.scopes[id.index] ∈ tree.scopes.toList := Array.mem_toList_iff.mpr (Array.getElem_mem hid)
    cases hp : (tree.scopes[id.index]).parent with
    | none => exact ⟨_, .outermost hs hp, by simp⟩
    | some parent =>
      have hlt := h _ _ hs parent hp
      obtain ⟨scopes, hchain, hall⟩ := ih _ hlt (by omega) rfl
      exact ⟨_, .inner hchain hs hp hlt, forall_mem_cons.mpr ⟨hm, hall⟩⟩

structure Keyed (names : Interner) (tree : ScopeTree) (tree' : ScopeTree Symbol) : Prop where
  scopes : Forall₂ (Scope.Keyed names) tree.scopes.toList tree'.scopes.toList
  nested : tree.Nested

namespace Keyed

variable {tree' : ScopeTree Symbol}

theorem grow (h : tree.Keyed names tree') (hg : names.Grows names') : tree.Keyed names' tree' :=
  ⟨h.scopes.imp fun _ _ hs => hs.grow hg, h.nested⟩

theorem new : (ScopeTree.new : ScopeTree).Keyed names .new :=
  ⟨.cons ⟨rfl, rfl, .none, .empty⟩ .nil, nested_new⟩

variable (h : tree.Keyed names tree') {fuel : Nat}
include h

theorem size : tree.scopes.size = tree'.scopes.size :=
  h.scopes.length_eq

theorem scope (id : ScopeId) : Alike (Scope.Keyed names) (tree.scope id) (tree'.scope id) := by
  have hget := forall₂_getElem? h.scopes id.index
  rw [Array.getElem?_toList, Array.getElem?_toList] at hget
  unfold ScopeTree.scope
  generalize tree.scopes[id.index]? = found, tree'.scopes[id.index]? = found' at hget
  cases hget with
  | some hs => exact hs
  | none => rfl

theorem addChild {parent : ScopeId} (hp : parent.index < tree.scopes.size) {kind : ScopeKind} {owner : Option String}
    {owner' : Option Symbol} (ho : Option.Rel names.Holds owner owner') :
    (tree.addChild parent kind owner).1 = (tree'.addChild parent kind owner').1 ∧
      (tree.addChild parent kind owner).2.Keyed names (tree'.addChild parent kind owner').2 := by
  refine ⟨congrArg ScopeId.mk h.size, ?_, h.nested.addChild hp⟩
  rw [ScopeTree.addChild, ScopeTree.addChild, Array.toList_push, Array.toList_push]
  exact rel_append h.scopes (.cons ⟨rfl, rfl, ho, .empty⟩ .nil)

theorem define (ht : names.Holds text symbol) :
    Alike (fun p q => p.1 = q.1 ∧ p.2.Keyed names q.2 ∧ p.2.scopes.size = tree.scopes.size)
      (tree.define id text entry) (tree'.define id symbol entry) := by
  have hnested : ∀ next, tree.define id text entry = .ok (.ok (), next) →
      next.Nested ∧ next.scopes.size = tree.scopes.size := fun _ => h.nested.define
  revert hnested
  unfold ScopeTree.define
  have hscope := h.scope id
  generalize tree.scope id = found, tree'.scope id = found' at hscope
  intro hnested
  cases found <;> cases found'
  · exact hscope
  · exact hscope.elim
  · exact hscope.elim
  rename_i scope scope'
  have hs : Scope.Keyed names scope scope' := hscope
  simp only [bind, Except.bind] at hnested ⊢
  rw [hs.entries.get? ht] at hnested ⊢
  cases hget : scope'.entries.get? symbol with
  | some existing => exact ⟨rfl, h, rfl⟩
  | none =>
    rw [hget] at hnested
    obtain ⟨hn, hsize⟩ := hnested _ rfl
    refine ⟨rfl, ⟨?_, hn⟩, hsize⟩
    rw [Array.toList_setIfInBounds, Array.toList_setIfInBounds]
    refine forall₂_set h.scopes ?_ id.index
    exact ⟨hs.parent, hs.kind, hs.owner, hs.entries.insert ht⟩

theorem findUp {β γ : Type} {S : β → γ → Prop} {found : Scope → Option β} {found' : Scope Symbol → Option γ}
    (hf : ∀ scope scope', Scope.Keyed names scope scope' → Option.Rel S (found scope) (found' scope'))
    (id : Option ScopeId) : Alike (Option.Rel S) (tree.findUp found fuel id) (tree'.findUp found' fuel id) := by
  induction fuel generalizing id with
  | zero =>
    cases id with
    | none => exact .none
    | some id => exact rfl
  | succ fuel ih =>
    cases id with
    | none => exact .none
    | some id =>
      refine (h.scope id).bind fun scope scope' hs => ?_
      have hfound := hf scope scope' hs
      generalize found scope = answer, found' scope' = answer' at hfound
      cases hfound with
      | some ha => exact .some ha
      | none => rw [hs.parent]; exact ih _

theorem chainWhile {keep : Scope → Bool} {keep' : Scope Symbol → Bool}
    (hk : ∀ scope scope', Scope.Keyed names scope scope' → keep scope = keep' scope') (id : Option ScopeId) :
    Alike (Forall₂ fun p q => p.1 = q.1 ∧ Scope.Keyed names p.2 q.2)
      (tree.chainWhile keep fuel id) (tree'.chainWhile keep' fuel id) := by
  induction fuel generalizing id with
  | zero =>
    cases id with
    | none => exact .nil
    | some id => exact rfl
  | succ fuel ih =>
    cases id with
    | none => exact .nil
    | some id =>
      refine (h.scope id).bind fun scope scope' hs => ?_
      rw [hk _ _ hs]
      split
      · rw [hs.parent]
        exact (ih _).bind fun outer outer' ho => .cons ⟨rfl, hs⟩ ho
      · exact .nil

theorem lookup (id : ScopeId) (ht : names.Holds text symbol) : tree.lookup id text = tree'.lookup id symbol := by
  unfold ScopeTree.lookup chainBound
  rw [h.size]
  refine Alike.eq ((h.findUp (S := (· = ·)) ?_ _).imp fun _ _ => optionRel_eq)
  intro scope scope' hs
  rw [hs.entries.get? ht]
  cases scope'.entries.get? symbol with
  | some entry => exact .some rfl
  | none => exact .none

theorem visibleNames : Alike (Forall₂ names.Holds) (tree.visibleNames id) (tree'.visibleNames id) := by
  unfold ScopeTree.visibleNames chainBound
  rw [h.size]
  refine (h.chainWhile (fun _ _ _ => rfl) _).bind fun chain chain' hc => ?_
  induction hc with
  | nil => exact .nil
  | cons hs _ ih => exact rel_append hs.2.entries.keys ih

theorem inLoop : tree.inLoop id = tree'.inLoop id := by
  unfold ScopeTree.inLoop chainBound
  rw [h.size]
  congr 1
  refine Alike.eq ((h.findUp (S := (· = ·)) ?_ _).imp fun _ _ => optionRel_eq)
  intro scope scope' hs
  rw [hs.kind]
  split
  · exact .some rfl
  · split
    · exact .some rfl
    · exact .none

theorem loopDepth : tree.loopDepth id = tree'.loopDepth id := by
  unfold ScopeTree.loopDepth chainBound
  rw [h.size]
  refine Alike.eq (Alike.bind (h.chainWhile (fun _ _ hs => by rw [hs.kind]) _) ?_)
  intro chain chain' hc
  show List.countP _ _ = List.countP _ _
  induction hc with
  | nil => rfl
  | cons hs _ ih => rw [countP_cons, countP_cons, ih, hs.2.kind]

theorem owner : Alike (Option.Rel names.Holds) (tree.owner id) (tree'.owner id) := by
  unfold ScopeTree.owner chainBound
  rw [h.size]
  exact h.findUp (fun _ _ hs => hs.owner) _

theorem lookup_unknown (hid : id.index < tree.scopes.size) (ht : names.get? text = none) :
    tree.lookup id text = .ok none := by
  obtain ⟨scopes, hchain, hall⟩ := h.nested.chain hid
  rw [hchain.lookup, findSome?_eq_none_iff.mpr fun scope hs => ?_]
  obtain ⟨scope', -, hk⟩ := forall₂_exists_right h.scopes (hall scope hs)
  rw [hk.entries.get?_eq, ht, Option.bind_none]

end Keyed

end ScopeTree

/-! ## The index of a module -/

namespace ModuleIndex

structure Keyed (names : Interner) (index : ModuleIndex τ) (index' : ModuleIndex τ Symbol) : Prop where
  units : Forall₂ names.Holds index.units.toList index'.units.toList
  items : Forall₂ (Binding.Keyed names) index.items.toList index'.items.toList

namespace Keyed

variable {index : ModuleIndex τ} {index' : ModuleIndex τ Symbol}

variable (h : index.Keyed names index') {unit : UnitId}
include h

theorem grow (hg : names.Grows names') : index.Keyed names' index' :=
  ⟨h.units.imp fun _ _ hu => hu.grow hg, h.items.imp fun _ _ hb => hb.grow hg⟩

theorem unitName : Alike names.Holds (index.unitName unit) (index'.unitName unit) := by
  have hget := forall₂_getElem? h.units unit.index
  rw [Array.getElem?_toList, Array.getElem?_toList] at hget
  unfold ModuleIndex.unitName
  generalize index.units[unit.index]? = found, index'.units[unit.index]? = found' at hget
  cases hget with
  | some hs => exact hs
  | none => rfl

theorem lookup? (ht : names.Holds text symbol) :
    Option.Rel (Binding.Keyed names) (index.lookup? text) (index'.lookup? symbol) := by
  unfold ModuleIndex.lookup?
  rw [← Array.find?_toList, ← Array.find?_toList]
  exact forall₂_find? h.items fun b b' hb => decide_eq_decide.mpr (hb.qualified.eq_iff ht)

theorem lookup?_unknown (ht : names.get? text = none) : index.lookup? text = none := by
  unfold ModuleIndex.lookup?
  rw [← Array.find?_toList, find?_eq_none]
  intro b hb hq
  obtain ⟨b', -, hk⟩ := forall₂_exists_right h.items hb
  have hheld : names.get? text = some b'.qualified := of_decide_eq_true hq ▸ hk.qualified
  rw [ht] at hheld
  cases hheld

theorem item? (id : BindingId) : Option.Rel (Binding.Keyed names) (index.item? id) (index'.item? id) := by
  cases id with
  | «local» unit position => exact .none
  | item position =>
    have hget := forall₂_getElem? h.items position
    rwa [Array.getElem?_toList, Array.getElem?_toList] at hget

theorem unitItems : Forall₂ (Binding.Keyed names) (index.unitItems unit) (index'.unitItems unit) :=
  forall₂_filter h.items fun _ _ hb => by rw [hb.unit]

theorem qualifiedNames : Forall₂ names.Holds index.qualifiedNames index'.qualifiedNames := by
  rw [ModuleIndex.qualifiedNames, ModuleIndex.qualifiedNames, List.forall₂_map_left_iff, List.forall₂_map_right_iff]
  exact h.items.imp fun _ _ hb => hb.qualified

end Keyed

open Job in
theorem gives_declareItem {index : ModuleIndex τ} {index' : ModuleIndex τ Symbol}
    (h : index.Keyed names index') {unit : UnitId} {name : String} {type : τ} {storage : Storage} {span : FileSpan} :
    Gives (index.declareItem unit name type storage span)
      (fun names' p q => p.1 = q.1 ∧ p.2.Keyed names' q.2)
      (index'.declareItem (m := Job) unit name type storage span) names := by
  refine (gives_lift (h.unitName.imp fun _ _ hu _ hg => hu.grow hg)).bind ?_
  intro names1 hg1 unitKey unitKey' hu
  refine (gives_text hu).bind ?_
  rintro names2 hg2 _ unitName ⟨rfl, rfl⟩
  refine (gives_intern _).bind ?_
  rintro names3 hg3 _ qualified' ⟨rfl, hq⟩
  have h3 := h.grow ((hg1.trans hg2).trans hg3)
  have hl := h3.lookup? hq
  generalize index.lookup? (Name.path [unitName, name]) = found, index'.lookup? qualified' = found' at hl
  cases hl with
  | some hb =>
    exact .pure fun _ hg => ⟨congrArg (Except.error <| SymbolError.duplicate name span ·) hb.span, h3.grow hg⟩
  | none =>
    refine (gives_intern _).bind ?_
    rintro names4 hg4 _ key' ⟨rfl, hk⟩
    have hsize : index.items.size = index'.items.size := h.items.length_eq
    refine .pure fun names5 hg5 => ⟨congrArg (Except.ok <| BindingId.item ·) hsize, ?_⟩
    have h5 := h3.grow (hg4.trans hg5)
    refine ⟨h5.units, ?_⟩
    rw [Array.toList_push, Array.toList_push]
    refine rel_append h5.items (.cons ?_ .nil)
    exact ⟨congrArg BindingId.item hsize, rfl, hk.grow hg5, hq.grow (hg4.trans hg5), rfl, rfl, rfl⟩

end ModuleIndex

/-! ## Names in scope

A name that is not found is reported with the same suggestions, because these do not depend on the order of the
candidates (`SymbolTable.gives_resolve`). -/

theorem SymbolError.unbound_perm {candidates candidates' : List String} (h : candidates.Perm candidates')
    {name : String} {span : FileSpan} :
    SymbolError.unbound name span candidates = SymbolError.unbound name span candidates' :=
  congrArg (SymbolError.unboundName name span) (Suggestion.suggest_perm h)

namespace SymbolTable

variable {index' : ModuleIndex τ Symbol} {tree' : ScopeTree Symbol} {index : ModuleIndex τ}

/-- The names visible in a unit are the same as texts and as symbols. -/
structure Keyed (names : Interner) (table : SymbolTable τ) (table' : SymbolTable τ Symbol) : Prop where
  index : table.index.Keyed names table'.index
  unit : table.unit = table'.unit
  tree : table.tree.Keyed names table'.tree
  current : table.current = table'.current
  locals : Forall₂ (Binding.Keyed names) table.locals.toList table'.locals.toList
  entered : table.current.index < table.tree.scopes.size

variable {table : SymbolTable τ} {table' : SymbolTable τ Symbol} {tree : ScopeTree} {unit : UnitId}

namespace Keyed

variable (h : table.Keyed names table') {kind : ScopeKind}
include h

theorem grow (hg : names.Grows names') : table.Keyed names' table' :=
  { h with
    index := h.index.grow hg
    tree := h.tree.grow hg
    locals := h.locals.imp fun _ _ hb => hb.grow hg }

theorem enterOwned {owner : Option String} {owner' : Option Symbol} (ho : Option.Rel names.Holds owner owner') :
    (table.enterOwned kind owner).Keyed names (table'.enterOwned kind owner') := by
  obtain ⟨hid, htree⟩ := h.tree.addChild h.entered ho
  unfold SymbolTable.enterOwned
  rw [← h.current]
  refine { h with tree := htree, current := hid, entered := ?_ }
  · show table.tree.scopes.size < (table.tree.addChild table.current kind owner).2.scopes.size
    simp [ScopeTree.addChild]

theorem exit : Alike (Keyed names) table.exit table'.exit := by
  unfold SymbolTable.exit
  rw [← h.current]
  rcases (h.tree.scope table.current).cases with ⟨e, hs, hs'⟩ | ⟨scope, scope', hs, hs', hk⟩
  · simp only [hs, hs']
    exact rfl
  · simp only [hs, hs', bind, Except.bind]
    rw [← hk.parent]
    cases hp : scope.parent with
    | none => exact rfl
    | some parent =>
      refine { h with current := rfl, entered := ?_ }
      have hfound : table.tree.scopes[table.current.index]? = some scope := by
        unfold ScopeTree.scope at hs
        split at hs <;> cases hs
        assumption
      exact Nat.lt_trans (h.tree.nested _ scope hfound parent hp) h.entered

theorem binding? (id : BindingId) : Option.Rel (Binding.Keyed names) (table.binding? id) (table'.binding? id) := by
  cases id with
  | item position => exact h.index.item? (.item position)
  | «local» unit position =>
    simp only [SymbolTable.binding?, ← h.unit]
    split
    · have hget := forall₂_getElem? h.locals position
      rwa [Array.getElem?_toList, Array.getElem?_toList] at hget
    · exact .none

theorem inLoop : table.inLoop = table'.inLoop := by
  unfold SymbolTable.inLoop
  rw [← h.current]
  exact h.tree.inLoop

theorem loopDepth : table.loopDepth = table'.loopDepth := by
  unfold SymbolTable.loopDepth
  rw [← h.current]
  exact h.tree.loopDepth

end Keyed

/-! ## The table of a unit -/

theorem defineItems_keyed (h : tree.Keyed names tree') (hsize : 0 < tree.scopes.size) {items : List (Binding τ)}
    {items' : List (Binding τ Symbol)} (hi : Forall₂ (Binding.Keyed names) items items') :
    Alike (fun next next' => next.Keyed names next' ∧ 0 < next.scopes.size) (defineItems items tree)
      (defineItems items' tree') := by
  induction hi generalizing tree tree' with
  | nil => exact ⟨h, hsize⟩
  | @cons item item' rest rest' hk _ ih =>
    unfold defineItems
    rw [← hk.id, ← hk.span]
    refine (h.define hk.name).bind ?_
    rintro ⟨result, next⟩ ⟨_, next'⟩ ⟨rfl, hn, hs⟩
    cases result with
    | error existing => exact rfl
    | ok done => exact ih hn (hs ▸ hsize)

theorem forUnit_keyed (h : index.Keyed names index') :
    Alike (Keyed names) (forUnit index unit) (forUnit index' unit) := by
  refine (defineItems_keyed (.new) (Nat.zero_lt_one) h.unitItems).bind fun tree tree' ht => ?_
  exact ⟨h, rfl, ht.1, rfl, .nil, ht.2⟩

/-! ## Declaring and finding names -/

open Job

theorem gives_define (h : tree.Keyed names tree') {id : ScopeId} (ht : names.Holds text symbol) {entry : ScopeEntry} :
    Gives (tree.define id text entry)
      (fun later p q => p.1 = q.1 ∧ p.2.Keyed later q.2 ∧ p.2.scopes.size = tree.scopes.size)
      (liftM (tree'.define id symbol entry)) names :=
  gives_lift ((h.define ht).imp fun _ _ hr _ hg => ⟨hr.1, hr.2.1.grow hg, hr.2.2⟩)

theorem gives_unitName (h : index.Keyed names index') :
    Gives (index.unitName unit) (fun later => later.Holds) (liftM (index'.unitName unit)) names :=
  gives_lift (h.unitName.imp fun _ _ hu _ hg => hu.grow hg)

variable (h : table.Keyed names table') {name : String} {span : FileSpan}
include h

theorem gives_ownerName : Gives (table.ownerName) (fun _ => (· = ·)) (table'.ownerName (m := Job)) names := by
  unfold ownerName
  rw [← h.current]
  refine (gives_lift (h.tree.owner.imp fun _ _ ho _ hg => optionRel_imp ho fun _ _ hk => hk.grow hg)).bind ?_
  intro names1 hg1 key key' hk
  cases hk with
  | none => exact .pure fun _ _ => rfl
  | some hk =>
    refine (gives_text hk).bind ?_
    rintro names2 hg2 _ name ⟨rfl, rfl⟩
    exact .pure fun _ _ => rfl

theorem gives_declare {type : τ} {storage : Storage} :
    Gives (table.declare name type storage span) (fun later p q => p.1 = q.1 ∧ p.2.Keyed later q.2)
      (table'.declare (m := Job) name type storage span) names := by
  refine (gives_intern name).bind ?_
  rintro names1 hg1 _ key' ⟨rfl, hk⟩
  have h1 := h.grow hg1
  have hid : BindingId.local table.unit table.locals.size = .local table'.unit table'.locals.size := by
    have hsize : table.locals.size = table'.locals.size := h.locals.length_eq
    rw [h.unit, hsize]
  rw [← h.current, ← hid]
  refine (gives_define h1.tree hk).bind ?_
  rintro names2 hg2 ⟨result, tree⟩ ⟨_, tree'⟩ ⟨rfl, htree, hsize⟩
  have h2 : Keyed names2 { table with tree := tree } ⟨table'.index, table.unit, tree', table.current, table'.locals⟩ :=
    { h1.grow hg2 with unit := rfl, tree := htree, current := rfl, entered := hsize ▸ h.entered }
  rw [← h.unit]
  cases result with
  | error existing => exact .pure fun _ hg => ⟨rfl, h2.grow hg⟩
  | ok done =>
  refine (gives_unitName h2.index).bind ?_
  intro names3 hg3 unitKey unitKey' hu
  refine (gives_text hu).bind ?_
  rintro names4 hg4 _ unitName ⟨rfl, rfl⟩
  refine (gives_ownerName (h2.grow (hg3.trans hg4))).bind ?_
  rintro names5 hg5 owner _ rfl
  refine (gives_intern _).bind ?_
  rintro names6 hg6 _ qualified' ⟨rfl, hq⟩
  refine .pure fun names7 hg7 => ⟨rfl, ?_⟩
  have hall := ((((hg2.trans hg3).trans hg4).trans hg5).trans hg6).trans hg7
  have h7 := h2.grow ((((hg3.trans hg4).trans hg5).trans hg6).trans hg7)
  refine { h7 with locals := ?_ }
  rw [Array.toList_push, Array.toList_push]
  refine rel_append h7.locals (.cons ?_ .nil)
  exact ⟨rfl, rfl, hk.grow hall, hq.grow hg7, rfl, rfl, rfl⟩

theorem gives_visible? :
    Gives (table.visible? name) (fun later => Option.Rel (Binding.Keyed later)) (table'.visible? (m := Job) name)
      names := by
  refine (gives_find name).bind ?_
  rintro names1 hg1 _ key' ⟨rfl, asked, hg, hlater, rfl⟩
  have h1 := h.grow hg
  cases hkey : asked.get? name with
  | none =>
    have hnone : table.tree.lookup table.current name = .ok none := h1.tree.lookup_unknown h.entered hkey
    show Gives (table.tree.lookup table.current name >>= _) _ _ _
    rw [hnone]
    exact .pure fun _ _ => .none
  | some key =>
    have hfound := h1.tree.lookup table.current (show asked.Holds name key from hkey)
    rw [← h.current]
    refine (gives_lift (R := fun _ => (· = ·)) ?_).bind ?_
    · rw [← hfound]
      exact (Alike.refl _).imp fun _ _ he _ _ => he
    · rintro names2 hg2 entry _ rfl
      refine .pure fun names3 hg3 => ?_
      cases entry with
      | none => exact .none
      | some entry => exact (h.grow ((hg1.trans hg2).trans hg3)).binding? entry.binding

theorem gives_item? :
    Gives (table.item? name) (fun later => Option.Rel (Binding.Keyed later)) (table'.item? (m := Job) name) names := by
  refine (gives_find name).bind ?_
  rintro names1 hg1 _ key' ⟨rfl, asked, hg, hlater, rfl⟩
  refine .pure fun names2 hg2 => ?_
  cases hkey : asked.get? name with
  | none =>
    rw [Option.bind_some, (h.index.grow hg).lookup?_unknown hkey]
    exact .none
  | some key => exact (h.index.grow (hg1.trans hg2)).lookup? (Interner.Holds.grow hkey (hlater.trans hg2))

theorem gives_resolve : Gives (table.resolve name span) (fun later => Alike (Binding.Keyed later))
      (table'.resolve (m := Job) name span) names := by
  unfold resolve
  split
  · refine (gives_item? h).bind ?_
    intro names1 hg1 found found' hf
    cases hf with
    | some hb => exact .pure fun _ hg => hb.grow hg
    | none =>
      refine (gives_texts (h.index.grow hg1).qualifiedNames).bind ?_
      rintro names2 hg2 items listed ⟨rfl, hp⟩
      exact .pure fun _ _ => SymbolError.unbound_perm hp.symm
  · refine (gives_visible? h).bind ?_
    intro names1 hg1 found found' hf
    cases hf with
    | some hb => exact .pure fun _ hg => hb.grow hg
    | none =>
      rw [← h.current]
      refine (gives_lift (((h.tree.grow hg1).visibleNames).imp fun _ _ hv _ hg =>
        hv.imp fun _ _ hk => hk.grow hg)).bind ?_
      intro names2 hg2 keys keys' hkeys
      refine (gives_texts hkeys).bind ?_
      rintro names3 hg3 items listed ⟨rfl, hp⟩
      exact .pure fun _ _ => SymbolError.unbound_perm hp.symm

end SymbolTable

end SsaCompiler
