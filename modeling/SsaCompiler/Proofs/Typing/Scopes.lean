import SsaCompiler.Proofs.Typing.Frame
import SsaCompiler.Proofs.Typing.Rules

/-!
# What a scope shows

A scope shows the locals of the scopes around it and its own, and has a number of loops around it
(`ScopeTree.Shows`). Searches outward answer from these alone: a name is looked up among the locals
and then in the unit scope (`Shows.lookup`), and the two questions about loops are answered by their
number (`Shows.inLoop`, `Shows.loopDepth`). Entering a scope shows the same locals, a declaration
shows one more, and what is done in a scope does not change what the scopes around it show.
-/

namespace SsaCompiler

open Table

/-- The number of loops around what is declared in a scope, from the number around the scope. -/
def ScopeKind.depth : ScopeKind → Nat → Nat
  | .unit, _ | .function, _ => 0
  | .block, outer => outer
  | .loop, outer => outer + 1

theorem ScopeKind.depth_eq {kind : ScopeKind} {outer : Nat} : kind.depth outer =
    if kind.endsLoops then 0 else outer + if kind = .loop then 1 else 0 := by cases kind <;> rfl

/-- The locals declared in a scope with `depth` loops around them. -/
def Scope.locals (scope : Scope) (depth : Nat) : List Local :=
  scope.entries.entries.map fun entry => ⟨entry.1, entry.2.binding, depth⟩

theorem Scope.find?_locals {scope : Scope} (h : scope.entries.keys.Nodup) {name : String} {depth : Nat} :
    Local.find? name (scope.locals depth) =
      (scope.entries.get? name).map fun entry => ⟨name, entry.binding, depth⟩ := by
  unfold Scope.locals get?
  unfold keys at h
  generalize scope.entries.entries = entries at h ⊢
  induction entries with
  | nil => rfl
  | cons entry rest ih =>
    rw [List.map_cons, List.nodup_cons] at h
    simp only [List.map_cons, Local.find?, find?, ih h.2]
    by_cases hn : entry.1 = name
    · subst hn
      simp [find?_eq_none_iff.mpr h.1]
    · simp only [hn]
      cases find? name rest <;> rfl

namespace ScopeTree

variable {tree : ScopeTree} {id : ScopeId} {Γ : List Local} {depth : Nat}

/-- A scope shows some locals, outermost first, and has `depth` loops of its function around it. -/
inductive Shows (tree : ScopeTree) : ScopeId → List Local → Nat → Prop
  | unit {scope : Scope} (found : tree.scopes[0]? = some scope) (outermost : scope.parent = none)
      (kind : scope.kind = .unit) : Shows tree root [] 0
  | inner {id parent : ScopeId} {scope : Scope} {Γ : List Local} {depth : Nat}
      (outer : Shows tree parent Γ depth) (found : tree.scopes[id.index]? = some scope)
      (around : scope.parent = some parent) (later : parent.index < id.index)
      (distinct : scope.entries.keys.Nodup) :
      Shows tree id (Γ ++ scope.locals (scope.kind.depth depth)) (scope.kind.depth depth)

def declaredAtRoot? (tree : ScopeTree) (name : String) : Option ScopeEntry :=
  tree.scopes[0]?.bind (·.entries.get? name)

namespace Shows

section

variable (h : tree.Shows id Γ depth) {name : String}
include h

theorem lt_size : id.index < tree.scopes.size := by
  cases h with
  | unit found => exact lt_of_getElem? found
  | inner _ found => exact lt_of_getElem? found

theorem congr {tree' : ScopeTree}
    (hs : ∀ i scope, i ≤ id.index → tree.scopes[i]? = some scope → tree'.scopes[i]? = some scope) :
    tree'.Shows id Γ depth := by
  induction h with
  | unit found outermost kind => exact .unit (hs _ _ (Nat.le_refl 0) found) outermost kind
  | inner _ found around later distinct ih =>
    exact .inner (ih fun i scope hi => hs i scope (by omega)) (hs _ _ (Nat.le_refl _) found) around later distinct

theorem chain : ∃ scopes, tree.Chain id scopes ∧
    (∀ name, (scopes.findSome? (·.entries.get? name)).map (·.binding) =
      ((Local.find? name Γ).map (·.binding)).or ((tree.declaredAtRoot? name).map (·.binding))) ∧
    (scopes.takeWhile (!·.kind.endsLoops)).countP (·.kind = .loop) = depth := by
  induction h with
  | @unit scope found outermost kind =>
    refine ⟨[scope], .outermost found outermost, fun name => ?_, by simp [kind, ScopeKind.endsLoops]⟩
    simp [declaredAtRoot?, found, Local.find?, List.findSome?_singleton]
  | @inner id parent scope Γ depth outer found around later distinct ih =>
    obtain ⟨scopes, hchain, hentries, hdepth⟩ := ih
    refine ⟨scope :: scopes, .inner hchain found around later, fun name => ?_, ?_⟩
    · rw [List.findSome?_cons, Local.find?_append, Scope.find?_locals distinct]
      cases scope.entries.get? name with
      | none => exact hentries name
      | some entry => rfl
    · rw [List.takeWhile_cons, ScopeKind.depth_eq]
      by_cases he : scope.kind.endsLoops = true <;> simp [he, List.countP_cons, hdepth]

theorem lookup : ∃ answer, tree.lookup id name = .ok answer ∧ answer.map (·.binding) =
      ((Local.find? name Γ).map (·.binding)).or ((tree.declaredAtRoot? name).map (·.binding)) := by
  obtain ⟨scopes, hchain, hentries, -⟩ := h.chain
  exact ⟨_, hchain.lookup, hentries name⟩

theorem loopDepth : tree.loopDepth id = .ok depth := by
  obtain ⟨scopes, hchain, -, rfl⟩ := h.chain
  exact hchain.loopDepth

theorem inLoop : tree.inLoop id = .ok (decide (0 < depth)) := by
  obtain ⟨scopes, hchain, -, rfl⟩ := h.chain
  exact hchain.inLoop

theorem size_pos : 0 < tree.scopes.size :=
  Nat.lt_of_le_of_lt (Nat.zero_le _) h.lt_size

end

theorem at_root (h : tree.Shows root Γ depth) : ∃ scope, tree.scopes[0]? = some scope ∧
    scope.parent = none ∧ scope.kind = .unit := by
  generalize hid : root = id at h
  cases h with
  | unit found outermost kind => exact ⟨_, found, outermost, kind⟩
  | inner _ _ _ later =>
    subst hid
    exact absurd later (Nat.not_lt_zero _)

end Shows

end ScopeTree

namespace SymbolTable

variable {τ : Type} {t t' : SymbolTable τ} {id : ScopeId} {Γ : List Local} {depth : Nat}
variable {owner : Option String} {kind : ScopeKind} {name : String}

theorem Extends.shows (he : t.Extends t') (h : t.tree.Shows id Γ depth)
    (hlt : id.index < t.current.index) : t'.tree.Shows id Γ depth := by
  refine h.congr fun i scope hi hs => ?_
  obtain ⟨entries, hs', hsame⟩ := he.scopes hs
  obtain rfl := hsame (by omega)
  exact hs'

theorem Extends.declaredAtRoot? (he : t.Extends t') (hc : 0 < t.current.index) (hsize : 0 < t.tree.scopes.size) :
    t'.tree.declaredAtRoot? name = t.tree.declaredAtRoot? name := by
  obtain ⟨entries, hs, hsame⟩ := he.scopes (Array.getElem?_eq_getElem hsize)
  obtain rfl := hsame (by omega)
  simp only [ScopeTree.declaredAtRoot?, hs, Array.getElem?_eq_getElem hsize]

theorem shows_enterOwned_outer (h : t.tree.Shows id Γ depth) : (t.enterOwned kind owner).tree.Shows id Γ depth := by
  refine h.congr fun i scope _ hs => ?_
  have hlt := lt_of_getElem? hs
  simp only [SymbolTable.enterOwned, ScopeTree.addChild]
  rw [Array.getElem?_push_lt hlt, ← hs, Array.getElem?_eq_getElem hlt]

theorem declaredAtRoot?_enterOwned (h : 0 < t.tree.scopes.size) (kind : ScopeKind) (owner : Option String)
    (name : String) : (t.enterOwned kind owner).tree.declaredAtRoot? name = t.tree.declaredAtRoot? name := by
  simp only [ScopeTree.declaredAtRoot?, enterOwned, ScopeTree.addChild]
  rw [Array.getElem?_push_lt h, Array.getElem?_eq_getElem h]

theorem shows_enterOwned (h : t.tree.Shows t.current Γ depth) :
    (t.enterOwned kind owner).tree.Shows (t.enterOwned kind owner).current Γ (kind.depth depth) := by
  have hnew : (t.enterOwned kind owner).tree.scopes[(t.enterOwned kind owner).current.index]? =
      some ⟨some t.current, kind, owner, .empty⟩ := by
    simp [enterOwned, ScopeTree.addChild]
  simpa [Scope.locals, empty] using
    ScopeTree.Shows.inner (shows_enterOwned_outer h) hnew rfl h.lt_size (by simp [keys, empty])

theorem shows_define {entry : ScopeEntry} {tree : ScopeTree} (h : t.tree.Shows t.current Γ depth)
    (hc : 0 < t.current.index) (hd : t.tree.define t.current name entry = .ok (.ok (), tree)) :
    tree.Shows t.current (Γ ++ [⟨name, entry.binding, depth⟩]) depth := by
  generalize hcur : t.current = id at h hc hd
  cases h with
  | unit => exact absurd hc (Nat.lt_irrefl 0)
  | @inner _ parent scope Γ depth outer found around later distinct =>
    obtain ⟨_, found', hnone, rfl⟩ := ScopeTree.define_eq_ok.mp hd
    obtain rfl := Option.some.inj (found.symm.trans found')
    have hkept : ScopeTree.Shows ⟨t.tree.scopes.setIfInBounds id.index
        { scope with entries := scope.entries.insert name entry }⟩ parent Γ depth :=
      outer.congr fun i scope hi hs => by rwa [Array.getElem?_setIfInBounds_ne (by omega)]
    have hlt := lt_of_getElem? found
    have hkeys : (scope.entries.insert name entry).keys.Nodup := by
      have hfresh : name ∉ scope.entries.keys := find?_eq_none_iff.mp hnone
      rw [keys, entries_insert hnone, List.map_append]
      exact List.nodup_append.mpr ⟨distinct, by simp, by
        intro a ha b hb
        simp only [List.map_cons, List.map_nil, List.mem_singleton] at hb
        rintro rfl
        exact hfresh (hb ▸ ha)⟩
    have hnew := ScopeTree.Shows.inner hkept (Array.getElem?_setIfInBounds_self_of_lt hlt) around later hkeys
    simpa only [Scope.locals, entries_insert hnone, List.map_append, List.map_cons,
      List.map_nil, List.append_assoc] using hnew

end SymbolTable

end SsaCompiler
