import Mathlib.Data.List.TakeWhile
import SsaCompiler.Proofs.Steps
import SsaCompiler.SymbolTable

/-!
# Chains of scopes

The scopes from one of a tree outward are a chain (`ScopeTree.Chain`) if each stands in an older one.
Then every search outward ends, and answers from the chain alone. A declaration goes to the scope it
starts at, if that scope does not have the name (`ScopeTree.define_eq_ok`); otherwise the tree, and
with it a symbol table, stays as it is (`SymbolTable.declare_eq_error`).
-/

namespace SsaCompiler

open List

namespace ScopeTree

variable {tree tree' : ScopeTree} {id : ScopeId} {name : String} {entry existing : ScopeEntry} {scopes : List Scope}

theorem scope_eq_ok {scope : Scope} : tree.scope id = .ok scope ↔ tree.scopes[id.index]? = some scope := by
  unfold ScopeTree.scope
  cases tree.scopes[id.index]? <;> simp

/-! ## Declarations -/

theorem define_eq_ok : tree.define id name entry = .ok (.ok (), tree') ↔ ∃ scope, tree.scopes[id.index]? = some scope ∧
    scope.entries.get? name = none ∧
      tree' = ⟨tree.scopes.setIfInBounds id.index { scope with entries := scope.entries.insert name entry }⟩ := by
  simp only [define, bind_eq_ok, scope_eq_ok]
  refine exists_congr fun scope => and_congr_right fun _ => ?_
  cases scope.entries.get? name <;> simp [pure, Except.pure, eq_comm]

theorem define_eq_error : tree.define id name entry = .ok (.error existing, tree') ↔
    (∃ scope, tree.scopes[id.index]? = some scope ∧ scope.entries.get? name = some existing) ∧ tree' = tree := by
  simp only [define, bind_eq_ok, scope_eq_ok, ← exists_and_right, and_assoc]
  refine exists_congr fun scope => and_congr_right fun _ => ?_
  cases scope.entries.get? name <;> simp [pure, Except.pure, eq_comm]

/-! ## Searches -/

/-- The scopes from one outward. -/
inductive Chain (tree : ScopeTree) : ScopeId → List Scope → Prop
  | outermost {id : ScopeId} {scope : Scope} (found : tree.scopes[id.index]? = some scope)
      (last : scope.parent = none) : Chain tree id [scope]
  | inner {id parent : ScopeId} {scope : Scope} {scopes : List Scope} (outer : Chain tree parent scopes)
      (found : tree.scopes[id.index]? = some scope) (around : scope.parent = some parent)
      (later : parent.index < id.index) : Chain tree id (scope :: scopes)

namespace Chain

variable (h : tree.Chain id scopes) {fuel : Nat}
include h

theorem lt_size : id.index < tree.scopes.size := by
  cases h with
  | outermost found => exact lt_of_getElem? found
  | inner _ found => exact lt_of_getElem? found

theorem findUp {β : Type} {search : Scope → Option β} (hf : id.index < fuel) :
    tree.findUp search fuel (some id) = .ok (scopes.findSome? search) := by
  induction h generalizing fuel with
  | @outermost id scope found last =>
    obtain ⟨fuel, rfl⟩ : ∃ n, fuel = n + 1 := ⟨fuel - 1, by omega⟩
    simp only [ScopeTree.findUp, ScopeTree.scope, found, last, bind, Except.bind, findSome?_cons]
    cases search scope with
    | none => cases fuel <;> rfl
    | some answer => rfl
  | @inner id parent scope scopes outer found around later ih =>
    obtain ⟨fuel, rfl⟩ : ∃ n, fuel = n + 1 := ⟨fuel - 1, by omega⟩
    simp only [ScopeTree.findUp, ScopeTree.scope, found, around, bind, Except.bind, findSome?_cons]
    cases search scope with
    | none => exact ih (by omega)
    | some answer => rfl

theorem chainWhile (keep : Scope → Bool) (hf : id.index < fuel) : ∃ chain,
    tree.chainWhile keep fuel (some id) = .ok chain ∧ chain.map (·.2) = scopes.takeWhile keep := by
  induction h generalizing fuel with
  | @outermost id scope found last =>
    obtain ⟨fuel, rfl⟩ : ∃ n, fuel = n + 1 := ⟨fuel - 1, by omega⟩
    simp only [ScopeTree.chainWhile, ScopeTree.scope, found, last, bind, Except.bind, takeWhile_cons]
    cases keep scope with
    | false => exact ⟨[], rfl, rfl⟩
    | true => exact ⟨[(id, scope)], by cases fuel <;> rfl, rfl⟩
  | @inner id parent scope scopes outer found around later ih =>
    obtain ⟨fuel, rfl⟩ : ∃ n, fuel = n + 1 := ⟨fuel - 1, by omega⟩
    obtain ⟨chain, hchain, hscopes⟩ := ih (show parent.index < fuel by omega)
    simp only [ScopeTree.chainWhile, ScopeTree.scope, found, around, hchain, bind, Except.bind, takeWhile_cons]
    cases keep scope with
    | false => exact ⟨[], rfl, rfl⟩
    | true => exact ⟨(id, scope) :: chain, rfl, congrArg (scope :: ·) hscopes⟩

theorem lookup : tree.lookup id name = .ok (scopes.findSome? (·.entries.get? name)) :=
  h.findUp (Nat.lt_succ_of_lt h.lt_size)

theorem owner : tree.owner id = .ok (scopes.findSome? (·.owner)) :=
  h.findUp (Nat.lt_succ_of_lt h.lt_size)

theorem visibleNames : tree.visibleNames id = .ok (scopes.flatMap (·.entries.keys)) := by
  obtain ⟨chain, hchain, hscopes⟩ := h.chainWhile (fun _ => true) (Nat.lt_succ_of_lt h.lt_size)
  rw [takeWhile_eq_self_iff.mpr fun _ _ => rfl] at hscopes
  simp only [ScopeTree.visibleNames, chainBound, hchain, bind, Except.bind, pure, Except.pure]
  rw [← hscopes, flatMap_map]

theorem loopDepth : tree.loopDepth id =
    .ok ((scopes.takeWhile (!·.kind.endsLoops)).countP (·.kind = .loop)) := by
  obtain ⟨chain, hchain, hscopes⟩ := h.chainWhile (!·.kind.endsLoops) (Nat.lt_succ_of_lt h.lt_size)
  simp only [ScopeTree.loopDepth, chainBound, hchain, bind, Except.bind, pure, Except.pure]
  rw [← hscopes, countP_map]
  rfl

theorem inLoop : tree.inLoop id =
    .ok (decide (0 < (scopes.takeWhile (!·.kind.endsLoops)).countP (·.kind = .loop))) := by
  simp only [ScopeTree.inLoop, chainBound, h.findUp (Nat.lt_succ_of_lt h.lt_size), bind, Except.bind, pure, Except.pure]
  congr 1
  clear h
  induction scopes with
  | nil => rfl
  | cons scope scopes ih =>
    rw [findSome?_cons, takeWhile_cons]
    by_cases hl : scope.kind = .loop
    · simp [hl, show ScopeKind.endsLoops .loop = false from rfl]
    · by_cases he : scope.kind.endsLoops = true
      · simp [hl, he]
      · simpa [hl, he, countP_cons] using ih

end Chain

end ScopeTree

/-! ## Symbol tables -/

namespace SymbolTable

variable {τ : Type} {table table' : SymbolTable τ} {name : String} {type : τ} {storage : Storage} {span : FileSpan}

theorem ownerName_eq : table.ownerName = (table.tree.owner table.current : Except Fault _) := by
  unfold ownerName
  rcases table.tree.owner table.current with fault | _ | owner <;> rfl

theorem declare_eq_ok {id : BindingId} :
    table.declare name type storage span = (.ok (.ok id, table') : Except Fault _) ↔
      id = .local table.unit table.locals.size ∧ ∃ tree unitName owner,
        table.tree.define table.current name ⟨id, span⟩ = .ok (.ok (), tree) ∧
        table.index.unitName table.unit = .ok unitName ∧ tree.owner table.current = .ok owner ∧
        table' = { table with
          tree := tree
          locals := table.locals.push ⟨id, table.unit, name, Name.path (unitName :: owner.toList ++ [name]), type,
            storage, span⟩ } := by
  simp only [declare, ownerName_eq, Names.intern, Names.text, pure_bind, bind_eq_ok]
  constructor
  · rintro ⟨⟨defined, tree⟩, hdefine, h⟩
    cases defined with
    | error existing => cases h
    | ok done =>
      obtain ⟨unitName, hunit, h⟩ := bind_eq_ok.mp h
      obtain ⟨owner, howner, h⟩ := bind_eq_ok.mp h
      cases h
      exact ⟨rfl, tree, unitName, owner, hdefine, hunit, howner, rfl⟩
  · rintro ⟨rfl, tree, unitName, owner, hdefine, hunit, howner, rfl⟩
    exact ⟨_, hdefine, bind_eq_ok.mpr ⟨unitName, hunit, bind_eq_ok.mpr ⟨owner, howner, rfl⟩⟩⟩

theorem declare_eq_error {error : SymbolError} :
    table.declare name type storage span = (.ok (.error error, table') : Except Fault _) ↔
      ∃ scope existing, table.tree.scopes[table.current.index]? = some scope ∧
        scope.entries.get? name = some existing ∧ error = .duplicate name span existing.span ∧ table' = table := by
  simp only [declare, Names.intern, Names.text, pure_bind, bind_eq_ok]
  constructor
  · rintro ⟨⟨defined, tree⟩, hdefine, h⟩
    cases defined with
    | error existing =>
      cases h
      obtain ⟨⟨scope, hscope, hget⟩, rfl⟩ := ScopeTree.define_eq_error.mp hdefine
      exact ⟨scope, existing, hscope, hget, rfl, rfl⟩
    | ok done =>
      obtain ⟨unitName, hunit, h⟩ := bind_eq_ok.mp h
      obtain ⟨owner, howner, h⟩ := bind_eq_ok.mp h
      cases h
  · rintro ⟨scope, existing, hscope, hget, rfl, rfl⟩
    exact ⟨(.error existing, table'.tree), ScopeTree.define_eq_error.mpr ⟨⟨scope, hscope, hget⟩, rfl⟩, rfl⟩

end SymbolTable

end SsaCompiler
