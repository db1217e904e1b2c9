import SsaCompiler.Fault
import SsaCompiler.Table

/-!
# Scope trees

Scopes stand in a table and refer to the scope around them. A name is looked up in a scope and then
outward, so a declaration hides those of the scopes around it. Scopes are never removed.
-/

namespace SsaCompiler

structure ScopeId where
  index : Nat
deriving DecidableEq, Repr, Inhabited

inductive ScopeKind where
  | unit | function | block | loop
deriving DecidableEq, Repr

namespace ScopeKind

def name : ScopeKind → String
  | unit => "Unit" | function => "Function" | block => "Block" | loop => "Loop"

def ofName? (text : String) : Option ScopeKind :=
  [unit, function, block, loop].find? (·.name = text)

/-- Whether a search for enclosing loops ends at such a scope. -/
def endsLoops : ScopeKind → Bool
  | unit | function => true
  | block | loop => false

end ScopeKind

structure ScopeEntry where
  binding : BindingId
  span : FileSpan
deriving DecidableEq, Repr

structure Scope (κ : Type := String) where
  parent : Option ScopeId
  kind : ScopeKind
  owner : Option κ
  entries : Table κ ScopeEntry
deriving Repr

/-- A tree of scopes. The first one is the root. -/
structure ScopeTree (κ : Type := String) where
  scopes : Array (Scope κ)
deriving Repr

namespace ScopeTree

variable {κ : Type}

def new : ScopeTree κ := ⟨#[⟨none, .unit, none, .empty⟩]⟩

def root : ScopeId := ⟨0⟩

def scope (tree : ScopeTree κ) (id : ScopeId) : Except Fault (Scope κ) :=
  match tree.scopes[id.index]? with
  | some scope => .ok scope
  | none => .error .outOfRange

/-- Adds a scope inside `parent`, which is not looked at. -/
def addChild (tree : ScopeTree κ) (parent : ScopeId) (kind : ScopeKind) (owner : Option κ) :
    ScopeId × ScopeTree κ :=
  (⟨tree.scopes.size⟩, ⟨tree.scopes.push ⟨some parent, kind, owner, .empty⟩⟩)

/-- Declares a name in a scope; the declaration that is already there is given back instead. -/
def define [DecidableEq κ] (tree : ScopeTree κ) (id : ScopeId) (name : κ) (entry : ScopeEntry) :
    Except Fault (Except ScopeEntry Unit × ScopeTree κ) := do
  let scope ← tree.scope id
  match scope.entries.get? name with
  | some existing => return (.error existing, tree)
  | none =>
    let scope := { scope with entries := scope.entries.insert name entry }
    return (.ok (), ⟨tree.scopes.setIfInBounds id.index scope⟩)

/-- The first answer of `found`, from a scope outward. -/
def findUp {β : Type} (tree : ScopeTree κ) (found : Scope κ → Option β) :
    Nat → Option ScopeId → Except Fault (Option β)
  | _, none => .ok none
  | 0, some _ => .error .endless
  | fuel + 1, some id => do
    let scope ← tree.scope id
    match found scope with
    | some answer => .ok (some answer)
    | none => tree.findUp found fuel scope.parent

/-- The scopes from `id` outward, as long as `keep` holds of them. -/
def chainWhile (tree : ScopeTree κ) (keep : Scope κ → Bool) :
    Nat → Option ScopeId → Except Fault (List (ScopeId × Scope κ))
  | _, none => .ok []
  | 0, some _ => .error .endless
  | fuel + 1, some id => do
    let scope ← tree.scope id
    if keep scope then
      let outer ← tree.chainWhile keep fuel scope.parent
      .ok ((id, scope) :: outer)
    else .ok []

/-- The number of scopes that bounds every chain of distinct scopes. -/
def chainBound (tree : ScopeTree κ) : Nat := tree.scopes.size + 1

def lookup [DecidableEq κ] (tree : ScopeTree κ) (id : ScopeId) (name : κ) :
    Except Fault (Option ScopeEntry) :=
  tree.findUp (·.entries.get? name) tree.chainBound (some id)

def ancestors (tree : ScopeTree κ) (id : ScopeId) : Except Fault (List ScopeId) := do
  let chain ← tree.chainWhile (fun _ => true) tree.chainBound (some id)
  return chain.map (·.1)

/-- The names visible in a scope, a hidden one as often as it is declared. -/
def visibleNames (tree : ScopeTree κ) (id : ScopeId) : Except Fault (List κ) := do
  let chain ← tree.chainWhile (fun _ => true) tree.chainBound (some id)
  return chain.flatMap (·.2.entries.keys)

/-- Whether a loop of the same function encloses a scope. -/
def inLoop (tree : ScopeTree κ) (id : ScopeId) : Except Fault Bool := do
  let answer ← tree.findUp
    (fun scope =>
      if scope.kind = .loop then some true
      else if scope.kind.endsLoops then some false
      else none)
    tree.chainBound (some id)
  return answer.getD false

/-- The number of loops of the same function that enclose a scope. -/
def loopDepth (tree : ScopeTree κ) (id : ScopeId) : Except Fault Nat := do
  let chain ← tree.chainWhile (fun scope => !scope.kind.endsLoops) tree.chainBound (some id)
  return chain.countP (·.2.kind = .loop)

def owner (tree : ScopeTree κ) (id : ScopeId) : Except Fault (Option κ) :=
  tree.findUp (·.owner) tree.chainBound (some id)

end ScopeTree

end SsaCompiler
