import SsaCompiler.ModuleIndex
import SsaCompiler.Scope

/-!
# Symbol tables

The names visible at one place of a unit: the scopes that enclose it, the outermost holding the
items of the unit. Entering a scope adds one to the tree of scopes and makes it the current one;
leaving goes back to the scope around it.
-/

namespace SsaCompiler

structure SymbolTable (τ : Type) (κ : Type := String) where
  index : ModuleIndex τ κ
  unit : UnitId
  tree : ScopeTree κ
  current : ScopeId
  locals : Array (Binding τ κ)
deriving Repr

namespace SymbolTable

variable {τ κ : Type}

def defineItems [DecidableEq κ] : List (Binding τ κ) → ScopeTree κ → Except Fault (ScopeTree κ)
  | [], tree => .ok tree
  | item :: rest, tree => do
    let (defined, tree) ← tree.define ScopeTree.root item.name ⟨item.id, item.span⟩
    match defined with
    | .ok () => defineItems rest tree
    | .error _ => .error .clashingItems

/-- The table of a unit, at its outermost scope. -/
def forUnit [DecidableEq κ] (index : ModuleIndex τ κ) (unit : UnitId) :
    Except Fault (SymbolTable τ κ) := do
  let tree ← defineItems (index.unitItems unit) .new
  return ⟨index, unit, tree, ScopeTree.root, #[]⟩

def enterOwned (table : SymbolTable τ κ) (kind : ScopeKind) (owner : Option κ) :
    SymbolTable τ κ :=
  let (id, tree) := table.tree.addChild table.current kind owner
  { table with tree := tree, current := id }

def enter (table : SymbolTable τ κ) (kind : ScopeKind) : SymbolTable τ κ :=
  table.enterOwned kind none

def enterFunction (table : SymbolTable τ κ) (name : κ) : SymbolTable τ κ :=
  table.enterOwned .function (some name)

def exit (table : SymbolTable τ κ) : Except Fault (SymbolTable τ κ) := do
  let scope ← table.tree.scope table.current
  match scope.parent with
  | some parent => return { table with current := parent }
  | none => .error .leftUnitScope

/-- The binding with a given identifier, among the items of the module and the locals of the unit. -/
def binding? (table : SymbolTable τ κ) : BindingId → Option (Binding τ κ)
  | .item index => table.index.item? (.item index)
  | .local unit index => if unit = table.unit then table.locals[index]? else none

def inLoop (table : SymbolTable τ κ) : Except Fault Bool := table.tree.inLoop table.current

def loopDepth (table : SymbolTable τ κ) : Except Fault Nat := table.tree.loopDepth table.current

section

variable {m : Type → Type} [Monad m] [MonadLiftT (Except Fault) m] [Names κ m] [DecidableEq κ]

/-- The text of the function around the current scope. -/
def ownerName (table : SymbolTable τ κ) : m (Option String) := do
  match ← table.tree.owner table.current with
  | some key =>
    let name ← Names.text key
    return some name
  | none => return none

/-- Declares a parameter or local in the current scope. Its qualified name has the unit and the
function around it in front. -/
def declare (table : SymbolTable τ κ) (name : String) (type : τ) (storage : Storage)
    (span : FileSpan) : m (Except SymbolError BindingId × SymbolTable τ κ) := do
  let key ← Names.intern name
  let id := BindingId.local table.unit table.locals.size
  let (defined, tree) ← table.tree.define table.current key ⟨id, span⟩
  let table := { table with tree := tree }
  match defined with
  | .error existing => return (.error (.duplicate name span existing.span), table)
  | .ok () =>
    let unitKey ← table.index.unitName table.unit
    let unitName ← Names.text unitKey
    let owner ← table.ownerName
    let qualified ← Names.intern (Name.path (unitName :: owner.toList ++ [name]))
    let binding : Binding τ κ := ⟨id, table.unit, key, qualified, type, storage, span⟩
    return (.ok id, { table with locals := table.locals.push binding })

/-- The binding of a name without qualification, from the current scope outward. -/
def visible? (table : SymbolTable τ κ) (name : String) : m (Option (Binding τ κ)) := do
  match ← Names.find? name with
  | some key =>
    let entry ← table.tree.lookup table.current key
    return entry.bind fun entry => table.binding? entry.binding
  | none => return none

def item? (table : SymbolTable τ κ) (name : String) : m (Option (Binding τ κ)) := do
  let key ← Names.find? name
  return key.bind table.index.lookup?

/-- The binding of a name: a qualified one among the items of the module, any other from the current
scope outward. -/
def resolve (table : SymbolTable τ κ) (name : String) (span : FileSpan) :
    m (Except SymbolError (Binding τ κ)) := do
  if Name.isQualified name then
    match ← table.item? name with
    | some binding => return .ok binding
    | none =>
      let items ← Names.texts table.index.qualifiedNames
      return .error (.unbound name span items)
  else
    match ← table.visible? name with
    | some binding => return .ok binding
    | none =>
      let keys ← table.tree.visibleNames table.current
      let visible ← Names.texts keys
      return .error (.unbound name span visible)

end

end SymbolTable

end SsaCompiler
