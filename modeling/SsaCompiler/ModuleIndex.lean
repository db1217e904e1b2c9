import SsaCompiler.Name
import SsaCompiler.Names
import SsaCompiler.SymbolError
import SsaCompiler.Table

/-!
# The index of a module

All items of a module by qualified name, in the order of their declaration, and the locals of the
units that have been checked. A qualified name has at most one item; it may have many locals, since
a function may declare a name again in another scope.
-/

namespace SsaCompiler

structure ModuleIndex (τ : Type) (κ : Type := String) where
  units : Array κ
  items : Array (Binding τ κ)
  /-- The locals by qualified name, those of one name in the order in which they were absorbed. -/
  locals : Table κ (List (Binding τ κ))
deriving DecidableEq, Repr

namespace ModuleIndex

variable {τ κ : Type}

def empty : ModuleIndex τ κ := ⟨#[], #[], .empty⟩

def addUnit (index : ModuleIndex τ κ) (name : κ) : UnitId × ModuleIndex τ κ :=
  (⟨index.units.size⟩, { index with units := index.units.push name })

def unitName (index : ModuleIndex τ κ) (unit : UnitId) : Except Fault κ :=
  match index.units[unit.index]? with
  | some name => .ok name
  | none => .error .outOfRange

def unitByName? [DecidableEq κ] (index : ModuleIndex τ κ) (name : κ) : Option UnitId :=
  (index.units.findIdx? (· = name)).map UnitId.mk

def lookup? [DecidableEq κ] (index : ModuleIndex τ κ) (qualified : κ) : Option (Binding τ κ) :=
  index.items.find? (·.qualified = qualified)

def declareItem {m : Type → Type} [Monad m] [MonadLiftT (Except Fault) m] [Names κ m]
    [DecidableEq κ] (index : ModuleIndex τ κ) (unit : UnitId) (name : String) (type : τ)
    (storage : Storage) (span : FileSpan) :
    m (Except SymbolError BindingId × ModuleIndex τ κ) := do
  let unitKey ← index.unitName unit
  let unitName ← Names.text unitKey
  let qualified ← Names.intern (Name.path [unitName, name])
  match index.lookup? qualified with
  | some existing => return (.error (.duplicate name span existing.span), index)
  | none =>
    let key ← Names.intern name
    let id := BindingId.item index.items.size
    let binding : Binding τ κ := ⟨id, unit, key, qualified, type, storage, span⟩
    return (.ok id, { index with items := index.items.push binding })

def item? (index : ModuleIndex τ κ) : BindingId → Option (Binding τ κ)
  | .item position => index.items[position]?
  | .local _ _ => none

def unitItems (index : ModuleIndex τ κ) (unit : UnitId) : List (Binding τ κ) :=
  index.items.toList.filter (·.unit = unit)

def localsNamed [DecidableEq κ] (index : ModuleIndex τ κ) (qualified : κ) :
    List (Binding τ κ) :=
  (index.locals.get? qualified).getD []

/-- Takes over a local, behind those of its name. -/
def addLocal [DecidableEq κ] (index : ModuleIndex τ κ) (binding : Binding τ κ) : ModuleIndex τ κ :=
  let named := index.localsNamed binding.qualified ++ [binding]
  { index with locals := index.locals.insert binding.qualified named }

def absorb [DecidableEq κ] (index : ModuleIndex τ κ) (locals : List (Binding τ κ)) :
    ModuleIndex τ κ :=
  locals.foldl addLocal index

def qualifiedNames (index : ModuleIndex τ κ) : List κ :=
  index.items.toList.map (·.qualified)

end ModuleIndex

end SsaCompiler
