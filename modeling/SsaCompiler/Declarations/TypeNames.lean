import SsaCompiler.Declarations.Basic

/-!
# Type names, aliases and fields

Struct names are entered first, with their structs still without fields. Aliases are then expanded
when they are needed: an alias that is reached again while it is being expanded refers to itself,
which is reported there, and it stands for `error` from then on. With all names known the fields of
the structs get their types.
-/

namespace SsaCompiler

structure UnitRef where
  id : UnitId
  name : String
deriving DecidableEq, Repr

/-- An alias that may still have to be expanded. -/
structure PendingAlias where
  unit : UnitRef
  decl : AliasDecl
deriving Repr

/-- The declarations so far, with what is needed to expand aliases. -/
structure Collector (κ : Type := String) where
  decls : Declarations κ
  aliases : Table κ PendingAlias
  expanding : List κ

/-- The key of a name that is an alias. -/
def Collector.pending? {κ : Type} {m : Type → Type} [Monad m] [Names κ m] [DecidableEq κ]
    (c : Collector κ) (name : String) : m (Option κ) := do
  let key ← Names.find? name
  return key.filter c.aliases.contains

/-- A step of collection, with names kept as keys `κ`. -/
abbrev CollectWith (κ : Type) (m : Type → Type) := StateT (Collector κ) m

abbrev Collect := CollectWith String Id

namespace Collect

variable {κ : Type} {m : Type → Type} [Monad m]

def modifyDecls (change : Declarations κ → Declarations κ) : CollectWith κ m Unit :=
  modify fun c => { c with decls := change c.decls }

def report (unit : UnitId) (error : TypeError) : CollectWith κ m Unit :=
  modifyDecls fun decls => { decls with errors := decls.errors.push (unit, error) }

variable [Names κ m] [DecidableEq κ]

/-- Claims a type name; gives the key of its qualified form unless it was declared before. -/
def claimTypeName (unit : UnitRef) (name : String) (span : FileSpan) :
    CollectWith κ m (Option κ) := do
  let key ← Names.intern (m := m) (Declarations.qualify unit.name name)
  let c ← get
  match c.decls.typeSpans.get? key with
  | some first =>
    report unit.id (.duplicate name span first)
    return none
  | none =>
    modifyDecls fun decls => { decls with typeSpans := decls.typeSpans.insert key span }
    return some key

def declareStruct (unit : UnitRef) (decl : StructDecl) : CollectWith κ m (Option StructId) := do
  match ← claimTypeName unit decl.name decl.span with
  | none => return none
  | some key =>
    let c ← get
    let id : StructId := ⟨c.decls.structs.size⟩
    modifyDecls fun decls =>
      { decls with
        structs := decls.structs.push ⟨Declarations.qualify unit.name decl.name, [], decl.span⟩
        types := decls.types.insert key (.aggregate id) }
    return some id

def declareAlias (unit : UnitRef) (decl : AliasDecl) : CollectWith κ m Unit := do
  match ← claimTypeName unit decl.name decl.span with
  | none => return ()
  | some key => modify fun c => { c with aliases := c.aliases.insert key ⟨unit, decl⟩ }

/-- The type of a name used inside a unit; an alias is expanded by `expand`. -/
def namedType (expand : κ → CollectWith κ m Ty) (unit : UnitRef) (name : String)
    (span : FileSpan) : ExceptT TypeError (CollectWith κ m) Ty := do
  let c ← getThe (Collector κ)
  match ← c.decls.lookupType? (m := m) unit.name name with
  | some type => return type
  | none =>
    match ← c.pending? (m := m) (Declarations.qualify unit.name name) with
    | some key =>
      let type ← ExceptT.lift (expand key)
      return type
    | none => throw (← c.decls.unboundType (m := m) unit.name name span)

/-- The type of a type expression written inside a unit. The aliases in it are expanded by `expand`.
A name that is not known makes the whole type an `error`. -/
def lowerTypeWith (expand : κ → CollectWith κ m Ty) (unit : UnitRef) (type : TypeExpr) :
    CollectWith κ m Ty := do
  let result ← (type.typeWith (namedType expand unit)).run
  match result with
  | .ok type => return type
  | .error error =>
    report unit.id error
    return .error

/-- The type that an alias stands for. The count bounds the aliases being expanded at a time. -/
def expandAlias : Nat → κ → CollectWith κ m Ty
  | 0, _ => return .error
  | fuel + 1, key => do
    let c ← get
    match c.decls.types.get? key with
    | some type => return type
    | none =>
      match c.aliases.get? key with
      | none => return .error
      | some found =>
        if c.expanding.contains key then
          report found.unit.id (.cyclic found.decl.name found.decl.span)
          modifyDecls fun decls => { decls with types := decls.types.insert key .error }
          return .error
        else
          set { c with expanding := key :: c.expanding }
          let type ← lowerTypeWith (expandAlias fuel) found.unit found.decl.type
          modify fun c => { c with expanding := c.expanding.erase key }
          let c ← get
          match c.decls.types.get? key with
          | some known => return known
          | none =>
            modifyDecls fun decls => { decls with types := decls.types.insert key type }
            return type

def expand (key : κ) : CollectWith κ m Ty := do
  let c ← get
  expandAlias (c.aliases.size + 1) key

def lowerType (unit : UnitRef) (type : TypeExpr) : CollectWith κ m Ty :=
  lowerTypeWith expand unit type

/-- The type of what a function returns. -/
def lowerResult (unit : UnitRef) : Option TypeExpr → CollectWith κ m Ty
  | some type => lowerType unit type
  | none => return .unit

/-- The type of a type expression that has to be the type of a value. -/
def lowerValueType (unit : UnitRef) (type : TypeExpr) : CollectWith κ m Ty := do
  let lowered ← lowerType unit type
  if lowered.isUnit then
    report unit.id (.mismatch "a value type" "unit" type.span)
    return .error
  else return lowered

/-- Adds a field to those before it, unless one of them has its name. -/
def addField (unit : UnitRef) (fields : List FieldDef) (field : FieldDecl) :
    CollectWith κ m (List FieldDef) := do
  match fields.find? (·.name = field.name) with
  | some first =>
    report unit.id (.duplicate field.name field.span first.span)
    return fields
  | none =>
    let type ← lowerValueType unit field.type
    return fields ++ [⟨field.name, type, field.span⟩]

def fillStruct (unit : UnitRef) (id : StructId) (decl : StructDecl) : CollectWith κ m Unit := do
  let fields ← decl.fields.foldlM (addField unit) []
  modifyDecls fun decls =>
    { decls with structs := decls.structs.modify id.index fun struct => { struct with fields } }

end Collect

end SsaCompiler
