import SsaCompiler.Proofs.Declarations.Settled

/-!
# Globals and functions

Once all type names stand for something, globals and functions are entered one after the other, each
under its qualified name unless that is taken (`Values.enter`); all else that changes are the errors
(`Collect.declareItems_settled`). The index and the lists of globals and functions then name the
same items (`Values.Ok`).
-/

namespace SsaCompiler

open List

/-! ## What items declare -/

/-- A function that is written in a unit. -/
structure WrittenFunction where
  unit : UnitRef
  itemIndex : Nat
  decl : FunctionDecl

namespace WrittenFunction

variable (types : String → Option Ty) (written : WrittenFunction)

/-- The types of the parameters; one that is no type of a value is an error. -/
def params : List Ty :=
  written.decl.params.map fun param => (param.type.valueType? written.unit.name types).getD .error

def result : Ty := (written.decl.result.map fun type => (type.type? written.unit.name types).getD .error).getD .unit

def item (binding : BindingId) : FunctionItem where
  binding := binding
  unit := written.unit.id
  itemIndex := written.itemIndex
  name := Declarations.qualify written.unit.name written.decl.name
  params := written.params types
  result := written.result types
  varargs := written.decl.isVarargs
  linkName := written.decl.linkName?
  isExternal := written.decl.isExternal
  span := written.decl.span

/-- All names in the types of a function stand for something. -/
def Resolves : Prop :=
  (∀ param ∈ written.decl.params, (param.type.valueType? written.unit.name types).isSome = true) ∧
    ∀ type ∈ written.decl.result, (type.type? written.unit.name types).isSome = true

end WrittenFunction

namespace GlobalDecl

variable (types : String → Option Ty) (unit : UnitRef) (decl : GlobalDecl)

def typeIn : Ty := (decl.type.valueType? unit.name types).getD .error

def item (binding : BindingId) : GlobalItem where
  binding := binding
  unit := unit.id
  name := Declarations.qualify unit.name decl.name
  type := decl.typeIn types unit
  init := decl.init
  span := decl.span

end GlobalDecl

/-- The globals and functions of a module, with their places in the index. -/
structure Values where
  items : Array (Binding Ty)
  functions : Array FunctionItem
  globals : Array GlobalItem

namespace Values

variable (types : String → Option Ty) (unit : UnitRef) (values : Values)

/-- A name is that of an item. -/
def Taken (name : String) : Prop :=
  ∃ item ∈ values.items.toList, item.qualified = Name.path [unit.name, name]

instance (name : String) : Decidable (values.Taken unit name) := by
  unfold Taken
  infer_instance

def place (name : String) (type : Ty) (storage : Storage) (span : FileSpan) : Binding Ty :=
  ⟨.item values.items.size, unit.id, name, Name.path [unit.name, name], type, storage, span⟩

/-- With a global or a function, unless its name is taken. -/
def enter (item : Item × Nat) : Values :=
  match item with
  | (.global decl, _) =>
    if values.Taken unit decl.name then values
    else
      { values with
        items := values.items.push (values.place unit decl.name (decl.typeIn types unit) .global decl.span)
        globals := values.globals.push (decl.item types unit (.item values.items.size)) }
  | (.function decl, index) =>
    if values.Taken unit decl.name then values
    else
      { values with
        items := values.items.push (values.place unit decl.name
          (WrittenFunction.item types ⟨unit, index, decl⟩ (.item values.items.size)).type .function decl.span)
        functions := values.functions.push (WrittenFunction.item types ⟨unit, index, decl⟩ (.item values.items.size)) }
  | _ => values

end Values

namespace Collector

def values (c : Collector) : Values := ⟨c.decls.index.items, c.decls.functions, c.decls.globals⟩

def withValues (c : Collector) (values : Values) : Collector :=
  { c with decls :=
    { c.decls with
      index := { c.decls.index with items := values.items }
      functions := values.functions
      globals := values.globals } }

end Collector

def writtenItems (units : List (UnitRef × SourceUnit)) : List (UnitRef × Item × Nat) :=
  units.flatMap fun unit => unit.2.items.zipIdx.map fun item => (unit.1, item)

namespace Values

variable {types : String → Option Ty} {values : Values}

def enterAll (types : String → Option Ty) (values : Values) (written : List (UnitRef × Item × Nat)) : Values :=
  written.foldl (fun values item => values.enter types item.1 item.2) values

theorem enterAll_append {written more : List (UnitRef × Item × Nat)} :
    values.enterAll types (written ++ more) = (values.enterAll types written).enterAll types more :=
  foldl_append

/-- An item whose types are known and whose name is free. -/
def Declared (types : String → Option Ty) (unit : UnitRef) (values : Values) : Item × Nat → Prop
  | (.global decl, _) => (decl.type.valueType? unit.name types).isSome = true ∧ ¬ values.Taken unit decl.name
  | (.function decl, index) => WrittenFunction.Resolves types ⟨unit, index, decl⟩ ∧ ¬ values.Taken unit decl.name
  | _ => True

/-- Items that are all entered without an error. -/
def AllDeclared (types : String → Option Ty) : Values → List (UnitRef × Item × Nat) → Prop
  | _, [] => True
  | values, item :: rest => values.Declared types item.1 item.2 ∧ (values.enter types item.1 item.2).AllDeclared types rest

theorem allDeclared_append {written more : List (UnitRef × Item × Nat)} : values.AllDeclared types (written ++ more) ↔
    values.AllDeclared types written ∧ (values.enterAll types written).AllDeclared types more := by
  induction written generalizing values with
  | nil => simp [AllDeclared, enterAll]
  | cons item rest ih =>
    rw [cons_append, AllDeclared, AllDeclared, ih, and_assoc]
    rfl

end Values

theorem Literal.isCyclic_of_type_eq_error {literal : Literal} {span : FileSpan} {error : TypeError}
    (h : literal.type span = .error error) : error.isCyclic = false := by
  unfold Literal.type at h
  split at h
  · dsimp only at h
    split at h
    · split at h <;> cases h
      rfl
    · cases h
      rfl
  · dsimp only at h
    split at h <;> cases h
    rfl
  all_goals cases h

/-! ## Entering them -/

namespace Collect

variable {c : Collector} {types : String → Option Ty} {unit : UnitRef} {name : String} {type : Ty}
variable {storage : Storage} {decl : GlobalDecl} {span : FileSpan}

theorem declareItem_taken (hunit : c.decls.index.unitName unit.id = .ok unit.name)
    (h : c.values.Taken unit name) : ∃ error, error.isCyclic = false ∧
      (declareItem unit name type storage span).run c = (.ok (none, c.noting [(unit.id, error)]) : Except Fault _) := by
  obtain ⟨item, hi, hq⟩ := h
  have hsome : c.decls.index.lookup? (Name.path [unit.name, name]) ≠ none := by
    unfold ModuleIndex.lookup?
    rw [ne_eq, Array.find?_eq_none]
    exact fun hnone => hnone item (Array.mem_toList_iff.mp hi) (by simpa using hq)
  obtain ⟨existing, hexisting⟩ := Option.ne_none_iff_exists'.mp hsome
  refine ⟨.ofSymbolError (.duplicate name span existing.span), rfl, ?_⟩
  have hentered : c.decls.index.declareItem unit.id name type storage span =
      (.ok (.error (.duplicate name span existing.span), c.decls.index) : Except Fault _) :=
    ModuleIndex.declareItem_eq_ok.mpr ⟨unit.name, hunit, .inl ⟨existing, hexisting, rfl, rfl⟩⟩
  simp only [declareItem, run_bind_eq_ok, run_get_eq_ok, run_lift_eq_ok]
  exact ⟨c, c, ⟨rfl, rfl⟩, _, c, ⟨hentered, rfl⟩, rfl⟩

theorem declareItem_free (hunit : c.decls.index.unitName unit.id = .ok unit.name) (h : ¬ c.values.Taken unit name) :
    (declareItem unit name type storage span).run c = (.ok (some (.item c.values.items.size), c.withValues
      { c.values with items := c.values.items.push (c.values.place unit name type storage span) }) : Except Fault _) := by
  have hnone : c.decls.index.lookup? (Name.path [unit.name, name]) = none := by
    unfold ModuleIndex.lookup?
    rw [Array.find?_eq_none]
    exact fun item hi hq => h ⟨item, Array.mem_toList_iff.mpr hi, by simpa using hq⟩
  have hentered : c.decls.index.declareItem unit.id name type storage span =
      (.ok (.ok (.item c.values.items.size), (c.withValues { c.values with
        items := c.values.items.push (c.values.place unit name type storage span) }).decls.index) : Except Fault _) :=
    ModuleIndex.declareItem_eq_ok.mpr ⟨unit.name, hunit, .inr ⟨hnone, rfl, rfl⟩⟩
  simp only [declareItem, run_bind_eq_ok, run_get_eq_ok, run_lift_eq_ok]
  exact ⟨c, c, ⟨rfl, rfl⟩, _, c, ⟨hentered, rfl⟩, rfl⟩

theorem checkInitializer_noted : Noted (· = unit.id) (outcome (checkInitializer unit decl type) c) () c True := by
  unfold checkInitializer
  split
  · exact .pure trivial
  · split
    · rename_i error herror
      exact .report (Literal.isCyclic_of_type_eq_error herror)
    · split
      · exact .pure trivial
      · exact .report rfl

/-- A step that may fail gives `a` and ends in `c`, up to errors. -/
def NotedOk {α : Type} (ids : UnitId → Prop) (result : Except Fault (α × Collector)) (a : α) (c : Collector)
    (exact : Prop) : Prop :=
  ∃ given, result = .ok given ∧ Noted ids given a c exact

namespace NotedOk

variable {α β : Type} {ids : UnitId → Prop} {a : α} {b : β} {c1 c2 : Collector} {P Q : Prop}

theorem bind {x : StateT Collector (Except Fault) α} {f : α → StateT Collector (Except Fault) β}
    (hx : NotedOk ids (x.run c) a c1 P) (hf : ∀ errors, NotedOk ids ((f a).run (c1.noting errors)) b (c2.noting errors) Q) :
    NotedOk ids ((x >>= f).run c) b c2 (P ∧ Q) := by
  obtain ⟨given, hrun, errors, rfl, herrors, hexact⟩ := hx
  obtain ⟨given', hrun', more, rfl, hmore, hexact'⟩ := hf errors
  refine ⟨_, run_bind_eq_ok.mpr ⟨_, _, hrun, hrun'⟩, errors ++ more, by simp,
    forall_mem_append.mpr ⟨herrors, hmore⟩, fun hnil => ?_⟩
  obtain ⟨hnil, hnil'⟩ := append_eq_nil_iff.mp hnil
  exact ⟨hexact hnil, hexact' hnil'⟩

theorem lift {x : Collect α} (h : Noted ids (outcome x c) a c1 P) :
    NotedOk ids ((lift x : StateT Collector (Except Fault) α).run c) a c1 P :=
  ⟨_, rfl, h⟩

theorem mono {ids' : UnitId → Prop} {result : Except Fault (α × Collector)} (h : NotedOk ids result a c P)
    (hids : ∀ id, ids id → ids' id) (hp : P → Q) : NotedOk ids' result a c Q := by
  obtain ⟨given, hgiven, h⟩ := h
  exact ⟨given, hgiven, h.mono hids hp⟩

theorem declareItem {type : Ty} {storage : Storage} {span : FileSpan}
    (hunit : c.decls.index.unitName unit.id = .ok unit.name)
    {next : Option BindingId → StateT Collector (Except Fault) Unit} {values : Values}
    (hnone : ∀ c, (next none).run c = .ok ((), c))
    (hsome : ∀ c1 : Collector, (next (some (.item c.values.items.size))).run (c1.withValues { c.values with
      items := c.values.items.push (c.values.place unit name type storage span) }) = .ok ((), c1.withValues values)) :
    NotedOk (· = unit.id) ((declareItem unit name type storage span >>= next).run c) ()
      (c.withValues (if c.values.Taken unit name then c.values else values)) (¬ c.values.Taken unit name) := by
  split
  · rename_i htaken
    obtain ⟨error, he, hrun⟩ := declareItem_taken hunit htaken
    refine ⟨_, run_bind_eq_ok.mpr ⟨_, _, hrun, hnone _⟩, [(unit.id, error)], rfl, by simp [he], by simp⟩
  · rename_i hfree
    exact ⟨_, run_bind_eq_ok.mpr ⟨_, _, declareItem_free hunit hfree, hsome _⟩, .pure hfree⟩

end NotedOk

variable (hc : c.Settled types) {index : Nat}
include hc

theorem declareGlobal_settled (hunit : c.decls.index.unitName unit.id = .ok unit.name) :
    NotedOk (· = unit.id) ((declareGlobal unit decl).run c) ()
      (c.withValues (c.values.enter types unit (.global decl, index)))
      (c.values.Declared types unit (.global decl, index)) := by
  refine ((NotedOk.lift (lowerValueType_settled hc)).bind fun errors =>
    (NotedOk.lift checkInitializer_noted).bind fun errors' => ?_).mono (fun _ h => h) fun h => ⟨h.1, h.2.2⟩
  exact .declareItem (c := (c.noting errors).noting errors') hunit (fun _ => rfl) fun _ => rfl

theorem lowerValueTypes_settled {params : List Param} :
    Noted (· = unit.id) (outcome (params.mapM fun param => lowerValueType unit param.type) c)
      (params.map fun param => (param.type.valueType? unit.name types).getD .error) c
      (∀ param ∈ params, (param.type.valueType? unit.name types).isSome = true) := by
  induction params generalizing c with
  | nil => exact .pure (by simp)
  | cons param rest ih =>
    rw [mapM_cons]
    refine ((lowerValueType_settled hc).bind
      (Q := ∀ param ∈ rest, (param.type.valueType? unit.name types).isSome = true) fun errors => ?_).mono
      (fun _ h => h) fun h => forall_mem_cons.mpr h
    refine ((ih (c := c.noting errors) ⟨hc.known, hc.aliases⟩).bind (Q := True) fun _ => ?_).mono (fun _ h => h) And.left
    exact .pure trivial

theorem lowerResult_settled {result : Option TypeExpr} : Noted (· = unit.id) (outcome (lowerResult unit result) c)
      ((result.map fun type => (type.type? unit.name types).getD .error).getD .unit) c
      (∀ type ∈ result, (type.type? unit.name types).isSome = true) := by
  cases result with
  | none => exact .pure (by simp)
  | some type => exact (lowerType_settled hc unit type).mono (fun _ h => h) fun h => by simpa using h

theorem declareFunction_settled (hunit : c.decls.index.unitName unit.id = .ok unit.name)
    {decl : FunctionDecl} : NotedOk (· = unit.id) ((declareFunction unit index decl).run c) ()
      (c.withValues (c.values.enter types unit (.function decl, index)))
      (c.values.Declared types unit (.function decl, index)) := by
  refine ((NotedOk.lift (lowerValueTypes_settled hc)).bind fun errors =>
    (NotedOk.lift (lowerResult_settled (c := c.noting errors) ⟨hc.known, hc.aliases⟩)).bind fun errors' => ?_).mono
    (fun _ h => h) fun h => ⟨⟨h.1, h.2.1⟩, h.2.2⟩
  exact .declareItem (c := (c.noting errors).noting errors') hunit (fun _ => rfl) fun _ => rfl

theorem declareValues_settled (hunit : c.decls.index.unitName unit.id = .ok unit.name)
    {items : List (Item × Nat)} : NotedOk (· = unit.id) ((declareValues unit items).run c) ()
      (c.withValues (c.values.enterAll types (items.map fun item => (unit, item))))
      (c.values.AllDeclared types (items.map fun item => (unit, item))) := by
  induction items generalizing c with
  | nil => exact ⟨_, rfl, .pure trivial⟩
  | cons item rest ih =>
    obtain ⟨item, index⟩ := item
    have hrest : ∀ values errors, NotedOk (· = unit.id)
        ((declareValues unit rest).run ((c.withValues values).noting errors)) ()
        ((c.withValues (values.enterAll types (rest.map fun item => (unit, item)))).noting errors)
        (values.AllDeclared types (rest.map fun item => (unit, item))) :=
      fun values errors => ih (c := (c.withValues values).noting errors) ⟨hc.known, hc.aliases⟩ hunit
    cases item with
    | global decl => exact (declareGlobal_settled hc hunit).bind (hrest _)
    | function decl => exact (declareFunction_settled hc hunit).bind (hrest _)
    | struct | typeAlias =>
      rw [declareValues]
      · exact (hrest c.values []).mono (fun _ h => h) fun h => ⟨trivial, h⟩
      · simp
      · simp

theorem declareItems_settled {units : List (UnitRef × SourceUnit)}
    (hunits : ∀ u ∈ units, c.decls.index.unitName u.1.id = .ok u.1.name) :
    NotedOk (fun id => ∃ u ∈ units, id = u.1.id) (StateT.run (forIn units PUnit.unit fun (unit, source) _ => do
        declareValues unit source.items.zipIdx
        pure (ForInStep.yield PUnit.unit)) c) ⟨⟩
      (c.withValues (c.values.enterAll types (writtenItems units))) (c.values.AllDeclared types (writtenItems units)) := by
  induction units generalizing c with
  | nil => exact ⟨_, rfl, .pure trivial⟩
  | cons u rest ih =>
    rw [forall_mem_cons] at hunits
    simp only [forIn_cons, bind_assoc]
    have hwritten : writtenItems (u :: rest) = (u.2.items.zipIdx.map fun item => (u.1, item)) ++ writtenItems rest := rfl
    rw [hwritten, Values.enterAll_append]
    refine (((declareValues_settled hc hunits.1).mono (fun id h => ⟨u, mem_cons_self, h⟩)
      fun h => h).bind fun errors => ?_).mono (fun _ h => h) Values.allDeclared_append.mpr
    exact (ih (c := (c.withValues _).noting errors) ⟨hc.known, hc.aliases⟩ hunits.2).mono
      (fun id h => by obtain ⟨u, hu, h⟩ := h; exact ⟨u, .tail _ hu, h⟩) fun h => h

end Collect

/-! ## Items that stand for globals and functions -/

theorem forall_mem_push {α : Type} {p : α → Prop} {xs : Array α} {a : α} :
    (∀ x ∈ (xs.push a).toList, p x) ↔ (∀ x ∈ xs.toList, p x) ∧ p a := by
  rw [Array.toList_push, forall_mem_append, forall_mem_singleton]

namespace Values

variable {types : String → Option Ty} {values : Values} {names : Array String} {good value : Ty → Prop}
variable {unit : UnitRef}

def index (names : Array String) (values : Values) : ModuleIndex Ty := ⟨names, values.items, .empty⟩

/-- The index lists the globals and functions in order. Their types are `good`, and those of globals and
parameters are types of a `value`. -/
structure Ok (names : Array String) (good value : Ty → Prop) (values : Values) : Prop where
  sound : (values.index names).Sound
  storages : ∀ item ∈ values.items.toList, item.storage = .global ∨ item.storage = .function
  globals : values.globals.toList.map (fun g => (g.binding, g.type)) =
    (values.items.toList.filter (·.storage = .global)).map fun item => (item.id, item.type)
  functions : values.functions.toList.map (fun f => (f.binding, f.type)) =
    (values.items.toList.filter (·.storage = .function)).map fun item => (item.id, item.type)
  globalTypes : ∀ g ∈ values.globals.toList, good g.type ∧ value g.type
  functionTypes : ∀ f ∈ values.functions.toList, good f.type ∧ ∀ param ∈ f.params, value param

theorem Ok.empty : Ok names good value ⟨#[], #[], #[]⟩ :=
  ⟨⟨by simp [index], by simp [index], by simp [index]⟩, by simp, by simp, by simp, by simp, by simp⟩

/-- The types of an item are of the kinds asked for. -/
def Typed (types : String → Option Ty) (good value : Ty → Prop) (unit : UnitRef) : Item × Nat → Prop
  | (.global decl, _) => good (decl.typeIn types unit) ∧ value (decl.typeIn types unit)
  | (.function decl, index) => good (WrittenFunction.item types ⟨unit, index, decl⟩ (.item 0)).type ∧
    ∀ param ∈ WrittenFunction.params types ⟨unit, index, decl⟩, value param
  | _ => True

theorem Ok.sound_push (h : Ok names good value values) (hunit : names[unit.id.index]? = some unit.name)
    {name : String} (hfree : ¬ values.Taken unit name) {type : Ty} {storage : Storage} {span : FileSpan} :
    (⟨names, values.items.push (values.place unit name type storage span), .empty⟩ : ModuleIndex Ty).Sound := by
  have hname : (values.index names).unitName unit.id = .ok unit.name := by
    unfold ModuleIndex.unitName index
    rw [hunit]
  refine ModuleIndex.Sound.withItem h.sound rfl hname rfl ?_
  unfold ModuleIndex.lookup?
  rw [Array.find?_eq_none]
  exact fun item hi hq => hfree ⟨item, Array.mem_toList_iff.mpr hi, of_decide_eq_true hq⟩

theorem Ok.enter (h : Ok names good value values) (hunit : names[unit.id.index]? = some unit.name)
    {item : Item × Nat} (ht : Typed types good value unit item) : Ok names good value (values.enter types unit item) := by
  obtain ⟨item, index⟩ := item
  unfold Values.enter
  cases item with
  | global decl =>
    dsimp only
    split
    · exact h
    · rename_i hfree
      refine ⟨h.sound_push hunit hfree, ?_, ?_, ?_, ?_, h.functionTypes⟩
      · exact forall_mem_push.mpr ⟨h.storages, .inl rfl⟩
      · simp [place, h.globals, GlobalDecl.item]
      · simp [place, h.functions]
      · exact forall_mem_push.mpr ⟨h.globalTypes, ht⟩
  | function decl =>
    dsimp only
    split
    · exact h
    · rename_i hfree
      refine ⟨h.sound_push hunit hfree, ?_, ?_, ?_, h.globalTypes, ?_⟩
      · exact forall_mem_push.mpr ⟨h.storages, .inr rfl⟩
      · simp [place, h.globals]
      · simp [place, h.functions, WrittenFunction.item]
      · exact forall_mem_push.mpr ⟨h.functionTypes, ht⟩
  | struct | typeAlias => exact h

end Values

end SsaCompiler
