import SsaCompiler.Proofs.Symbols.Index
import SsaCompiler.Proofs.Symbols.Scopes

/-!
# Lexical scoping

A symbol table keeps all scopes it ever entered, with links from each to the one around it. What it
answers is what a stack of finite maps answers (`ScopeStack`), whose outermost map holds the items of
the unit: a name stands for the binding of the innermost map that has it, a declaration goes to the
innermost map, and leaving a scope takes that map away. `SymbolTable.Represents` ties a table to the
stack; every call keeps it and gives the same answer (`Represents.call`), hence so does every sequence
of calls (`SymbolTable.scopes_lexically`).
-/

namespace SsaCompiler

open ScopeTree SymbolTable List
open SymbolTable (binding? declare defineItems forUnit)

variable {τ : Type} {tree : ScopeTree}

/-! ## Stacks of maps -/

/-- A map of a stack. -/
structure ScopeFrame (τ : Type) where
  kind : ScopeKind
  owner : Option String
  bindings : Table String (Binding τ)

/-- A stack of maps in a unit of a module. -/
structure ScopeStack (τ : Type) where
  index : ModuleIndex τ
  unit : UnitId
  unitName : String
  /-- The innermost map. -/
  top : ScopeFrame τ
  /-- The maps around it, from the inside out. -/
  outer : List (ScopeFrame τ)
  declared : Nat

inductive ScopeCall (τ : Type) where
  | enter (kind : ScopeKind)
  | enterFunction (name : String)
  | exit
  | declare (name : String) (type : τ) (storage : Storage) (span : FileSpan)
  | resolve (name : String) (span : FileSpan)
  | loopDepth

inductive ScopeAnswer (τ : Type) where
  | done
  | declared (result : Except SymbolError BindingId)
  | resolved (result : Except SymbolError (Binding τ))
  | depth (count : Nat)

namespace ScopeStack

def frames (stack : ScopeStack τ) : List (ScopeFrame τ) := stack.top :: stack.outer

def start (index : ModuleIndex τ) (unit : UnitId) (unitName : String) : ScopeStack τ :=
  { index, unit, unitName
    top := ⟨.unit, none, ⟨(index.unitItems unit).map fun item => (item.name, item)⟩⟩
    outer := []
    declared := 0 }

def enter (stack : ScopeStack τ) (kind : ScopeKind) (owner : Option String) : ScopeStack τ :=
  { stack with top := ⟨kind, owner, .empty⟩, outer := stack.frames }

/-- The binding of the innermost map that has a name. -/
def lookup (stack : ScopeStack τ) (name : String) : Option (Binding τ) :=
  stack.frames.findSome? (·.bindings.get? name)

/-- What a name stands for: a qualified one is an item of the module, any other is looked up. -/
def resolve (stack : ScopeStack τ) (name : String) (span : FileSpan) : Except SymbolError (Binding τ) :=
  if Name.isQualified name then
    match stack.index.lookup? name with
    | some binding => .ok binding
    | none => .error (.unbound name span stack.index.qualifiedNames)
  else
    match stack.lookup name with
    | some binding => .ok binding
    | none => .error (.unbound name span (stack.frames.flatMap (·.bindings.keys)))

/-- The binding that a declaration makes: a local with the next number. -/
def newBinding (stack : ScopeStack τ) (name : String) (type : τ) (storage : Storage) (span : FileSpan) :
    Binding τ :=
  let owner := stack.frames.findSome? (·.owner)
  { id := .local stack.unit stack.declared, unit := stack.unit, name, type, storage, span
    qualified := Name.path (stack.unitName :: owner.toList ++ [name]) }

/-- Declares a name in the innermost map, unless the map has it. -/
def declare (stack : ScopeStack τ) (name : String) (type : τ) (storage : Storage) (span : FileSpan) :
    Except SymbolError BindingId × ScopeStack τ :=
  match stack.top.bindings.get? name with
  | some first => (.error (.duplicate name span first.span), stack)
  | none =>
    let binding := stack.newBinding name type storage span
    (.ok binding.id, { stack with
        top := { stack.top with bindings := stack.top.bindings.insert name binding }
        declared := stack.declared + 1 })

/-- The number of loops above the innermost function or unit. -/
def loopDepth (stack : ScopeStack τ) : Nat :=
  (stack.frames.takeWhile (!·.kind.endsLoops)).countP (·.kind = .loop)

/-- Makes a call; the outermost map is never taken away. -/
def call (stack : ScopeStack τ) : ScopeCall τ → Option (ScopeAnswer τ × ScopeStack τ)
  | .enter kind => some (.done, stack.enter kind none)
  | .enterFunction name => some (.done, stack.enter .function (some name))
  | .exit =>
    match stack.outer with
    | [] => none
    | frame :: outer => some (.done, { stack with top := frame, outer })
  | .declare name type storage span =>
    let (result, stack) := stack.declare name type storage span
    some (.declared result, stack)
  | .resolve name span => some (.resolved (stack.resolve name span), stack)
  | .loopDepth => some (.depth stack.loopDepth, stack)

def calls : List (ScopeCall τ) → ScopeStack τ → Option (List (ScopeAnswer τ) × ScopeStack τ)
  | [], stack => some ([], stack)
  | c :: rest, stack => do
    let (answer, stack) ← stack.call c
    let (answers, stack) ← calls rest stack
    some (answer :: answers, stack)

end ScopeStack

namespace SymbolTable

def call (table : SymbolTable τ) : ScopeCall τ → Except Fault (ScopeAnswer τ × SymbolTable τ)
  | .enter kind => .ok (.done, table.enter kind)
  | .enterFunction name => .ok (.done, table.enterFunction name)
  | .exit => do
    let outer ← table.exit
    return (.done, outer)
  | .declare name type storage span => do
    let (result, table) ← table.declare name type storage span
    return (.declared result, table)
  | .resolve name span => do
    let result ← table.resolve name span
    return (.resolved result, table)
  | .loopDepth => do
    let depth ← table.loopDepth
    return (.depth depth, table)

def calls : List (ScopeCall τ) → SymbolTable τ → Except Fault (List (ScopeAnswer τ) × SymbolTable τ)
  | [], table => .ok ([], table)
  | c :: rest, table => do
    let (answer, table) ← table.call c
    let (answers, table) ← calls rest table
    return (answer :: answers, table)

end SymbolTable

/-! ## Scopes as maps -/

/-- A scope declares what a map of bindings holds, where `binding?` finds bindings. -/
structure Scope.Holds (binding? : BindingId → Option (Binding τ)) (scope : Scope) (frame : ScopeFrame τ) :
    Prop where
  kind : scope.kind = frame.kind
  owner : scope.owner = frame.owner
  entries : scope.entries.entries = frame.bindings.entries.map fun entry =>
    (entry.1, ⟨entry.2.id, entry.2.span⟩)
  found : ∀ entry ∈ frame.bindings.entries, binding? entry.2.id = some entry.2

theorem findSome?_eq_of_map_eq {α β γ : Type} {xs : List α} {ys : List β} {f : α → Option γ} {g : β → Option γ}
    (h : xs.map f = ys.map g) : xs.findSome? f = ys.findSome? g := by
  have h := congrArg (List.findSome? id) h
  rwa [findSome?_map, findSome?_map] at h

theorem Table.find?_map {κ α β : Type} [DecidableEq κ] (view : α → β) (key : κ) (entries : List (κ × α)) :
    find? key (entries.map fun entry => (entry.1, view entry.2)) = (find? key entries).map view := by
  induction entries with
  | nil => rfl
  | cons entry rest ih =>
    by_cases hk : entry.1 = key
    · simp [find?, hk]
    · simp [find?, hk, ih]

namespace Scope.Holds

variable {binding? : BindingId → Option (Binding τ)} {scope : Scope} {frame : ScopeFrame τ}

variable (h : scope.Holds binding? frame) {name : String}
include h

theorem get? : scope.entries.get? name = (frame.bindings.get? name).map fun binding => ⟨binding.id, binding.span⟩ := by
  rw [Table.get?, h.entries]
  exact Table.find?_map (fun binding : Binding τ => ScopeEntry.mk binding.id binding.span) name _

theorem keys : scope.entries.keys = frame.bindings.keys := by simp [Table.keys, h.entries]

theorem mono {binding?' : BindingId → Option (Binding τ)}
    (hm : ∀ id binding, binding? id = some binding → binding?' id = some binding) : scope.Holds binding?' frame :=
  ⟨h.kind, h.owner, h.entries, fun entry he => hm _ _ (h.found entry he)⟩

theorem insert {binding : Binding τ}
    (hnone : frame.bindings.get? name = none) (hb : binding? binding.id = some binding) :
    Holds binding? { scope with entries := scope.entries.insert name ⟨binding.id, binding.span⟩ }
      { frame with bindings := frame.bindings.insert name binding } where
  kind := h.kind
  owner := h.owner
  entries := by
    have hfree : scope.entries.get? name = none := by rw [h.get?, hnone]; rfl
    rw [Table.entries_insert hfree, Table.entries_insert hnone, h.entries, map_append]
    rfl
  found entry he := by
    rw [Table.entries_insert hnone] at he
    rcases mem_append.mp he with he | he
    · exact h.found entry he
    · exact mem_singleton.mp he ▸ hb

end Scope.Holds

namespace ScopeTree

variable {tree' : ScopeTree} {binding? : BindingId → Option (Binding τ)} {id : ScopeId} {frames : List (ScopeFrame τ)}

/-- The scopes from one of a tree outward declare what maps hold. -/
inductive Stacks (tree : ScopeTree) (binding? : BindingId → Option (Binding τ)) :
    ScopeId → List (ScopeFrame τ) → Prop
  | unit {scope : Scope} {frame : ScopeFrame τ} (found : tree.scopes[0]? = some scope)
      (outermost : scope.parent = none) (holds : scope.Holds binding? frame) : Stacks tree binding? root [frame]
  | inner {id parent : ScopeId} {scope : Scope} {frame : ScopeFrame τ} {frames : List (ScopeFrame τ)}
      (outer : Stacks tree binding? parent frames) (found : tree.scopes[id.index]? = some scope)
      (around : scope.parent = some parent) (later : parent.index < id.index)
      (holds : scope.Holds binding? frame) : Stacks tree binding? id (frame :: frames)

namespace Stacks

section

variable (h : tree.Stacks binding? id frames) {fuel : Nat}
include h

theorem lt_size : id.index < tree.scopes.size := by
  cases h with
  | unit found => exact lt_of_getElem? found
  | inner _ found => exact lt_of_getElem? found

theorem congr {binding?' : BindingId → Option (Binding τ)}
    (hs : ∀ i scope, i ≤ id.index → tree.scopes[i]? = some scope → tree'.scopes[i]? = some scope)
    (hb : ∀ id binding, binding? id = some binding → binding?' id = some binding) :
    tree'.Stacks binding?' id frames := by
  induction h with
  | unit found outermost holds => exact .unit (hs _ _ (Nat.le_refl 0) found) outermost (holds.mono hb)
  | inner _ found around later holds ih =>
    exact .inner (ih fun i scope hi => hs i scope (by omega)) (hs _ _ (Nat.le_refl _) found) around
      later (holds.mono hb)

/-- What scopes and maps have in common is the same along the chain of scopes and along the maps. -/
theorem views {β : Type} {search : Scope → β} {view : ScopeFrame τ → β}
    (hv : ∀ {scope frame}, scope.Holds binding? frame → search scope = view frame) :
    ∃ scopes, tree.Chain id scopes ∧ scopes.map search = frames.map view := by
  induction h with
  | unit found outermost holds => exact ⟨_, .outermost found outermost, congrArg ([·]) (hv holds)⟩
  | inner _ found around later holds ih =>
    obtain ⟨scopes, hchain, hsame⟩ := ih
    exact ⟨_, .inner hchain found around later, congrArg₂ (· :: ·) (hv holds) hsame⟩

theorem lookup {name : String} : tree.lookup id name =
    .ok (frames.findSome? fun frame => (frame.bindings.get? name).map fun binding => ⟨binding.id, binding.span⟩) := by
  obtain ⟨scopes, hchain, hsame⟩ : ∃ scopes, tree.Chain id scopes ∧
      scopes.map (·.entries.get? name) = frames.map _ := h.views fun holds => holds.get?
  rw [hchain.lookup, findSome?_eq_of_map_eq hsame]

theorem owner : tree.owner id = .ok (frames.findSome? (·.owner)) := by
  obtain ⟨scopes, hchain, hsame⟩ := h.views fun holds => holds.owner
  rw [hchain.owner, findSome?_eq_of_map_eq hsame]

theorem visibleNames : tree.visibleNames id = .ok (frames.flatMap (·.bindings.keys)) := by
  obtain ⟨scopes, hchain, hsame⟩ := h.views fun holds => holds.keys
  rw [hchain.visibleNames, flatMap_def, flatMap_def, hsame]

theorem loopDepth : tree.loopDepth id = .ok ((frames.takeWhile (!·.kind.endsLoops)).countP (·.kind = .loop)) := by
  obtain ⟨scopes, hchain, hsame⟩ := h.views fun holds => holds.kind
  have hcount := congrArg (fun kinds => (kinds.takeWhile (!·.endsLoops)).countP (· = .loop)) hsame
  simp only [takeWhile_map, countP_map] at hcount
  exact hchain.loopDepth.trans (congrArg Except.ok hcount)

end

variable {frame : ScopeFrame τ} (h : tree.Stacks binding? id (frame :: frames)) {name : String}
include h

theorem top : ∃ scope, tree.scopes[id.index]? = some scope ∧ scope.Holds binding? frame := by
  cases h with
  | unit found _ holds => exact ⟨_, found, holds⟩
  | inner _ found _ _ holds => exact ⟨_, found, holds⟩

theorem define
    (hnone : frame.bindings.get? name = none) {binding : Binding τ} {binding?' : BindingId → Option (Binding τ)}
    (hb : ∀ id binding, binding? id = some binding → binding?' id = some binding)
    (hnew : binding?' binding.id = some binding) : ∃ tree',
      tree.define id name ⟨binding.id, binding.span⟩ = .ok (.ok (), tree') ∧
      tree'.Stacks binding?' id ({ frame with bindings := frame.bindings.insert name binding } :: frames) := by
  obtain ⟨scope, found, holds⟩ := h.top
  have hlt := lt_of_getElem? found
  have hfree : scope.entries.get? name = none := by rw [holds.get?, hnone]; rfl
  let changed := { scope with entries := scope.entries.insert name ⟨binding.id, binding.span⟩ }
  have hat : (tree.scopes.setIfInBounds id.index changed)[id.index]? = some changed :=
    Array.getElem?_setIfInBounds_self_of_lt hlt
  have hholds : changed.Holds binding?' { frame with bindings := frame.bindings.insert name binding } :=
    (holds.mono hb).insert hnone hnew
  refine ⟨⟨tree.scopes.setIfInBounds id.index changed⟩, define_eq_ok.mpr ⟨scope, found, hfree, rfl⟩, ?_⟩
  cases h with
  | unit found' outermost _ =>
    have he : scope = _ := Option.some.inj (found.symm.trans found')
    subst he
    exact .unit hat outermost hholds
  | inner outer found' around later _ =>
    have he : scope = _ := Option.some.inj (found.symm.trans found')
    subst he
    refine .inner (outer.congr (fun i other hi hs => ?_) hb) hat around later hholds
    rwa [Array.getElem?_setIfInBounds_ne (by omega)]

end Stacks

end ScopeTree

/-! ## Tables and stacks -/

/-- A symbol table stands for a stack. -/
structure SymbolTable.Represents (table : SymbolTable τ) (stack : ScopeStack τ) : Prop where
  index : table.index = stack.index
  unit : table.unit = stack.unit
  unitName : stack.index.unitName stack.unit = .ok stack.unitName
  locals : table.locals.size = stack.declared
  stacked : table.tree.Stacks table.binding? table.current stack.frames

namespace SymbolTable.Represents

variable {table : SymbolTable τ} {stack : ScopeStack τ}

variable (h : table.Represents stack) {stack' : ScopeStack τ} {name : String} {span : FileSpan}
variable {storage : Storage} {type : τ}
include h

theorem enterOwned {kind : ScopeKind} {owner : Option String} :
    (table.enterOwned kind owner).Represents (stack.enter kind owner) where
  index := h.index
  unit := h.unit
  unitName := h.unitName
  locals := h.locals
  stacked := by
    have hnew : (table.enterOwned kind owner).tree.scopes[(table.enterOwned kind owner).current.index]? =
        some ⟨some table.current, kind, owner, .empty⟩ := by
      simp [SymbolTable.enterOwned, addChild]
    refine .inner (h.stacked.congr (fun i scope _ hs => ?_) fun _ _ hb => hb) hnew rfl h.stacked.lt_size
      ⟨rfl, rfl, rfl, fun _ he => nomatch he⟩
    have hlt := lt_of_getElem? hs
    simp only [SymbolTable.enterOwned, addChild]
    rw [Array.getElem?_push_lt hlt, ← hs, Array.getElem?_eq_getElem hlt]

theorem exit {frame : ScopeFrame τ} {outer : List (ScopeFrame τ)} (ho : stack.outer = frame :: outer) :
    ∃ table', table.exit = .ok table' ∧ table'.Represents { stack with top := frame, outer := outer } := by
  have hs := h.stacked
  rw [ScopeStack.frames, ho] at hs
  generalize hid : table.current = id at hs
  cases hs with
  | @inner _ parent scope _ _ hout found around later holds =>
    refine ⟨{ table with current := parent }, ?_, h.index, h.unit, h.unitName, h.locals, hout⟩
    simp only [SymbolTable.exit, ScopeTree.scope, hid, found, around, bind, Except.bind]
    rfl

theorem visible? : table.visible? name = (.ok (stack.lookup name) : Except Fault _) := by
  simp only [SymbolTable.visible?, h.stacked.lookup, ScopeStack.lookup]
  -- The binding that an entry names is the one in the map.
  have hfound : ∀ {id frames}, table.tree.Stacks table.binding? id frames →
      (frames.findSome? fun frame => (frame.bindings.get? name).map fun binding =>
        (⟨binding.id, binding.span⟩ : ScopeEntry)).bind (fun entry => table.binding? entry.binding) =
      frames.findSome? (·.bindings.get? name) := by
    intro id frames hs
    induction hs with
    | @unit scope frame found outermost holds =>
      cases hb : frame.bindings.get? name with
      | none => simp [hb]
      | some binding => simp [hb, holds.found _ (Table.mem_of_find? hb)]
    | @inner id parent scope frame frames outer found around later holds ih =>
      cases hb : frame.bindings.get? name with
      | none => simpa [hb] using ih
      | some binding => simp [hb, holds.found _ (Table.mem_of_find? hb)]
  rw [← hfound h.stacked]
  rfl

theorem resolve : table.resolve name span = (.ok (stack.resolve name span) : Except Fault _) := by
  unfold SymbolTable.resolve ScopeStack.resolve
  split
  · simp only [item?, Names.find?, pure_bind, Option.bind_some, h.index]
    cases stack.index.lookup? name <;> rfl
  · simp only [h.visible?]
    cases stack.lookup name with
    | some binding => rfl
    | none =>
      simp only [h.stacked.visibleNames]
      rfl

theorem loopDepth : table.loopDepth = .ok stack.loopDepth :=
  h.stacked.loopDepth

theorem declare_new (hnone : stack.top.bindings.get? name = none) : ∃ table', table.declare name type storage span =
        (.ok (.ok (stack.newBinding name type storage span).id, table') : Except Fault _) ∧
      table'.Represents (stack.declare name type storage span).2 := by
  let binding := stack.newBinding name type storage span
  have hid : binding.id = .local table.unit table.locals.size := by rw [h.unit, h.locals]; rfl
  let bindings? : BindingId → Option (Binding τ) :=
    binding? { table with locals := table.locals.push binding }
  have hold : ∀ id found, table.binding? id = some found → bindings? id = some found := by
    intro id found hf
    cases id with
    | item i => exact hf
    | «local» unit i =>
      simp only [bindings?, binding?] at hf ⊢
      split at hf
      · obtain ⟨hlt, hf⟩ := Array.getElem?_eq_some_iff.mp hf
        rw [if_pos (by assumption), Array.getElem?_push_lt hlt, hf]
      · cases hf
  have hnew : bindings? binding.id = some binding := by
    simp only [bindings?, hid, binding?]
    exact Array.getElem?_push_size
  obtain ⟨tree, hdefine, hstacks⟩ := h.stacked.define hnone hold hnew
  refine ⟨{ table with tree := tree, locals := table.locals.push binding }, ?_, ?_⟩
  · have hunit : table.index.unitName table.unit = .ok stack.unitName := by rw [h.index, h.unit, h.unitName]
    have howner : tree.owner table.current = .ok (stack.frames.findSome? (·.owner)) := hstacks.owner
    refine declare_eq_ok.mpr ⟨hid, tree, _, _, hdefine, hunit, howner, ?_⟩
    rw [h.unit]
    rfl
  · simp only [ScopeStack.declare, hnone]
    exact ⟨h.index, h.unit, h.unitName, by simp [h.locals], hstacks⟩

theorem declare : ∃ table', table.declare name type storage span =
        (.ok ((stack.declare name type storage span).1, table') : Except Fault _) ∧
      table'.Represents (stack.declare name type storage span).2 := by
  cases htop : stack.top.bindings.get? name with
  | some first =>
    have hsame : stack.declare name type storage span = (.error (.duplicate name span first.span), stack) := by
      simp only [ScopeStack.declare, htop]
    obtain ⟨scope, hscope, holds⟩ := h.stacked.top
    have htaken : scope.entries.get? name = some ⟨first.id, first.span⟩ := by rw [holds.get?, htop]; rfl
    rw [hsame]
    exact ⟨table, declare_eq_error.mpr ⟨scope, _, hscope, htaken, rfl, rfl⟩, h⟩
  | none =>
    have hid : (stack.declare name type storage span).1 = .ok (stack.newBinding name type storage span).id := by
      simp only [ScopeStack.declare, htop]
    rw [hid]
    exact h.declare_new htop

theorem call {c : ScopeCall τ} {answer : ScopeAnswer τ} (hc : stack.call c = some (answer, stack')) :
    ∃ table', table.call c = .ok (answer, table') ∧ table'.Represents stack' := by
  cases c with
  | enter kind =>
    cases hc
    exact ⟨_, rfl, h.enterOwned⟩
  | enterFunction name =>
    cases hc
    exact ⟨_, rfl, h.enterOwned⟩
  | exit =>
    simp only [ScopeStack.call] at hc
    split at hc
    · cases hc
    · rename_i frame outer houter
      cases hc
      obtain ⟨table', hexit, h'⟩ := h.exit houter
      exact ⟨table', by simp only [call, hexit]; rfl, h'⟩
  | declare name type storage span =>
    cases hc
    obtain ⟨table', hdeclare, h'⟩ := h.declare
    exact ⟨table', by simp only [call, hdeclare]; rfl, h'⟩
  | resolve name span =>
    cases hc
    exact ⟨table, by simp only [call, h.resolve]; rfl, h⟩
  | loopDepth =>
    cases hc
    exact ⟨table, by simp only [call, h.loopDepth]; rfl, h⟩

theorem calls {list : List (ScopeCall τ)} {answers : List (ScopeAnswer τ)}
    (hc : stack.calls list = some (answers, stack')) :
    ∃ table', table.calls list = .ok (answers, table') ∧ table'.Represents stack' := by
  induction list generalizing table stack answers with
  | nil =>
    cases hc
    exact ⟨table, rfl, h⟩
  | cons c rest ih =>
    simp only [ScopeStack.calls, Option.bind_eq_bind, Option.bind_eq_some_iff, Prod.exists] at hc
    obtain ⟨answer, next, hcall, others, last, hrest, hc⟩ := hc
    cases hc
    obtain ⟨table1, hfirst, h1⟩ := h.call hcall
    obtain ⟨table2, hothers, h2⟩ := ih h1 hrest
    exact ⟨table2, by simp only [calls, hfirst, hothers, bind, Except.bind]; rfl, h2⟩

end SymbolTable.Represents

/-! ## The table of a unit -/

/-- Items with names of their own fill the outermost map. -/
theorem ScopeTree.Stacks.defineItems {binding? : BindingId → Option (Binding τ)}
    {frame : ScopeFrame τ} {items : List (Binding τ)} (h : tree.Stacks binding? root [frame])
    (hfound : ∀ item ∈ items, binding? item.id = some item) (hnames : (items.map (·.name)).Nodup)
    (hfree : ∀ item ∈ items, frame.bindings.get? item.name = none) :
    ∃ tree', defineItems items tree = .ok tree' ∧ tree'.Stacks binding? root
      [{ frame with bindings := ⟨frame.bindings.entries ++ items.map fun item => (item.name, item)⟩ }] := by
  induction items generalizing tree frame with
  | nil => exact ⟨tree, rfl, by simpa using h⟩
  | cons item rest ih =>
    rw [map_cons, nodup_cons] at hnames
    have hnone := hfree item (.head _)
    obtain ⟨tree1, hdefine, h1⟩ := h.define hnone (fun _ _ => id) (hfound item (.head _))
    have hfree1 : ∀ other ∈ rest, (frame.bindings.insert item.name item).get? other.name = none := by
      intro other ho
      have hne : other.name ≠ item.name := fun he => hnames.1 (he ▸ mem_map_of_mem ho)
      rw [Table.get?_insert_of_ne _ hne]
      exact hfree other (.tail _ ho)
    obtain ⟨tree2, hrest, h2⟩ := ih h1 (fun other ho => hfound other (.tail _ ho)) hnames.2 hfree1
    refine ⟨tree2, by simp only [defineItems, hdefine, bind, Except.bind, hrest], ?_⟩
    simpa [Table.entries_insert hnone] using h2

theorem SymbolTable.forUnit_represents {index : ModuleIndex τ} (hindex : index.Sound) {unit : UnitId}
    {unitName : String} (hunit : index.units[unit.index]? = some unitName) :
    ∃ table, forUnit index unit = .ok table ∧ table.Represents (.start index unit unitName) := by
  let binding? := binding? ⟨index, unit, .new, root, #[]⟩
  have hnew : new.Stacks binding? root [⟨.unit, none, .empty⟩] :=
    .unit rfl rfl ⟨rfl, rfl, rfl, fun _ he => nomatch he⟩
  have hfound : ∀ item ∈ index.unitItems unit, binding? item.id = some item := by
    intro item hi
    have hi := (mem_filter.mp hi).1
    have hitem := hindex.item?_id hi
    obtain ⟨i, hi⟩ := mem_iff_getElem?.mp hi
    rw [Array.getElem?_toList] at hi
    simp only [hindex.ids hi] at hitem ⊢
    exact hitem
  obtain ⟨tree, htree, hstacks⟩ := hnew.defineItems hfound hindex.nodup_unitItems fun _ _ => rfl
  refine ⟨⟨index, unit, tree, root, #[]⟩, ?_, rfl, rfl, ?_, rfl, hstacks⟩
  · simp only [forUnit, htree]
    rfl
  · simp only [ScopeStack.start, ModuleIndex.unitName, hunit]

/-! ## Scopes that are entered and left -/

namespace ScopeCall

inductive Enters : ScopeCall τ → Prop
  | scope (kind : ScopeKind) : Enters (.enter kind)
  | function (name : String) : Enters (.enterFunction name)

/-- A call that neither enters nor leaves a scope. -/
inductive Stays : ScopeCall τ → Prop
  | declare (name : String) (type : τ) (storage : Storage) (span : FileSpan) :
      Stays (.declare name type storage span)
  | resolve (name : String) (span : FileSpan) : Stays (.resolve name span)
  | loopDepth : Stays .loopDepth

/-- Calls that leave the scopes they enter, and no others. -/
inductive Balanced : List (ScopeCall τ) → Prop
  | nil : Balanced []
  | stay {c : ScopeCall τ} {rest : List (ScopeCall τ)} (first : c.Stays) (others : Balanced rest) :
      Balanced (c :: rest)
  | nest {c : ScopeCall τ} {inner rest : List (ScopeCall τ)} (first : c.Enters) (within : Balanced inner)
      (others : Balanced rest) : Balanced (c :: (inner ++ .exit :: rest))

end ScopeCall

namespace ScopeStack

variable {c : ScopeCall τ} {stack : ScopeStack τ}

theorem calls_append {first second : List (ScopeCall τ)} {stack1 stack2 : ScopeStack τ}
    {answers1 answers2 : List (ScopeAnswer τ)} (h1 : stack.calls first = some (answers1, stack1))
    (h2 : stack1.calls second = some (answers2, stack2)) :
    stack.calls (first ++ second) = some (answers1 ++ answers2, stack2) := by
  induction first generalizing stack answers1 with
  | nil =>
    cases h1
    exact h2
  | cons c rest ih =>
    simp only [calls, Option.bind_eq_bind, Option.bind_eq_some_iff, Prod.exists] at h1
    obtain ⟨answer, next, hcall, others, last, hrest, h1⟩ := h1
    cases h1
    simp only [cons_append, calls, hcall, ih hrest, Option.bind_eq_bind, Option.bind_some]

/-- The same maps around the innermost one, in the same module. -/
structure SameOuter (stack stack' : ScopeStack τ) : Prop where
  index : stack'.index = stack.index
  outer : stack'.outer = stack.outer

theorem call_stays (hc : c.Stays) : ∃ answer stack', stack.call c = some (answer, stack') ∧ stack.SameOuter stack' := by
  cases hc with
  | declare name type storage span =>
    refine ⟨_, (stack.declare name type storage span).2, rfl, ?_⟩
    unfold ScopeStack.declare
    split <;> exact ⟨rfl, rfl⟩
  | resolve name span => exact ⟨_, _, rfl, rfl, rfl⟩
  | loopDepth => exact ⟨_, _, rfl, rfl, rfl⟩

theorem call_enters (hc : c.Enters) (stack : ScopeStack τ) :
    ∃ stack', stack.call c = some (.done, stack') ∧ stack'.index = stack.index ∧ stack'.outer = stack.frames := by
  cases hc with
  | scope kind => exact ⟨_, rfl, rfl, rfl⟩
  | function name => exact ⟨_, rfl, rfl, rfl⟩

/-- A scope that is entered and left uncovers the maps there were. -/
theorem calls_nest (hc : c.Enters) {inner : List (ScopeCall τ)}
    (hinner : ∀ stack : ScopeStack τ, ∃ answers stack', stack.calls inner = some (answers, stack') ∧ stack.SameOuter stack')
    (stack : ScopeStack τ) : ∃ answers stack', stack.calls (c :: (inner ++ [.exit])) = some (answers, stack') ∧
      stack.SameOuter stack' ∧ stack'.top = stack.top := by
  obtain ⟨entered, hcall, hindex, houter⟩ := call_enters hc stack
  obtain ⟨answers, last, hcalls, hsame⟩ := hinner entered
  have hexit : last.calls [.exit] = some ([.done], { last with top := stack.top, outer := stack.outer }) := by
    simp only [calls, call, hsame.outer, houter, frames, Option.bind_eq_bind, Option.bind_some]
  refine ⟨.done :: (answers ++ [.done]), { last with top := stack.top, outer := stack.outer }, ?_,
    ⟨hsame.index.trans hindex, rfl⟩, rfl⟩
  simp only [calls, hcall, calls_append hcalls hexit, Option.bind_eq_bind, Option.bind_some]

theorem calls_balanced {list : List (ScopeCall τ)} (h : ScopeCall.Balanced list) (stack : ScopeStack τ) :
    ∃ answers stack', stack.calls list = some (answers, stack') ∧ stack.SameOuter stack' := by
  induction h generalizing stack with
  | nil => exact ⟨[], stack, rfl, rfl, rfl⟩
  | stay first _ ih =>
    obtain ⟨answer, next, hcall, hsame⟩ := call_stays first
    obtain ⟨answers, last, hcalls, hrest⟩ := ih next
    refine ⟨answer :: answers, last, ?_, hrest.index.trans hsame.index, hrest.outer.trans hsame.outer⟩
    simp only [calls, hcall, hcalls, Option.bind_eq_bind, Option.bind_some]
  | @nest c inner rest first _ _ within ih =>
    obtain ⟨answers1, next, hnest, hsame, _⟩ := calls_nest first within stack
    obtain ⟨answers2, last, hcalls, hrest⟩ := ih next
    refine ⟨answers1 ++ answers2, last, ?_, hrest.index.trans hsame.index, hrest.outer.trans hsame.outer⟩
    have happend := calls_append hnest hcalls
    rwa [cons_append, append_assoc] at happend

theorem resolve_congr {stack' : ScopeStack τ} (h : stack.SameOuter stack')
    (htop : stack'.top = stack.top) {name : String} {span : FileSpan} :
    stack'.resolve name span = stack.resolve name span := by simp only [resolve, lookup, frames, h.index, h.outer, htop]

end ScopeStack

/-! ## Lexical scoping -/

/-- The table of a unit answers every sequence of calls as the stack of its items does. After any of
them, a scope that is entered and left changes nothing about what names stand for. -/
theorem SymbolTable.scopes_lexically {index : ModuleIndex τ} (hindex : index.Built) {unit : UnitId}
    {unitName : String} (hunit : index.units[unit.index]? = some unitName) :
    ∃ table, SymbolTable.forUnit index unit = .ok table ∧
      ∀ (list : List (ScopeCall τ)) (answers : List (ScopeAnswer τ)) (stack : ScopeStack τ),
        (ScopeStack.start index unit unitName).calls list = some (answers, stack) →
        ∃ table', table.calls list = .ok (answers, table') ∧
          ∀ (c : ScopeCall τ) (inner : List (ScopeCall τ)), c.Enters → ScopeCall.Balanced inner →
            ∃ answers' table'', table'.calls (c :: (inner ++ [.exit])) = .ok (answers', table'') ∧
              ∀ (name : String) (span : FileSpan), table''.resolve name span =
                (table'.resolve name span : Except Fault _) := by
  obtain ⟨table, htable, hstart⟩ := forUnit_represents hindex.sound hunit
  refine ⟨table, htable, fun list answers stack hcalls => ?_⟩
  obtain ⟨table', hcalls', h'⟩ := hstart.calls hcalls
  refine ⟨table', hcalls', fun c inner hc hinner => ?_⟩
  obtain ⟨answers', stack'', hnest, hsame, htop⟩ :=
    ScopeStack.calls_nest hc (ScopeStack.calls_balanced hinner) stack
  obtain ⟨table'', hcalls'', h''⟩ := h'.calls hnest
  refine ⟨answers', table'', hcalls'', fun name span => ?_⟩
  rw [h''.resolve, h'.resolve, ScopeStack.resolve_congr hsame htop]

def ModuleIndex.oneGlobal : ModuleIndex Unit :=
  ⟨#["main"], #[⟨.item 0, ⟨0⟩, "x", Name.path ["main", "x"], (), .global, .ofOffsets 0 0 1⟩], .empty⟩

theorem ModuleIndex.oneGlobal_built : oneGlobal.Built := by
  have hdeclared : (ModuleIndex.empty.addUnit "main").2.declareItem ⟨0⟩ "x" () .global (.ofOffsets 0 0 1) =
      (.ok (.ok (.item 0), oneGlobal) : Except Fault _) := rfl
  exact .declareItem (.addUnit .empty "main") hdeclared

/-- A local hides the global of its name until its scope is left. -/
theorem SymbolTable.scopes_lexically_shadowing :
    ∃ table, SymbolTable.forUnit ModuleIndex.oneGlobal ⟨0⟩ = .ok table ∧
      ∃ shadow global table', table.calls
          [.enter .block, .declare "x" () .local (.ofOffsets 0 2 3), .resolve "x" (.ofOffsets 0 4 5), .exit,
            .resolve "x" (.ofOffsets 0 6 7)] =
        .ok ([.done, .declared (.ok (.local ⟨0⟩ 0)), .resolved (.ok shadow), .done, .resolved (.ok global)],
          table') ∧ shadow.id = .local ⟨0⟩ 0 ∧ global.id = .item 0 := by
  have hunit : ModuleIndex.oneGlobal.units[(UnitId.mk 0).index]? = some "main" := rfl
  obtain ⟨table, htable, hcalls⟩ := scopes_lexically ModuleIndex.oneGlobal_built hunit
  obtain ⟨table', hcalls', _⟩ := hcalls
    [.enter .block, .declare "x" () .local (.ofOffsets 0 2 3), .resolve "x" (.ofOffsets 0 4 5), .exit,
      .resolve "x" (.ofOffsets 0 6 7)] _ _ rfl
  exact ⟨table, htable, _, _, table', hcalls', rfl, rfl⟩

end SsaCompiler
