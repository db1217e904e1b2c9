import SsaCompiler.Proofs.Lowering.Declaring

/-!
# What a link symbol tells

In a link symbol two underscores stand behind the name of the unit, and `_op_` behind the name of a
function. Where these separators can be told from the names (`LinkSymbol.Clear`), the symbol tells the
qualified name (`LinkSymbol.eq_of_marks`), and a global or function is refused only for an earlier
item of its name (`ItemMap.declareAll_separates`). Names are free to contain the separators, though,
and then different items can clash (`ItemMap.clash_of_hidden_separator`).
-/

namespace SsaCompiler

open List

namespace LinkSymbol

/-- Behind `word`, a separator is found where it is put and not earlier. -/
def Clear (sep word : List Char) : Prop := ¬ sep <:+: word ++ sep.dropLast

instance (sep word : List Char) : Decidable (Clear sep word) := inferInstanceAs (Decidable (¬ _))

variable {sep word word' rest rest' : List Char}

theorem Clear.length_le (h : Clear sep word) (he : word' ++ (sep ++ rest') = word ++ (sep ++ rest)) :
    word.length ≤ word'.length := by
  by_contra hlt
  have hsep : sep ≠ [] := by
    rintro rfl
    exact h ⟨[], _, rfl⟩
  have hfirst : word' ++ sep <+: word ++ (sep ++ rest) := ⟨rest', by rw [append_assoc, he]⟩
  have hsecond : word ++ sep.dropLast <+: word ++ (sep ++ rest) :=
    ⟨[sep.getLast hsep] ++ rest, by
      rw [append_assoc, ← append_assoc sep.dropLast, dropLast_append_getLast]⟩
  have hshort : (word' ++ sep).length ≤ (word ++ sep.dropLast).length := by
    simp only [length_append, length_dropLast]
    omega
  obtain ⟨more, hmore⟩ := prefix_of_prefix_length_le hfirst hsecond hshort
  exact h ⟨word', more, hmore⟩

/-- The first separator ends the word. -/
theorem Clear.append_inj (h : Clear sep word) (h' : Clear sep word')
    (he : word ++ (sep ++ rest) = word' ++ (sep ++ rest')) : word = word' ∧ rest = rest' := by
  have hlen := Nat.le_antisymm (h.length_le he.symm) (h'.length_le he)
  obtain ⟨hword, hrest⟩ := List.append_inj he hlen
  exact ⟨hword, append_cancel_left hrest⟩

/-- What stands behind a word: nothing, or a separator and more. -/
def ending (sep : List Char) : Option (List Char) → List Char
  | none => []
  | some rest => sep ++ rest

theorem Clear.ne_append (h : Clear sep word) : word ≠ word' ++ (sep ++ rest) := by
  rintro rfl
  exact h ⟨word', rest ++ sep.dropLast, by simp⟩

theorem Clear.ending_inj (h : Clear sep word) (h' : Clear sep word') {tail tail' : Option (List Char)}
    (he : word ++ ending sep tail = word' ++ ending sep tail') : word = word' := by
  cases tail with
  | none =>
    cases tail' with
    | none => simpa [ending] using he
    | some rest' => exact absurd (by simpa [ending] using he) h.ne_append
  | some rest =>
    cases tail' with
    | none => exact absurd (by simpa [ending] using he.symm) h'.ne_append
    | some rest' => exact (h.append_inj h' he).1

/-! ## Spelling -/

def IsWordChar (c : Char) : Prop := c.isAlphanum = true ∨ c = '_'

instance (c : Char) : Decidable (IsWordChar c) := inferInstanceAs (Decidable (_ ∨ _))

/-- A name as the language has them. -/
def IsIdentifier (name : String) : Prop :=
  (∃ c ∈ name.toList.head?, ¬ c.isDigit = true) ∧ ∀ c ∈ name.toList, IsWordChar c

instance (name : String) : Decidable (IsIdentifier name) :=
  decidable_of_iff ((name.toList.head?.any fun c => !c.isDigit) && name.toList.all fun c => decide (IsWordChar c)) <| by
    simp [IsIdentifier, Option.any_eq_true]

theorem escape_append (h : ∀ c ∈ word, IsWordChar c) : escape (word ++ rest) = word ++ escape rest := by
  induction word with
  | nil => rfl
  | cons c word ih =>
    have hc : c ≠ '.' ∧ c ≠ '(' ∧ c ≠ ')' ∧ c ≠ ',' ∧ c ≠ ':' := by
      have hc : IsWordChar c := h c (.head _)
      refine ⟨?_, ?_, ?_, ?_, ?_⟩ <;> rintro rfl <;> revert hc <;> decide
    -- the equations of the function are costly to make, so its definition is split here
    conv_lhs => rw [cons_append]; unfold escape
    split <;> simp_all

structure Plain (unit item : String) : Prop where
  unitName : IsIdentifier unit
  itemName : IsIdentifier item
  unitClear : Clear "__".toList unit.toList
  itemClear : Clear "_op_".toList item.toList

/-- A symbol made of a qualified name: that of a global, or that of a function. -/
inductive Marks (name : String) : String → Prop
  | global : Marks name (ofText name)
  | function (structName : LayoutId → Option String) (sig : FunctionSig) :
    Marks name (ofFunction structName name sig)

theorem path_pair (unit item : String) : Name.path [unit, item] = unit ++ "::" ++ item := rfl

theorem escape_separator : escape ("::".toList ++ rest) = "__".toList ++ escape rest := rfl

theorem escape_qualified {unit item : String} (hu : IsIdentifier unit) (hi : IsIdentifier item) (rest : List Char) :
    escape ("acorn_coded".toList ++ ("::".toList ++ (unit.toList ++ ("::".toList ++ (item.toList ++ rest))))) =
      "acorn_coded".toList ++ ("__".toList ++ (unit.toList ++ ("__".toList ++ (item.toList ++ escape rest)))) := by
  have hprefix : IsIdentifier "acorn_coded" := by decide
  rw [escape_append hprefix.2, escape_separator, escape_append hu.2, escape_separator, escape_append hi.2]

theorem Marks.toList {unit item symbol : String} (hu : IsIdentifier unit) (hi : IsIdentifier item)
    (h : Marks (Name.path [unit, item]) symbol) : ∃ tail, symbol.toList = "acorn_coded".toList ++
      ("__".toList ++ (unit.toList ++ ("__".toList ++ (item.toList ++ ending "_op_".toList tail)))) := by
  cases h with
  | global =>
    refine ⟨none, Eq.trans ?_ (escape_qualified hu hi [])⟩
    simp [ofText, path_pair]
  | function structName sig =>
    let params := ",".intercalate (sig.params.map (typeText structName) ++ if sig.varargs then ["..."] else [])
    let more := params.toList ++ (")::".toList ++ (typeText structName sig.result).toList)
    refine ⟨some (escape more), Eq.trans ?_ (escape_qualified hu hi ('(' :: more))⟩
    simp [ofFunction, ofText, path_pair, more, params]

/-- The symbol tells the qualified name. -/
theorem eq_of_marks {unit item unit' item' symbol : String} (h : Plain unit item) (h' : Plain unit' item')
    (hs : Marks (Name.path [unit, item]) symbol) (hs' : Marks (Name.path [unit', item']) symbol) :
    unit = unit' ∧ item = item' := by
  obtain ⟨tail, ht⟩ := hs.toList h.unitName h.itemName
  obtain ⟨tail', ht'⟩ := hs'.toList h'.unitName h'.itemName
  rw [ht, append_cancel_left_eq, append_cancel_left_eq] at ht'
  obtain ⟨hunit, hrest⟩ := h.unitClear.append_inj h'.unitClear ht'
  exact ⟨String.toList_injective hunit, String.toList_injective (h.itemClear.ending_inj h'.itemClear hrest)⟩

end LinkSymbol

/-! ## Declaring items -/

/-- A qualified name that the symbols made of it tell. -/
def LinkSymbol.Told (name : String) : Prop := ∃ unit item, name = Name.path [unit, item] ∧ Plain unit item

/-- A function whose symbol is made of its qualified name. -/
def FunctionItem.Marked (item : FunctionItem) : Prop :=
  item.isExternal = false ∧ item.linkName = none ∧ Name.lastSegment item.name ≠ "main"

namespace ItemMap

variable {p p' : Declaring} {name symbol : String}

/-- What declaring an item comes to: its name and symbol are taken, or it is an error. -/
def Declaring.Claims (p p' : Declaring) (name symbol : String) : Prop :=
  if name ∉ p.builder.names ∧ symbol ∉ p.builder.symbols then p'.errors = p.errors ∧
    p'.builder.names = name :: p.builder.names ∧ p'.builder.symbols = symbol :: p.builder.symbols
  else ∃ error, p' = { p with errors := p.errors ++ [error] }

theorem claims_global {g : GlobalItem} (h : declareGlobal p g = .ok p') :
    p.Claims p' g.name (LinkSymbol.ofText g.name) := by
  simp only [declareGlobal, bind_eq_ok] at h
  obtain ⟨type, -, h⟩ := h
  have ha := p.builder.attempt_declareGlobal g.name type (globalInit g.type g.init)
  generalize p.builder.declareGlobal g.name type (globalInit g.type g.init) = result at ha h
  unfold Declaring.Claims
  cases ha with
  | made hfree =>
    cases h
    rw [if_pos hfree]
    exact ⟨rfl, rfl, rfl⟩
  | refused htaken =>
    cases h
    rw [if_neg htaken]
    exact ⟨_, rfl⟩

theorem claims_function {f : FunctionItem} (hf : f.Marked) (h : declareFunction p f = .ok p') :
    ∃ symbol, LinkSymbol.Marks f.name symbol ∧ p.Claims p' f.name symbol := by
  obtain ⟨hx, hl, hm⟩ := hf
  simp only [declareFunction, enterFunction, hx, hl, ModuleBuilder.newFunction, bind_eq_ok] at h
  obtain ⟨sig, -, result, hresult, h⟩ := h
  cases hresult
  refine ⟨p.builder.symbolOf f.name sig, ?_, ?_⟩
  · rw [ModuleBuilder.symbolOf, if_neg hm]
    exact .function _ sig
  · have ha := p.builder.attempt_addFunction f.name (p.builder.symbolOf f.name sig) sig false
    generalize p.builder.addFunction f.name (p.builder.symbolOf f.name sig) sig false = result at ha h
    unfold Declaring.Claims
    cases ha with
    | made hfree =>
      cases h
      rw [if_pos hfree]
      exact ⟨rfl, rfl, rfl⟩
    | refused htaken =>
      cases h
      rw [if_neg htaken]
      exact ⟨_, rfl⟩

/-- Items of the names `before` were declared, without an error only if no name came twice. -/
structure Declaring.Told (before : List String) (p : Declaring) : Prop where
  names : ∀ name, name ∈ p.builder.names ↔ name ∈ before
  symbols : ∀ symbol ∈ p.builder.symbols, ∃ name ∈ before, LinkSymbol.Told name ∧ LinkSymbol.Marks name symbol
  errors : p.errors = [] ↔ before.Nodup

theorem Declaring.Told.claims {before : List String} (h : p.Told before) (hname : LinkSymbol.Told name)
    (hs : LinkSymbol.Marks name symbol) (hc : p.Claims p' name symbol) : p'.Told (before ++ [name]) := by
  unfold Declaring.Claims at hc
  by_cases hmem : name ∈ before
  · rw [if_neg fun hfree => hfree.1 ((h.names name).mpr hmem)] at hc
    obtain ⟨error, rfl⟩ := hc
    refine ⟨fun other => ?_, fun taken ht => ?_, ?_⟩
    · rw [h.names, mem_append, mem_singleton]
      exact (or_iff_left_of_imp fun he => he ▸ hmem).symm
    · obtain ⟨other, ho, htold⟩ := h.symbols taken ht
      exact ⟨other, mem_append_left _ ho, htold⟩
    · simp [nodup_append, hmem]
  · have hfresh : symbol ∉ p.builder.symbols := by
      intro ht
      obtain ⟨_, ho, ⟨unit, item, rfl, hplain⟩, hmarks⟩ := h.symbols symbol ht
      obtain ⟨unit', item', rfl, hplain'⟩ := hname
      obtain ⟨rfl, rfl⟩ := LinkSymbol.eq_of_marks hplain hplain' hmarks hs
      exact hmem ho
    rw [if_pos ⟨fun hn => hmem ((h.names name).mp hn), hfresh⟩] at hc
    obtain ⟨herrors, hnames, hsymbols⟩ := hc
    refine ⟨fun other => ?_, fun taken ht => ?_, ?_⟩
    · rw [hnames, mem_cons, h.names, mem_append, mem_singleton, or_comm]
    · rw [hsymbols] at ht
      rcases mem_cons.mp ht with rfl | ht
      · exact ⟨name, by simp, hname, hs⟩
      · obtain ⟨other, ho, htold⟩ := h.symbols taken ht
        exact ⟨other, mem_append_left _ ho, htold⟩
    · rw [herrors, h.errors, ← concat_eq_append, nodup_concat, and_iff_right hmem]

theorem errors_declareAll {decls : Declarations} {moduleName : String}
    (hglobals : ∀ g ∈ decls.globals.toList, LinkSymbol.Told g.name)
    (hfunctions : ∀ f ∈ decls.functions.toList, LinkSymbol.Told f.name ∧ f.Marked)
    (hrun : declareAll decls (.new moduleName) = .ok p) :
    p.errors = [] ↔ (decls.globals.toList.map (·.name) ++ decls.functions.toList.map (·.name)).Nodup := by
  simp only [declareAll, bind_eq_ok] at hrun
  obtain ⟨builder, hstructs, p1, hg, hf⟩ := hrun
  obtain ⟨layouts, -, hnames, hsymbols, -⟩ := declareStructs_ok hstructs
  have hstart : ∀ {builder items}, builder.names = [] → builder.symbols = [] →
      Declaring.Told [] ⟨builder, items, []⟩ := fun hn hs => ⟨by simp [hn], by simp [hs], by simp⟩
  have htold := foldlM_keeps (fun gs p => (∀ g ∈ gs, LinkSymbol.Told (GlobalItem.name g)) →
    p.Told (gs.map (·.name))) (fun before g p p' hinv hstep h => by
      rw [map_append]
      have hbefore := hinv fun g hg => h g (mem_append_left _ hg)
      exact hbefore.claims (h g (by simp)) .global (claims_global hstep)) (fun _ => hstart hnames hsymbols) hg hglobals
  have htold := foldlM_keeps (fun fs p => (∀ f ∈ fs, LinkSymbol.Told (FunctionItem.name f) ∧ f.Marked) →
    p.Told (decls.globals.toList.map (·.name) ++ fs.map (·.name))) (fun before f p p' hinv hstep h => by
      rw [map_append, ← append_assoc]
      have hbefore := hinv fun f hf => h f (mem_append_left _ hf)
      obtain ⟨hname, hmarked⟩ := h f (by simp)
      obtain ⟨symbol, hs, hclaims⟩ := claims_function hmarked hstep
      exact hbefore.claims hname hs hclaims) (fun _ => by simpa using htold) hf hfunctions
  exact htold.errors

/-- Symbols made of qualified names that do not hide the separators are different for different names,
so items that are linked under such symbols clash exactly if their names do. -/
theorem declareAll_separates {decls : Declarations} {moduleName : String}
    (hglobals : ∀ g ∈ decls.globals.toList, LinkSymbol.Told g.name)
    (hfunctions : ∀ f ∈ decls.functions.toList, LinkSymbol.Told f.name ∧ f.Marked)
    (hrun : declareAll decls (.new moduleName) = .ok p) :
    (∀ name name' symbol, LinkSymbol.Told name → LinkSymbol.Told name' → name ≠ name' →
      LinkSymbol.Marks name symbol → ¬ LinkSymbol.Marks name' symbol) ∧
    (p.errors = [] ↔ (decls.globals.toList.map (·.name) ++ decls.functions.toList.map (·.name)).Nodup) := by
  refine ⟨?_, errors_declareAll hglobals hfunctions hrun⟩
  rintro _ _ symbol ⟨unit, item, rfl, h⟩ ⟨unit', item', rfl, h'⟩ hne hs hs'
  obtain ⟨rfl, rfl⟩ := LinkSymbol.eq_of_marks h h' hs hs'
  exact hne rfl

/-- Declarations of globals and of functions without parameters. -/
def named (globals functions : List String) : Declarations :=
  { Declarations.empty with
    globals := (globals.map fun name => ⟨.item 0, ⟨0⟩, name, .bool, none, default⟩).toArray
    functions := (functions.map fun name => ⟨.item 0, ⟨0⟩, 0, name, [], .unit, false, none, false, default⟩).toArray }

theorem declareAll_separates_underscores :
    ∃ p, declareAll (named ["a::b_c", "a_b::c"] ["a::b"]) (.new "m") = .ok p ∧ p.errors = [] := by
  obtain ⟨p, hrun⟩ : ∃ p, declareAll (named ["a::b_c", "a_b::c"] ["a::b"]) (.new "m") = .ok p := ⟨_, rfl⟩
  refine ⟨p, hrun, (declareAll_separates ?_ ?_ hrun).2.mpr (by decide)⟩
  · simp only [named, List.map_cons, List.forall_mem_cons]
    exact ⟨⟨"a", "b_c", rfl, by decide, by decide, by decide, by decide⟩,
      ⟨"a_b", "c", rfl, by decide, by decide, by decide, by decide⟩, by simp⟩
  · simp only [named, List.map_cons, List.forall_mem_cons]
    exact ⟨⟨⟨"a", "b", rfl, by decide, by decide, by decide, by decide⟩, rfl, rfl, by decide⟩, by simp⟩

/-- Two globals of different names that have one symbol and cannot be declared together. -/
theorem clash_of_hidden_separator :
    LinkSymbol.ofText (Name.path ["a", "b__c"]) = LinkSymbol.ofText (Name.path ["a__b", "c"]) ∧
      ∃ p, declareAll (named ["a::b__c", "a__b::c"] []) (.new "m") = .ok p ∧ p.errors.length = 1 :=
  ⟨by decide, _, rfl, by decide⟩

end ItemMap

end SsaCompiler
