import Mathlib.Logic.Relation
import SsaCompiler.Proofs.Declarations.Settled

/-!
# What aliases stand for

An alias stands for the type that its declaration has once the aliases in it are opened, and those in
them, to any depth (`Collector.Denotes`). An alias that refers to itself stands for nothing
(`Collector.opened_of_cyclic`). Aliases are expanded by a search through their declarations:
`Collector.Expanding` is its invariant, and `Collect.expandAlias_spec` shows that the search keeps it.
The types found for aliases are then those that they stand for, and all of them are if no error was
found; an error about a cycle is about an alias that refers to itself.
-/

namespace SsaCompiler

open List TypeExpr
open Option (bind_eq_some_iff or_eq_some_iff some)

namespace Collector

variable {types : String → Option Ty} {found : PendingAlias}

/-- What a type name stands for if aliases are opened up to a depth. -/
def opened (c : Collector) : Nat → String → Option Ty
  | 0, key => c.decls.types.get? key
  | depth + 1, key => (c.decls.types.get? key).or
    ((c.aliases.get? key).bind fun found => found.decl.type.type? found.unit.name (c.opened depth))

/-- What a type name stands for with all aliases opened. -/
def Denotes (c : Collector) (key : String) (type : Ty) : Prop := ∃ depth, c.opened depth key = some type

/-- The declaration of an alias mentions a type name. -/
def Refers (c : Collector) (key other : String) : Prop := ∃ found name, c.aliases.get? key = some found ∧
  name ∈ found.decl.type.names ∧ Ty.builtin? name = none ∧ other = Declarations.qualify found.unit.name name

def Fresh (c : Collector) : Prop := ∀ key found, c.aliases.get? key = some found → c.decls.types.get? key = none

variable {base c : Collector} {key : String} {type : Ty} {depth : Nat}

theorem opened_succ (h : c.opened depth key = some type) : c.opened (depth + 1) key = some type := by
  induction depth generalizing key type with
  | zero => exact or_eq_some_iff.mpr (.inl h)
  | succ depth ih =>
    rcases or_eq_some_iff.mp h with h | ⟨hnone, h⟩
    · exact or_eq_some_iff.mpr (.inl h)
    · refine or_eq_some_iff.mpr (.inr ⟨hnone, ?_⟩)
      obtain ⟨found, hfound, h⟩ := bind_eq_some_iff.mp h
      exact bind_eq_some_iff.mpr ⟨found, hfound, type?_mono (fun _ _ => ih) h⟩

theorem opened_le {depth' : Nat} (hle : depth ≤ depth') (h : c.opened depth key = some type) :
    c.opened depth' key = some type := by
  induction hle with
  | refl => exact h
  | step _ ih => exact opened_succ ih

/-- An expression whose names all stand for something has its type at some depth. -/
theorem type?_opened {unitName : String} {expr : TypeExpr}
    (h : ∀ key type, types key = some type → c.Denotes key type) (ht : expr.type? unitName types = some type) :
    ∃ depth, expr.type? unitName (c.opened depth) = some type := by
  have hrel : ∀ a, expr.type? unitName types = some a → ∃ depth, ∀ depth' ≥ depth,
      expr.type? unitName (c.opened depth') = some a := by
    refine typeWith_rel (fun {α} (x x' : ReaderT (String → Option Ty) Option α) => ∀ a, x types = some a →
      ∃ depth, ∀ depth' ≥ depth, x' (c.opened depth') = some a) ?_ ?_ _ _ ?_ expr
    · rintro α a _ ⟨⟩
      exact ⟨0, fun _ _ => rfl⟩
    · intro α β x x' f f' hx hf b hb
      obtain ⟨a, ha, hb⟩ := reader_bind.mp hb
      obtain ⟨depth, hdepth⟩ := hx a ha
      obtain ⟨depth', hdepth'⟩ := hf a b hb
      exact ⟨max depth depth', fun d hd => reader_bind.mpr ⟨a, hdepth d (by omega), hdepth' d (by omega)⟩⟩
    · intro name span a ha
      rcases or_eq_some_iff.mp ha with hb | ⟨hb, ha⟩
      · exact ⟨0, fun _ _ => or_eq_some_iff.mpr (.inl hb)⟩
      · obtain ⟨depth, hdepth⟩ := h _ _ ha
        exact ⟨depth, fun d hd => or_eq_some_iff.mpr (.inr ⟨hb, opened_le hd hdepth⟩)⟩
  obtain ⟨depth, hdepth⟩ := hrel type ht
  exact ⟨depth, hdepth depth (Nat.le_refl _)⟩

theorem Denotes.of_alias (hc : c.Fresh) (hfound : c.aliases.get? key = some found)
    (h : ∀ key type, types key = some type → c.Denotes key type)
    (ht : found.decl.type.type? found.unit.name types = some type) : c.Denotes key type := by
  obtain ⟨depth, hdepth⟩ := type?_opened h ht
  exact ⟨depth + 1, or_eq_some_iff.mpr (.inr ⟨hc key found hfound, bind_eq_some_iff.mpr ⟨found, hfound, hdepth⟩⟩)⟩

theorem Denotes.alias (hc : c.Fresh) (hfound : c.aliases.get? key = some found) (h : c.Denotes key type) :
    ∃ depth, found.decl.type.type? found.unit.name (c.opened depth) = some type := by
  obtain ⟨depth, hdepth⟩ := h
  rcases or_eq_some_iff.mp (opened_succ hdepth) with h | ⟨-, h⟩
  · cases h.symm.trans (hc key found hfound)
  · obtain ⟨_, hfound', h⟩ := bind_eq_some_iff.mp h
    cases hfound.symm.trans hfound'
    exact ⟨depth, h⟩

theorem Denotes.unique {type' : Ty} (h : c.Denotes key type) (h' : c.Denotes key type') : type = type' := by
  obtain ⟨depth, h⟩ := h
  obtain ⟨depth', h'⟩ := h'
  exact some.inj ((opened_le (Nat.le_max_left depth depth') h).symm.trans
    (opened_le (Nat.le_max_right depth depth') h'))

theorem Refers.alias {other : String} (h : c.Refers key other) : ∃ found, c.aliases.get? key = some found := by
  obtain ⟨found, -, hfound, -⟩ := h
  exact ⟨found, hfound⟩

/-- An alias that refers to itself stands for nothing: what it refers to would stand for something at a
smaller depth. -/
theorem opened_of_cyclic (hc : c.Fresh) (h : Relation.TransGen c.Refers key key) : c.opened depth key = none := by
  induction depth generalizing key with
  | zero =>
    obtain ⟨other, hfirst, -⟩ := Relation.TransGen.head'_iff.mp h
    obtain ⟨found, hfound⟩ := hfirst.alias
    exact hc key found hfound
  | succ depth ih =>
    obtain ⟨other, hfirst, hrest⟩ := Relation.TransGen.head'_iff.mp h
    have hother := ih (Relation.TransGen.trans_right hrest (.single hfirst))
    obtain ⟨found, name, hfound, hname, hb, rfl⟩ := hfirst
    by_contra hsome
    obtain ⟨type, ht⟩ := Option.ne_none_iff_exists'.mp hsome
    rcases or_eq_some_iff.mp ht with ht | ⟨-, ht⟩
    · cases ht.symm.trans (hc key found hfound)
    · obtain ⟨_, hfound', ht⟩ := bind_eq_some_iff.mp ht
      cases hfound.symm.trans hfound'
      have hknown := isSome_of_mem_names ht name hname
      rw [nameType?, hb, hother] at hknown
      cases hknown

/-! ## The search -/

/-- A state has the types of another, and its errors. -/
structure Before (c c' : Collector) : Prop where
  types : ∀ key type, c.decls.types.get? key = some type → c'.decls.types.get? key = some type
  errors : c.decls.errors.size ≤ c'.decls.errors.size

theorem Before.refl : c.Before c := ⟨fun _ _ h => h, Nat.le_refl _⟩

theorem Before.trans {c' c'' : Collector} (h : c.Before c') (h' : c'.Before c'') : c.Before c'' :=
  ⟨fun _ _ ht => h'.types _ _ (h.types _ _ ht), Nat.le_trans h.errors h'.errors⟩

/-- An error that is found when aliases are expanded: one of an alias, and if it is about a cycle then
one about that alias, which refers to itself. -/
def AliasError (c : Collector) (error : UnitId × TypeError) : Prop := ∃ key found, c.aliases.get? key = some found ∧
  error.1 = found.unit.id ∧ (error.2.isCyclic = true →
    error.2 = .cyclic found.decl.name found.decl.span ∧ Relation.TransGen c.Refers key key)

/-- The aliases of `stack` are being expanded. What aliases were found to stand for is what they stand
for, if that is anything at all. As long as no error was found, it is. -/
structure Expanding (base : Collector) (stack : List String) (c : Collector) : Prop where
  frame : ∃ (types : Table String Ty) (errors : List (UnitId × TypeError)), c =
    ⟨{ base.decls with types, errors := base.decls.errors ++ errors.toArray }, base.aliases, stack⟩ ∧
    ∀ e ∈ errors, base.AliasError e
  before : base.Before c
  sound : ∀ key type type', c.decls.types.get? key = some type → base.Denotes key type' → type = type'
  quiet : c.decls.errors.size = base.decls.errors.size → ∀ key type, c.decls.types.get? key = some type →
    base.Denotes key type
  typesOver : ∀ key type, c.decls.types.get? key = some type → type.Over base.decls.structs.size

namespace Expanding

variable {stack : List String}

theorem start (hstack : base.expanding = [])
    (hover : ∀ key type, base.decls.types.get? key = some type → type.Over base.decls.structs.size) :
    base.Expanding [] base where
  frame := ⟨base.decls.types, [], by rw [← hstack]; simp, by simp⟩
  before := .refl
  sound key type type' h h' := Denotes.unique ⟨0, h⟩ h'
  quiet _ key type h := ⟨0, h⟩
  typesOver := hover

variable (h : base.Expanding stack c)
include h

theorem aliases : c.aliases = base.aliases := by
  obtain ⟨types, errors, rfl, -⟩ := h.frame
  rfl

theorem expanding : c.expanding = stack := by
  obtain ⟨types, errors, rfl, -⟩ := h.frame
  rfl

theorem withStack {stack' : List String} : base.Expanding stack' { c with expanding := stack' } where
  frame := by
    obtain ⟨types, errors, rfl, herrors⟩ := h.frame
    exact ⟨types, errors, rfl, herrors⟩
  before := ⟨h.before.types, h.before.errors⟩
  sound := h.sound
  quiet := h.quiet
  typesOver := h.typesOver

theorem noting (error : UnitId × TypeError) (he : base.AliasError error) :
    base.Expanding stack (c.noting [error]) ∧ c.Before (c.noting [error]) ∧
      (c.noting [error]).decls.errors.size ≠ base.decls.errors.size := by
  have hsize : (c.noting [error]).decls.errors.size = c.decls.errors.size + 1 := by simp [Collector.noting]
  have hle := h.before.errors
  have hbefore : c.Before (c.noting [error]) := ⟨fun _ _ h => h, by omega⟩
  refine ⟨⟨?_, h.before.trans hbefore, h.sound, fun hs => by omega, h.typesOver⟩, hbefore, by omega⟩
  obtain ⟨types, errors, rfl, herrors⟩ := h.frame
  exact ⟨types, errors ++ [error], by simp [Collector.noting],
    forall_mem_append.mpr ⟨herrors, by simpa using he⟩⟩

theorem insert (type : Ty) (hnone : c.decls.types.get? key = none)
    (hsound : ∀ type', base.Denotes key type' → type = type')
    (hquiet : c.decls.errors.size = base.decls.errors.size → base.Denotes key type)
    (hover : type.Over base.decls.structs.size) :
    base.Expanding stack { c with decls := { c.decls with types := c.decls.types.insert key type } } ∧
      c.Before { c with decls := { c.decls with types := c.decls.types.insert key type } } := by
  have hbefore : c.Before { c with decls := { c.decls with types := c.decls.types.insert key type } } := by
    refine ⟨fun other found hf => ?_, Nat.le_refl _⟩
    have hne : other ≠ key := by
      rintro rfl
      cases hnone.symm.trans hf
    exact (Table.get?_insert_of_ne _ hne _).trans hf
  have hcases : ∀ other found, (c.decls.types.insert key type).get? other = some found →
      (other = key ∧ found = type) ∨ c.decls.types.get? other = some found := by
    intro other found hf
    rw [Table.get?_insert] at hf
    split at hf
    · exact .inl ⟨by assumption, (some.inj hf).symm⟩
    · exact .inr hf
  refine ⟨⟨?_, h.before.trans hbefore, fun other found type' hf hd => ?_, fun hs other found hf => ?_,
    fun other found hf => ?_⟩, hbefore⟩
  · obtain ⟨types, errors, rfl, herrors⟩ := h.frame
    exact ⟨_, errors, rfl, herrors⟩
  · rcases hcases other found hf with ⟨rfl, rfl⟩ | hf
    · exact hsound type' hd
    · exact h.sound other found type' hf hd
  · rcases hcases other found hf with ⟨rfl, rfl⟩ | hf
    · exact hquiet hs
    · exact h.quiet hs other found hf
  · rcases hcases other found hf with ⟨rfl, rfl⟩ | hf
    · exact hover
    · exact h.typesOver other found hf

end Expanding

end Collector

namespace Collect

open Collector (Expanding Before)

variable {base c : Collector} {stack : List String} {key : String} {fuel : Nat} {type : Ty}

/-- A step that looks a type up while aliases are expanded. What it gives is the type by the names that
are known afterwards, and by what the names stand for. -/
def Searches {α : Type} (base : Collector) (stack : List String) (x : ExceptT TypeError Collect α)
    (x' : ReaderT (String → Option Ty) Option α) : Prop :=
  ∀ c, base.Expanding stack c → ∃ r c', outcome x.run c = (r, c') ∧ base.Expanding stack c' ∧ c.Before c' ∧
    (∀ a, r = .ok a → ∀ types : String → Option Ty,
      (∀ key type, c'.decls.types.get? key = some type → types key = some type) → x' types = some a) ∧
    (∀ depth a, x' (base.opened depth) = some a → r = .ok a) ∧ ∀ error, r = .error error → error.isCyclic = false

namespace Searches

variable {α β : Type}

theorem pure (a : α) : Searches base stack (Pure.pure a) (Pure.pure a) := by
  refine fun c hc => ⟨.ok a, c, rfl, hc, .refl, ?_, ?_, by simp⟩
  · rintro _ ⟨⟩ types -
    rfl
  · rintro depth _ ⟨⟩
    rfl

theorem bind {x : ExceptT TypeError Collect α} {x' : ReaderT (String → Option Ty) Option α}
    {f : α → ExceptT TypeError Collect β} {f' : α → ReaderT (String → Option Ty) Option β}
    (hx : Searches base stack x x') (hf : ∀ a, Searches base stack (f a) (f' a)) :
    Searches base stack (x >>= f) (x' >>= f') := by
  intro c hc
  obtain ⟨r, c1, hrun, hc1, hbefore, hknown, hdenotes, herror⟩ := hx c hc
  rw [ExceptT.run_bind, outcome_bind, hrun]
  cases r with
  | error e =>
    refine ⟨.error e, c1, rfl, hc1, hbefore, by simp, fun depth b hb => ?_, ?_⟩
    · obtain ⟨a, ha, -⟩ := reader_bind.mp hb
      cases hdenotes depth a ha
    · rintro _ ⟨⟩
      exact herror e rfl
  | ok a =>
    obtain ⟨r', c2, hrun', hc2, hbefore', hknown', hdenotes', herror'⟩ := hf a c1 hc1
    refine ⟨r', c2, hrun', hc2, hbefore.trans hbefore', fun b hb types ht => ?_, fun depth b hb => ?_, herror'⟩
    · exact reader_bind.mpr
        ⟨a, hknown a rfl types fun key type h => ht key type (hbefore'.types key type h), hknown' b hb types ht⟩
    · obtain ⟨a', ha', hb⟩ := reader_bind.mp hb
      cases hdenotes depth a' ha'
      exact hdenotes' depth b hb

theorem namedType {expand : String → Collect Ty} {unit : UnitRef} {name : String}
    (hexpand : base.aliases.contains (Declarations.qualify unit.name name) = true →
      Ty.builtin? name = none → ∀ c, base.Expanding stack c → ∃ type c',
        outcome (expand (Declarations.qualify unit.name name)) c = (type, c') ∧ base.Expanding stack c' ∧ c.Before c' ∧
        c'.decls.types.get? (Declarations.qualify unit.name name) = some type) {span : FileSpan} :
    Searches base stack (namedType expand unit name span) (nameType? unit.name name) := by
  intro c hc
  have hsound : ∀ {c : Collector} {type : Ty}, base.Expanding stack c →
      nameType? unit.name name c.decls.types.get? = some type → ∀ depth type',
      nameType? unit.name name (base.opened depth) = some type' → Except.ok type = (.ok type' : Except TypeError Ty) := by
    intro c type hc ht depth type' ht'
    rcases or_eq_some_iff.mp ht with hb | ⟨hb, ht⟩ <;> rcases or_eq_some_iff.mp ht' with hb' | ⟨hb', ht'⟩
    · rw [some.inj (hb.symm.trans hb')]
    · cases hb.symm.trans hb'
    · cases hb.symm.trans hb'
    · rw [hc.sound _ _ _ ht ⟨depth, ht'⟩]
  rcases namedType_cases expand unit name span c with ⟨type, ht, hrun⟩ | ⟨hnone, hcontains, hrun⟩ |
    ⟨hnone, hcontains, error, herror, hrun⟩
  · refine ⟨_, c, hrun, hc, .refl, ?_, hsound hc ht, by simp⟩
    rintro _ ⟨⟩ types htypes
    exact nameType?_mono htypes ht
  · rw [hc.aliases] at hcontains
    obtain ⟨hb, -⟩ := Option.or_eq_none_iff.mp hnone
    obtain ⟨type, c', hexp, hc', hbefore, ht⟩ := hexpand hcontains hb c hc
    rw [hexp] at hrun
    have ht : nameType? unit.name name c'.decls.types.get? = some type :=
      or_eq_some_iff.mpr (.inr ⟨hb, ht⟩)
    refine ⟨_, c', hrun, hc', hbefore, ?_, hsound hc' ht, by simp⟩
    rintro _ ⟨⟩ types htypes
    exact nameType?_mono htypes ht
  · refine ⟨_, c, hrun, hc, .refl, by simp, fun depth type ht => ?_, ?_⟩
    · -- a name that stands for something is a struct or an alias
      obtain ⟨hb, hunknown⟩ := Option.or_eq_none_iff.mp hnone
      rw [hc.aliases, Table.contains, Option.isSome_eq_false_iff, Option.isNone_iff_eq_none] at hcontains
      rw [nameType?, hb] at ht
      have hbase : base.decls.types.get? (Declarations.qualify unit.name name) = none := by
        by_contra hsome
        obtain ⟨known, hknown⟩ := Option.ne_none_iff_exists'.mp hsome
        cases (hc.before.types _ _ hknown).symm.trans hunknown
      cases depth with
      | zero => cases ht.symm.trans hbase
      | succ depth =>
        rw [Collector.opened, hbase, hcontains] at ht
        cases ht
    · rintro _ ⟨⟩
      exact herror

end Searches

/-! ## Expanding an alias -/

/-- The type found for an alias is entered, unless it has got one meanwhile. -/
def settle (key : String) (type : Ty) (c : Collector) : Ty × Collector :=
  ((c.decls.types.get? key).getD type,
    if (c.decls.types.get? key).isSome then c
    else { c with decls := { c.decls with types := c.decls.types.insert key type } })

theorem expandAlias_known (h : c.decls.types.get? key = some type) :
    outcome (expandAlias (fuel + 1) key) c = (type, c) := by
  have hget : ∀ f : Collector → Collect Ty, outcome (get >>= f) c = outcome (f c) c := fun _ => rfl
  rw [expandAlias, hget, h]
  rfl

variable {found : PendingAlias} (hnone : c.decls.types.get? key = none) (hfound : c.aliases.get? key = some found)

include hnone hfound

theorem expandAlias_cyclic (hinside : key ∈ c.expanding) : outcome (expandAlias (fuel + 1) key) c =
    (.error, { c.noting [(found.unit.id, .cyclic found.decl.name found.decl.span)] with decls :=
      { (c.noting [(found.unit.id, .cyclic found.decl.name found.decl.span)]).decls with
        types := c.decls.types.insert key .error } }) := by
  have hget : ∀ f : Collector → Collect Ty, outcome (get >>= f) c = outcome (f c) c := fun _ => rfl
  rw [expandAlias, hget, hnone, hfound]
  simp only [contains_iff_mem, if_pos hinside]
  rfl

theorem expandAlias_open (hnot : key ∉ c.expanding) {c1 : Collector}
    (hinside : outcome (lowerTypeWith (expandAlias fuel) found.unit found.decl.type)
      { c with expanding := key :: c.expanding } = (type, c1)) :
    outcome (expandAlias (fuel + 1) key) c = settle key type { c1 with expanding := c1.expanding.erase key } := by
  have hget : ∀ f : Collector → Collect Ty, outcome (get >>= f) c = outcome (f c) c := fun _ => rfl
  rw [expandAlias, hget, hnone, hfound]
  simp only [contains_iff_mem, if_neg hnot]
  have hset : ∀ (c0 : Collector) (f : PUnit → Collect Ty), outcome (set c0 >>= f) c = outcome (f ⟨⟩) c0 := fun _ _ => rfl
  have hmodify : ∀ (f : Collector → Collector) (g : Collector → Collect Ty),
    outcome (modify f >>= fun _ => get >>= g) c1 = outcome (g (f c1)) (f c1) := fun _ _ => rfl
  rw [hset, outcome_bind, hinside, hmodify]
  unfold settle
  cases c1.decls.types.get? key <;> rfl

omit hnone hfound

theorem expandAlias_spec (hbase : base.Fresh) (hfuel : (unexpanded base.aliases stack).length < fuel)
    (hpath : ∀ k ∈ stack, Relation.TransGen base.Refers k key) (hkey : base.aliases.contains key = true)
    (hc : base.Expanding stack c) : ∃ type c', outcome (expandAlias fuel key) c = (type, c') ∧
      base.Expanding stack c' ∧ c.Before c' ∧ c'.decls.types.get? key = some type := by
  induction fuel generalizing stack key c with
  | zero => omega
  | succ fuel ih =>
    cases hnone : c.decls.types.get? key with
    | some type => exact ⟨type, c, expandAlias_known hnone, hc, .refl, hnone⟩
    | none =>
      obtain ⟨found, hbfound⟩ := Table.contains_eq_true_iff.mp hkey
      have hfound : c.aliases.get? key = some found := by rw [hc.aliases, hbfound]
      by_cases hinside : key ∈ c.expanding
      · -- an alias that is reached again refers to itself
        have hcyclic := hpath key (hc.expanding ▸ hinside)
        obtain ⟨hnoted, hbefore, hsize⟩ := hc.noting (found.unit.id, .cyclic found.decl.name found.decl.span)
          ⟨key, found, hbfound, rfl, fun _ => ⟨rfl, hcyclic⟩⟩
        obtain ⟨hc', hbefore'⟩ := hnoted.insert .error hnone
          (fun type' ⟨depth, h⟩ => by cases h.symm.trans (Collector.opened_of_cyclic hbase hcyclic))
          (fun hs => absurd hs hsize) trivial
        exact ⟨_, _, expandAlias_cyclic hnone hfound hinside, hc', hbefore.trans hbefore', Table.get?_insert_self ..⟩
      · have hnew : key ∉ stack := hc.expanding ▸ hinside
        have hmem : key ∈ base.aliases.keys := mem_map_of_mem (Table.mem_of_find? hbfound)
        have hfewer := length_unexpanded_cons hmem hnew
        -- the names in the declaration are searched with the alias on the stack
        have hsearch : Searches base (key :: stack) (found.decl.type.typeWith (namedType (expandAlias fuel) found.unit))
            (found.decl.type.type? found.unit.name) := by
          refine typeWith_rel_of_mem (fun x x' => Searches base (key :: stack) x x') .pure .bind _ _ _
            fun name hname span => .namedType (fun hcontains hb c hc => ih (by omega) (fun k hk => ?_) hcontains hc)
          have hrefers : base.Refers key (Declarations.qualify found.unit.name name) :=
            ⟨found, name, hbfound, hname, hb, rfl⟩
          rcases mem_cons.mp hk with rfl | hk
          · exact .single hrefers
          · exact (hpath k hk).tail hrefers
        obtain ⟨r, c1, hrun, hc1, hbefore1, hknown, hdenotes, herror⟩ :=
          hsearch _ hc.withStack
        have hinner : ({ c with expanding := key :: c.expanding } : Collector) = { c with expanding := key :: stack } := by
          rw [hc.expanding]
        have hlower : ∃ type c2, outcome (lowerTypeWith (expandAlias fuel) found.unit found.decl.type)
            { c with expanding := key :: c.expanding } = (type, c2) ∧ base.Expanding (key :: stack) c2 ∧
            c1.Before c2 ∧ (∀ type', base.Denotes key type' → type = type') ∧
            (c2.decls.errors.size = base.decls.errors.size → base.Denotes key type) ∧
            type.Over base.decls.structs.size := by
          rw [lowerTypeWith, outcome_bind, hinner, hrun]
          cases r with
          | ok type =>
            have htype := hknown type rfl _ fun _ _ h => h
            refine ⟨type, c1, rfl, hc1, .refl, fun type' hd => ?_, fun hs => ?_, ?_⟩
            · obtain ⟨depth, hd⟩ := hd.alias hbase hbfound
              exact Except.ok.inj (hdenotes depth type' hd)
            · exact .of_alias hbase hbfound (hc1.quiet hs) htype
            · exact type?_closed Ty.over_closed (fun _ _ h => Ty.over_builtin? h) hc1.typesOver htype
          | error error =>
            obtain ⟨hnoted, hbefore, hsize⟩ := hc1.noting (found.unit.id, error)
              ⟨key, found, hbfound, rfl, fun h => by cases h.symm.trans (herror error rfl)⟩
            refine ⟨.error, _, ?_, hnoted, hbefore, fun type' hd => ?_, fun hs => absurd hs hsize, trivial⟩
            · show (Ty.error, (outcome (report found.unit.id error) c1).2) = _
              rw [outcome, report_apply]
            · obtain ⟨depth, hd⟩ := hd.alias hbase hbfound
              cases hdenotes depth type' hd
        obtain ⟨type, c2, hlower, hc2, hbefore2, hsound, hquiet, hover⟩ := hlower
        have hopen := expandAlias_open hnone hfound hinside hlower
        have hafter : base.Expanding stack { c2 with expanding := c2.expanding.erase key } := by
          rw [hc2.expanding, erase_cons_head]
          exact hc2.withStack
        have hbefore : c.Before { c2 with expanding := c2.expanding.erase key } :=
          have h := hbefore1.trans hbefore2
          ⟨h.types, h.errors⟩
        cases hmeanwhile : c2.decls.types.get? key with
        | some known =>
          refine ⟨known, _, hopen.trans ?_, hafter, hbefore, hmeanwhile⟩
          simp [settle, hmeanwhile]
        | none =>
          obtain ⟨hc', hbefore'⟩ := hafter.insert type hmeanwhile hsound hquiet hover
          refine ⟨type, _, hopen.trans ?_, hc', hbefore.trans hbefore', Table.get?_insert_self ..⟩
          simp [settle, hmeanwhile]

theorem expand_spec (hbase : base.Fresh) {keys : List String} (hkeys : ∀ key ∈ keys, base.aliases.contains key = true)
    (hc : base.Expanding [] c) : ∃ c', keys.foldl (fun c key => (outcome (expand key) c).2) c = c' ∧
      base.Expanding [] c' ∧ c.Before c' ∧ ∀ key ∈ keys, (c'.decls.types.get? key).isSome = true := by
  induction keys generalizing c with
  | nil => exact ⟨c, rfl, hc, .refl, by simp⟩
  | cons key rest ih =>
    rw [forall_mem_cons] at hkeys
    have hfuel : (unexpanded base.aliases []).length < c.aliases.size + 1 := by
      rw [hc.aliases]
      simp [unexpanded, Table.keys, Table.size]
    obtain ⟨type, c1, hrun, hc1, hbefore, ht⟩ := expandAlias_spec hbase hfuel (by simp) hkeys.1 hc
    obtain ⟨c2, hrest, hc2, hbefore', hall⟩ := ih hkeys.2 hc1
    refine ⟨c2, ?_, hc2, hbefore.trans hbefore', forall_mem_cons.mpr ⟨?_, hall⟩⟩
    · have hexpand : outcome (expand key) c = (type, c1) := expand_apply.trans hrun
      rw [foldl_cons, hexpand, hrest]
    · rw [hbefore'.types _ _ ht]
      rfl

end Collect

end SsaCompiler
