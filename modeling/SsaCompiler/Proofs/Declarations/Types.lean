import SsaCompiler.Declarations.Basic
import SsaCompiler.Proofs.Symbols.Index

/-!
# Types of type expressions in two ways

The type of a type expression is found from the types of the names in it (`TypeExpr.names`), by steps
of any kind. So a relation between steps that holds of the names holds of the whole expression
(`TypeExpr.typeWith_rel`), and so does a property of types that the types of names have
(`TypeExpr.typeWith_gives`). The steps that matter most are those that look names up
(`TypeExpr.type?`).
-/

namespace SsaCompiler

open List

/-- A property of types that is kept when types are put together. -/
structure Ty.Closed (good : Ty → Prop) : Prop where
  unit : good .unit
  ptr : ∀ {pointee : Ty}, good pointee → good (.ptr pointee)
  function : ∀ {params : List Ty} {result : Ty} {varargs : Bool}, (∀ param ∈ params, good param) →
    good result → good (.function params result varargs)

namespace TypeExpr

mutual
/-- The names in a type expression, from left to right. -/
def names : TypeExpr → List String
  | .named name _ => [name]
  | .pointer pointee _ => names pointee
  | .function params none _ _ => namesOf params
  | .function params (some result) _ _ => namesOf params ++ names result

def namesOf : List TypeExpr → List String
  | [] => []
  | expr :: rest => names expr ++ namesOf rest
end

section

variable {m m' : Type → Type} [Monad m] [Monad m'] (rel : ∀ {α : Type}, m α → m' α → Prop)
  (hpure : ∀ {α : Type} (a : α), rel (pure a) (pure a))
  (hbind : ∀ {α β : Type} {x : m α} {x' : m' α} {f : α → m β} {f' : α → m' β}, rel x x' →
    (∀ a, rel (f a) (f' a)) → rel (x >>= f) (x' >>= f'))
  (named : String → FileSpan → m Ty) (named' : String → FileSpan → m' Ty)

include hpure hbind

mutual
theorem typeWith_rel_of_mem : ∀ expr : TypeExpr,
    (∀ name ∈ expr.names, ∀ span, rel (named name span) (named' name span)) →
    rel (expr.typeWith named) (expr.typeWith named')
  | .named name span, h => by exact h name mem_cons_self span
  | .pointer pointee span, h => by exact hbind (typeWith_rel_of_mem pointee h) fun _ => hpure _
  | .function params none varargs span, h => by exact hbind (typesWith_rel_of_mem params h) fun _ => hpure _
  | .function params (some result) varargs span, h => by
    rw [names, forall_mem_append] at h
    exact hbind (typesWith_rel_of_mem params h.1) fun _ => hbind (typeWith_rel_of_mem result h.2) fun _ => hpure _

theorem typesWith_rel_of_mem : ∀ exprs : List TypeExpr,
    (∀ name ∈ namesOf exprs, ∀ span, rel (named name span) (named' name span)) →
    rel (typesWith named exprs) (typesWith named' exprs)
  | [], _ => by exact hpure _
  | expr :: rest, h => by
    rw [namesOf, forall_mem_append] at h
    exact hbind (typeWith_rel_of_mem expr h.1) fun _ => hbind (typesWith_rel_of_mem rest h.2) fun _ => hpure _
end

theorem typeWith_rel (hnamed : ∀ name span, rel (named name span) (named' name span)) (expr : TypeExpr) :
    rel (expr.typeWith named) (expr.typeWith named') :=
  typeWith_rel_of_mem rel hpure hbind named named' expr fun name _ => hnamed name

end

section

variable {m : Type → Type} [Monad m] (gives : ∀ {α : Type}, m α → (α → Prop) → Prop)
  (hpure : ∀ {α : Type} {p : α → Prop} {a : α}, p a → gives (pure a) p)
  (hbind : ∀ {α β : Type} {x : m α} {f : α → m β} {p : α → Prop} {q : β → Prop}, gives x p →
    (∀ a, p a → gives (f a) q) → gives (x >>= f) q)
  (named : String → FileSpan → m Ty) {good : Ty → Prop}

include hpure hbind

mutual
theorem typeWith_gives (hgood : Ty.Closed good) (hnamed : ∀ name span, gives (named name span) good) :
    ∀ expr : TypeExpr, gives (expr.typeWith named) good
  | .named name span => by exact hnamed name span
  | .pointer pointee span => by exact hbind (typeWith_gives hgood hnamed pointee) fun _ hp => hpure (hgood.ptr hp)
  | .function params none varargs span => by
    exact hbind (typesWith_gives hgood hnamed params) fun _ hp => hpure (hgood.function hp hgood.unit)
  | .function params (some result) varargs span => by
    exact hbind (typesWith_gives hgood hnamed params) fun _ hp => hbind (typeWith_gives hgood hnamed result) fun _ hr =>
      hpure (hgood.function hp hr)

theorem typesWith_gives (hgood : Ty.Closed good) (hnamed : ∀ name span, gives (named name span) good) :
    ∀ exprs : List TypeExpr, gives (typesWith named exprs) fun types => ∀ type ∈ types, good type
  | [] => by exact hpure (by simp)
  | expr :: rest => by
    exact hbind (typeWith_gives hgood hnamed expr) fun _ ht => hbind (typesWith_gives hgood hnamed rest) fun _ hr =>
      hpure (forall_mem_cons.mpr ⟨ht, hr⟩)
end

end

/-! ## Looking names up -/

/-- What a name used inside a unit stands for, given what qualified names stand for. -/
def nameType? (unitName name : String) (types : String → Option Ty) : Option Ty :=
  (Ty.builtin? name).or (types (Declarations.qualify unitName name))

/-- The type of a type expression written inside a unit, if all names in it stand for something. -/
def type? (unitName : String) (expr : TypeExpr) : ReaderT (String → Option Ty) Option Ty :=
  expr.typeWith fun name _ => nameType? unitName name

variable {unitName : String} {expr : TypeExpr} {types types' : String → Option Ty} {type type' : Ty}

theorem reader_bind {α β : Type} {x : ReaderT (String → Option Ty) Option α}
    {f : α → ReaderT (String → Option Ty) Option β} {b : β} :
    (x >>= f) types = some b ↔ ∃ a, x types = some a ∧ f a types = some b := by exact Option.bind_eq_some_iff

theorem nameType?_mono {name : String} (h : ∀ key type, types key = some type → types' key = some type)
    (ht : nameType? unitName name types = some type) : nameType? unitName name types' = some type := by
  rcases Option.or_eq_some_iff.mp ht with hb | ⟨hb, ht⟩
  · exact Option.or_eq_some_iff.mpr (.inl hb)
  · exact Option.or_eq_some_iff.mpr (.inr ⟨hb, h _ _ ht⟩)

theorem type?_mono (h : ∀ key type, types key = some type → types' key = some type)
    (ht : expr.type? unitName types = some type) : expr.type? unitName types' = some type := by
  refine typeWith_rel (fun {α} (x x' : ReaderT (String → Option Ty) Option α) =>
    ∀ a, x types = some a → x' types' = some a) (fun _ _ h => h) ?_ _ _ ?_ expr type ht
  · intro α β x x' f f' hx hf b hb
    obtain ⟨a, ha, hb⟩ := reader_bind.mp hb
    exact reader_bind.mpr ⟨a, hx a ha, hf a b hb⟩
  · exact fun name _ _ => nameType?_mono h

theorem type?_closed {good : Ty → Prop} (hgood : Ty.Closed good)
    (hbuiltin : ∀ name type, Ty.builtin? name = some type → good type)
    (h : ∀ key type, types key = some type → good type) (ht : expr.type? unitName types = some type) : good type := by
  refine typeWith_gives (fun {α} (x : ReaderT (String → Option Ty) Option α) p => ∀ a, x types = some a → p a)
    ?_ ?_ _ hgood ?_ expr type ht
  · rintro α p a ha _ ⟨⟩
    exact ha
  · intro α β x f p q hx hf b hb
    obtain ⟨a, ha, hb⟩ := reader_bind.mp hb
    exact hf a (hx a ha) b hb
  · intro name _ a ha
    rcases Option.or_eq_some_iff.mp ha with hb | ⟨-, ha⟩
    · exact hbuiltin _ _ hb
    · exact h _ _ ha

mutual
theorem isSome_of_mem_names : ∀ {expr : TypeExpr} {type : Ty},
    expr.type? unitName types = some type → ∀ name ∈ expr.names, (nameType? unitName name types).isSome = true
  | .named name _, type, h, other, hm => by
    rw [type?, typeWith] at h
    rw [mem_singleton.mp hm, h]
    rfl
  | .pointer pointee _, type, h, name, hm => by
    obtain ⟨_, h, -⟩ := reader_bind.mp h
    exact isSome_of_mem_names h name hm
  | .function params none _ _, type, h, name, hm => by
    obtain ⟨_, h, -⟩ := reader_bind.mp h
    exact isSome_of_mem_namesOf h name hm
  | .function params (some result) _ _, type, h, name, hm => by
    obtain ⟨_, h, hr⟩ := reader_bind.mp h
    obtain ⟨_, hr, -⟩ := reader_bind.mp hr
    rcases mem_append.mp hm with hm | hm
    · exact isSome_of_mem_namesOf h name hm
    · exact isSome_of_mem_names hr name hm

theorem isSome_of_mem_namesOf : ∀ {exprs : List TypeExpr} {found : List Ty},
    (typesWith (m := ReaderT (String → Option Ty) Option) (fun name _ => nameType? unitName name) exprs) types =
      some found → ∀ name ∈ namesOf exprs, (nameType? unitName name types).isSome = true
  | expr :: rest, found, h, name, hm => by
    obtain ⟨_, h, hr⟩ := reader_bind.mp h
    obtain ⟨_, hr, -⟩ := reader_bind.mp hr
    rcases mem_append.mp hm with hm | hm
    · exact isSome_of_mem_names h name hm
    · exact isSome_of_mem_namesOf hr name hm
end

end TypeExpr

/-- Whether an error is about a type that contains itself. -/
def TypeError.isCyclic : TypeError → Bool
  | .cyclic _ _ => true
  | _ => false

/-- An answer is what was found, or the error that nothing was. -/
def Answers {α : Type} (found : Option α) : Except TypeError α → Prop
  | .ok a => found = some a
  | .error error => found = none ∧ error.isCyclic = false

/-- If names are answered by what they stand for, then so are type expressions. -/
theorem TypeExpr.typeWith_answers {m : Type → Type} [Monad m] {unitName : String} {types : String → Option Ty}
    (gives : ∀ {α : Type}, m α → α → Prop) (hpure : ∀ {α : Type} (a : α), gives (pure a) a)
    (hbind : ∀ {α β : Type} {x : m α} {f : α → m β} {a : α} {b : β}, gives x a → gives (f a) b → gives (x >>= f) b)
    {named : String → FileSpan → ExceptT TypeError m Ty}
    (hnamed : ∀ name span, ∃ r, gives (named name span).run r ∧ Answers (nameType? unitName name types) r)
    (expr : TypeExpr) : ∃ r, gives (expr.typeWith named).run r ∧ Answers (expr.type? unitName types) r := by
  refine typeWith_rel (fun {α} (x : ExceptT TypeError m α) (x' : ReaderT (String → Option Ty) Option α) =>
    ∃ r, gives x.run r ∧ Answers (x' types) r) (fun a => ⟨.ok a, hpure _, rfl⟩) ?_ _ _ hnamed expr
  rintro α β x x' f f' ⟨r, hr, ha⟩ hf
  cases r with
  | ok a =>
    obtain ⟨r, hr', ha'⟩ := hf a
    refine ⟨r, hbind hr hr', ?_⟩
    show Answers ((x' types).bind _) r
    rwa [show x' types = some a from ha]
  | error e =>
    refine ⟨.error e, hbind hr (hpure _), ?_, ha.2⟩
    show (x' types).bind _ = none
    rw [ha.1]
    rfl

namespace Declarations

variable {decls : Declarations} {unitName : String} {expr : TypeExpr} {type : Ty}

theorem lookupType?_eq {m : Type → Type} [Monad m] [LawfulMonad m] {name : String} :
    decls.lookupType? (m := m) unitName name = pure (TypeExpr.nameType? unitName name decls.types.get?) := by
  unfold lookupType? TypeExpr.nameType?
  cases Ty.builtin? name <;> simp [Names.find?]

variable (decls) in
theorem resolveType_answers : ∃ r, decls.resolveType unitName expr = (.ok r : Except Fault _) ∧
    Answers (expr.type? unitName decls.types.get?) r := by
  refine TypeExpr.typeWith_answers (fun {α} (x : Except Fault α) a => x = .ok a) (fun _ => rfl) ?_ (fun name span => ?_) expr
  · rintro α β x f a b rfl hf
    exact hf
  · rw [lookupType?_eq]
    cases TypeExpr.nameType? unitName name decls.types.get? with
    | some type => exact ⟨.ok type, rfl, rfl⟩
    | none => exact ⟨_, rfl, rfl, rfl⟩

/-- The type of a type expression is found exactly if all names in it stand for something. -/
theorem resolveType_eq_ok : decls.resolveType unitName expr = (.ok (.ok type) : Except Fault _) ↔
    expr.type? unitName decls.types.get? = some type := by
  obtain ⟨r, hr, ha⟩ := decls.resolveType_answers
  rw [hr]
  cases r with
  | ok found => simp [show expr.type? unitName decls.types.get? = some found from ha]
  | error => simp [ha.1]

end Declarations

/-! ## Types over some structs -/

mutual
/-- A type over the first `structs` structs; what failed to check is one too. -/
def Ty.Over (structs : Nat) : Ty → Prop
  | .int _ | .float _ | .bool | .unit | .error => True
  | .ptr pointee => pointee.Over structs
  | .function params result _ => Ty.AllOver structs params ∧ result.Over structs
  | .aggregate id => id.index < structs

def Ty.AllOver (structs : Nat) : List Ty → Prop
  | [] => True
  | type :: rest => type.Over structs ∧ Ty.AllOver structs rest
end

variable {structs : Nat}

theorem Ty.allOver_iff {types : List Ty} : Ty.AllOver structs types ↔ ∀ type ∈ types, type.Over structs := by
  induction types with
  | nil => simp [Ty.AllOver]
  | cons type rest ih => simp [Ty.AllOver, ih]

theorem Ty.over_closed : Ty.Closed (Ty.Over structs) where
  unit := trivial
  ptr hp := hp
  function hp hr := ⟨Ty.allOver_iff.mpr hp, hr⟩

theorem Ty.over_builtin? {name : String} {type : Ty} (h : Ty.builtin? name = some type) : type.Over structs := by
  unfold Ty.builtin? at h
  split at h <;> cases h <;> trivial

/-- The types of declarations are over their structs, and the index is in order. -/
structure Declarations.Bounded (names : Array String) (count : Nat) (decls : Declarations) : Prop where
  units : decls.index.units = names
  structs : decls.structs.size = count
  sound : decls.index.Sound
  types : ∀ {key : String} {type : Ty}, decls.types.get? key = some type → type.Over count
  fields : ∀ struct ∈ decls.structs.toList, ∀ field ∈ struct.fields, field.type.Over count
  items : ∀ item ∈ decls.index.items.toList, item.type.Over count
  functions : ∀ f ∈ decls.functions.toList, f.type.Over count

/-- An answer is of some kind, unless it is an error. -/
def OfOk {α : Type} (post : α → Prop) : Except TypeError α → Prop
  | .ok a => post a
  | .error _ => True

end SsaCompiler
