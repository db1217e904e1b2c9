import SsaCompiler.Interner
import SsaCompiler.Names
import Mathlib.Data.List.Forall2
import Mathlib.Logic.Relation

/-!
# Jobs that share an interner

A job asks the interner for the symbol of a text or the text of a symbol, and goes on with the
answer. Between two requests of a job the interner may be used by others, so all that a job may
rely on is that symbols stay (`Interner.Grows`).

`Job.Gives x R` compares a job with a computation `x` on the texts themselves: whatever others do
and in whatever order tables are listed, the job ends, with an answer that stands in the relation `R`
to that of `x`, or with the same fault.
-/

namespace SsaCompiler

/-! ## Symbols stay -/

namespace Interner

variable {names names' names'' : Interner} {text other : String} {symbol : Symbol}

/-- What was interned before still is. -/
def Grows (names names' : Interner) : Prop := names.texts <+: names'.texts

theorem Grows.refl (names : Interner) : names.Grows names := List.prefix_rfl

theorem Grows.trans (h : names.Grows names') (h' : names'.Grows names'') : names.Grows names'' :=
  List.IsPrefix.trans h h'

def Holds (names : Interner) (text : String) (symbol : Symbol) : Prop := names.get? text = some symbol

theorem Holds.resolve? (h : names.Holds text symbol) : names.resolve? symbol = some text := by
  obtain ⟨index, hi, rfl⟩ := Option.map_eq_some_iff.mp h
  obtain ⟨hlt, hp, -⟩ := List.findIdx?_eq_some_iff_getElem.mp hi
  rw [Interner.resolve?, List.getElem?_eq_getElem hlt]
  exact congrArg some (of_decide_eq_true hp)

/-- Equal texts have equal symbols, and different texts different ones. -/
theorem Holds.eq_iff {symbol' : Symbol} (h : names.Holds text symbol) (h' : names.Holds other symbol') :
    text = other ↔ symbol = symbol' := by
  constructor
  · rintro rfl
    exact Option.some.inj (h.symm.trans h')
  · rintro rfl
    exact Option.some.inj (h.resolve?.symm.trans h'.resolve?)

theorem Holds.grow (ht : names.Holds text symbol) (h : names.Grows names') : names'.Holds text symbol := by
  obtain ⟨index, hi, rfl⟩ := Option.map_eq_some_iff.mp ht
  obtain ⟨rest, hrest⟩ := h
  rw [Holds, get?, ← hrest, List.findIdx?_append, hi]
  rfl

theorem holds_intern (names : Interner) (text : String) : (names.intern text).2.Holds text (names.intern text).1 := by
  unfold intern
  split
  · assumption
  · rename_i hnone
    have hidx : names.texts.findIdx? (· = text) = none := Option.map_eq_none_iff.mp hnone
    simp [Holds, get?, hidx]

theorem grows_intern (names : Interner) (text : String) : names.Grows (names.intern text).2 := by
  unfold intern
  split
  · exact .refl _
  · exact List.prefix_append ..

theorem mapM_resolve? {texts : List String} {symbols : List Symbol} (h : List.Forall₂ names.Holds texts symbols) :
    symbols.mapM names.resolve? = some texts := by
  induction h with
  | nil => rfl
  | cons ht _ ih => rw [List.mapM_cons, ht.resolve?, ih]; rfl

end Interner

/-! ## Results alike -/

/-- Two results of the same kind: both good, with values in a relation, or the same error. -/
def Alike {ε α β : Type} (R : α → β → Prop) : Except ε α → Except ε β → Prop
  | .ok a, .ok b => R a b
  | .error e, .error e' => e = e'
  | _, _ => False

namespace Alike

variable {ε α β γ δ : Type} {R S : α → β → Prop} {x : Except ε α} {y : Except ε β}

theorem refl (x : Except ε α) : Alike (· = ·) x x := by cases x <;> rfl

theorem cases (h : Alike R x y) : (∃ e, x = .error e ∧ y = .error e) ∨ ∃ a b, x = .ok a ∧ y = .ok b ∧ R a b := by
  cases x <;> cases y
  · exact .inl ⟨_, rfl, congrArg Except.error (Eq.symm h)⟩
  · exact h.elim
  · exact h.elim
  · exact .inr ⟨_, _, rfl, rfl, h⟩

theorem imp (h : Alike R x y) (hS : ∀ a b, R a b → S a b) : Alike S x y := by
  cases x <;> cases y
  · exact h
  · exact h
  · exact h
  · exact hS _ _ h

theorem bind {T : γ → δ → Prop} {f : α → Except ε γ} {g : β → Except ε δ} (h : Alike R x y)
    (hf : ∀ a b, R a b → Alike T (f a) (g b)) : Alike T (x >>= f) (y >>= g) := by
  cases x <;> cases y
  · exact h
  · exact h.elim
  · exact h.elim
  · exact hf _ _ h

theorem eq {y : Except ε α} (h : Alike (· = ·) x y) : x = y := by
  cases x <;> cases y
  · exact congrArg Except.error h
  · exact h.elim
  · exact h.elim
  · exact congrArg Except.ok h

end Alike

/-! ## Jobs -/

/-- Work that uses an interner. -/
inductive Job (α : Type) : Type where
  | done (answer : α)
  | fault (fault : Fault)
  | intern (text : String) (next : Symbol → Job α)
  /-- Asks for the symbol of a text that may be interned. -/
  | find (text : String) (next : Option Symbol → Job α)
  | text (symbol : Symbol) (next : String → Job α)
  /-- Asks for the texts of the symbols that a table lists. -/
  | texts (symbols : List Symbol) (next : List String → Job α)

namespace Job

variable {α β γ δ : Type}

protected def bind : Job α → (α → Job β) → Job β
  | done answer, f => f answer
  | fault e, _ => fault e
  | intern t next, f => intern t fun symbol => (next symbol).bind f
  | find t next, f => find t fun symbol => (next symbol).bind f
  | text symbol next, f => text symbol fun t => (next t).bind f
  | texts symbols next, f => texts symbols fun ts => (next ts).bind f

instance : Monad Job where
  pure := done
  bind := Job.bind

theorem bind_done (t : Job α) : t.bind done = t := by
  induction t with
  | done | fault => rfl
  | intern _ _ ih | find _ _ ih | text _ _ ih | texts _ _ ih => simp only [Job.bind, ih]

theorem bind_bind (t : Job α) (f : α → Job β) (g : β → Job γ) : (t.bind f).bind g = t.bind fun a => (f a).bind g := by
  induction t with
  | done | fault => rfl
  | intern _ _ ih | find _ _ ih | text _ _ ih | texts _ _ ih => simp only [Job.bind, ih]

instance : LawfulMonad Job := LawfulMonad.mk' Job bind_done (fun _ _ => rfl) bind_bind

instance : MonadLift (Except Fault) Job where
  monadLift
    | .ok answer => done answer
    | .error e => fault e

instance : Names Symbol Job where
  intern t := intern t done
  find? t := find t done
  text symbol := text symbol done
  texts symbols := texts symbols done

/-- One request of a job. The order in which a table lists its keys is left open. -/
inductive Step : Interner → Job α → Interner → Job α → Prop
  | intern {names : Interner} {t : String} {next : Symbol → Job α} :
    Step names (.intern t next) (names.intern t).2 (next (names.intern t).1)
  | find {names : Interner} {t : String} {next : Option Symbol → Job α} :
    Step names (.find t next) names (next (names.get? t))
  | text {names : Interner} {symbol : Symbol} {t : String} {next : String → Job α} :
    names.resolve? symbol = some t → Step names (.text symbol next) names (next t)
  | texts {names : Interner} {symbols : List Symbol} {found listed : List String}
    {next : List String → Job α} : symbols.mapM names.resolve? = some found → listed.Perm found →
    Step names (.texts symbols next) names (next listed)

theorem Step.grows {names names' : Interner} {t t' : Job α} (h : Step names t names' t') : names.Grows names' := by
  cases h with
  | intern => exact names.grows_intern _
  | find | text | texts => exact .refl _

/-- However the interner grows in between and tables are listed, a job ends as `x` does, with answers
in the relation `R`. -/
def Gives (x : Except Fault α) (R : Interner → α → β → Prop) : Job β → Interner → Prop
  | done b, names => ∃ a, x = .ok a ∧ ∀ names', names.Grows names' → R names' a b
  | fault e, _ => x = .error e
  | intern t next, names => ∀ names', names.Grows names' →
    Gives x R (next (names'.intern t).1) (names'.intern t).2
  | find t next, names => ∀ names', names.Grows names' → Gives x R (next (names'.get? t)) names'
  | text symbol next, names => ∀ names', names.Grows names' →
    ∃ found, names'.resolve? symbol = some found ∧ Gives x R (next found) names'
  | texts symbols next, names => ∀ names', names.Grows names' →
    ∃ found, symbols.mapM names'.resolve? = some found ∧
      ∀ listed : List String, listed.Perm found → Gives x R (next listed) names'

namespace Gives

variable {x : Except Fault α} {R : Interner → α → β → Prop} {t t' : Job β} {names names' : Interner}

theorem grow (h : Gives x R t names) (hg : names.Grows names') : Gives x R t names' := by
  cases t with
  | done b =>
    obtain ⟨a, hx, hR⟩ := h
    exact ⟨a, hx, fun later hl => hR later (hg.trans hl)⟩
  | fault e => exact h
  | intern t next | find t next | text symbol next | texts symbols next => exact fun later hl => h later (hg.trans hl)

/-- One request keeps what a job will give. -/
theorem step (h : Gives x R t names) (hs : Step names t names' t') : Gives x R t' names' := by
  cases hs with
  | intern => exact h names (.refl _)
  | find => exact h names (.refl _)
  | text ht =>
    obtain ⟨found, hf, hn⟩ := h names (.refl _)
    rw [ht] at hf
    cases hf
    exact hn
  | texts ht hp =>
    obtain ⟨found, hf, hn⟩ := h names (.refl _)
    rw [ht] at hf
    cases hf
    exact hn _ hp

/-- What an answer is foreseen to be, it stays. -/
theorem always (h : Gives x R t names) :
    Gives x (fun names' a b => ∀ later, names'.Grows later → R later a b) t names := by
  induction t generalizing names with
  | done b =>
    obtain ⟨a, hx, ha⟩ := h
    exact ⟨a, hx, fun _ hl later hlater => ha later (hl.trans hlater)⟩
  | fault e => exact h
  | intern t next ih => exact fun later hl => ih _ (h later hl)
  | find t next ih => exact fun later hl => ih _ (h later hl)
  | text symbol next ih =>
    intro later hl
    obtain ⟨found, hf, hn⟩ := h later hl
    exact ⟨found, hf, ih _ hn⟩
  | texts symbols next ih =>
    intro later hl
    obtain ⟨found, hf, hn⟩ := h later hl
    exact ⟨found, hf, fun listed hp => ih _ (hn listed hp)⟩

theorem pure {a : α} {b : β} (h : ∀ names', names.Grows names' → R names' a b) : Gives (.ok a) R (Pure.pure b) names :=
  ⟨a, rfl, h⟩

theorem bind {f : α → Except Fault γ} {g : β → Job δ} {S : Interner → γ → δ → Prop} (h : Gives x R t names)
    (hf : ∀ names', names.Grows names' → ∀ a b, R names' a b → Gives (f a) S (g b) names') :
    Gives (x >>= f) S (t >>= g) names := by
  induction t generalizing names with
  | done b =>
    obtain ⟨a, rfl, ha⟩ := h
    exact hf names (.refl _) a b (ha names (.refl _))
  | fault e =>
    obtain rfl : x = .error e := h
    exact rfl
  | intern t next ih =>
    refine fun later hl => ih _ (h later hl) fun last hlast => hf last ?_
    exact (hl.trans (later.grows_intern t)).trans hlast
  | find t next ih => exact fun later hl => ih _ (h later hl) fun last hlast => hf last (hl.trans hlast)
  | text symbol next ih =>
    intro later hl
    obtain ⟨found, hf', hn⟩ := h later hl
    exact ⟨found, hf', ih _ hn fun last hlast => hf last (hl.trans hlast)⟩
  | texts symbols next ih =>
    intro later hl
    obtain ⟨found, hf', hn⟩ := h later hl
    exact ⟨found, hf', fun listed hp => ih _ (hn listed hp) fun last hlast => hf last (hl.trans hlast)⟩

/-- A job that ends has the answer that was foreseen. -/
theorem answer {b : β} (h : Gives x R (done b) names) : ∃ a, x = .ok a ∧ R names a b := by
  obtain ⟨a, hx, hR⟩ := h
  exact ⟨a, hx, hR names (.refl _)⟩

/-- A job that has not ended can go on, and comes to its end if it is left alone. -/
theorem runs (h : Gives x R t names) : ∃ names' t', Relation.ReflTransGen
    (fun p q : Interner × Job β => Step p.1 p.2 q.1 q.2) (names, t) (names', t') ∧
      ((∃ b, t' = done b) ∨ ∃ e, t' = fault e ∧ x = .error e) := by
  induction t generalizing names with
  | done b => exact ⟨names, _, .refl, .inl ⟨b, rfl⟩⟩
  | fault e => exact ⟨names, _, .refl, .inr ⟨e, rfl, h⟩⟩
  | intern t next ih =>
    obtain ⟨names', t', hrun, hend⟩ := ih _ (h names (.refl _))
    exact ⟨names', t', .head (b := (_, _)) .intern hrun, hend⟩
  | find t next ih =>
    obtain ⟨names', t', hrun, hend⟩ := ih _ (h names (.refl _))
    exact ⟨names', t', .head (b := (_, _)) .find hrun, hend⟩
  | text symbol next ih =>
    obtain ⟨found, hf, hn⟩ := h names (.refl _)
    obtain ⟨names', t', hrun, hend⟩ := ih _ hn
    exact ⟨names', t', .head (b := (_, _)) (.text hf) hrun, hend⟩
  | texts symbols next ih =>
    obtain ⟨found, hf, hn⟩ := h names (.refl _)
    obtain ⟨names', t', hrun, hend⟩ := ih _ (hn found (.refl _))
    exact ⟨names', t', .head (b := (_, _)) (.texts hf (.refl _)) hrun, hend⟩

end Gives

/-! ## Requests -/

variable {names : Interner}

theorem gives_lift {R : Interner → α → β → Prop} {x : Except Fault α} {y : Except Fault β}
    (h : Alike (fun a b => ∀ names', names.Grows names' → R names' a b) x y) : Gives x R (liftM y : Job β) names := by
  cases x <;> cases y
  · exact congrArg Except.error h
  · exact h.elim
  · exact h.elim
  · exact ⟨_, rfl, h⟩

theorem gives_intern (t : String) :
    Gives (.ok t) (fun names s symbol => s = t ∧ names.Holds t symbol) (Names.intern t : Job Symbol) names :=
  fun names' _ => ⟨t, rfl, fun _ hlater => ⟨rfl, (names'.holds_intern t).grow hlater⟩⟩

theorem gives_find (t : String) : Gives (.ok (some t)) (fun later s symbol => s = some t ∧
        ∃ asked, names.Grows asked ∧ asked.Grows later ∧ symbol = asked.get? t)
      (Names.find? t : Job (Option Symbol)) names :=
  fun asked h => ⟨some t, rfl, fun _ hlater => ⟨rfl, asked, h, hlater, rfl⟩⟩

theorem gives_text {t : String} {symbol : Symbol} (h : names.Holds t symbol) :
    Gives (.ok t) (fun _ a b => a = t ∧ b = t) (Names.text symbol : Job String) names :=
  fun _ hg => ⟨t, (h.grow hg).resolve?, t, rfl, fun _ _ => ⟨rfl, rfl⟩⟩

theorem gives_texts {ts : List String} {symbols : List Symbol} (h : List.Forall₂ names.Holds ts symbols) :
    Gives (.ok ts) (fun _ a b => a = ts ∧ b.Perm ts) (Names.texts symbols : Job (List String)) names :=
  fun _ hg => ⟨ts, Interner.mapM_resolve? (h.imp fun _ _ ht => ht.grow hg),
    fun _ hp => ⟨ts, rfl, fun _ _ => ⟨rfl, hp⟩⟩⟩

/-! ## Jobs with a state -/

/-- A relation between states that stays when the interner grows. -/
structure StateRel (σ σ' : Type) where
  rel : Interner → σ → σ' → Prop
  grow : ∀ {names later : Interner} {s : σ} {s' : σ'}, rel names s s' → names.Grows later → rel later s s'

variable {σ σ' : Type} {K : StateRel σ σ'}

/-- From states in a relation a job gives an answer as foreseen, and states in the relation again. -/
def GivesFrom (K : StateRel σ σ') (x : StateT σ (Except Fault) α) (R : Interner → α → β → Prop)
    (t : StateT σ' Job β) (names : Interner) : Prop :=
  ∀ ⦃s s'⦄, K.rel names s s' → Gives (x.run s) (fun later p q => R later p.1 q.1 ∧ K.rel later p.2 q.2) (t.run s') names

namespace GivesFrom

variable {x : StateT σ (Except Fault) α} {R : Interner → α → β → Prop} {t : StateT σ' Job β}

theorem pure {a : α} {b : β} (h : ∀ later, names.Grows later → R later a b) :
    GivesFrom K (Pure.pure a) R (Pure.pure b) names :=
  fun _ _ hs => .pure fun later hg => ⟨h later hg, K.grow hs hg⟩

theorem bind {f : α → StateT σ (Except Fault) γ} {g : β → StateT σ' Job δ} {S : Interner → γ → δ → Prop}
    (h : GivesFrom K x R t names)
    (hf : ∀ later, names.Grows later → ∀ a b, R later a b → GivesFrom K (f a) S (g b) later) :
    GivesFrom K (x >>= f) S (t >>= g) names := by
  intro s s' hs
  refine (h hs).bind fun later hg p q hpq => ?_
  exact hf later hg p.1 q.1 hpq.1 hpq.2

theorem get : GivesFrom K MonadState.get K.rel MonadState.get names :=
  fun _ _ hs => .pure fun _ hg => ⟨K.grow hs hg, K.grow hs hg⟩

theorem set {s : σ} {s' : σ'} (h : ∀ later, names.Grows later → K.rel later s s') :
    GivesFrom K (MonadStateOf.set s) (fun _ => (· = ·)) (MonadStateOf.set s') names :=
  fun _ _ _ => .pure fun later hg => ⟨rfl, h later hg⟩

theorem modify {change : σ → σ} {change' : σ' → σ'}
    (h : ∀ later, names.Grows later → ∀ s s', K.rel later s s' → K.rel later (change s) (change' s')) :
    GivesFrom K (modify change) (fun _ => (· = ·)) (modify change') names :=
  fun _ _ hs => .pure fun later hg => ⟨rfl, h later hg _ _ (K.grow hs hg)⟩

theorem lift {x : Except Fault α} {t : Job β} (h : Gives x R t names) :
    GivesFrom K (StateT.lift x) R (StateT.lift t) names :=
  fun _ _ hs => h.always.bind fun _ hg _ _ hR => .pure fun later hl => ⟨hR later hl, K.grow hs (hg.trans hl)⟩

end GivesFrom

end Job

end SsaCompiler
