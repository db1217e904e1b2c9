import Mathlib.Data.List.Forall2

/-!
# Steps that may fail

Steps with a state that may stop with a fault, opened one at a time: a sequence of steps succeeds
exactly if the first does and the second does from where the first ends (`run_bind_eq_ok`).
-/

namespace SsaCompiler

open List

variable {ε σ α β : Type}
variable {f : α → Except ε β} {xs : List α} {x : Except ε α} {ys : List β}

theorem bind_eq_ok {b : β} : x >>= f = .ok b ↔ ∃ a, x = .ok a ∧ f a = .ok b := by
  cases x with
  | error e => simp [bind, Except.bind]
  | ok a => simp [bind, Except.bind]

theorem pure_eq_ok {a b : α} : (pure a : Except ε α) = .ok b ↔ a = b := by simp [pure, Except.pure]

theorem exists_ok {p : α → Bool} (h : x.toOption.any p = true) : ∃ a, x = .ok a ∧ p a = true := by
  cases x with
  | error => cases h
  | ok a => exact ⟨a, rfl, h⟩

theorem mapM_eq_ok (h : xs.mapM f = .ok ys) : Forall₂ (fun x y => f x = .ok y) xs ys := by
  induction xs generalizing ys with
  | nil =>
    simp only [mapM_nil, pure_eq_ok] at h
    subst h; exact .nil
  | cons x xs ih =>
    simp only [mapM_cons, bind_eq_ok, pure_eq_ok] at h
    obtain ⟨y, hy, ys, hys, rfl⟩ := h
    exact .cons hy (ih hys)

theorem mapM_of_forall₂ (h : Forall₂ (fun x y => f x = .ok y) xs ys) : xs.mapM f = .ok ys := by
  induction h with
  | nil => rfl
  | cons hy _ ih =>
    simp only [mapM_cons, bind_eq_ok]
    exact ⟨_, hy, _, ih, rfl⟩

variable {x : Option α} {y : Option β}

theorem option_mapM_eq_ok (h : x.mapM f = .ok y) :
    (x = none ∧ y = none) ∨ ∃ a b, x = some a ∧ y = some b ∧ f a = .ok b := by
  cases x with
  | none =>
    simp only [Option.mapM_none, pure_eq_ok] at h
    exact .inl ⟨rfl, h.symm⟩
  | some a =>
    simp only [Option.mapM_some, Functor.map, Except.map] at h
    split at h <;> [cases h; skip]
    rename_i b hb
    simp only [Except.ok.injEq] at h
    exact .inr ⟨a, b, rfl, h.symm, hb⟩

section

variable {R : α → β → Prop} (h : Forall₂ R xs ys)
variable {p : α → Bool} {q : β → Bool}
include h

theorem forall₂_exists_right {x : α} (hx : x ∈ xs) : ∃ y ∈ ys, R x y := by
  induction h with
  | nil => simp at hx
  | cons hr _ ih =>
    rcases mem_cons.mp hx with rfl | hx
    · exact ⟨_, mem_cons_self, hr⟩
    · obtain ⟨y, hy, hr⟩ := ih hx
      exact ⟨y, .tail _ hy, hr⟩

theorem forall₂_exists_left {y : β} (hy : y ∈ ys) : ∃ x ∈ xs, R x y :=
  have hflip : Forall₂ (flip R) ys xs := .flip h
  forall₂_exists_right hflip hy

theorem forall₂_comp {γ : Type} {S : β → γ → Prop} {zs : List γ} (h' : Forall₂ S ys zs) :
    Forall₂ (fun x z => ∃ y, R x y ∧ S y z) xs zs := by
  induction h generalizing zs with
  | nil =>
    cases h'
    exact .nil
  | cons hr _ ih =>
    cases h' with
    | cons hs h' => exact .cons ⟨_, hr, hs⟩ (ih h')

theorem forall₂_getElem? (i : Nat) : Option.Rel R xs[i]? ys[i]? := by
  induction h generalizing i with
  | nil => exact .none
  | cons hr _ ih =>
    cases i with
    | zero => exact .some hr
    | succ i => simpa using ih i

theorem forall₂_find? (hpq : ∀ x y, R x y → p x = q y) : Option.Rel R (xs.find? p) (ys.find? q) := by
  induction h with
  | nil => exact .none
  | cons hr _ ih =>
    rw [find?_cons, find?_cons, hpq _ _ hr]
    split
    · exact .some hr
    · exact ih

theorem forall₂_findIdx? (hpq : ∀ x y, R x y → p x = q y) : xs.findIdx? p = ys.findIdx? q := by
  induction h with
  | nil => rfl
  | cons hr _ ih => rw [findIdx?_cons, findIdx?_cons, hpq _ _ hr, ih]

theorem forall₂_filter (hpq : ∀ x y, R x y → p x = q y) : Forall₂ R (xs.filter p) (ys.filter q) := by
  induction h with
  | nil => exact .nil
  | cons hr _ ih =>
    rw [filter_cons, filter_cons, hpq _ _ hr]
    split
    · exact .cons hr ih
    · exact ih

theorem forall₂_set {x : α} {y : β} (hr : R x y) (i : Nat) : Forall₂ R (xs.set i x) (ys.set i y) := by
  induction h generalizing i with
  | nil => exact .nil
  | cons hr' ht ih =>
    cases i with
    | zero => exact .cons hr ht
    | succ i => exact .cons hr' (ih i)

end

theorem optionRel_imp {R S : α → β → Prop} (h : Option.Rel R x y) (hS : ∀ a b, R a b → S a b) : Option.Rel S x y := by
  cases h with
  | some hr => exact .some (hS _ _ hr)
  | none => exact .none

theorem optionRel_eq {y : Option α} (h : Option.Rel (· = ·) x y) : x = y := by
  cases h with
  | some hr => exact congrArg some hr
  | none => rfl

/-- If all steps succeed or fail in one way, then so does the application of them all. -/
theorem mapM_cases {e : ε} (h : ∀ x ∈ xs, f x = .error e ∨ ∃ y, f x = .ok y) :
    xs.mapM f = .error e ∨ ∃ ys, xs.mapM f = .ok ys := by
  induction xs with
  | nil => exact .inr ⟨[], rfl⟩
  | cons x rest ih =>
    rw [mapM_cons]
    rcases h x (.head _) with hx | ⟨y, hx⟩
    · exact .inl (by rw [hx]; rfl)
    · rcases ih fun x hx => h x (.tail _ hx) with hr | ⟨ys, hr⟩
      · exact .inl (by rw [hx, hr]; rfl)
      · exact .inr ⟨y :: ys, by rw [hx, hr]; rfl⟩

theorem lt_of_getElem? {xs : Array α} {i : Nat} {x : α} (h : xs[i]? = some x) : i < xs.size :=
  (Array.getElem?_eq_some_iff.mp h).1

theorem getElem?_of_isPrefix {ys : List α} (h : xs <+: ys) {i : Nat} {x : α} (hx : xs[i]? = some x) :
    ys[i]? = some x := by
  obtain ⟨hi, rfl⟩ := List.getElem?_eq_some_iff.mp hx
  exact prefix_iff_getElem?.mp h i hi

theorem foldlM_keeps {step : σ → α → Except ε σ} (inv : List α → σ → Prop)
    (hstep : ∀ before x s s', inv before s → step s x = .ok s' → inv (before ++ [x]) s') {s s' : σ} (h : inv [] s)
    (hf : xs.foldlM step s = .ok s') : inv xs s' := by
  suffices hgen : ∀ before, inv before s → inv (before ++ xs) s' from hgen [] h
  clear h
  induction xs generalizing s with
  | nil =>
    cases hf
    simp
  | cons x rest ih =>
    intro before h
    rw [foldlM_cons, bind_eq_ok] at hf
    obtain ⟨s1, hx, hrest⟩ := hf
    simpa using ih hrest (before ++ [x]) (hstep before x s s1 h hx)

/-! ## Steps with a state -/

section

variable {x : StateT σ (Except ε) α} {f : α → StateT σ (Except ε) β} {a a' : α} {b : β} {s s1 s' : σ}
variable {u : PUnit}

theorem run_bind_eq_ok : (x >>= f).run s = .ok (b, s') ↔
    ∃ a s1, x.run s = .ok (a, s1) ∧ (f a).run s1 = .ok (b, s') := by
  rw [StateT.run_bind, bind_eq_ok]
  exact ⟨fun ⟨p, h, k⟩ => ⟨p.1, p.2, h, k⟩, fun ⟨a, s1, h, k⟩ => ⟨(a, s1), h, k⟩⟩

theorem run_pure_eq_ok : (pure a : StateT σ (Except ε) α).run s = .ok (a', s') ↔ a = a' ∧ s = s' := by
  rw [StateT.run_pure]
  simp only [pure_eq_ok, Prod.mk.injEq]

theorem run_get_eq_ok : (get : StateT σ (Except ε) σ).run s = .ok (s1, s') ↔ s = s1 ∧ s = s' := by
  simp only [StateT.run_get, pure_eq_ok, Prod.mk.injEq]

theorem run_set_eq_ok : (set s1 : StateT σ (Except ε) PUnit).run s = .ok (u, s') ↔ s1 = s' := by
  simp only [StateT.run_set, pure_eq_ok, Prod.mk.injEq, true_and]

theorem run_modify_eq_ok {g : σ → σ} : (modify g : StateT σ (Except ε) PUnit).run s = .ok (u, s') ↔ g s = s' := by
  simp only [StateT.run_modify, pure_eq_ok, Prod.mk.injEq, true_and]

theorem run_lift_eq_ok {y : Except ε α} :
    (liftM y : StateT σ (Except ε) α).run s = .ok (a, s') ↔ y = .ok a ∧ s = s' := by
  cases y with
  | error e => simp
  | ok y =>
    simp only [liftM, monadLift, MonadLift.monadLift, StateT.run, StateT.lift, bind, Except.bind, pure,
      Except.pure, Except.ok.injEq, Prod.mk.injEq]

theorem run_throw_ne_ok {e : ε} : (throw e : StateT σ (Except ε) α).run s ≠ .ok (a, s') := by
  simp [throw, throwThe, MonadExceptOf.throw]

end

end SsaCompiler
