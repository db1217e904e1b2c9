import Mathlib.Order.Bounds.Basic
import SsaCompiler.Proofs.Typing.Accepted

/-!
# Promotion is a least upper bound

Types without the one of failures are ordered by what may be used as what. Two types below a common one
are comparable, since numbers of one kind are ordered by their width, so promotion, which answers the
greater of two types, finds what is above both: the types above it are those above the two
(`Ty.Known.above_common`). All its laws follow from this (`Ty.promote_isLUB`).
-/

namespace SsaCompiler

namespace Ty

/-- The types of what did not fail to check. -/
abbrev Known := {type : Ty // type ≠ error}

theorem widensTo_trans {a b c : Ty} (h : a.widensTo b = true) (h' : b.widensTo c = true) : a.widensTo c = true := by
  cases a <;> cases b <;> cases c <;> simp_all [widensTo] <;> omega

theorem not_widensTo_both {a b : Ty} (h : a.widensTo b = true) : b.widensTo a = false := by
  by_contra h'
  have hself := widensTo_trans h (Bool.eq_true_of_not_eq_false h')
  rw [widensTo_self] at hself
  cases hself

/-- Numbers that widen to one type are of one kind. -/
theorem comparable_of_widensTo {a b c : Ty} (h : a.widensTo c = true) (h' : b.widensTo c = true) :
    a.widensTo b = true ∨ a = b ∨ b.widensTo a = true := by
  cases a <;> cases b <;> cases c <;> simp_all [widensTo] <;> omega

namespace Known

variable {a b c : Known}

theorem assignableTo_iff : a.1.assignableTo b = true ↔ a.1 = b ∨ a.1.widensTo b = true := by
  simp [assignableTo, isError_eq_false a.2, isError_eq_false b.2]

instance : PartialOrder Known where
  le a b := a.1.assignableTo b = true
  le_refl a := assignableTo_iff.mpr (.inl rfl)
  le_trans a b c hab hbc := by
    rcases assignableTo_iff.mp hab with he | hw
    · rwa [he]
    · rcases assignableTo_iff.mp hbc with he | hw'
      · rwa [← he]
      · exact assignableTo_iff.mpr (.inr (widensTo_trans hw hw'))
  le_antisymm a b hab hba := by
    refine Subtype.ext ((assignableTo_iff.mp hab).elim id fun hw => ?_)
    exact ((assignableTo_iff.mp hba).resolve_right (by simp [not_widensTo_both hw])).symm

instance : DecidableLE Known := fun a b => inferInstanceAs (Decidable (a.1.assignableTo b = true))

theorem le_total_of_le (ha : a ≤ c) (hb : b ≤ c) : a ≤ b ∨ b ≤ a := by
  rcases assignableTo_iff.mp ha with he | ha
  · exact .inr (Subtype.ext he ▸ hb)
  · rcases assignableTo_iff.mp hb with he | hb
    · exact .inl (assignableTo_iff.mpr (.inr (he ▸ ha)))
    · rcases comparable_of_widensTo ha hb with hw | he | hw
      · exact .inl (assignableTo_iff.mpr (.inr hw))
      · exact .inl (assignableTo_iff.mpr (.inl he))
      · exact .inr (assignableTo_iff.mpr (.inr hw))

/-- The greater of two types. -/
def common (a b : Known) : Option Known := if b ≤ a then some a else if a ≤ b then some b else none

theorem promote_eq (a b : Known) : promote a b = (common a b).map (·.1) := by
  have hle : ∀ {a b : Known}, a ≤ b ↔ (a.1 = b ∨ a.1.widensTo b = true) := assignableTo_iff
  simp only [promote, common, isError_eq_false a.2, isError_eq_false b.2, hle, Bool.or_eq_true, decide_eq_true_eq,
    Bool.or_self, Bool.false_eq_true, if_false]
  by_cases heq : a.1 = b
  · simp [heq]
  · simp only [heq, Ne.symm heq, false_or]
    split
    · rfl
    · split <;> rfl

/-- The types that are above the one that is found, if there is one. -/
def above : Option Known → Set Known
  | some a => Set.Ici a
  | none => ∅

theorem above_injective : Function.Injective above := by
  rintro (_ | a) (_ | b) h
  · rfl
  · exact (Set.nonempty_Ici.ne_empty h.symm).elim
  · exact (Set.nonempty_Ici.ne_empty h).elim
  · exact congrArg some (Set.Ici_injective h)

theorem above_bind {o : Option Known} {f : Known → Option Known} {s : Set Known}
    (hf : ∀ a, above (f a) = Set.Ici a ∩ s) : above (o.bind f) = above o ∩ s := by
  cases o with
  | none => exact (Set.empty_inter s).symm
  | some a => exact hf a

/-- What is above the common type of two is what is above both. -/
theorem above_common (a b : Known) : above (common a b) = Set.Ici a ∩ Set.Ici b := by
  unfold common
  split
  · rename_i h
    exact (Set.inter_eq_left.mpr (Set.Ici_subset_Ici.mpr h)).symm
  · split
    · rename_i h
      exact (Set.inter_eq_right.mpr (Set.Ici_subset_Ici.mpr h)).symm
    · rename_i hba hab
      refine (Set.eq_empty_of_forall_notMem ?_).symm
      rintro c ⟨ha, hb⟩
      exact (le_total_of_le ha hb).elim hab hba

theorem common_comm (a b : Known) : common a b = common b a :=
  above_injective (by rw [above_common, above_common, Set.inter_comm])

theorem common_assoc (a b c : Known) : (common a b).bind (common · c) = (common b c).bind (common a ·) := by
  refine above_injective ?_
  simp only [common_comm a]
  rw [above_bind fun d => above_common d c, above_bind fun d => above_common d a, above_common, above_common,
    Set.inter_right_comm]

theorem common_eq_some_iff {d : Known} : common a b = some d ↔ IsLUB {a, b} d := by
  rw [isLUB_iff_le_iff, ← above_injective.eq_iff, above_common, Set.ext_iff]
  simp [above, iff_comm]

theorem common_eq_none_iff : common a b = none ↔ upperBounds {a, b} = ∅ := by
  rw [← above_injective.eq_iff, above_common, upperBounds_insert, upperBounds_singleton, above]

end Known

/-- Types other than that of failures are ordered by what may be used as what, and two of them are
promoted to their least upper bound, or to nothing if there is no type above both. -/
theorem promote_isLUB (a b c : Known) :
    (a ≤ b ↔ a.1.assignableTo b = true) ∧ a ≤ a ∧ (a ≤ b → b ≤ a → a = b) ∧ (a ≤ b → b ≤ c → a ≤ c) ∧
    (∀ type, promote a b = some type ↔ ∃ h : type ≠ error, IsLUB {a, b} ⟨type, h⟩) ∧
    (promote a b = none ↔ upperBounds {a, b} = ∅) ∧
    promote a b = promote b a ∧ promote a a = some a.1 ∧
    (promote a b).bind (promote · c) = (promote b c).bind (promote a ·) := by
  refine ⟨.rfl, le_rfl, le_antisymm, le_trans, fun type => ?_, ?_, ?_, ?_, ?_⟩
  · simp only [Known.promote_eq, Option.map_eq_some_iff, Known.common_eq_some_iff]
    exact ⟨fun ⟨d, hd, he⟩ => he ▸ ⟨d.2, hd⟩, fun ⟨h, hd⟩ => ⟨_, hd, rfl⟩⟩
  · rw [Known.promote_eq, Option.map_eq_none_iff, Known.common_eq_none_iff]
  · rw [Known.promote_eq, Known.promote_eq, Known.common_comm]
  · simp [Known.promote_eq, Known.common]
  · have hassoc := congrArg (Option.map Subtype.val) (Known.common_assoc a b c)
    simp only [Option.map_bind] at hassoc
    simpa only [Known.promote_eq, Option.bind_map, Function.comp_def] using hassoc

end Ty

end SsaCompiler
