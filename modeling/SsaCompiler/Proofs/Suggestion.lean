import Mathlib.Data.List.Sort
import Mathlib.Data.Prod.Lex
import Mathlib.Data.String.Basic
import Mathlib.Order.Bounds.Defs
import SsaCompiler.Suggestion

/-!
# Edit distance and suggestions

The distance that is computed a row at a time is the least number of edits that turn one text into
another (`editDistance_isLeast`). It is compared with `distance`, which recurses on both texts: the
row of a text holds the distances to the beginnings of the other (`foldl_nextRow`), a script of that
length exists (`edits_distance`), and one edit changes no distance by more than one (`Edit.near`).

Suggestions depend on which names are candidates, and not on the order in which they are listed or
on repetitions (`suggest_ranks`): candidates are sorted by distance and text, which leaves no ties.
-/

namespace SsaCompiler

open List

namespace Suggestion

/-- One character is inserted, deleted or replaced. -/
inductive Edit : List Char → List Char → Prop
  | insert (front rest : List Char) (c : Char) : Edit (front ++ rest) (front ++ c :: rest)
  | delete (front rest : List Char) (c : Char) : Edit (front ++ c :: rest) (front ++ rest)
  | replace (front rest : List Char) (c d : Char) : Edit (front ++ c :: rest) (front ++ d :: rest)

/-- A number of edits turn a text into another. -/
inductive Edits : Nat → List Char → List Char → Prop
  | done (s : List Char) : Edits 0 s s
  | step {n : Nat} {s u t : List Char} : Edit s u → Edits n u t → Edits (n + 1) s t

/-- The edit distance by recursion on both texts. -/
def distance : List Char → List Char → Nat
  | [], t => t.length
  | s, [] => s.length
  | c :: s, d :: t =>
    min (min (distance s (d :: t) + 1) (distance (c :: s) t + 1)) (distance s t + if c = d then 0 else 1)

variable {s t u : List Char} {c d : Char} {n : Nat} {xs : List (Nat × String)} {a : Nat × String}
variable {front : List Char}

theorem nil_distance : distance [] t = t.length := by simp [distance]

theorem distance_nil : distance s [] = s.length := by cases s <;> simp [distance]

/-! ## Scripts -/

theorem Edit.cons (h : Edit s t) : Edit (c :: s) (c :: t) := by
  cases h with
  | insert front rest d => exact .insert (c :: front) rest d
  | delete front rest d => exact .delete (c :: front) rest d
  | replace front rest d e => exact .replace (c :: front) rest d e

theorem Edit.reverse (h : Edit s t) : Edit s.reverse t.reverse := by
  cases h with
  | insert front rest d => simpa using Edit.insert rest.reverse front.reverse d
  | delete front rest d => simpa using Edit.delete rest.reverse front.reverse d
  | replace front rest d e => simpa using Edit.replace rest.reverse front.reverse d e

theorem Edits.cons (h : Edits n s t) : Edits n (c :: s) (c :: t) := by
  induction h with
  | done s => exact .done _
  | step he _ ih => exact .step he.cons ih

theorem Edits.reverse (h : Edits n s t) : Edits n s.reverse t.reverse := by
  induction h with
  | done s => exact .done _
  | step he _ ih => exact .step he.reverse ih

/-- A script of the length of the distance, from the first characters on. -/
theorem edits_distance (s t : List Char) : Edits (distance s t) s t := by
  fun_induction distance s t with
  | case1 t =>
    induction t with
    | nil => exact .done []
    | cons d t ih => exact .step (.insert [] [] d) ih.cons
  | case2 s =>
    clear * -
    induction s with
    | nil => exact .done []
    | cons c s ih => exact .step (.delete [] s c) ih
  | case3 c s d t deleted inserted kept =>
    have hmin : ∀ a b k : Nat, min (min a b) k = a ∨ min (min a b) k = b ∨ min (min a b) k = k := by omega
    rcases hmin (distance s (d :: t) + 1) (distance (c :: s) t + 1)
      (distance s t + if c = d then 0 else 1) with h | h | h <;> rw [h]
    · exact .step (.delete [] s c) deleted
    · exact .step (.insert [] (c :: s) d) inserted.cons
    · split
      · rename_i he
        exact he ▸ kept.cons
      · exact .step (.replace [] s c d) kept.cons

/-! ## Distances of neighbours -/

theorem distance_cons_left (c : Char) (s t : List Char) : distance (c :: s) t ≤ distance s t + 1 := by
  cases t with
  | nil => simp [distance_nil]
  | cons d t => rw [distance]; omega

theorem distance_cons_right (s : List Char) (d : Char) (t : List Char) : distance s (d :: t) ≤ distance s t + 1 := by
  cases s with
  | nil => simp [nil_distance]
  | cons c s => rw [distance]; omega

theorem distance_cons_cons_le (c : Char) (s : List Char) (d : Char) (t : List Char) :
    distance (c :: s) (d :: t) ≤ distance s t + 1 := by
  rw [distance]
  split <;> omega

/-- No text is farther from the first than from the second by more than one. -/
def Near (s u : List Char) : Prop := ∀ t, distance s t ≤ distance u t + 1

theorem Near.insert : Near s (c :: s) := by
  intro t
  induction t with
  | nil => simp [distance_nil]; omega
  | cons d t ih =>
    have hright := distance_cons_right s d t
    rw [distance]
    omega

theorem Near.replace : Near (c :: s) (d :: s) := by
  intro t
  induction t with
  | nil => simp [distance_nil]
  | cons e t ih =>
    have hleft := distance_cons_left c s (e :: t)
    have hright := distance_cons_right (c :: s) e t
    have hboth := distance_cons_cons_le c s e t
    rw [distance.eq_3 (c := d)]
    omega

theorem Near.cons (h : Near s u) : Near (c :: s) (c :: u) := by
  intro t
  induction t with
  | nil => simpa [distance_nil] using h []
  | cons d t ih =>
    have hleft := h (d :: t)
    have hboth := h t
    rw [distance, distance]
    omega

theorem Edit.near (h : Edit s u) : Near s u := by
  have happend : ∀ {s u : List Char} (front : List Char), Near s u → Near (front ++ s) (front ++ u) := by
    intro s u front h
    induction front with
    | nil => exact h
    | cons c front ih => exact ih.cons
  cases h with
  | insert front rest c => exact happend front .insert
  | delete front rest c => exact happend front (distance_cons_left c rest)
  | replace front rest c d => exact happend front .replace

theorem Edits.distance_le (h : Edits n s t) : distance s t ≤ n := by
  induction h with
  | done s =>
    induction s with
    | nil => simp [nil_distance]
    | cons c s ih =>
      rw [distance, if_pos rfl]
      omega
  | @step n s u t he _ ih =>
    have hnear := he.near t
    omega

/-! ## Rows -/

/-- The distances from a text to `front` and to what `front` becomes as the characters of another
text are put in front of it. -/
def distances (s front : List Char) : List Char → List Nat
  | [] => [distance s front]
  | d :: t => distance s front :: distances s (d :: front) t

theorem distances_eq_cons : distances s front t = distance s front :: (distances s front t).tail := by cases t <;> rfl

theorem extendRow_distances :
    extendRow c (distance (c :: s) front) t (distances s front t) = (distances (c :: s) front t).tail := by
  induction t generalizing front with
  | nil => rfl
  | cons d t ih =>
    have hentry : min (min (distance s (d :: front) + 1) (distance (c :: s) front + 1))
        (distance s front + if c = d then 0 else 1) = distance (c :: s) (d :: front) := by
      rw [← distance]
    rw [distances, distances_eq_cons, extendRow, ← distances_eq_cons, hentry, ih, ← distances_eq_cons]
    rfl

theorem nextRow_distances : nextRow c t (distances s [] t) = distances (c :: s) [] t := by
  have hfirst : distance s [] + 1 = distance (c :: s) [] := by simp [distance_nil]
  rw [distances_eq_cons, nextRow, ← distances_eq_cons, hfirst, extendRow_distances, ← distances_eq_cons]

theorem distances_nil : distances [] front t = List.range' front.length (t.length + 1) := by
  induction t generalizing front with
  | nil => simp [distances, nil_distance]
  | cons d t ih => rw [distances, ih, nil_distance, length_cons, length_cons, ← range'_succ]

theorem foldl_nextRow {s' : List Char} :
    s.foldl (fun row c => nextRow c t row) (distances s' [] t) = distances (s.reverse ++ s') [] t := by
  induction s generalizing s' with
  | nil => rfl
  | cons c s ih => rw [foldl_cons, nextRow_distances, ih, reverse_cons, append_assoc]; rfl

theorem getLastD_distances {default : Nat} :
    (distances s front t).getLastD default = distance s (t.reverse ++ front) := by
  induction t generalizing front default with
  | nil => rfl
  | cons d t ih => rw [distances, getLastD_cons, ih, reverse_cons, append_assoc]; rfl

theorem editDistance_eq : editDistance s t = distance s.reverse t.reverse := by
  have hstart : List.range (t.length + 1) = distances [] [] t := by
    rw [distances_nil, range_eq_range']
    rfl
  rw [editDistance, hstart, foldl_nextRow, getLastD_distances, append_nil, append_nil]

/-- The distance of two texts is the least number of insertions, deletions and replacements of one
character that turn the first into the second. -/
theorem editDistance_isLeast (s t : List Char) : IsLeast {n | Edits n s t} (editDistance s t) := by
  rw [editDistance_eq]
  constructor
  · simpa using (edits_distance s.reverse t.reverse).reverse
  · exact fun n h => h.reverse.distance_le

/-! ## Candidates in order -/

theorem before_iff {b : Nat × String} : before a b ↔ toLex a ≤ toLex b := by simp [before, Prod.Lex.toLex_le_toLex]

theorem before_trans (a b c : Nat × String) (h : before a b) (h' : before b c) : before a c :=
  before_iff.mpr (le_trans (before_iff.mp h) (before_iff.mp h'))

theorem before_total (a b : Nat × String) : before a b || before b a := by
  rw [Bool.or_eq_true, before_iff, before_iff]
  exact le_total _ _

theorem mem_dedup : a ∈ dedup xs ↔ a ∈ xs := by
  fun_induction dedup xs with
  | case1 b rest ih => simp [ih]
  | case2 b c rest hne ih => simp [ih]
  | case3 xs => rfl

/-- What is left of a sorted list is in order without repetitions. -/
theorem pairwise_dedup (h : xs.Pairwise (before · ·)) : (dedup xs).Pairwise (toLex · < toLex ·) := by
  fun_induction dedup xs with
  | case1 b rest ih => exact ih h.of_cons
  | case2 b c rest hne ih =>
    refine .cons (fun a ha => ?_) (ih h.of_cons)
    have hc := before_iff.mp (rel_of_pairwise_cons h (.head _))
    have hlt : toLex b < toLex c := hc.lt_of_ne fun he => hne (toLex.injective he)
    rcases mem_cons.mp (mem_dedup.mp ha) with rfl | hrest
    · exact hlt
    · exact hlt.trans_le (before_iff.mp (rel_of_pairwise_cons h.of_cons hrest))
  | case3 xs hshort =>
    match xs with
    | [] => exact .nil
    | [a] => exact pairwise_singleton _ a
    | a :: b :: rest => exact (hshort a b rest rfl).elim

/-- The candidates near a name with their distances, nearest first. -/
def ranked (name : String) (candidates : List String) : List (Nat × String) :=
  let scored := (candidates.filter (· ≠ name)).map fun candidate =>
    (editDistance name.toList candidate.toList, candidate)
  dedup ((scored.filter (·.1 ≤ reach)).mergeSort before)

variable {name : String} {candidates candidates' : List String}

theorem suggest_eq : suggest name candidates = ((ranked name candidates).map (·.2)).take limit :=
  map_take

theorem mem_ranked : a ∈ ranked name candidates ↔
    a.2 ∈ candidates ∧ a.2 ≠ name ∧ a.1 ≤ reach ∧ a.1 = editDistance name.toList a.2.toList := by
  obtain ⟨distance, candidate⟩ := a
  simp only [ranked, mem_dedup, mem_mergeSort, mem_filter, mem_map, Prod.mk.injEq, decide_eq_true_eq]
  constructor
  · rintro ⟨⟨_, ⟨hc, hne⟩, rfl, rfl⟩, hle⟩
    exact ⟨hc, hne, hle, rfl⟩
  · rintro ⟨hc, hne, hle, rfl⟩
    exact ⟨⟨_, ⟨hc, hne⟩, rfl, rfl⟩, hle⟩

theorem pairwise_ranked (name : String) (candidates : List String) :
    (ranked name candidates).Pairwise (toLex · < toLex ·) :=
  pairwise_dedup (pairwise_mergeSort before_trans before_total _)

theorem ranked_congr (h : ∀ c, c ∈ candidates ↔ c ∈ candidates') :
    ranked name candidates = ranked name candidates' := by
  have hordered := pairwise_ranked name candidates
  have hordered' := pairwise_ranked name candidates'
  have hnodup : ∀ {xs : List (Nat × String)}, xs.Pairwise (toLex · < toLex ·) → xs.Nodup :=
    fun h => h.imp fun hlt he => hlt.ne (congrArg toLex he)
  have hperm : (ranked name candidates).Perm (ranked name candidates') := by
    refine (perm_ext_iff_of_nodup (hnodup hordered) (hnodup hordered')).mpr fun a => ?_
    rw [mem_ranked, mem_ranked, h]
  exact hperm.eq_of_pairwise (fun a b _ _ hlt hgt => absurd hgt hlt.asymm) hordered hordered'

theorem suggest_perm (h : candidates.Perm candidates') : suggest name candidates = suggest name candidates' := by
  rw [suggest_eq, suggest_eq, ranked_congr fun _ => h.mem_iff]

/-- The place of a candidate for a name: nearer ones come first, then those with lesser texts. -/
def rank (name candidate : String) : Nat ×ₗ String :=
  toLex (editDistance name.toList candidate.toList, candidate)

/-- Suggestions depend on the set of candidates only: they are the first three of the distinct
candidates other than the name at a distance of at most three, nearest first and then in the order of
their texts. -/
theorem suggest_ranks (name : String) (h : ∀ c, c ∈ candidates ↔ c ∈ candidates') :
    suggest name candidates = suggest name candidates' ∧
      ∃ near : List String, near.Pairwise (rank name · < rank name ·) ∧
        (∀ c, c ∈ near ↔ c ∈ candidates ∧ c ≠ name ∧ editDistance name.toList c.toList ≤ 3) ∧
        suggest name candidates = near.take 3 := by
  refine ⟨by rw [suggest_eq, suggest_eq, ranked_congr h], (ranked name candidates).map Prod.snd, ?_,
    fun c => ?_, suggest_eq⟩
  · rw [List.pairwise_map]
    refine (pairwise_ranked name candidates).imp_of_mem fun {a b} ha hb hlt => ?_
    obtain ⟨-, -, -, ha⟩ := mem_ranked.mp ha
    obtain ⟨-, -, -, hb⟩ := mem_ranked.mp hb
    rwa [rank, rank, ← ha, ← hb]
  · rw [List.mem_map]
    constructor
    · rintro ⟨a, ha, rfl⟩
      obtain ⟨hc, hne, hle, hd⟩ := mem_ranked.mp ha
      exact ⟨hc, hne, hd ▸ hle⟩
    · rintro ⟨hc, hne, hle⟩
      exact ⟨(_, c), mem_ranked.mpr ⟨hc, hne, hle, rfl⟩, rfl⟩

/-- The same four names, in another order and with a repetition. -/
theorem suggest_ranks_misspelled :
    (∀ c, c ∈ ["counter", "country", "count", "round"] ↔ c ∈ ["round", "count", "counter", "count", "country"]) ∧
    suggest "countr" ["counter", "country", "count", "round"] =
      suggest "countr" ["round", "count", "counter", "count", "country"] := by
  have h : ∀ c, c ∈ ["counter", "country", "count", "round"] ↔
      c ∈ ["round", "count", "counter", "count", "country"] := by
    simp only [List.mem_cons]
    tauto
  exact ⟨h, (suggest_ranks "countr" h).1⟩

end Suggestion

end SsaCompiler
