import SsaCompiler.Proofs.Lowering.LinkSymbols

/-!
# Types are told by their texts

The text of a type starts with a word, which says what kind of type it is and, where it has no parts,
which one (`Ty.ofWord_word`). Parts of types stand in front of a comma, a parenthesis or the end, where
no word goes on. So a text is the text of one type (`Declarations.describe_injective`), and no mismatch
shows the same text for what is expected and what is found.
-/

namespace SsaCompiler

open List

namespace Ty

open LinkSymbol (IsWordChar IsIdentifier)

def InWord (c : Char) : Prop := IsWordChar c ∨ c = ':'

instance (c : Char) : Decidable (InWord c) := inferInstanceAs (Decidable (_ ∨ _))

/-- A text does not go on with a word. -/
def Ends (rest : List Char) : Prop := ∀ c ∈ rest.head?, ¬ InWord c

variable {rest rest' : List Char}

/-- Where a word ends is seen from the text. -/
theorem word_inj {word word' : List Char} (hw : ∀ c ∈ word, InWord c) (hw' : ∀ c ∈ word', InWord c)
    (hr : Ends rest) (hr' : Ends rest') (h : word ++ rest = word' ++ rest') : word = word' ∧ rest = rest' := by
  have hspan : ∀ {word rest : List Char}, (∀ c ∈ word, InWord c) → Ends rest →
      (word ++ rest).takeWhile (InWord ·) = word := by
    intro word rest hw hr
    rw [takeWhile_append_of_pos (by simpa using hw)]
    cases rest with
    | nil => simp
    | cons c rest => simp [hr c rfl]
  have hword : word = word' := by rw [← hspan hw hr, h, hspan hw' hr']
  subst hword
  exact ⟨rfl, append_cancel_left h⟩

/-- Names of structs that are told from the texts of other types. -/
structure Spelled (names : List String) : Prop where
  colon : ∀ name ∈ names, ':' ∈ name.toList
  inWord : ∀ name ∈ names, ∀ c ∈ name.toList, InWord c
  distinct : names.Nodup

variable (names : List String)

def chars (type : Ty) : List Char := (type.render fun id => names[id.index]?).toList

/-- The text between the parentheses of a function type. -/
def between : List Ty → Bool → List Char
  | [], varargs => if varargs then "...".toList else []
  | type :: rest, varargs =>
    type.chars names ++ if rest = [] ∧ varargs = false then [] else ", ".toList ++ between rest varargs

/-- The word that the text of a type starts with. -/
def word : Ty → List Char
  | int bits => 'i' :: Nat.toDigits 10 bits
  | float bits => 'f' :: Nat.toDigits 10 bits
  | bool => "bool".toList
  | unit => "unit".toList
  | function .. => "fn".toList
  | aggregate id => (names[id.index]?.getD "").toList
  | ptr _ | error => []

/-- What stands behind the first word. -/
def suffix : Ty → List Char
  | ptr pointee => '*' :: pointee.chars names
  | function params result varargs =>
    '(' :: (between names params varargs ++ (") -> ".toList ++ result.chars names))
  | error => '\x7b' :: "error\x7d".toList
  | _ => []

/-- A type without its parts. -/
def kind : Ty → Ty
  | ptr _ | error => error
  | function .. => function [] unit false
  | type => type

/-- The kind of type that a word says. -/
def ofWord (word : List Char) : Ty :=
  if ':' ∈ word then aggregate ⟨names.idxOf (String.ofList word)⟩
  else match word with
    | 'i' :: bits => int (Nat.ofDigitChars 10 bits 0)
    | 'f' :: bits => if 'n' ∈ bits then function [] unit false else float (Nat.ofDigitChars 10 bits 0)
    | 'b' :: _ => bool
    | 'u' :: _ => unit
    | _ => error

variable {names}

theorem toList_intercalate (params : List Ty) (varargs : Bool) :
    (", ".intercalate (renderList (fun id => names[id.index]?) params ++ if varargs then ["..."] else [])).toList =
      between names params varargs := by
  induction params with
  | nil => cases varargs <;> rfl
  | cons type rest ih =>
    rw [between, ← ih]
    cases rest <;> cases varargs <;> simp [renderList, chars]

theorem digits {n : Nat} {c : Char} (h : c ∈ Nat.toDigits 10 n) : InWord c ∧ c ≠ ':' ∧ c ≠ 'n' := by
  have hdigit := Nat.isDigit_of_mem_toDigits (by decide) (by decide) h
  refine ⟨.inl (.inl (by simp [Char.isAlphanum, hdigit])), ?_, ?_⟩ <;> rintro rfl <;> cases hdigit

variable {t u : Ty}

theorem chars_eq (ht : t.Over names.length) : t.chars names = t.word names ++ t.suffix names := by
  cases t with
  | function params result varargs =>
    rw [suffix, ← toList_intercalate]
    simp [chars, render, word]
  | aggregate id =>
    have hid : id.index < names.length := ht
    simp [chars, render, word, suffix, hid]
  | int bits | float bits => simp [chars, render, suffix]; rfl
  | _ => simp [chars, render, word, suffix]

theorem inWord_word (h : Spelled names) (ht : t.Over names.length) : ∀ c ∈ t.word names, InWord c := by
  cases t with
  | int bits | float bits => exact forall_mem_cons.mpr ⟨by decide, fun _ hc => (digits hc).1⟩
  | aggregate id =>
    have hid : id.index < names.length := ht
    simpa [word, hid] using h.inWord _ (getElem_mem hid)
  | _ => simp [word, InWord, IsWordChar]

/-- The first word of a text says the kind of type. -/
theorem ofWord_word (h : Spelled names) (ht : t.Over names.length) : ofWord names (t.word names) = t.kind := by
  have hcolon : ∀ {n : Nat}, ':' ∉ Nat.toDigits 10 n := fun hc => (digits hc).2.1 rfl
  have hletter : ∀ {n : Nat}, 'n' ∉ Nat.toDigits 10 n := fun hc => (digits hc).2.2 rfl
  cases t with
  | aggregate id =>
    have hid : id.index < names.length := ht
    have hcolon := h.colon _ (getElem_mem hid)
    simp only [word, getElem?_eq_getElem hid, Option.getD_some, ofWord, if_pos hcolon, String.ofList_toList,
      h.distinct.idxOf_getElem, kind]
  | int bits | float bits => simp [word, ofWord, hcolon, hletter, kind]
  | _ => rfl

theorem ends_suffix (t : Ty) (h : Ends rest) : Ends (t.suffix names ++ rest) := by
  have hmark : ∀ {c : Char} {rest : List Char}, ¬ InWord c → Ends (c :: rest) := by
    rintro c rest hc _ ⟨⟩
    exact hc
  cases t with
  | ptr | function | error => exact hmark (by decide)
  | _ => exact h

/-- The text of a type starts neither like the mark of extra arguments nor like the end of a list. -/
theorem chars_ne (h : Spelled names) (ht : t.Over names.length) {c : Char}
    (hc : ¬ InWord c ∧ c ≠ '*' ∧ c ≠ '\x7b') : t.chars names ++ rest ≠ c :: rest' := by
  rw [chars_eq ht]
  intro he
  cases hw : t.word names with
  | cons d word =>
    rw [hw] at he
    cases he
    exact hc.1 (inWord_word h ht _ (hw ▸ .head _))
  | nil =>
    have hkind := ofWord_word h ht
    rw [hw] at hkind he
    cases t with
    | ptr => exact hc.2.1 (cons.inj he).1.symm
    | error => exact hc.2.2 (cons.inj he).1.symm
    | _ => cases hkind

/-- Two texts that agree start with types of one kind, and go on in the same way. -/
theorem kind_of_chars (h : Spelled names) (ht : t.Over names.length) (hu : u.Over names.length) (hr : Ends rest)
    (hr' : Ends rest') (he : t.chars names ++ rest = u.chars names ++ rest') :
    t.kind = u.kind ∧ t.suffix names ++ rest = u.suffix names ++ rest' := by
  rw [chars_eq ht, chars_eq hu, append_assoc, append_assoc] at he
  obtain ⟨hword, hsuffix⟩ := word_inj (inWord_word h ht) (inWord_word h hu) (ends_suffix t hr) (ends_suffix u hr') he
  exact ⟨by rw [← ofWord_word h ht, hword, ofWord_word h hu], hsuffix⟩

theorem between_nil_ne (h : Spelled names) (hu : u.Over names.length) {us : List Ty} {varargs varargs' : Bool} :
    between names [] varargs ++ ')' :: rest ≠ between names (u :: us) varargs' ++ rest' := by
  rw [between.eq_2, append_assoc]
  cases varargs with
  | false => exact (chars_ne h hu (c := ')') (by decide)).symm
  | true => exact (chars_ne h hu (c := '.') (by decide)).symm

theorem ends_if (p : Prop) [Decidable p] {more : List Char} :
    Ends ((if p then [] else ", ".toList ++ more) ++ ')' :: rest) := by split <;> rintro _ ⟨⟩ <;> decide

mutual
theorem eq_of_chars (h : Spelled names) : ∀ (t u : Ty) {rest rest' : List Char}, t.Over names.length →
    u.Over names.length → Ends rest → Ends rest' → t.chars names ++ rest = u.chars names ++ rest' → t = u ∧ rest = rest'
  | t, u, rest, rest', ht, hu, hr, hr', he => by
    obtain ⟨hkind, hs⟩ := kind_of_chars h ht hu hr hr' he
    cases t with
    | ptr t =>
      cases u with
      | ptr u =>
        obtain ⟨rfl, hrest⟩ := eq_of_chars h t u ht hu hr hr' (cons.inj hs).2
        exact ⟨rfl, hrest⟩
      | error => cases (cons.inj hs).1
      | _ => cases hkind
    | error =>
      cases u with
      | ptr u => cases (cons.inj hs).1
      | error => exact ⟨rfl, append_cancel_left hs⟩
      | _ => cases hkind
    | function ts t varargs =>
      cases u with
      | function us u varargs' =>
        simp only [suffix, cons_append, append_assoc, cons.injEq, true_and] at hs
        obtain ⟨rfl, rfl, harrow⟩ := eq_of_between h ts us ht.1 hu.1 hs
        obtain ⟨rfl, hrest⟩ := eq_of_chars h t u ht.2 hu.2 hr hr' (append_cancel_left harrow)
        exact ⟨rfl, hrest⟩
      | _ => cases hkind
    | _ =>
      cases u with
      | ptr | error | function => cases hkind
      | _ => exact ⟨hkind, hs⟩

/-- The end of a list of parameters is seen from the text: no type starts with a parenthesis or a dot. -/
theorem eq_of_between (h : Spelled names) : ∀ (ts us : List Ty) {varargs varargs' : Bool} {rest rest' : List Char},
    AllOver names.length ts → AllOver names.length us →
    between names ts varargs ++ ')' :: rest = between names us varargs' ++ ')' :: rest' →
    ts = us ∧ varargs = varargs' ∧ rest = rest'
  | [], [], varargs, varargs', _, _, _, _, he => by
    cases varargs <;> cases varargs' <;> cases he <;> exact ⟨rfl, rfl, rfl⟩
  | [], u :: us, varargs, varargs', _, _, _, hu, he => (between_nil_ne h hu.1 he).elim
  | t :: ts, [], varargs, varargs', _, _, ht, _, he => (between_nil_ne h ht.1 he.symm).elim
  | t :: ts, u :: us, varargs, varargs', rest, rest', ht, hu, he => by
    rw [between, between, append_assoc, append_assoc] at he
    obtain ⟨rfl, htail⟩ := eq_of_chars h t u ht.1 hu.1 (ends_if _) (ends_if _) he
    split at htail <;> split at htail
    case isTrue.isTrue ht hu => cases htail; simp [ht, hu]
    case isFalse.isFalse =>
      rw [append_assoc] at htail
      obtain ⟨rfl, hrest⟩ := eq_of_between h ts us ht.2 hu.2 (append_cancel_left htail)
      exact ⟨rfl, hrest⟩
    all_goals cases (cons.inj htail).1
end

theorem spelled_of_qualified (h : ∀ name ∈ names, ∃ unit item, IsIdentifier unit ∧ IsIdentifier item ∧
    name = Name.path [unit, item]) (hdistinct : names.Nodup) : Spelled names where
  colon name hname := by
    obtain ⟨unit, item, -, -, rfl⟩ := h name hname
    simp [LinkSymbol.path_pair]
  inWord name hname c hc := by
    obtain ⟨unit, item, hunit, hitem, rfl⟩ := h name hname
    simp only [LinkSymbol.path_pair, String.toList_append, mem_append] at hc
    rcases hc with (hc | hc) | hc
    · exact .inl (hunit.2 c hc)
    · exact .inr (by simpa using hc)
    · exact .inl (hitem.2 c hc)
  distinct := hdistinct

end Ty

open LinkSymbol (IsIdentifier)

/-- No two types over the structs of a program have the same text, so an error that shows the text of the
type that is asked for and of the one that is there shows two texts. -/
theorem Declarations.describe_injective {κ : Type} (ctx : CheckContext κ)
    (hnames : ∀ struct ∈ ctx.decls.structs, ∃ unit item, IsIdentifier unit ∧ IsIdentifier item ∧
      struct.name = Name.path [unit, item])
    (hdistinct : (ctx.decls.structs.toList.map (·.name)).Nodup)
    {t u : Ty} (ht : t.Over ctx.decls.structs.size) (hu : u.Over ctx.decls.structs.size) :
    (ctx.decls.describe t = ctx.decls.describe u → t = u) ∧
      ∀ span expected found, u.assignableTo t = false ∨ Ty.promote t u = none →
        Check.mismatch ctx t u span = .mismatch expected found span → expected ≠ found := by
  have hspelled := Ty.spelled_of_qualified (by simpa using hnames) hdistinct
  have hinjective (he : ctx.decls.describe t = ctx.decls.describe u) : t = u := by
    have hends : Ty.Ends [] := by simp [Ty.Ends]
    refine (Ty.eq_of_chars hspelled t u (by simpa using ht) (by simpa using hu) hends hends ?_).1
    simpa [Ty.chars, describe, struct?] using congrArg String.toList he
  refine ⟨hinjective, ?_⟩
  rintro span _ _ hne ⟨⟩ he
  rw [hinjective he] at hne
  rcases hne with hne | hne
  · simp [Ty.assignableTo] at hne
  · cases herror : u.isError <;> simp [Ty.promote, herror] at hne

theorem Declarations.describe_injective_pointers :
    let structs := #[⟨"m::p", [], default⟩, ⟨"m::q", [], default⟩]
    let ctx : CheckContext := ⟨⟨⟨#[], #[], .empty⟩, structs, #[], #[], .empty, .empty, #[]⟩, "m", .unit⟩
    ∀ text, Check.mismatch ctx (.ptr (.aggregate ⟨0⟩)) (.ptr (.aggregate ⟨1⟩)) default ≠
      .mismatch text text default := by
  intro structs ctx text h
  refine (describe_injective ctx ?_ ?_ ?_ ?_).2 _ _ _ (.inl rfl) h rfl
  · simp only [ctx, structs, List.mem_toArray, List.forall_mem_cons]
    exact ⟨⟨"m", "p", by decide⟩, ⟨"m", "q", by decide⟩, nofun⟩
  · decide
  · exact Nat.zero_lt_two
  · exact Nat.one_lt_two

end SsaCompiler
