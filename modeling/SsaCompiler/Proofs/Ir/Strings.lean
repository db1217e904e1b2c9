import SsaCompiler.Ir.Text

/-!
# What a string constant stands for

The text of a string constant is read back byte by byte: a backslash and two hexadecimal digits are a
byte, any other character is its own. What is read is the string in UTF-8 with a zero behind it, and
its length is the one that the text says (`StringConstant.text_decodes`).
-/

namespace SsaCompiler

open List

namespace StringConstant

/-- The value of a hexadecimal digit. -/
def hexValue? (c : Char) : Option Nat :=
  if c.isDigit then some (c.toNat - '0'.toNat)
  else if 'A' ≤ c ∧ c ≤ 'F' then some (c.toNat - 'A'.toNat + 10)
  else if 'a' ≤ c ∧ c ≤ 'f' then some (c.toNat - 'a'.toNat + 10)
  else none

/-- The byte that a backslash and two characters stand for. -/
def escaped? (c high low : Char) : Option UInt8 :=
  if c = '\\' then do
    let high ← hexValue? high
    let low ← hexValue? low
    return .ofNat (16 * high + low)
  else none

/-- The bytes that the characters between the quotes stand for. -/
def decode : List Char → List UInt8
  | c :: high :: low :: rest =>
    match escaped? c high low with
    | some byte => byte :: decode rest
    | none => .ofNat c.toNat :: decode (high :: low :: rest)
  | c :: rest => .ofNat c.toNat :: decode rest
  | [] => []

variable {c : Char} {rest : List Char}

theorem decode_cons (h : c ≠ '\\') : decode (c :: rest) = .ofNat c.toNat :: decode rest := by
  match rest with
  | [] | [_] => rfl
  | high :: low :: rest => rw [decode, escaped?, if_neg h]

theorem hexValue?_hexDigit : ∀ n < 16, hexValue? (hexDigit n) = some n ∧ hexDigit n ≠ '"' := by decide

theorem decode_escape (n : Nat) (h : n < 256) :
    decode ('\\' :: hexDigit (n / 16) :: hexDigit (n % 16) :: rest) = .ofNat n :: decode rest := by
  have hhigh := (hexValue?_hexDigit (n / 16) (by omega)).1
  have hlow := (hexValue?_hexDigit (n % 16) (by omega)).1
  have hbyte : escaped? '\\' (hexDigit (n / 16)) (hexDigit (n % 16)) = some (.ofNat n) := by
    rw [escaped?, hhigh, hlow]
    show some (UInt8.ofNat (16 * (n / 16) + n % 16)) = _
    rw [Nat.div_add_mod]
  rw [decode, hbyte]

theorem toNat_ofNat_of_lt {n : Nat} (h : n < 127) : (Char.ofNat n).toNat = n := by
  rw [Char.ofNat, dif_pos (.inl (by omega))]
  rfl

/-- The text of a byte is read as that byte and has no quote in it. -/
theorem decode_byteText (byte : UInt8) (rest : List Char) :
    decode (byteText byte ++ rest) = byte :: decode rest ∧ '"' ∉ byteText byte := by
  have hlt : byte.toNat < 256 := byte.toNat_lt
  have hself : UInt8.ofNat byte.toNat = byte := UInt8.ofNat_toNat
  simp only [byteText]
  split
  · rename_i hprintable
    have hcode := toNat_ofNat_of_lt hprintable.2.1
    have hne : ∀ c : Char, c.toNat ≠ byte.toNat → Char.ofNat byte.toNat ≠ c := by
      rintro c hc rfl
      exact hc hcode
    refine ⟨?_, by simpa using (hne '"' (Ne.symm hprintable.2.2.1)).symm⟩
    rw [singleton_append, decode_cons (hne '\\' (Ne.symm hprintable.2.2.2)), hcode, hself]
  · refine ⟨by rw [cons_append, cons_append, singleton_append, decode_escape _ hlt, hself], ?_⟩
    have hhigh := (hexValue?_hexDigit (byte.toNat / 16) (by omega)).2
    have hlow := (hexValue?_hexDigit (byte.toNat % 16) (by omega)).2
    simp [hhigh.symm, hlow.symm]

theorem decode_flatMap (bytes : List UInt8) (rest : List Char) :
    decode (bytes.flatMap byteText ++ rest) = bytes ++ decode rest := by
  induction bytes with
  | nil => rfl
  | cons byte bytes ih =>
    rw [flatMap_cons, append_assoc, (decode_byteText byte _).1, ih]
    rfl

/-- Between the quotes of a string constant stands a text without quotes that is read as the UTF-8
bytes of the string and a zero. There are as many of them as the type of the constant says. -/
theorem text_decodes (content : String) : ∃ payload : List Char,
    text content = s!"[{(decode payload).length} x i8] c\"" ++ String.ofList payload ++ "\"" ∧
      decode payload = content.toUTF8.toList ++ [0] ∧ '"' ∉ payload := by
  have hdecode := decode_flatMap content.toUTF8.toList "\\00".toList
  have hzero : decode "\\00".toList = [0] := by decide
  refine ⟨content.toUTF8.toList.flatMap byteText ++ "\\00".toList, ?_, by rw [hdecode, hzero], ?_⟩
  · rw [hdecode, List.length_append, String.ofList_append]
    simp only [text, String.append_assoc]
    rfl
  · rw [List.mem_append, List.mem_flatMap, not_or]
    refine ⟨?_, by decide⟩
    rintro ⟨byte, -, hquote⟩
    exact (decode_byteText byte []).2 hquote

end StringConstant

end SsaCompiler
