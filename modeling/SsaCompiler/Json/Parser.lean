import SsaCompiler.Binary64.Decimal
import SsaCompiler.Json.Value

/-!
# Reading JSON text

`Json.parse` reads one JSON document, blanks around it allowed, and refuses everything the grammar
does not derive: control characters in strings, leading zeros, trailing commas. A string with an
unpaired surrogate is no text, so what it stands in is read as `Json.unreadable`. Every reader takes
characters from the front and gives back the rest. The readers of
nested values count down from the length of the text, which no text exhausts because each step
takes at least one character.
-/

namespace SsaCompiler

namespace Json

def isBlank (c : Char) : Bool := c = ' ' || c = '\t' || c = '\n' || c = '\r'

def skipBlanks (text : List Char) : List Char := text.dropWhile isBlank

def hexValue? (c : Char) : Option Nat :=
  if '0' ≤ c ∧ c ≤ '9' then some (c.toNat - '0'.toNat)
  else if 'a' ≤ c ∧ c ≤ 'f' then some (c.toNat - 'a'.toNat + 10)
  else if 'A' ≤ c ∧ c ≤ 'F' then some (c.toNat - 'A'.toNat + 10)
  else none

def readHex4 : List Char → Option (Nat × List Char)
  | a :: b :: c :: d :: rest => do
    let a ← hexValue? a
    let b ← hexValue? b
    let c ← hexValue? c
    let d ← hexValue? d
    some (((a * 16 + b) * 16 + c) * 16 + d, rest)
  | _ => none

def simpleEscape? : Char → Option Char
  | '"' => some '"'
  | '\\' => some '\\'
  | '/' => some '/'
  | 'b' => some '\x08'
  | 'f' => some '\x0c'
  | 'n' => some '\n'
  | 'r' => some '\r'
  | 't' => some '\t'
  | _ => none

/-- Reads what follows `\u`: one code point, or two halves of a surrogate pair. A half without the
other one stands for no character. -/
def readCodePoint (text : List Char) : Option (Option Char × List Char) := do
  let (unit, rest) ← readHex4 text
  if 0xD800 ≤ unit ∧ unit < 0xDC00 then
    match rest with
    | '\\' :: 'u' :: after =>
      let (low, after) ← readHex4 after
      if 0xDC00 ≤ low ∧ low < 0xE000 then
        some (some (Char.ofNat (0x10000 + (unit - 0xD800) * 0x400 + (low - 0xDC00))), after)
      else some (none, rest)
    | _ => some (none, rest)
  else if 0xDC00 ≤ unit ∧ unit < 0xE000 then some (none, rest)
  else some (some (Char.ofNat unit), rest)

/-- Adds a character to those read so far; there is no text without each of them. -/
def addChar (c : Option Char) (read : Option (List Char)) : Option (List Char) :=
  match c, read with
  | some c, some read => some (c :: read)
  | _, _ => none

/-- Reads the rest of a string after its opening quote: its text, if it is one. The characters read so
far are kept in reverse. -/
def readStringRest : Nat → Option (List Char) → List Char → Option (Option String × List Char)
  | 0, _, _ => none
  | _ + 1, _, [] => none
  | fuel + 1, read, c :: rest =>
    if c = '"' then some (read.map fun read => String.ofList read.reverse, rest)
    else if c = '\\' then
      match rest with
      | 'u' :: rest => do
        let (c, rest) ← readCodePoint rest
        readStringRest fuel (addChar c read) rest
      | e :: rest => do
        let c ← simpleEscape? e
        readStringRest fuel (addChar c read) rest
      | [] => none
    else if c.toNat < 0x20 then none
    else readStringRest fuel (addChar c read) rest

def readString (text : List Char) : Option (Option String × List Char) :=
  readStringRest (text.length + 1) (some []) text

def digitValue (c : Char) : Nat := c.toNat - '0'.toNat

def digitsValue (digits : List Char) : Nat :=
  digits.foldl (fun value c => value * 10 + digitValue c) 0

def isDigit (c : Char) : Bool := '0' ≤ c ∧ c ≤ '9'

def readDigits (text : List Char) : List Char × List Char := text.span isDigit

/-- Reads the exponent of a number, if there is one: whether it was there, and its value. -/
def readExponent (text : List Char) : Option ((Bool × Int) × List Char) :=
  match text with
  | c :: rest =>
    if c = 'e' || c = 'E' then
      let (negative, rest) : Bool × List Char := match rest with
        | '+' :: rest => (false, rest)
        | '-' :: rest => (true, rest)
        | rest => (false, rest)
      let (digits, rest) := readDigits rest
      if digits.isEmpty then none
      else
        let value : Int := digitsValue digits
        some ((true, if negative then -value else value), rest)
    else some ((false, 0), text)
  | [] => some ((false, 0), text)

/-- Reads the fraction of a number, if there is one: its digits. -/
def readFraction (text : List Char) : Option (List Char × List Char) :=
  match text with
  | '.' :: rest =>
    let (digits, rest) := readDigits rest
    if digits.isEmpty then none else some (digits, rest)
  | _ => some ([], text)

/-- Appends digits to a significand as long as it fits into sixty-four bits: the significand, and
how many digits it took. -/
def takeSignificand (significand : Nat) : List Char → Nat × Nat
  | [] => (significand, 0)
  | c :: rest =>
    let next := significand * 10 + digitValue c
    if next < Nat.pow 2 64 then
      let (last, count) := takeSignificand next rest
      (last, count + 1)
    else (significand, 0)

/-- The number with the given digits before and after the point. Digits that the significand has no
room for only count for the power of ten. -/
def decimalNumber (negative : Bool) (whole fraction : List Char) (exponent : Int) : Number :=
  let (significand, kept) := takeSignificand 0 whole
  let (significand, places) := takeSignificand significand fraction
  match Binary64.ofScaled negative significand (exponent + (whole.length - kept : Nat) - places) with
  | some value => .binary value
  | none => .beyond negative

/-- The number of an integer token. It is an integer if it fits into sixty-four bits, signed or
unsigned; a negative zero is none, because its sign would be lost. -/
def integerNumber (negative : Bool) (digits : List Char) : Number :=
  let value := digitsValue digits
  if negative then
    if 0 < value ∧ value ≤ Nat.pow 2 63 then .integer (-(value : Int))
    else decimalNumber negative digits [] 0
  else if value < Nat.pow 2 64 then .integer value
  else decimalNumber negative digits [] 0

def readNumber (text : List Char) : Option (Number × List Char) := do
  let (negative, rest) : Bool × List Char := match text with
    | '-' :: rest => (true, rest)
    | rest => (false, rest)
  let (whole, rest) := readDigits rest
  if whole.isEmpty || (whole.head? = some '0' && whole.length ≠ 1) then none
  else
    let (fraction, rest) ← readFraction rest
    let ((scaled, exponent), rest) ← readExponent rest
    let number :=
      if fraction.isEmpty && !scaled then integerNumber negative whole
      else decimalNumber negative whole fraction exponent
    some (number, rest)

/-- A member in front of others, if all of them have names. -/
def consMember (member : Option (String × Json)) (members : Option (List (String × Json))) :
    Option (List (String × Json)) :=
  match member, members with
  | some member, some members => some (member :: members)
  | _, _ => none

mutual
def readValue : Nat → List Char → Option (Json × List Char)
  | 0, _ => none
  | fuel + 1, text =>
    match text with
    | 'n' :: 'u' :: 'l' :: 'l' :: rest => some (.null, rest)
    | 't' :: 'r' :: 'u' :: 'e' :: rest => some (.bool true, rest)
    | 'f' :: 'a' :: 'l' :: 's' :: 'e' :: rest => some (.bool false, rest)
    | '"' :: rest => do
      let (value, rest) ← readString rest
      some ((value.map Json.string).getD .unreadable, rest)
    | '[' :: rest =>
      match skipBlanks rest with
      | ']' :: rest => some (.array [], rest)
      | rest => do
        let (elements, rest) ← readElements fuel rest
        some (.array elements, rest)
    | '\x7b' :: rest =>
      match skipBlanks rest with
      | '\x7d' :: rest => some (.object [], rest)
      | rest => do
        let (members, rest) ← readMembers fuel rest
        some ((members.map Json.object).getD .unreadable, rest)
    | text => do
      let (value, rest) ← readNumber text
      some (.number value, rest)

def readElements : Nat → List Char → Option (List Json × List Char)
  | 0, _ => none
  | fuel + 1, text => do
    let (element, rest) ← readValue fuel text
    match skipBlanks rest with
    | ',' :: rest =>
      let (elements, rest) ← readElements fuel (skipBlanks rest)
      some (element :: elements, rest)
    | ']' :: rest => some ([element], rest)
    | _ => none

/-- Reads the members of an object up to its closing brace; there are none to name if one of the names
is no text. -/
def readMembers : Nat → List Char → Option (Option (List (String × Json)) × List Char)
  | 0, _ => none
  | fuel + 1, text =>
    match text with
    | '"' :: rest => do
      let (name, rest) ← readString rest
      match skipBlanks rest with
      | ':' :: rest =>
        let (value, rest) ← readValue fuel (skipBlanks rest)
        let member := name.map fun name => (name, value)
        match skipBlanks rest with
        | ',' :: rest =>
          let (members, rest) ← readMembers fuel (skipBlanks rest)
          some (consMember member members, rest)
        | '\x7d' :: rest => some (member.map ([·]), rest)
        | _ => none
      | _ => none
    | _ => none
end

def parse (text : String) : Option Json :=
  let chars := text.toList
  match readValue (chars.length + 1) (skipBlanks chars) with
  | some (value, rest) => if (skipBlanks rest).isEmpty then some value else none
  | none => none

end Json

end SsaCompiler
