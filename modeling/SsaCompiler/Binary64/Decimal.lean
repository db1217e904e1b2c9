import SsaCompiler.Binary64

/-!
# Binary64 numbers as decimals

`ofScaled` reads a decimal: its significand and its power of ten are rounded first, and then their
product or quotient is. A short decimal is read as the number nearest to it, because both of its
parts are exact; a long one may be read as a neighbour of that number. `shortest` goes the other way
and finds the fewest digits to which a number is the nearest one, and `toText` writes them.
-/

namespace SsaCompiler

namespace Binary64

/-- The number nearest to `± digits · 10 ^ exponent`; `none` if it is beyond the greatest one. An
exponent far outside the format is settled without computing the power of ten. -/
def ofDecimal (negative : Bool) (digits : Nat) (exponent : Int) : Option Binary64 :=
  if digits = 0 then some (withSign negative 0)
  else
    let length : Int := (Nat.toDigits 10 digits).length
    if 400 < exponent + length then none
    else if exponent + length < -400 then some (withSign negative 0)
    else match exponent with
      | .ofNat k => ofRatio negative (digits * Nat.pow 10 k) 1
      | .negSucc k => ofRatio negative digits (Nat.pow 10 (k + 1))

def maxPower : Nat := 308

/-- The number nearest to a power of ten; `none` if it is beyond the greatest one. -/
def powerOfTen (exponent : Nat) : Option Binary64 := ofRatio false (Nat.pow 10 exponent) 1

/-- Reads `± significand · 10 ^ exponent` part by part; `none` if the result is beyond the greatest
number. A power of ten that is too small to be a number is divided out in two steps, and what two
steps do not reach is zero. -/
def ofScaled (negative : Bool) (significand : Nat) (exponent : Int) : Option Binary64 :=
  if significand = 0 then some (withSign negative 0)
  else do
    let digits ← ofRatio negative significand 1
    match exponent with
    | .ofNat power =>
      if power ≤ maxPower then digits.mul? (← powerOfTen power) else none
    | .negSucc k =>
      let power := k + 1
      if power ≤ maxPower then digits.div? (← powerOfTen power)
      else if power ≤ 2 * maxPower then
        let small ← digits.div? (← powerOfTen maxPower)
        small.div? (← powerOfTen (power - maxPower))
      else some (withSign negative 0)

def scaleRatio (num den : Nat) : Int → Nat × Nat
  | .ofNat power => (num * Nat.pow 10 power, den)
  | .negSucc k => (num, den * Nat.pow 10 (k + 1))

/-- The `k` with `10 ^ (k - 1) ≤ num / den < 10 ^ k`, for positive numbers. -/
def decimalPlace (num den : Nat) : Int :=
  let guess : Int := (Nat.toDigits 10 num).length - (Nat.toDigits 10 den).length
  let (num, den) := scaleRatio num den (-guess)
  if num < den then guess else guess + 1

/-- The decimal of `count` digits nearest to a positive number, if the number is the nearest one to
it; otherwise its neighbour on the other side, if the number is the nearest one to that. -/
def decimalOf? (x : Binary64) (count : Nat) : Option (Nat × Int) :=
  let exponent := decimalPlace x.ratio.1 x.ratio.2 - count
  let (num, den) := scaleRatio x.ratio.1 x.ratio.2 (-exponent)
  let near := roundDiv num den
  let far := if near * den ≤ num then near + 1 else near - 1
  [near, far].findSome? fun digits =>
    if ofDecimal x.isNegative digits exponent = some x then some (digits, exponent) else none

/-- The greatest number of digits that a number needs. -/
def maxDigits : Nat := 17

/-- The fewest digits of a finite number and the power of ten they are scaled by. -/
def shortest (x : Binary64) : Nat × Int :=
  if x.magnitude = 0 then (0, 0)
  else
    let counts := (List.range maxDigits).map (· + 1)
    let (digits, exponent) := (counts.findSome? x.decimalOf?).getD x.parts
    if digits = 10 then (1, exponent + 1) else (digits, exponent)

/-- The text of a finite number in its fewest digits. From `10 ^ -5` up to `10 ^ 16` it is written
in places, with at least one after the point; otherwise with one digit before the point and a power
of ten. -/
def toText (x : Binary64) : String :=
  let (value, exponent) := x.shortest
  let digits := Nat.toDigits 10 value
  let before : Int := digits.length + exponent
  let zeros (count : Int) : List Char := List.replicate count.toNat '0'
  let text : List Char :=
    if 0 ≤ exponent ∧ before ≤ 16 then digits ++ zeros exponent ++ ['.', '0']
    else if 0 < before ∧ before ≤ 16 then
      digits.take before.toNat ++ ['.'] ++ digits.drop before.toNat
    else if -5 < before ∧ before ≤ 0 then ['0', '.'] ++ zeros (-before) ++ digits
    else
      let fraction := digits.drop 1
      digits.take 1 ++ (if fraction.isEmpty then [] else '.' :: fraction) ++
        ['e'] ++ (toString (before - 1)).toList
  String.ofList (if x.isNegative then '-' :: text else text)

end Binary64

end SsaCompiler
