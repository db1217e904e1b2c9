/-!
# Binary64 numbers

A float literal is kept as the bits of a binary64 number, and everything done to one is exact
arithmetic on natural numbers: `ofRatio` gives the number nearest to a ratio, a tie going to the
even neighbour, products and quotients are rounded that way, and `toSingle` rounds to the precision
of binary32 and widens the result again.
-/

namespace SsaCompiler

/-- A binary64 number: one sign bit, eleven exponent bits and fifty-two fraction bits. -/
structure Binary64 where
  bits : Nat
deriving DecidableEq, Repr, Inhabited

namespace Binary64

/-- A binary format: `precision` bits of significand, and `2 ^ minExponent` as the distance between
its smallest numbers. -/
structure Format where
  precision : Nat
  minExponent : Int

def single : Format := ⟨24, -149⟩

def double : Format := ⟨53, -1074⟩

/-- The integer nearest to `num / den`, a tie going to the even one. -/
def roundDiv (num den : Nat) : Nat :=
  let quotient := num / den
  let twice := 2 * (num % den)
  if twice < den then quotient
  else if den < twice then quotient + 1
  else if quotient % 2 = 0 then quotient else quotient + 1

/-- `floorLog num den` is the greatest `k` with `2 ^ k ≤ num / den`, for positive numbers. -/
def floorLog (num den : Nat) : Int :=
  let guess : Int := (Nat.log2 num : Int) - (Nat.log2 den : Int)
  let reached : Bool := match guess with
    | .ofNat k => den * Nat.pow 2 k ≤ num
    | .negSucc k => den ≤ num * Nat.pow 2 (k + 1)
  if reached then guess else guess - 1

/-- The significand and exponent of the number of a format that is nearest to `num / den`. The
significand may come out as one power of two too large, which the encoding below absorbs. -/
def nearest (format : Format) (num den : Nat) : Nat × Int :=
  if num = 0 then (0, format.minExponent)
  else
    let top := floorLog num den - ((format.precision : Int) - 1)
    let exponent := if top < format.minExponent then format.minExponent else top
    match exponent with
    | .ofNat k => (roundDiv num (den * Nat.pow 2 k), exponent)
    | .negSucc k => (roundDiv (num * Nat.pow 2 (k + 1)) den, exponent)

def signBit : Nat := Nat.pow 2 63

def infinityBits : Nat := 2047 * Nat.pow 2 52

def isNegative (x : Binary64) : Bool := signBit ≤ x.bits

def magnitude (x : Binary64) : Nat := x.bits % signBit

def isFinite (x : Binary64) : Bool := x.magnitude < infinityBits

def withSign (negative : Bool) (magnitude : Nat) : Binary64 :=
  ⟨if negative then signBit + magnitude else magnitude⟩

def infinity (negative : Bool) : Binary64 := withSign negative infinityBits

/-- The number nearest to `num / den` with the given sign; `none` if it is beyond the greatest one. -/
def ofRatio (negative : Bool) (num den : Nat) : Option Binary64 :=
  let (significand, exponent) := nearest double num den
  let bits := (exponent - double.minExponent).toNat * Nat.pow 2 52 + significand
  if bits < infinityBits then some (withSign negative bits) else none

/-- Significand and exponent of a finite number: it is `± significand · 2 ^ exponent`. -/
def parts (x : Binary64) : Nat × Int :=
  let field : Nat := x.magnitude / Nat.pow 2 52
  let fraction : Nat := x.magnitude % Nat.pow 2 52
  if field = 0 then (fraction, double.minExponent)
  else (Nat.pow 2 52 + fraction, (field : Int) - 1 + double.minExponent)

/-- Numerator and denominator of the magnitude of a finite number. -/
def ratio (x : Binary64) : Nat × Nat :=
  match x.parts with
  | (significand, .ofNat k) => (significand * Nat.pow 2 k, 1)
  | (significand, .negSucc k) => (significand, Nat.pow 2 (k + 1))

/-- The number nearest to a product of finite numbers; `none` if it is beyond the greatest one. -/
def mul? (x y : Binary64) : Option Binary64 :=
  ofRatio (x.isNegative != y.isNegative) (x.ratio.1 * y.ratio.1) (x.ratio.2 * y.ratio.2)

/-- The number nearest to a quotient of finite numbers; `none` if it is beyond the greatest one or
the divisor is zero. -/
def div? (x y : Binary64) : Option Binary64 :=
  if y.magnitude = 0 then none
  else ofRatio (x.isNegative != y.isNegative) (x.ratio.1 * y.ratio.2) (x.ratio.2 * y.ratio.1)

/-- Rounds to the precision of binary32, nearest first and a tie to even; what is beyond the
greatest binary32 number becomes infinite. -/
def toSingle (x : Binary64) : Binary64 :=
  if x.isFinite then
    let (rounded, den) : Nat × Nat := match nearest single x.ratio.1 x.ratio.2 with
      | (significand, .ofNat k) => (significand * Nat.pow 2 k, 1)
      | (significand, .negSucc k) => (significand, Nat.pow 2 (k + 1))
    if rounded < den * Nat.pow 2 128 then (ofRatio x.isNegative rounded den).getD (infinity x.isNegative)
    else infinity x.isNegative
  else x

def toHex (x : Binary64) : String :=
  let digits := (Nat.toDigits 16 x.bits).map Char.toUpper
  String.ofList (List.replicate (16 - digits.length) '0' ++ digits)

end Binary64

end SsaCompiler
