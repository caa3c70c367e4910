/-! Binary64 values as their 64 bits, rounding of a quotient of whole numbers to the nearest of
them, and decimals. A tie goes to the even significand. A decimal is not rounded once: its digits
are, the power of ten is, and then what comes of the two. -/

namespace PacketTypings

/-- One bit of sign, eleven of exponent, fifty-two of fraction. -/
structure Binary64 where
  bits : UInt64
deriving DecidableEq, Repr

namespace Binary64

def signBit : Nat := Nat.pow 2 63

/-- The bit in front of the fraction, which is not written. -/
def hiddenBit : Nat := Nat.pow 2 52

def negative (x : Binary64) : Bool := signBit ≤ x.bits.toNat

def exponentField (x : Binary64) : Nat := x.bits.toNat / hiddenBit % 2048

def fraction (x : Binary64) : Nat := x.bits.toNat % hiddenBit

/-- A finite `x` is `significand x * 2 ^ exponent x`, with the sign in front. -/
def significand (x : Binary64) : Nat :=
  if x.exponentField = 0 then x.fraction else hiddenBit + x.fraction

def exponent (x : Binary64) : Int := max 1 x.exponentField - 1075

def zero (negative : Bool) : Binary64 := ⟨UInt64.ofNat (if negative then signBit else 0)⟩

end Binary64

/-- The whole number nearest to `num / den`; a half goes to the even neighbour. -/
def roundHalfEven (num den : Nat) : Nat :=
  let floor := num / den
  let twice := 2 * (num % den)
  if twice < den ∨ (twice = den ∧ floor % 2 = 0) then floor else floor + 1

namespace Binary64

/-- The bits of the value nearest to `num / den`, for positive `num` and `den`; `none` above the
largest finite value. The grid of step `2 ^ q` is the one on which the quotient has 53 binary
digits, or the finest one. -/
def magnitude? (num den : Nat) : Option Nat :=
  let guess : Int := num.log2 - den.log2 - 52
  let short := num * Nat.pow 2 (-guess).toNat < hiddenBit * (den * Nat.pow 2 guess.toNat)
  let q := max (-1074) (if short then guess - 1 else guess)
  let m := roundHalfEven (num * Nat.pow 2 (-q).toNat) (den * Nat.pow 2 q.toNat)
  let bits := (q + 1074).toNat * hiddenBit + m
  if bits < 2047 * hiddenBit then some bits else none

/-- The value nearest to `num / den`, for positive `den`. -/
def nearest? (num den : Nat) : Option Binary64 :=
  if num = 0 then some (zero false) else (magnitude? num den).map fun bits => ⟨UInt64.ofNat bits⟩

/-- Without its sign, `x` is `numerator x / denominator x`. -/
def numerator (x : Binary64) : Nat := x.significand * Nat.pow 2 x.exponent.toNat

def denominator (x : Binary64) : Nat := Nat.pow 2 (-x.exponent).toNat

def times? (x y : Binary64) : Option Binary64 :=
  nearest? (x.numerator * y.numerator) (x.denominator * y.denominator)

def over? (x y : Binary64) : Option Binary64 :=
  nearest? (x.numerator * y.denominator) (x.denominator * y.numerator)

/-- The largest power of ten that is finite. -/
def largestPower : Nat := 308

/-- What `x * 10 ^ exponent` comes to if each power of ten is rounded before `x` is multiplied or
divided by it. Only a division may take several steps. -/
def scaled? (x : Binary64) (exponent : Int) : Option Binary64 :=
  if x.significand = 0 then some x
  else if 0 ≤ exponent then
    if largestPower < exponent then none
    else (nearest? (Nat.pow 10 exponent.toNat) 1).bind x.times?
  else if -largestPower ≤ exponent then
    (nearest? (Nat.pow 10 (-exponent).toNat) 1).bind x.over?
  else do (← x.over? (← nearest? (Nat.pow 10 largestPower) 1)).scaled? (exponent + largestPower)
termination_by (-exponent).toNat
decreasing_by unfold largestPower at *; omega

/-- What is read for `digits * 10 ^ exponent`; `none` if it is too large to be finite. -/
def ofDecimal? (negative : Bool) (digits : Nat) (exponent : Int) : Option Binary64 := do
  let x ← (← nearest? digits 1).scaled? exponent
  return ⟨if negative then UInt64.ofNat (signBit + x.bits.toNat) else x.bits⟩

end Binary64
end PacketTypings
