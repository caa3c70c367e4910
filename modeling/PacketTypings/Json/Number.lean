import PacketTypings.Decimal.Shortest

/-! Numbers of a document and their text. -/

namespace PacketTypings.Json

/-- A whole number of 64 bits, signed or unsigned, stays exact; every other number is a binary64. -/
inductive Number where
  | int (n : Int)
  | float (x : Binary64)
deriving DecidableEq, Repr

def fitsInt (n : Int) : Bool := -9223372036854775808 ≤ n ∧ n < 18446744073709551616

def natChars (n : Nat) : List Char := Nat.toDigits 10 n

def intChars : Int → List Char
  | .ofNat n => natChars n
  | .negSucc n => '-' :: natChars (n + 1)

/-- How far from the point a number is still written without an exponent: the first digit of
`0.00001` stands five places behind it, that of `1000000000000000.0` sixteen before it. -/
def positional (pointAfter : Int) : Bool := -4 ≤ pointAfter ∧ pointAfter ≤ 16

/-- The digits with the point after the first `pointAfter` of them, and a digit on both sides. -/
def plainChars (digits : List Char) (pointAfter : Int) : List Char :=
  if pointAfter ≤ 0 then '0' :: '.' :: (List.replicate (-pointAfter).toNat '0' ++ digits)
  else
    let whole := pointAfter.toNat
    let padded := digits ++ List.replicate (whole - digits.length) '0'
    let tail := padded.drop whole
    padded.take whole ++ '.' :: (if tail.isEmpty then ['0'] else tail)

/-- One digit, the others behind a point, and the exponent with its sign. -/
def exponentChars (digits : List Char) (pointAfter : Int) : List Char :=
  let power := pointAfter - 1
  let sign := if power < 0 then '-' else '+'
  digits.take 1 ++ (if digits.length ≤ 1 then [] else '.' :: digits.drop 1) ++
    'e' :: sign :: natChars power.natAbs

def decimalChars (d : Decimal) : List Char :=
  let digits := natChars d.digits
  let pointAfter := digits.length + d.exponent
  if positional pointAfter then plainChars digits pointAfter else exponentChars digits pointAfter

def floatChars (x : Binary64) : List Char :=
  let magnitude := if x.significand = 0 then "0.0".toList else decimalChars x.shortest
  if x.negative then '-' :: magnitude else magnitude

namespace Number

def chars : Number → List Char
  | .int n => intChars n
  | .float x => floatChars x

def text (n : Number) : String := String.ofList n.chars

end Number
end PacketTypings.Json
