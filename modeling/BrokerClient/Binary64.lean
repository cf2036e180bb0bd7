/-!
# Binary floating-point numbers

A number is the 64 bits of its IEEE 754 double format. Its value is read and rounded in exact
arithmetic on natural numbers, so every operation here can be computed in a proof.
-/
namespace BrokerClient

structure Binary64 where
  bits : UInt64
deriving DecidableEq, Inhabited

namespace Binary64

/-! ## Fields of the format -/

def signBit : Nat :=
  0x8000000000000000

/-- The lowest bit above the 52 bits of the fraction. -/
def unitBit : Nat :=
  0x10000000000000

def isNegative (x : Binary64) : Bool :=
  signBit ≤ x.bits.toNat

def exponentField (x : Binary64) : Nat :=
  x.bits.toNat / unitBit % 2048

def fractionField (x : Binary64) : Nat :=
  x.bits.toNat % unitBit

def isFinite (x : Binary64) : Bool :=
  x.exponentField != 2047

def isNaN (x : Binary64) : Bool :=
  x.exponentField == 2047 && x.fractionField != 0

def isZero (x : Binary64) : Bool :=
  x.exponentField == 0 && x.fractionField == 0

/-- The integer that a finite value multiplies. -/
def significand (x : Binary64) : Nat :=
  if x.exponentField = 0 then x.fractionField else unitBit + x.fractionField

/-- A finite value is its significand times two to this power, less 1074. -/
def scale (x : Binary64) : Nat :=
  x.exponentField - 1

/-! ## Rounding -/

def ofBits (negative : Bool) (magnitude : Nat) : Binary64 :=
  ⟨UInt64.ofNat (if negative then signBit + magnitude else magnitude)⟩

def infinity (negative : Bool) : Binary64 :=
  ofBits negative (2047 * unitBit)

/-- The quotient rounded to the nearest integer, a half to the even one. -/
def divideToEven (num den : Nat) : Nat :=
  let q := num / den
  let twice := 2 * (num % den)
  if den < twice ∨ (twice = den ∧ q % 2 = 1) then q + 1 else q

/-- The largest power of two that is at most `num / den`, counted from the power -1126; zero also for
all smaller quotients. -/
def binaryExponent (num den : Nat) : Nat :=
  let k := num.log2 + 1126 - den.log2
  if den <<< k ≤ num <<< 1126 then k else k - 1

/-- The number nearest to `num / den`, of two the one with the even significand. From the middle
between the largest number and the next power of two on, the result is infinite. -/
def ofRatio (negative : Bool) (num den : Nat) : Binary64 :=
  if num = 0 then ofBits negative 0
  else
    let scale := binaryExponent num den - 104
    let q := divideToEven (num <<< 1074) (den <<< scale)
    let magnitude := scale * unitBit + q
    if 2047 * unitBit ≤ magnitude then infinity negative else ofBits negative magnitude

def ofNat (n : Nat) : Binary64 :=
  ofRatio false n 1

def ofInt (i : Int) : Binary64 :=
  ofRatio (i < 0) i.natAbs 1

/-- The number nearest to ten to this power. -/
def powerOfTen (k : Nat) : Binary64 :=
  ofNat (Nat.pow 10 k)

/-! ## Operations -/

def neg (x : Binary64) : Binary64 :=
  ⟨x.bits ^^^ 0x8000000000000000⟩

def mul (x y : Binary64) : Binary64 :=
  ofRatio (x.isNegative != y.isNegative) ((x.significand * y.significand) <<< (x.scale + y.scale))
    (1 <<< 2148)

def div (x y : Binary64) : Binary64 :=
  ofRatio (x.isNegative != y.isNegative) (x.significand <<< x.scale) (y.significand <<< y.scale)

/-- Equality of values: the zeros are equal, and a NaN differs from all. -/
def sameValue (x y : Binary64) : Bool :=
  !x.isNaN && !y.isNaN && (x == y || (x.isZero && y.isZero))

/-- The number with the value of a single-precision number. Infinities and NaNs stay such. -/
def ofSingle (bits : UInt32) : Binary64 :=
  let negative : Bool := 0x80000000 ≤ bits.toNat
  let exponent := bits.toNat / 0x800000 % 0x100
  let fraction := bits.toNat % 0x800000
  if exponent = 255 then ofBits negative (2047 * unitBit + (fraction <<< 29))
  else if exponent = 0 then ofRatio negative fraction (1 <<< 149)
  else ofBits negative ((exponent + 896) * unitBit + (fraction <<< 29))

end Binary64

end BrokerClient
