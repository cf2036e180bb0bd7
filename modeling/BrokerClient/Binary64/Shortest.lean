import BrokerClient.Binary64

/-!
# Shortest decimal digits

The fewest decimal digits that read back as the same number, and among those the digits nearest to
its value. A grid of decimals is a power of ten; the candidates on it are the two neighbours of the
value, and a candidate reads back when it lies between the middles to the numbers below and above.
-/
namespace BrokerClient.Binary64

/-- Which of two equally near candidates is taken. -/
inductive Tie where
  | even
  | up
deriving DecidableEq

/-- A positive decimal: its digits, the last of which is not zero, and the power of ten of the
first. -/
structure Decimal where
  digits : List Char
  exponent : Int
deriving DecidableEq

/-- A fraction of natural numbers. -/
structure Ratio where
  num : Nat
  den : Nat

/-- `a / b ≤ c / d`, or `<` when the bound is not included. -/
private def Ratio.within (included : Bool) (x y : Ratio) : Bool :=
  if included then x.num * y.den ≤ y.num * x.den else x.num * y.den < y.num * x.den

/-- A quarter of the distance to the next number, times `n`. -/
private def quarters (x : Binary64) (n : Nat) : Ratio :=
  ⟨n <<< x.scale, 1 <<< 1076⟩

def lowerMiddle (x : Binary64) : Ratio :=
  let atPower : Bool := x.fractionField == 0 && 1 < x.exponentField
  x.quarters (4 * x.significand - if atPower then 1 else 2)

def upperMiddle (x : Binary64) : Ratio :=
  x.quarters (4 * x.significand + 2)

/-- Whether a decimal rounds to `x`. The middles do when the significand is even. -/
def admits (x : Binary64) (r : Ratio) : Bool :=
  let included := x.significand % 2 == 0
  Ratio.within included x.lowerMiddle r && Ratio.within included r x.upperMiddle

/-- `n` times ten to the power `p`. -/
def Ratio.ofDecimal (n : Nat) (p : Int) : Ratio :=
  ⟨n * Nat.pow 10 p.toNat, Nat.pow 10 (-p).toNat⟩

/-- The candidate on the grid of `10 ^ p`, if one reads back. -/
def candidate? (tie : Tie) (x : Binary64) (p : Int) : Option Nat :=
  let v := x.quarters (4 * x.significand)
  let unit := Ratio.ofDecimal 1 p
  let below := v.num * unit.den / (v.den * unit.num)
  let rest := v.num * unit.den % (v.den * unit.num)
  let lower := 0 < below && x.admits (Ratio.ofDecimal below p)
  let upper := x.admits (Ratio.ofDecimal (below + 1) p)
  let nearer : Bool :=
    let whole := v.den * unit.num
    if 2 * rest < whole then true
    else if whole < 2 * rest then false
    else match tie with
      | .even => below % 2 == 0
      | .up => false
  match lower, upper with
  | true, true => some (if nearer then below else below + 1)
  | true, false => some below
  | false, true => some (below + 1)
  | false, false => none

/-- The power of ten of the first digit of a fraction that is not zero. -/
def decimalExponent (r : Ratio) : Int :=
  let estimate := ((r.num.log2 : Int) - r.den.log2) * 30103 / 100000
  let reaches (k : Int) : Bool := r.den * Nat.pow 10 k.toNat ≤ r.num * Nat.pow 10 (-k).toNat
  if reaches (estimate + 1) then estimate + 1
  else if reaches estimate then estimate
  else estimate - 1

/-- A number of units of `10 ^ p` without its trailing zeros. -/
def Decimal.ofUnits (n : Nat) (p : Int) : Decimal :=
  let ds := Nat.toDigits 10 n
  ⟨(ds.reverse.dropWhile (· == '0')).reverse, p + ds.length - 1⟩

/-- Seventeen digits always read back. -/
def shortest (tie : Tie) (x : Binary64) : Decimal :=
  let first := decimalExponent (x.quarters (4 * x.significand))
  let grids := (List.range 17).map (fun (n : Nat) => first - (n : Int))
  match grids.findSome? (fun p => (x.candidate? tie p).map (Decimal.ofUnits · p)) with
  | some d => d
  | none => ⟨['0'], 0⟩

/-! ## Layout -/

/-- All digits in place, with a point only if there is a fraction. -/
def Decimal.positional (d : Decimal) : List Char :=
  if d.exponent < 0 then
    ['0', '.'] ++ List.replicate ((-d.exponent).toNat - 1) '0' ++ d.digits
  else
    let whole := d.exponent.toNat + 1
    if d.digits.length ≤ whole then d.digits ++ List.replicate (whole - d.digits.length) '0'
    else d.digits.take whole ++ ['.'] ++ d.digits.drop whole

end BrokerClient.Binary64
