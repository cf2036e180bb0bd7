import BrokerClient.Binary64.Shortest
import BrokerClient.Json.NumberText

/-!
# Numbers of message bodies

A number is a natural number of 64 bits, a negative one of 64 bits, or a finite floating-point
number. `ofText?` reads the number that a number text stands for, `toText` writes it so that it
reads back.
-/
namespace BrokerClient

inductive Number where
  | natural (n : UInt64)
  | negative (i : Int64) (below : i < 0)
  | float (x : Binary64) (finite : x.isFinite)
deriving DecidableEq

namespace Number

open Json (NumberText)

/-- The integer, if it fits 64 bits with or without sign. -/
def ofInt? (i : Int) : Option Number :=
  if 0 ≤ i then
    if i < 0x10000000000000000 then some (.natural (UInt64.ofNat i.toNat)) else none
  else if h : Int64.ofInt i < 0 then
    if -0x8000000000000000 ≤ i then some (.negative (Int64.ofInt i) h) else none
  else none

def ofFloat? (x : Binary64) : Option Number :=
  if h : x.isFinite then some (.float x h) else none

def toFloat : Number → Binary64
  | .natural n => .ofNat n.toNat
  | .negative i _ => .ofInt i.toInt
  | .float x _ => x

/-! ## Reading -/

/-- Takes digits behind the number as long as it fits 64 bits; the digits left over. -/
def takeDigits (n : Nat) : List Nat → Nat × List Nat
  | [] => (n, [])
  | d :: ds => if 10 * n + d < UInt64.size then takeDigits (10 * n + d) ds else (n, d :: ds)

/-- The number times a power of ten, in at most two divisions or one product, each of them rounded.
A product that is not finite is no number. -/
def scaled? (n : Nat) (exponent : Int) : Option Binary64 :=
  if 0 ≤ exponent then
    if n = 0 then some (.ofNat 0)
    else if 308 < exponent then none
    else some ((Binary64.ofNat n).mul (.powerOfTen exponent.toNat))
  else if -308 ≤ exponent then
    some ((Binary64.ofNat n).div (.powerOfTen (-exponent).toNat))
  else if -616 ≤ exponent then
    some (((Binary64.ofNat n).div (.powerOfTen 308)).div (.powerOfTen (-exponent - 308).toNat))
  else some (.ofNat 0)

def exponentOf : Option (Bool × List Nat) → Int
  | none => 0
  | some (false, ds) => Text.ofDigits ds
  | some (true, ds) => -(Text.ofDigits ds : Int)

/-- The floating-point number that a text stands for: as many of its digits as fit 64 bits, scaled
by the place of the last of them. -/
def floatOf? (t : NumberText) : Option Number :=
  let (n, wholeRest) := takeDigits 0 t.whole
  let (n, fractionRest) := takeDigits n t.fraction
  let taken : Int := t.fraction.length - fractionRest.length
  match scaled? n (wholeRest.length - taken + exponentOf t.exponent) with
  | some x => ofFloat? (if t.negative then x.neg else x)
  | none => none

/-- A text without fraction and exponent is an integer if that fits, except for the negative zero. -/
def ofText? (t : NumberText) : Option Number :=
  let n := Text.ofDigits t.whole
  if t.fraction = [] ∧ t.exponent = none ∧ ¬ (t.negative ∧ n = 0) then
    match ofInt? (if t.negative then -n else n) with
    | some k => some k
    | none =>
      if t.negative ∧ n < UInt64.size then ofFloat? (Binary64.ofNat n).neg else floatOf? t
  else floatOf? t

/-! ## Writing -/

/-- Floats are positional from `0.00001` to below `1e+16`, with at least one digit behind the
point. -/
def floatText (x : Binary64) : NumberText :=
  let digits (cs : List Char) : List Nat := cs.map (fun c => c.toNat - '0'.toNat)
  if x.isZero then ⟨x.isNegative, [0], [0], none⟩
  else
    let d := x.shortest .even
    let e := d.exponent
    if -5 ≤ e ∧ e ≤ 15 then
      let whole := if e < 0 then ['0'] else (d.digits ++ List.replicate e.toNat '0').take (e.toNat + 1)
      let fraction :=
        if e < 0 then List.replicate ((-e).toNat - 1) '0' ++ d.digits else d.digits.drop (e.toNat + 1)
      ⟨x.isNegative, digits whole, if fraction = [] then [0] else digits fraction, none⟩
    else
      ⟨x.isNegative, digits (d.digits.take 1), digits (d.digits.drop 1),
        some (e < 0, NumberText.digitsOf e.natAbs)⟩

def toText : Number → NumberText
  | .natural n => .ofNat n.toNat
  | .negative i _ => .ofInt i.toInt
  | .float x _ => floatText x

end Number

end BrokerClient
