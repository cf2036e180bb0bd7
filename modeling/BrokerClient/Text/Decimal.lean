/-!
# Decimal numbers

The plain decimal text of a natural number, and its reading: digits alone, or digits behind an
optional plus sign and below a bound.
-/
namespace BrokerClient.Text

/-- The value of an ASCII digit. -/
def digitValue? (c : Char) : Option Nat :=
  if '0' ≤ c ∧ c ≤ '9' then some (c.toNat - '0'.toNat) else none

/-- The number that the digits write, most significant first. -/
def ofDigits (ds : List Nat) : Nat :=
  ds.foldl (fun n d => 10 * n + d) 0

/-- One or more ASCII digits. -/
def readDigits? : List Char → Option Nat
  | [] => none
  | cs => (cs.mapM digitValue?).map ofDigits

/-- An optional plus sign, then one or more ASCII digits. -/
def readUnsigned? : List Char → Option Nat
  | '+' :: cs => readDigits? cs
  | cs => readDigits? cs

def readWord? (s : String) : Option UInt64 :=
  match readUnsigned? s.toList with
  | some n => if n < UInt64.size then some (UInt64.ofNat n) else none
  | none => none

end BrokerClient.Text
