import BrokerClient.Text.Decimal

/-!
# Number texts

The parts of a JSON number as they are written. Nothing is rounded here: two texts of one value are
two number texts.
-/
namespace BrokerClient.Json

/-- Digits are numbers below ten, the most significant first. An absent fraction has no digits. -/
structure NumberText where
  negative : Bool
  whole : List Nat
  fraction : List Nat
  exponent : Option (Bool × List Nat)
deriving DecidableEq

namespace NumberText

open Text (digitValue?)

def takeDigits : List Char → List Nat × List Char
  | [] => ([], [])
  | c :: cs =>
    match digitValue? c with
    | some d => let (ds, rest) := takeDigits cs; (d :: ds, rest)
    | none => ([], c :: cs)

/-- No digit stands in front of a leading zero. -/
def isWhole : List Nat → Bool
  | [] => false
  | [_] => true
  | d :: _ => d != 0

/-- The power of ten of a number: `true` when it is negative. -/
def readExponent? : List Char → Option (Option (Bool × List Nat))
  | [] => some none
  | e :: cs =>
    if e = 'e' ∨ e = 'E' then
      let (negative, cs) := match cs with
        | '+' :: cs => (false, cs)
        | '-' :: cs => (true, cs)
        | cs => (false, cs)
      match takeDigits cs with
      | ([], _) => none
      | (ds, []) => some (some (negative, ds))
      | _ => none
    else none

def ofChars? (cs : List Char) : Option NumberText :=
  let (negative, cs) := match cs with
    | '-' :: cs => (true, cs)
    | cs => (false, cs)
  let (whole, cs) := takeDigits cs
  if !isWhole whole then none
  else match cs with
    | '.' :: cs =>
      match takeDigits cs with
      | ([], _) => none
      | (fraction, cs) => (readExponent? cs).map (⟨negative, whole, fraction, ·⟩)
    | cs => (readExponent? cs).map (⟨negative, whole, [], ·⟩)

def digitChars (ds : List Nat) : List Char :=
  ds.map (fun d => Char.ofNat ('0'.toNat + d))

def chars (n : NumberText) : List Char :=
  (if n.negative then ['-'] else []) ++ digitChars n.whole ++
    (if n.fraction.isEmpty then [] else '.' :: digitChars n.fraction) ++
    match n.exponent with
    | none => []
    | some (negative, ds) => 'e' :: (if negative then '-' else '+') :: digitChars ds

def digitsOf (n : Nat) : List Nat :=
  (Nat.toDigits 10 n).map (fun c => c.toNat - '0'.toNat)

def ofNat (n : Nat) : NumberText :=
  ⟨false, digitsOf n, [], none⟩

def ofInt (i : Int) : NumberText :=
  ⟨i < 0, digitsOf i.natAbs, [], none⟩

end NumberText

end BrokerClient.Json
