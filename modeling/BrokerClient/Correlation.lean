/-!
# Correlation identifiers

Where the identifiers of messages without one come from: always the same, or random ones with 122
free bits.
-/
namespace BrokerClient

namespace Uuid

/-- The `width` lowest hexadecimal digits of a number, in lower case. -/
def hexDigits : Nat → Nat → List Char
  | 0, _ => []
  | width + 1, n => hexDigits width (n / 16) ++ [Nat.digitChar (n % 16)]

/-- The text of a random identifier: digits in groups of 8, 4, 4, 4 and 12. The third group begins
with the version, a four, the fourth with the variant in two bits. -/
def version4 (entropy : Nat) : String :=
  let group (width shift : Nat) : List Char := hexDigits width (entropy >>> shift)
  let variant := hexDigits 4 (0x8000 + (entropy >>> 48) % 0x4000)
  .ofList (group 8 96 ++ '-' :: group 4 80 ++ '-' :: '4' :: group 3 64 ++ '-' :: variant ++
    '-' :: group 12 0)

def isHexDigit (c : Char) : Bool :=
  ('0' ≤ c && c ≤ '9') || ('a' ≤ c && c ≤ 'f')

/-- Whether a text has the form of a random identifier. -/
def isVersion4 (s : String) : Bool :=
  match s.toList.splitOn '-' with
  | [a, b, c, d, e] =>
    [a, b, c, d, e].map List.length == [8, 4, 4, 4, 12] && (a ++ b ++ c ++ d ++ e).all isHexDigit &&
      c.head? == some '4' && d.head?.any (fun v => v == '8' || v == '9' || v == 'a' || v == 'b')
  | _ => false

end Uuid

inductive CorrelationIds where
  | fixed (id : String)
  | random (generator : StdGen)

namespace CorrelationIds

def draw : Nat → StdGen → Nat × StdGen
  | 0, g => (0, g)
  | n + 1, g =>
    let (x, g) := stdNext g
    let (rest, g) := draw n g
    (x % 0x40000000 + 0x40000000 * rest, g)

def next : CorrelationIds → String × CorrelationIds
  | .fixed id => (id, .fixed id)
  | .random g =>
    let (entropy, g) := draw 5 g
    (Uuid.version4 entropy, .random g)

def take : Nat → CorrelationIds → List String
  | 0, _ => []
  | n + 1, ids =>
    let (id, ids) := ids.next
    id :: take n ids

end CorrelationIds

end BrokerClient
