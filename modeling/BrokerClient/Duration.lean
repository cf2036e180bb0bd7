/-!
# Durations

A duration is a whole number of nanoseconds whose seconds fit 64 bits.
-/
namespace BrokerClient

structure Duration where
  nanoseconds : Nat
  bounded : nanoseconds < UInt64.size * 1000000000
deriving DecidableEq

namespace Duration

def max : Duration :=
  ⟨UInt64.size * 1000000000 - 1, by decide⟩

def zero : Duration :=
  ⟨0, by decide⟩

/-- A number of nanoseconds, cut off at the longest duration. -/
def saturating (n : Nat) : Duration :=
  if h : n < UInt64.size * 1000000000 then ⟨n, h⟩ else max

/-- Seconds and nanoseconds, which may exceed a second; nothing beyond the longest duration. -/
def ofParts? (seconds : UInt64) (nanos : UInt32) : Option Duration :=
  let n := seconds.toNat * 1000000000 + nanos.toNat
  if h : n < UInt64.size * 1000000000 then some ⟨n, h⟩ else none

def ofMilliseconds (ms : UInt64) : Duration :=
  ⟨ms.toNat * 1000000, by have := ms.toNat_lt_size; unfold UInt64.size at *; omega⟩

def seconds (d : Duration) : Nat :=
  d.nanoseconds / 1000000000

def subsecondNanos (d : Duration) : Nat :=
  d.nanoseconds % 1000000000

def milliseconds (d : Duration) : Nat :=
  d.nanoseconds / 1000000

def min (a b : Duration) : Duration :=
  if b.nanoseconds < a.nanoseconds then b else a

def double (d : Duration) : Duration :=
  saturating (2 * d.nanoseconds)

/-- A number of parts of which a power of ten make a unit: the whole units, and the digits of the
rest up to the last one that is not zero. -/
def unitText (unit parts : Nat) : String :=
  let rest := parts % unit
  let digits := Nat.toDigits 10 (unit + rest)
  let fraction := (digits.tail.reverse.dropWhile (· == '0')).reverse
  toString (parts / unit) ++
    if fraction.isEmpty then "" else "." ++ String.ofList fraction

/-- The duration in the largest of seconds, milli-, micro- and nanoseconds that it reaches. -/
def text (d : Duration) : String :=
  if 1000000000 ≤ d.nanoseconds then unitText 1000000000 d.nanoseconds ++ "s"
  else if 1000000 ≤ d.nanoseconds then unitText 1000000 d.nanoseconds ++ "ms"
  else if 1000 ≤ d.nanoseconds then unitText 1000 d.nanoseconds ++ "µs"
  else unitText 1 d.nanoseconds ++ "ns"

end Duration

end BrokerClient
