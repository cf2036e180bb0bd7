import BrokerClient.Body
import BrokerClient.Text.Utf8

/-!
# MessagePack bodies

Writing takes the smallest form of each length and integer, floats always in double precision.
Reading takes any width and leaves what follows the value. Binary and extension values are none of
a body, and floats that are not finite become null.
-/
namespace BrokerClient.Body.MsgPack

open Text (Octets utf8 ofUtf8?)

/-! ## Words -/

/-- The `width` lowest octets of a number, the most significant first. -/
def wordOctets : Nat → Nat → Octets
  | 0, _ => []
  | width + 1, n => wordOctets width (n / 256) ++ [UInt8.ofNat (n % 256)]

/-- The number that octets write, the most significant first. -/
def ofOctets (bs : Octets) : Nat :=
  bs.foldl (fun n b => 256 * n + b.toNat) 0

/-- The first `n` octets and the rest, if there are so many. -/
def takeOctets? (n : Nat) (bs : Octets) : Option (Octets × Octets) :=
  let taken := bs.take n
  if taken.length = n then some (taken, bs.drop n) else none

def readWord? (width : Nat) (bs : Octets) : Option (Nat × Octets) :=
  (takeOctets? width bs).map (fun (ds, rest) => (ofOctets ds, rest))

/-! ## Writing -/

/-- The tag octet and the octets of a number behind it. -/
def tagged (tag : UInt8) (width n : Nat) : Octets :=
  tag :: wordOctets width n

def naturalOctets (n : Nat) : Octets :=
  if n < 0x80 then [UInt8.ofNat n]
  else if n < 0x100 then tagged 0xCC 1 n
  else if n < 0x10000 then tagged 0xCD 2 n
  else if n < 0x100000000 then tagged 0xCE 4 n
  else tagged 0xCF 8 n

/-- Negative integers in the smallest two's complement. -/
def negativeOctets (i : Int) : Octets :=
  if -0x20 ≤ i then [UInt8.ofNat (0x100 + i).toNat]
  else if -0x80 ≤ i then tagged 0xD0 1 (0x100 + i).toNat
  else if -0x8000 ≤ i then tagged 0xD1 2 (0x10000 + i).toNat
  else if -0x80000000 ≤ i then tagged 0xD2 4 (0x100000000 + i).toNat
  else tagged 0xD3 8 (0x10000000000000000 + i).toNat

def numberOctets : Number → Octets
  | .natural n => naturalOctets n.toNat
  | .negative i _ => negativeOctets i.toInt
  | .float x _ => tagged 0xCB 8 x.bits.toNat

def stringOctets (s : String) : Octets :=
  let bs := utf8 s
  let n := bs.length
  let head :=
    if n < 0x20 then [UInt8.ofNat (0xA0 + n)]
    else if n < 0x100 then tagged 0xD9 1 n
    else if n < 0x10000 then tagged 0xDA 2 n
    else tagged 0xDB 4 n
  head ++ bs

def arrayHead (n : Nat) : Octets :=
  if n < 0x10 then [UInt8.ofNat (0x90 + n)]
  else if n < 0x10000 then tagged 0xDC 2 n
  else tagged 0xDD 4 n

def mapHead (n : Nat) : Octets :=
  if n < 0x10 then [UInt8.ofNat (0x80 + n)]
  else if n < 0x10000 then tagged 0xDE 2 n
  else tagged 0xDF 4 n

mutual

def octets : Body → Octets
  | .null => [0xC0]
  | .bool false => [0xC2]
  | .bool true => [0xC3]
  | .number n => numberOctets n
  | .string s => stringOctets s
  | .array xs => arrayHead xs.length ++ itemsOctets xs
  | .object ms => mapHead ms.length ++ membersOctets ms

def itemsOctets : List Body → Octets
  | [] => []
  | x :: xs => octets x ++ itemsOctets xs

def membersOctets : List (String × Body) → Octets
  | [] => []
  | (k, x) :: ms => stringOctets k ++ octets x ++ membersOctets ms

end

/-! ## Reading -/

/-- What a tag octet announces. Numbers in the tag are lengths or values. -/
inductive Head where
  | value (b : Body)
  | natural (width : Nat)
  | signed (width : Nat)
  | single
  | double
  | string (width length : Nat)
  | array (width length : Nat)
  | map (width length : Nat)

/-- A length that is not in the tag follows it in `width` octets. -/
def headOf? (tag : UInt8) : Option Head :=
  let t := tag.toNat
  if t < 0x80 then some (.value (.number (.natural (UInt64.ofNat t))))
  else if t < 0x90 then some (.map 0 (t - 0x80))
  else if t < 0xA0 then some (.array 0 (t - 0x90))
  else if t < 0xC0 then some (.string 0 (t - 0xA0))
  else if 0xE0 ≤ t then (Number.ofInt? ((t : Int) - 0x100)).map (fun n => .value (.number n))
  else match t with
    | 0xC0 => some (.value .null)
    | 0xC2 => some (.value (.bool false))
    | 0xC3 => some (.value (.bool true))
    | 0xCA => some .single
    | 0xCB => some .double
    | 0xCC => some (.natural 1)
    | 0xCD => some (.natural 2)
    | 0xCE => some (.natural 4)
    | 0xCF => some (.natural 8)
    | 0xD0 => some (.signed 1)
    | 0xD1 => some (.signed 2)
    | 0xD2 => some (.signed 4)
    | 0xD3 => some (.signed 8)
    | 0xD9 => some (.string 1 0)
    | 0xDA => some (.string 2 0)
    | 0xDB => some (.string 4 0)
    | 0xDC => some (.array 2 0)
    | 0xDD => some (.array 4 0)
    | 0xDE => some (.map 2 0)
    | 0xDF => some (.map 4 0)
    | _ => none

/-- The length of a string or container. -/
def readLength? (width length : Nat) (bs : Octets) : Option (Nat × Octets) :=
  if width = 0 then some (length, bs) else readWord? width bs

/-- The number that a word of two's complement stands for. -/
def signedOf (width n : Nat) : Int :=
  let bound := 1 <<< (8 * width)
  if 2 * n < bound then n else (n : Int) - bound

def floatBody (x : Binary64) : Body :=
  match Number.ofFloat? x with
  | some n => .number n
  | none => .null

def readString? (width length : Nat) (bs : Octets) : Option (String × Octets) := do
  let (n, bs) ← readLength? width length bs
  let (content, rest) ← takeOctets? n bs
  let s ← ofUtf8? content
  return (s, rest)

def readKey? : Octets → Option (String × Octets)
  | [] => none
  | tag :: bs =>
    match headOf? tag with
    | some (.string width length) => readString? width length bs
    | _ => none

/-- So many values one after another, behind those already read, the last one first. -/
def readItems? (read : Octets → Option (Body × Octets)) :
    Nat → List Body → Octets → Option (List Body × Octets)
  | 0, done, bs => some (done.reverse, bs)
  | n + 1, done, bs =>
    match read bs with
    | some (x, bs) => readItems? read n (x :: done) bs
    | none => none

/-- So many keys with their values, behind those already read, the last one first. -/
def readMembers? (read : Octets → Option (Body × Octets)) :
    Nat → List (String × Body) → Octets → Option (List (String × Body) × Octets)
  | 0, done, bs => some (done.reverse, bs)
  | n + 1, done, bs =>
    match readKey? bs with
    | some (k, bs) =>
      match read bs with
      | some (x, bs) => readMembers? read n ((k, x) :: done) bs
      | none => none
    | none => none

/-- The value in front of the octets, and the rest. Containers nest at most `depth` deep. -/
def read? (depth : Nat) : Octets → Option (Body × Octets)
  | [] => none
  | tag :: bs =>
    match headOf? tag with
    | none => none
    | some (.value b) => some (b, bs)
    | some (.natural width) => do
      let (n, bs) ← readWord? width bs
      return (.number (.natural (UInt64.ofNat n)), bs)
    | some (.signed width) => do
      let (n, bs) ← readWord? width bs
      let i ← Number.ofInt? (signedOf width n)
      return (.number i, bs)
    | some .single => do
      let (n, bs) ← readWord? 4 bs
      return (floatBody (Binary64.ofSingle (UInt32.ofNat n)), bs)
    | some .double => do
      let (n, bs) ← readWord? 8 bs
      return (floatBody ⟨UInt64.ofNat n⟩, bs)
    | some (.string width length) => do
      let (s, bs) ← readString? width length bs
      return (.string s, bs)
    | some (.array width length) =>
      match depth with
      | 0 => none
      | depth + 1 => do
        let (n, bs) ← readLength? width length bs
        let (xs, bs) ← readItems? (read? depth) n [] bs
        return (.array xs, bs)
    | some (.map width length) =>
      match depth with
      | 0 => none
      | depth + 1 => do
        let (n, bs) ← readLength? width length bs
        let (ms, bs) ← readMembers? (read? depth) n [] bs
        return (.object (Entries.ofPairs ms), bs)

/-- How deep containers may nest, empty ones too. -/
def depthLimit : Nat :=
  1023

/-- The body in front of the octets. What follows it does not matter. -/
def ofOctets? (bs : Octets) : Option Body :=
  (read? depthLimit bs).map (·.1)

end BrokerClient.Body.MsgPack
