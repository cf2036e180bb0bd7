import BrokerClient.Message.Error

/-!
# Typed messages

A contract ties a type of values to a type of messages: how a value becomes a body, if it can, and
which bodies are values.

Records are read from an object with their fields, others passed over, or from an array of exactly
the fields in order.
-/
namespace BrokerClient

structure Contract (α : Type) where
  type : MessageType
  toBody? : α → Option Body
  ofBody? : Body → Option α

namespace Message

def ofValue {α : Type} (c : Contract α) (a : α) (p : Properties) : Except MessageError Message :=
  match c.toBody? a with
  | some b => .ok ⟨c.type, some b, p⟩
  | none => .error (.body c.type "the value has no dynamic form")

/-- The body read as a value of the contract. -/
def bodyAs {α : Type} (m : Message) (c : Contract α) : Except MessageError (Option α) :=
  match m.body with
  | none => .ok none
  | some b =>
    match c.ofBody? b with
    | some a => .ok (some a)
    | none => .error (.body m.type "the body is no value of the contract")

end Message

/-! ## Parts of bodies -/

namespace Body

def string? : Body → Option String
  | .string s => some s
  | _ => none

def bool? : Body → Option Bool
  | .bool b => some b
  | _ => none

def int? : Body → Option Int
  | .number (.natural n) => some n.toNat
  | .number (.negative i _) => some i.toInt
  | _ => none

/-- An integer from `low` to below `high`. -/
def intWithin? (low high : Int) (b : Body) : Option Int :=
  b.int?.filter (fun i => low ≤ i ∧ i < high)

def float? : Body → Option Binary64
  | .number n => some n.toFloat
  | _ => none

def list? {α : Type} (read : Body → Option α) : Body → Option (List α)
  | .array xs => xs.mapM read
  | _ => none

/-- Null is an absent value. -/
def optional? {α : Type} (read : Body → Option α) : Body → Option (Option α)
  | .null => some none
  | b => (read b).map some

/-- The values of the named fields, in the order of the names. -/
def fields? (names : List String) : Body → Option (List (Option Body))
  | .object ms => some (names.map (Entries.get? ms))
  | .array xs => if xs.length = names.length then some (xs.map some) else none
  | _ => none

def ofNat (n : UInt64) : Body :=
  .number (.natural n)

/-- The integer as a body; null if it does not fit. -/
def ofInt (i : Int) : Body :=
  match Number.ofInt? i with
  | some n => .number n
  | none => .null

/-- A float that is not finite becomes null. -/
def ofFloat (x : Binary64) : Body :=
  match Number.ofFloat? x with
  | some n => .number n
  | none => .null

def ofMembers (ms : List (String × Body)) : Body :=
  .object (Entries.ofPairs ms)

end Body

end BrokerClient
