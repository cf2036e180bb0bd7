import BrokerClient.Json.Tree
import BrokerClient.Number

/-!
# Reading records from JSON trees

A record is an object that names its fields, or an array with all of them in order. Integers have
to be written as such and to lie in their range.
-/
namespace BrokerClient.Json

def number? : Json → Option Number
  | .number t => Number.ofText? t
  | _ => none

def natural? (bound : Nat) (j : Json) : Option Nat :=
  match j.number? with
  | some (.natural n) => if n.toNat < bound then some n.toNat else none
  | _ => none

def int64? (j : Json) : Option Int64 :=
  match j.number? with
  | some (.natural n) => if n.toNat < 0x8000000000000000 then some (Int64.ofInt n.toNat) else none
  | some (.negative i _) => some i
  | _ => none

/-- Any number, as a floating-point number. -/
def float? (j : Json) : Option Binary64 :=
  j.number?.map Number.toFloat

/-- Null is an absent value. -/
def optional? {α : Type} (read : Json → Option α) : Json → Option (Option α)
  | .null => some none
  | j => (read j).map some

def keyed? (ms : List (Units × Json)) : Option (List (String × Json)) :=
  ms.mapM (fun m => (textOf? m.1).map (·, m.2))

/-- The value of a field that at most one member names. -/
def field? (ms : List (String × Json)) (name : String) : Option (Option Json) :=
  match ms.filter (fun m => m.1 = name) with
  | [] => some none
  | [m] => some (some m.2)
  | _ => none

/-- The values of the named fields, in the order of the names. Members with other names count only
if the record is open. -/
def fields? (isOpen : Bool) (names : List String) : Json → Option (List (Option Json))
  | .object ms =>
    match keyed? ms with
    | none => none
    | some ms =>
      if isOpen || ms.all (fun m => names.contains m.1) then names.mapM (field? ms) else none
  | .array xs => if xs.length = names.length then some (xs.map some) else none
  | _ => none

end BrokerClient.Json
