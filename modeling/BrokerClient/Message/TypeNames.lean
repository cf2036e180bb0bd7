import BrokerClient.Message.Error

/-!
# Names of message types on the wire

A naming writes a type as a name and finds the type of a name. The registry takes the identity of a
type as its name and finds the types that it knows; a table lists types with their names.
-/
namespace BrokerClient

structure TypeNames where
  nameOf : MessageType → Except MessageError String
  typeOf : String → Except UnknownType MessageType

namespace TypeNames

def nameLimit : Nat :=
  255

/-- Names are identities, and only the known ones are found. -/
def registry (known : List MessageType) : TypeNames where
  nameOf t := if nameLimit < t.name.length then .error (.nameTooLong t.name nameLimit) else .ok t.name
  typeOf name :=
    match known.find? (fun t => t.name = name) with
    | some t => .ok t
    | none => .error ⟨[name]⟩

/-- The first matching pair counts in both directions. -/
def table (pairs : List (MessageType × String)) : TypeNames where
  nameOf t :=
    match pairs.find? (fun p => p.1 = t) with
    | some p => .ok p.2
    | none => .error (.unknownType ⟨[t.name]⟩)
  typeOf name :=
    match pairs.find? (fun p => p.2 = name) with
    | some p => .ok p.1
    | none => .error ⟨[name]⟩

end TypeNames

end BrokerClient
