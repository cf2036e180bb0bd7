import BrokerClient.Log
import BrokerClient.Message.Supersession
import BrokerClient.Message.TypeNames
import BrokerClient.Text.Blank

/-!
# The type property

The name of the type of a message, and in a header the names of the types that it supersedes. A
receiver takes the first of them that it knows.
-/
namespace BrokerClient

structure TypeProperty where
  primary : String
  alternatives : List String
deriving DecidableEq

namespace TypeProperty

/-- The header with the names of superseded types. -/
def alternativesHeader : String :=
  "Alternative-Message-Types"

def ofType (t : MessageType) (names : TypeNames) (s : Supersession) :
    Except MessageError TypeProperty := do
  match ← (← s.chain t).mapM names.nameOf with
  | [] => return ⟨"", []⟩
  | primary :: alternatives => return ⟨primary, alternatives⟩

/-- The segments between semicolons, without blanks around them, less the empty ones. -/
def splitNames (s : String) : List String :=
  ((s.toList.splitOn ';').map Text.trimChars).filterMap
    (fun cs => if cs.isEmpty then none else some (String.ofList cs))

def joinNames (names : List String) : String :=
  String.intercalate ";" names

/-- The names in received properties. -/
def ofProperties (p : Properties) : TypeProperty where
  primary := p.typeName.getD ""
  alternatives :=
    match (p.header? alternativesHeader).bind HeaderValue.asText with
    | some s => splitNames s
    | none => []

/-- Writes the names into properties. A header that is there stays if there are no alternatives. -/
def appendTo (t : TypeProperty) (p : Properties) : Properties :=
  let p := { p with typeName := some t.primary }
  if t.alternatives.isEmpty then p
  else p.withHeader alternativesHeader (.string (joinNames t.alternatives))

/-- The names in the order in which they are tried. -/
def candidates (t : TypeProperty) : List String :=
  (if t.primary.isEmpty then [] else [t.primary]) ++ t.alternatives

def typeOf? (names : TypeNames) (name : String) : Option MessageType :=
  match names.typeOf name with
  | .ok t => some t
  | .error _ => none

def resolve (t : TypeProperty) (names : TypeNames) : Except UnknownType MessageType :=
  match t.candidates.findSome? (typeOf? names) with
  | some found => .ok found
  | none => .error ⟨t.candidates⟩

/-- The names that were tried in vain. -/
def passedOver (t : TypeProperty) (names : TypeNames) : List String :=
  t.candidates.takeWhile (fun name => (typeOf? names name).isNone)

/-- One record for each name that was tried in vain. -/
def resolveLog (t : TypeProperty) (names : TypeNames) : List Log.Record :=
  (t.passedOver names).map fun name =>
    ⟨.debug, "message type not known locally, trying next", [("type_name", name)]⟩

end TypeProperty

end BrokerClient
