import BrokerClient.HeaderValue
import BrokerClient.Json.Fields

/-!
# Header values as JSON

A value is an object with one member, named for the kind of the value; a void is its name alone.
Floats that are not finite are written as null and do not read back.
-/
namespace BrokerClient.HeaderValue

def octetsToJson (bs : Text.Octets) : Json :=
  .array (bs.map (fun b => .ofNat b.toNat))

def floatToJson (x : Binary64) : Json :=
  if x.isFinite then .number (Number.floatText x) else .null

mutual

def toJson : HeaderValue → Json
  | .void => .ofText "Void"
  | .bool b => .ofMembers [("Bool", .bool b)]
  | .int i => .ofMembers [("Int", .ofInt i.toInt)]
  | .float x => .ofMembers [("Float", floatToJson x)]
  | .string s => .ofMembers [("String", .ofText s)]
  | .bytes bs => .ofMembers [("Bytes", octetsToJson bs)]
  | .array xs => .ofMembers [("Array", .array (itemsToJson xs))]
  | .table es => .ofMembers [("Table", .object (entriesToJson es))]

def itemsToJson : List HeaderValue → List Json
  | [] => []
  | x :: xs => x.toJson :: itemsToJson xs

def entriesToJson : List (String × HeaderValue) → List (Json.Units × Json)
  | [] => []
  | (k, x) :: es => (Json.unitsOf k, x.toJson) :: entriesToJson es

end

def octetsOfJson? : Json → Option Text.Octets
  | .array xs => xs.mapM (fun x => (x.natural? 256).map UInt8.ofNat)
  | _ => none

/-- A value without values inside, from the name of its kind and its content. -/
def simpleOfJson? (kind : String) (content : Json) : Option HeaderValue :=
  match kind, content with
  | "Void", .null => some .void
  | "Bool", .bool b => some (.bool b)
  | "Int", j => j.int64?.map .int
  | "Float", j => j.float?.map .float
  | "String", j => j.text?.map .string
  | "Bytes", j => (octetsOfJson? j).map .bytes
  | _, _ => none

mutual

def ofJson? : Json → Option HeaderValue
  | .string us => if Json.textOf? us = some "Void" then some .void else none
  | .object [(k, .array xs)] =>
    match Json.textOf? k with
    | some "Array" => (itemsOfJson? xs).map .array
    | some kind => simpleOfJson? kind (.array xs)
    | none => none
  | .object [(k, .object ms)] =>
    match Json.textOf? k with
    | some "Table" => (entriesOfJson? ms).map (fun ps => .table (Entries.ofPairs ps))
    | _ => none
  | .object [(k, j)] => (Json.textOf? k).bind (simpleOfJson? · j)
  | _ => none

def itemsOfJson? : List Json → Option (List HeaderValue)
  | [] => some []
  | x :: xs =>
    match ofJson? x, itemsOfJson? xs with
    | some x, some xs => some (x :: xs)
    | _, _ => none

/-- The entries in their order, repeated ones too. -/
def entriesOfJson? : List (Json.Units × Json) → Option (List (String × HeaderValue))
  | [] => some []
  | (k, x) :: ms =>
    match Json.textOf? k, ofJson? x, entriesOfJson? ms with
    | some k, some x, some ms => some ((k, x) :: ms)
    | _, _, _ => none

end

end BrokerClient.HeaderValue
