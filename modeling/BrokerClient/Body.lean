import BrokerClient.Json.Tree
import BrokerClient.Number
import BrokerClient.SortedMap

/-!
# Message bodies

A body is a dynamic value. Members of an object come in increasing order of their keys, each key
once; `Body.Ordered` says so of a whole body. Reading a tree takes the last of repeated members.
-/
namespace BrokerClient

inductive Body where
  | null
  | bool (b : Bool)
  | number (n : Number)
  | string (s : String)
  | array (items : List Body)
  | object (members : List (String × Body))

namespace Body

instance : Inhabited Body :=
  ⟨.null⟩

mutual

/-- The keys of every object increase. -/
def Ordered : Body → Prop
  | .array xs => ItemsOrdered xs
  | .object ms => Entries.Increasing ms ∧ MembersOrdered ms
  | _ => True

def ItemsOrdered : List Body → Prop
  | [] => True
  | x :: xs => x.Ordered ∧ ItemsOrdered xs

def MembersOrdered : List (String × Body) → Prop
  | [] => True
  | (_, x) :: ms => x.Ordered ∧ MembersOrdered ms

end

/-! ## Trees of bodies -/

mutual

def toJson : Body → Json
  | .null => .null
  | .bool b => .bool b
  | .number n => .number n.toText
  | .string s => .ofText s
  | .array xs => .array (itemsToJson xs)
  | .object ms => .object (membersToJson ms)

def itemsToJson : List Body → List Json
  | [] => []
  | x :: xs => x.toJson :: itemsToJson xs

def membersToJson : List (String × Body) → List (Json.Units × Json)
  | [] => []
  | (k, x) :: ms => (Json.unitsOf k, x.toJson) :: membersToJson ms

end

mutual

/-- The body that a tree stands for: numbers must not be too large, strings must be texts. -/
def ofTree? : Json → Option Body
  | .null => some .null
  | .bool b => some (.bool b)
  | .number n => (Number.ofText? n).map .number
  | .string us => (Json.textOf? us).map .string
  | .array xs => (itemsOfTrees? xs).map .array
  | .object ms => (membersOfTrees? ms).map (fun ps => .object (Entries.ofPairs ps))

def itemsOfTrees? : List Json → Option (List Body)
  | [] => some []
  | x :: xs =>
    match ofTree? x, itemsOfTrees? xs with
    | some x, some xs => some (x :: xs)
    | _, _ => none

def membersOfTrees? : List (Json.Units × Json) → Option (List (String × Body))
  | [] => some []
  | (k, x) :: ms =>
    match Json.textOf? k, ofTree? x, membersOfTrees? ms with
    | some k, some x, some ms => some ((k, x) :: ms)
    | _, _, _ => none

end

def ofJson? (j : Json) : Option Body :=
  if j.nestsWithin Json.depthLimit then ofTree? j else none

def ofText? (s : String) : Option Body :=
  (Json.ofString? s).bind ofJson?

def text (b : Body) : String :=
  b.toJson.text

end Body

end BrokerClient
