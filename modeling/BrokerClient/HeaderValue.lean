import BrokerClient.Binary64.Shortest
import BrokerClient.SortedMap
import BrokerClient.Text.Utf8

/-!
# Header values

The values that a header field may hold, their text, and when two of them are the same. The entries
of a table come in increasing order of the keys, each key once; `HeaderValue.Ordered` says so of
all tables inside a value.
-/
namespace BrokerClient

inductive HeaderValue where
  | void
  | bool (b : Bool)
  | int (i : Int64)
  | float (x : Binary64)
  | string (s : String)
  | bytes (octets : Text.Octets)
  | array (items : List HeaderValue)
  | table (entries : List (String × HeaderValue))

namespace HeaderValue

instance : Inhabited HeaderValue :=
  ⟨.void⟩

mutual

/-- The keys of every table increase. -/
def Ordered : HeaderValue → Prop
  | .array xs => ItemsOrdered xs
  | .table es => Entries.Increasing es ∧ EntriesOrdered es
  | _ => True

def ItemsOrdered : List HeaderValue → Prop
  | [] => True
  | x :: xs => x.Ordered ∧ ItemsOrdered xs

def EntriesOrdered : List (String × HeaderValue) → Prop
  | [] => True
  | (_, x) :: es => x.Ordered ∧ EntriesOrdered es

end

/-- The text that a value holds, be it as a string or as octets. -/
def asText : HeaderValue → Option String
  | .string s => some s
  | .bytes bs => Text.ofUtf8? bs
  | _ => none

/-! ## Text -/

/-- All digits of a number in place, no point behind a whole one. -/
def floatText (x : Binary64) : String :=
  let sign := if x.isNegative then "-" else ""
  if x.isNaN then "NaN"
  else if !x.isFinite then sign ++ "inf"
  else if x.isZero then sign ++ "0"
  else sign ++ String.ofList (x.shortest .up).positional

def bracketed (texts : List String) : String :=
  "[" ++ String.intercalate ", " texts ++ "]"

mutual

/-- What is no text is shown by the numbers of its octets. -/
def text : HeaderValue → String
  | .void => "NULL"
  | .bool b => if b then "true" else "false"
  | .int i => toString i.toInt
  | .float x => floatText x
  | .string s => s
  | .bytes bs =>
    match Text.ofUtf8? bs with
    | some s => s
    | none => bracketed (bs.map (fun b => toString b.toNat))
  | .array xs => bracketed (itemTexts xs)
  | .table es => bracketed (entryTexts es)

def itemTexts : List HeaderValue → List String
  | [] => []
  | x :: xs => x.text :: itemTexts xs

def entryTexts : List (String × HeaderValue) → List String
  | [] => []
  | (k, x) :: es => (k ++ "=" ++ x.text) :: entryTexts es

end

/-! ## Sameness -/

mutual

/-- Floats are the same when their values are equal, so a NaN is not the same as itself. -/
def same : HeaderValue → HeaderValue → Bool
  | .void, .void => true
  | .bool a, .bool b => a == b
  | .int a, .int b => a == b
  | .float x, .float y => x.sameValue y
  | .string s, .string t => s == t
  | .bytes a, .bytes b => a == b
  | .array xs, .array ys => itemsSame xs ys
  | .table es, .table fs => entriesSame es fs
  | _, _ => false

def itemsSame : List HeaderValue → List HeaderValue → Bool
  | [], [] => true
  | x :: xs, y :: ys => same x y && itemsSame xs ys
  | _, _ => false

def entriesSame : List (String × HeaderValue) → List (String × HeaderValue) → Bool
  | [], [] => true
  | (k, x) :: es, (l, y) :: fs => k == l && same x y && entriesSame es fs
  | _, _ => false

end

end HeaderValue

abbrev Headers := SortedMap HeaderValue

end BrokerClient
