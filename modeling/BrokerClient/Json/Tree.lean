import BrokerClient.Json.Token

/-!
# JSON trees

A tree keeps what a JSON text says and nothing of how it is spaced: members stay in their order,
repeated ones too, numbers as they are written. It decides nothing about sizes, depth or surrogates,
which is left to what reads a tree.

Reading goes through the tokens with a stack of open arrays and objects, writing gives the tokens
back.
-/
namespace BrokerClient

inductive Json where
  | null
  | bool (b : Bool)
  | number (n : Json.NumberText)
  | string (units : Json.Units)
  | array (items : List Json)
  | object (members : List (Json.Units × Json))

namespace Json

/-! ## Reading -/

/-- An open array or object: what it has so far, the last one first. -/
inductive Frame where
  | array (items : List Json)
  | object (members : List (Units × Json)) (key : Units)

/-- What has been read and what may come next. -/
inductive Reading where
  | value (frames : List Frame)
  | arrayStart (frames : List Frame)
  | objectStart (frames : List Frame)
  | key (members : List (Units × Json)) (frames : List Frame)
  | colon (members : List (Units × Json)) (key : Units) (frames : List Frame)
  | done (v : Json) (frames : List Frame)

/-- A value begins, inside the frames. -/
def Reading.begin (frames : List Frame) : Token → Option Reading
  | .openArray => some (.arrayStart frames)
  | .openObject => some (.objectStart frames)
  | .null => some (.done .null frames)
  | .bool b => some (.done (.bool b) frames)
  | .number n => some (.done (.number n) frames)
  | .string us => some (.done (.string us) frames)
  | _ => none

def Reading.step : Reading → Token → Option Reading
  | .value fs, t => begin fs t
  | .arrayStart fs, .closeArray => some (.done (.array []) fs)
  | .arrayStart fs, t => begin (.array [] :: fs) t
  | .objectStart fs, .closeObject => some (.done (.object []) fs)
  | .objectStart fs, .string k => some (.colon [] k fs)
  | .key ms fs, .string k => some (.colon ms k fs)
  | .colon ms k fs, .colon => some (.value (.object ms k :: fs))
  | .done v (.array xs :: fs), .comma => some (.value (.array (v :: xs) :: fs))
  | .done v (.array xs :: fs), .closeArray => some (.done (.array (v :: xs).reverse) fs)
  | .done v (.object ms k :: fs), .comma => some (.key ((k, v) :: ms) fs)
  | .done v (.object ms k :: fs), .closeObject => some (.done (.object ((k, v) :: ms).reverse) fs)
  | _, _ => none

def Reading.run : Reading → List Token → Option Json
  | .done v [], [] => some v
  | _, [] => none
  | r, t :: ts =>
    match r.step t with
    | some r => r.run ts
    | none => none

def ofTokens? (ts : List Token) : Option Json :=
  Reading.run (.value []) ts

def ofChars? (cs : List Char) : Option Json :=
  (scan cs).bind ofTokens?

def ofString? (s : String) : Option Json :=
  ofChars? s.toList

/-! ## Writing -/

mutual

def tokens : Json → List Token
  | .null => [.null]
  | .bool b => [.bool b]
  | .number n => [.number n]
  | .string us => [.string us]
  | .array [] => [.openArray, .closeArray]
  | .array (x :: xs) => .openArray :: (x.tokens ++ itemsTokens xs)
  | .object [] => [.openObject, .closeObject]
  | .object ((k, x) :: ms) =>
    .openObject :: .string k :: .colon :: (x.tokens ++ membersTokens ms)

/-- The items behind the first one, and the end of the array. -/
def itemsTokens : List Json → List Token
  | [] => [.closeArray]
  | x :: xs => .comma :: (x.tokens ++ itemsTokens xs)

/-- The members behind the first one, and the end of the object. -/
def membersTokens : List (Units × Json) → List Token
  | [] => [.closeObject]
  | (k, x) :: ms => .comma :: .string k :: .colon :: (x.tokens ++ membersTokens ms)

end

def chars (j : Json) : List Char :=
  j.tokens.flatMap Token.chars

def text (j : Json) : String :=
  .ofList j.chars

/-! ## Depth -/

mutual

/-- Arrays and objects are inside one another at most `n` deep. -/
def nestsWithin : Nat → Json → Bool
  | _, .null => true
  | _, .bool _ => true
  | _, .number _ => true
  | _, .string _ => true
  | 0, .array _ => false
  | n + 1, .array xs => itemsNestWithin n xs
  | 0, .object _ => false
  | n + 1, .object ms => membersNestWithin n ms

def itemsNestWithin : Nat → List Json → Bool
  | _, [] => true
  | n, x :: xs => nestsWithin n x && itemsNestWithin n xs

def membersNestWithin : Nat → List (Units × Json) → Bool
  | _, [] => true
  | n, (_, x) :: ms => nestsWithin n x && membersNestWithin n ms

end

def depthLimit : Nat :=
  127

/-! ## Building -/

def ofText (s : String) : Json :=
  .string (unitsOf s)

def ofNat (n : Nat) : Json :=
  .number (.ofNat n)

def ofInt (i : Int) : Json :=
  .number (.ofInt i)

def ofMembers (ms : List (String × Json)) : Json :=
  .object (ms.map (fun m => (unitsOf m.1, m.2)))

/-- The content of a string without lone surrogates. -/
def text? : Json → Option String
  | .string us => textOf? us
  | _ => none

end Json

end BrokerClient
