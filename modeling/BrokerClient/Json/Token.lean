import BrokerClient.Json.NumberText

/-!
# JSON tokens

A JSON text is a row of tokens with blanks between them. `scan` finds the tokens of a text one
character at a time; `Token.chars` writes a token in its shortest form.

The content of a string is a list of code points in which an escaped surrogate may stand alone:
`textOf?` is the text of those without such a one.
-/
namespace BrokerClient.Json

/-- Code points, among them the surrogates that were written as escapes. -/
abbrev Units := List Nat

inductive Token where
  | openArray
  | closeArray
  | openObject
  | closeObject
  | comma
  | colon
  | null
  | bool (b : Bool)
  | number (n : NumberText)
  | string (units : Units)
deriving DecidableEq

/-! ## Strings -/

def unitsOf (s : String) : Units :=
  s.toList.map Char.toNat

/-- A high surrogate and the low one behind it are one character; no other surrogate is one. -/
def textChars? : Units → Option (List Char)
  | [] => some []
  | [n] => if h : n.isValidChar then some [Char.ofNatAux n h] else none
  | n :: m :: us =>
    if h : n.isValidChar then (textChars? (m :: us)).map (Char.ofNatAux n h :: ·)
    else if 0xD800 ≤ n ∧ n < 0xDC00 ∧ 0xDC00 ≤ m ∧ m < 0xE000 then
      (textChars? us).map (Char.ofNat (0x10000 + (n - 0xD800) * 0x400 + (m - 0xDC00)) :: ·)
    else none

def textOf? (us : Units) : Option String :=
  (textChars? us).map String.ofList

def hexDigit (n : Nat) : Char :=
  if n < 10 then Char.ofNat ('0'.toNat + n) else Char.ofNat ('a'.toNat + (n - 10))

def hexValue? (c : Char) : Option Nat :=
  if '0' ≤ c ∧ c ≤ '9' then some (c.toNat - '0'.toNat)
  else if 'a' ≤ c ∧ c ≤ 'f' then some (c.toNat - 'a'.toNat + 10)
  else if 'A' ≤ c ∧ c ≤ 'F' then some (c.toNat - 'A'.toNat + 10)
  else none

/-- Quotes, backslashes, control characters and lone surrogates are escaped, with the short escapes
where there is one. -/
def unitChars (n : Nat) : List Char :=
  if n = 0x22 then ['\\', '"']
  else if n = 0x5C then ['\\', '\\']
  else if n = 0x08 then ['\\', 'b']
  else if n = 0x0C then ['\\', 'f']
  else if n = 0x0A then ['\\', 'n']
  else if n = 0x0D then ['\\', 'r']
  else if n = 0x09 then ['\\', 't']
  else if n < 0x20 ∨ ¬ n.isValidChar then
    ['\\', 'u', hexDigit (n / 4096 % 16), hexDigit (n / 256 % 16), hexDigit (n / 16 % 16),
      hexDigit (n % 16)]
  else [Char.ofNat n]

/-- What a one-letter escape stands for. -/
def escaped? (c : Char) : Option Nat :=
  match c with
  | '"' => some 0x22
  | '\\' => some 0x5C
  | '/' => some 0x2F
  | 'b' => some 0x08
  | 'f' => some 0x0C
  | 'n' => some 0x0A
  | 'r' => some 0x0D
  | 't' => some 0x09
  | _ => none

def Token.chars : Token → List Char
  | .openArray => ['[']
  | .closeArray => [']']
  | .openObject => ['\x7b']
  | .closeObject => ['\x7d']
  | .comma => [',']
  | .colon => [':']
  | .null => ['n', 'u', 'l', 'l']
  | .bool true => ['t', 'r', 'u', 'e']
  | .bool false => ['f', 'a', 'l', 's', 'e']
  | .number n => n.chars
  | .string us => ['"'] ++ us.flatMap unitChars ++ ['"']

/-! ## Scanning -/

/-- What a scanned text may be in the middle of. Characters and units are the last one first. -/
inductive Scan where
  | between
  | word (cs : List Char)
  | number (cs : List Char)
  | string (units : Units)
  | escape (units : Units)
  | hex (units : Units) (value digits : Nat)

/-- Blanks between tokens are these four. -/
def isBlank (c : Char) : Bool :=
  c == ' ' || c == '\t' || c == '\n' || c == '\r'

def isWordChar (c : Char) : Bool :=
  'a' ≤ c && c ≤ 'z'

def isNumberChar (c : Char) : Bool :=
  ('0' ≤ c && c ≤ '9') || c == '+' || c == '-' || c == '.' || c == 'e' || c == 'E'

def Token.ofWord? (cs : List Char) : Option Token :=
  if cs = ['n', 'u', 'l', 'l'] then some .null
  else if cs = ['t', 'r', 'u', 'e'] then some (.bool true)
  else if cs = ['f', 'a', 'l', 's', 'e'] then some (.bool false)
  else none

/-- The token of one character, or the beginning of a longer one. -/
def scanFirst (tokens : List Token) (c : Char) : Option (Scan × List Token) :=
  if isBlank c then some (.between, tokens)
  else if c = '"' then some (.string [], tokens)
  else if c = '[' then some (.between, .openArray :: tokens)
  else if c = ']' then some (.between, .closeArray :: tokens)
  else if c = '\x7b' then some (.between, .openObject :: tokens)
  else if c = '\x7d' then some (.between, .closeObject :: tokens)
  else if c = ',' then some (.between, .comma :: tokens)
  else if c = ':' then some (.between, .colon :: tokens)
  else if isWordChar c then some (.word [c], tokens)
  else if isNumberChar c then some (.number [c], tokens)
  else none

def scanEnd (s : Scan) (tokens : List Token) : Option (List Token) :=
  match s with
  | .between => some tokens
  | .word cs => (Token.ofWord? cs.reverse).map (· :: tokens)
  | .number cs => (NumberText.ofChars? cs.reverse).map (fun n => .number n :: tokens)
  | _ => none

def scanStep (s : Scan) (tokens : List Token) (c : Char) : Option (Scan × List Token) :=
  match s with
  | .between => scanFirst tokens c
  | .word cs =>
    if isWordChar c then some (.word (c :: cs), tokens)
    else (scanEnd s tokens).bind (scanFirst · c)
  | .number cs =>
    if isNumberChar c then some (.number (c :: cs), tokens)
    else (scanEnd s tokens).bind (scanFirst · c)
  | .string us =>
    if c = '"' then some (.between, .string us.reverse :: tokens)
    else if c = '\\' then some (.escape us, tokens)
    else if c.toNat < 0x20 then none
    else some (.string (c.toNat :: us), tokens)
  | .escape us =>
    if c = 'u' then some (.hex us 0 0, tokens)
    else (escaped? c).map (fun n => (.string (n :: us), tokens))
  | .hex us value digits =>
    match hexValue? c with
    | none => none
    | some d =>
      let value := 16 * value + d
      if digits = 3 then some (.string (value :: us), tokens)
      else some (.hex us value (digits + 1), tokens)

/-- Goes on from a state, with the tokens found so far, the last one first. -/
def scanFrom (s : Scan) (tokens : List Token) : List Char → Option (List Token)
  | [] => (scanEnd s tokens).map List.reverse
  | c :: cs =>
    match scanStep s tokens c with
    | some (s, tokens) => scanFrom s tokens cs
    | none => none

def scan (cs : List Char) : Option (List Token) :=
  scanFrom .between [] cs

end BrokerClient.Json
