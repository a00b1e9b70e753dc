import BlocTrust.Domain

/-!
JSON values and their canonical text: objects are printed with their keys in the order of
`localeCompare`, which is a parameter.
-/
namespace BlocTrust

/-- What a program holds: `N` are the numbers and `B` the big integers, for which JSON has no
text. -/
inductive Value (N B : Type)
  | null
  | bool (b : Bool)
  | number (n : N)
  | bigint (n : B)
  | string (t : Text)
  | array (values : List (Value N B))
  | object (entries : List (Text × Value N B))

/-- JSON with integers for its numbers. -/
abbrev Json := Value Int Empty

def digits (n : Nat) : Text := (Nat.repr n).toList

def hexDigit (n : Nat) : Char :=
  if n < 10 then Char.ofNat (48 + n) else Char.ofNat (87 + n)

/-- `JSON.stringify` of one character of a string. -/
def escapeChar (c : Char) : Text :=
  if c = '"' then ['\\', '"']
  else if c = '\\' then ['\\', '\\']
  else if c.toNat = 8 then ['\\', 'b']
  else if c.toNat = 9 then ['\\', 't']
  else if c.toNat = 10 then ['\\', 'n']
  else if c.toNat = 12 then ['\\', 'f']
  else if c.toNat = 13 then ['\\', 'r']
  else if c.toNat < 32 then
    ['\\', 'u', '0', '0', hexDigit (c.toNat / 16), hexDigit (c.toNat % 16)]
  else [c]

def stringifyText (t : Text) : Text := ['"'] ++ t.flatMap escapeChar ++ ['"']

def stringifyInt : Int → Text
  | .ofNat n => digits n
  | .negSucc n => '-' :: digits (n + 1)

/-- Insertion of an entry into a list sorted by key, behind its equals. -/
def insertEntry {α : Type} (localeCompare : Text → Text → Ordering) (e : Text × α) :
    List (Text × α) → List (Text × α)
  | [] => [e]
  | d :: ds =>
      if localeCompare d.1 e.1 = .gt then e :: d :: ds
      else d :: insertEntry localeCompare e ds

def sortEntries {α : Type} (localeCompare : Text → Text → Ordering) (es : List (Text × α)) :
    List (Text × α) := es.foldl (fun sorted e => insertEntry localeCompare e sorted) []

def joinComma : List Text → Text
  | [] => []
  | [t] => t
  | t :: ts => t ++ ',' :: joinComma ts

mutual

def canonicalJson (localeCompare : Text → Text → Ordering) : Json → Text
  | .null => "null".toList
  | .bool b => if b then "true".toList else "false".toList
  | .number n => stringifyInt n
  | .bigint n => nomatch n
  | .string t => stringifyText t
  | .array vs => ['['] ++ joinComma (canonicalValues localeCompare vs) ++ [']']
  | .object es =>
      let sorted := sortEntries localeCompare (canonicalEntries localeCompare es)
      [Char.ofNat 123] ++
        joinComma (sorted.map fun e => stringifyText e.1 ++ ':' :: e.2) ++ [Char.ofNat 125]

def canonicalValues (localeCompare : Text → Text → Ordering) : List Json → List Text
  | [] => []
  | v :: vs => canonicalJson localeCompare v :: canonicalValues localeCompare vs

def canonicalEntries (localeCompare : Text → Text → Ordering) :
    List (Text × Json) → List (Text × Text)
  | [] => []
  | (k, v) :: es => (k, canonicalJson localeCompare v) :: canonicalEntries localeCompare es

end

/-- The bytes that a hash is fed when it is updated with a string. -/
def utf8 (t : Text) : Bytes := (String.ofList t).toUTF8.data.toList

def Value.ofOption {α N B : Type} (f : α → Value N B) : Option α → Value N B
  | none => .null
  | some a => f a

end BlocTrust
