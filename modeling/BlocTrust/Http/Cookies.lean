import BlocTrust.Json
import Mathlib.Logic.Function.Basic

/-!
The `Cookie` header.
`readCookies` splits it at semicolons, skips the pairs that have no name or whose value is no
encoding of a text, and lets a later pair of one name replace an earlier one.
-/
namespace BlocTrust.Http

section Decoding

/-- A piece of an encoded text: a character that stands for itself, or an escaped octet. -/
inductive Escaped
  | char (c : Char)
  | octet (b : Nat)
  deriving DecidableEq, Repr

def hexValue (c : Char) : Option Nat :=
  if 48 ≤ c.toNat ∧ c.toNat ≤ 57 then some (c.toNat - 48)
  else if 65 ≤ c.toNat ∧ c.toNat ≤ 70 then some (c.toNat - 55)
  else if 97 ≤ c.toNat ∧ c.toNat ≤ 102 then some (c.toNat - 87)
  else none

def unescape : Text → Option (List Escaped)
  | [] => some []
  | c :: t =>
      if c = '%' then
        match t with
        | high :: low :: t => do
            let b ← hexValue high
            let b' ← hexValue low
            let rest ← unescape t
            return .octet (16 * b + b') :: rest
        | _ => none
      else (unescape t).map (.char c :: ·)

/-- The six bits of a continuation octet. -/
def continuation : Escaped → Option Nat
  | .octet b => if 128 ≤ b ∧ b < 192 then some (b - 128) else none
  | .char _ => none

/-- The character of a code point that is no surrogate and needs its number of octets. -/
def character (least point : Nat) : Option Char :=
  if least ≤ point ∧ point.isValidChar then some (Char.ofNat point) else none

/-- Each run of octets is the UTF-8 encoding of some characters. -/
def decodeOctets : List Escaped → Option Text
  | [] => some []
  | .char c :: es => (decodeOctets es).map (c :: ·)
  | .octet b :: es =>
      if b < 128 then (decodeOctets es).map (Char.ofNat b :: ·)
      else if b < 192 then none
      else if b < 224 then
        match es with
        | e :: es => do
            let x ← continuation e
            let c ← character 128 ((b - 192) * 64 + x)
            (decodeOctets es).map (c :: ·)
        | _ => none
      else if b < 240 then
        match es with
        | e :: f :: es => do
            let x ← continuation e
            let y ← continuation f
            let c ← character 2048 (((b - 224) * 64 + x) * 64 + y)
            (decodeOctets es).map (c :: ·)
        | _ => none
      else if b < 248 then
        match es with
        | e :: f :: g :: es => do
            let x ← continuation e
            let y ← continuation f
            let z ← continuation g
            let c ← character 65536 ((((b - 240) * 64 + x) * 64 + y) * 64 + z)
            (decodeOctets es).map (c :: ·)
        | _ => none
      else none

/-- `none` is the `URIError`. -/
def decodeURIComponent (t : Text) : Option Text := unescape t >>= decodeOctets

example : decodeURIComponent "a%3B%c3%A9".toList = some "a;é".toList := by decide +kernel

end Decoding

/-- The settings in `process.env`. -/
structure Environment where
  cookieSecure : Option Text
  nodeEnv : Option Text
  trustedOrigins : Option Text
  deriving DecidableEq, Repr

structure CookieNames where
  access : Text
  refresh : Text
  csrf : Text
  deriving DecidableEq, Repr

def secureCookies (env : Environment) : Bool :=
  match env.cookieSecure with
  | none => env.nodeEnv = some "production".toList
  | some setting => setting = "true".toList

def cookieNames (env : Environment) : CookieNames :=
  if secureCookies env then
    ⟨"__Host-bt_access".toList, "__Host-bt_refresh".toList, "__Host-bt_csrf".toList⟩
  else ⟨"bt_access".toList, "bt_refresh".toList, "bt_csrf".toList⟩

/-- An object from names to values. -/
abbrev Cookies := Text → Option Text

/-- `Object.fromEntries`: a later entry replaces an earlier one. -/
def fromEntries (entries : List (Text × Text)) : Cookies :=
  entries.foldl (fun cookies e => Function.update cookies e.1 (some e.2)) fun _ => none

def readPair (part : Text) : Option (Text × Text) :=
  match part.idxOf? '=' with
  | none => none
  | some separator =>
      if separator < 1 then none
      else
        (decodeURIComponent (trim (part.drop (separator + 1)))).map fun value =>
          (trim (part.take separator), value)

/-- An absent header and an empty one have no cookies. -/
def readCookies (header : Option Text) : Cookies :=
  match header with
  | none => fromEntries []
  | some header =>
      if header = [] then fromEntries []
      else fromEntries ((header.splitOn ';').filterMap readPair)

/-- A cookie that the code tests for truth. -/
def present (cookie : Option Text) : Option Text := cookie.filter (· ≠ [])

@[simp] theorem present_eq_some {cookie : Option Text} {value : Text} :
    present cookie = some value ↔ cookie = some value ∧ value ≠ [] := by
  simp [present, Option.filter_eq_some_iff]

end BlocTrust.Http
