import BlocTrust.Json
import BlocTrust.Http.Cookies
import Mathlib.Tactic.SplitIfs

/-!
Printing and reading JSON over any numbers.
`print` writes a value without spaces, and `read` reads the whole grammar: the members of an object
come in the order of the text, each as often as it is written.  A printed value is read back as it
was, whatever follows it: the fuel of the reader is never exhausted on what was printed.
-/
namespace BlocTrust.JsonReader

open Http (hexValue)

def isNumberChar (c : Char) : Bool := c.isDigit || ['-', '+', '.', 'e', 'E'].contains c

/-- Numbers are printed as tokens of JSON, and reading a token gives the number back. -/
structure NumberFormat (N : Type) where
  text : N → Text
  read : Text → Option N
  read_text : ∀ n, read (text n) = some n
  isNumberChar_of_mem : ∀ n, ∀ c ∈ text n, isNumberChar c = true
  text_head : ∀ n, ∃ c t, text n = c :: t ∧ (c = '-' ∨ c.isDigit = true)

section Printing

variable {N : Type} (F : NumberFormat N)

mutual

/-- `JSON.stringify`. -/
def print : Value N Empty → Text
  | .null => "null".toList
  | .bool b => if b then "true".toList else "false".toList
  | .number n => F.text n
  | .bigint n => nomatch n
  | .string t => stringifyText t
  | .array vs => ['['] ++ joinComma (printValues vs) ++ [']']
  | .object es => [Char.ofNat 123] ++ joinComma (printEntries es) ++ [Char.ofNat 125]

def printValues : List (Value N Empty) → List Text
  | [] => []
  | v :: vs => print v :: printValues vs

def printEntries : List (Text × Value N Empty) → List Text
  | [] => []
  | (k, v) :: es => (stringifyText k ++ ':' :: print v) :: printEntries es

end

end Printing

section Reading

def isSpace (c : Char) : Bool :=
  c.toNat == 32 || c.toNat == 9 || c.toNat == 10 || c.toNat == 13

def skipSpaces (t : Text) : Text := t.dropWhile isSpace

/-- The four digits of a `\u` escape. -/
def readUnit : Text → Option (Nat × Text)
  | a :: b :: c :: d :: rest =>
      (hexValue a).bind fun a => (hexValue b).bind fun b => (hexValue c).bind fun c =>
        (hexValue d).map fun d => (((a * 16 + b) * 16 + c) * 16 + d, rest)
  | _ => none

/-- The second half of a surrogate pair. -/
def readLow (high : Nat) : Text → Option (Char × Text)
  | c :: d :: rest =>
      if c = '\\' ∧ d = 'u' then
        (readUnit rest).bind fun low =>
          if 0xDC00 ≤ low.1 ∧ low.1 < 0xE000 then
            some (Char.ofNat (0x10000 + (high - 0xD800) * 0x400 + (low.1 - 0xDC00)), low.2)
          else none
      else none
  | _ => none

def simpleEscape (c : Char) : Option Char :=
  if c = '"' ∨ c = '\\' ∨ c = '/' then some c
  else if c = 'b' then some (Char.ofNat 8)
  else if c = 't' then some (Char.ofNat 9)
  else if c = 'n' then some (Char.ofNat 10)
  else if c = 'f' then some (Char.ofNat 12)
  else if c = 'r' then some (Char.ofNat 13)
  else none

/-- What stands behind a backslash.  A lone surrogate is not a character. -/
def readEscape : Text → Option (Char × Text)
  | [] => none
  | c :: rest =>
      if c = 'u' then
        (readUnit rest).bind fun unit =>
          if 0xD800 ≤ unit.1 ∧ unit.1 < 0xDC00 then readLow unit.1 unit.2
          else if 0xDC00 ≤ unit.1 ∧ unit.1 < 0xE000 then none
          else some (Char.ofNat unit.1, unit.2)
      else (simpleEscape c).map fun e => (e, rest)

/-- The characters of a string, up to and without the closing quote. -/
def readChars : Nat → Text → Option (Text × Text)
  | 0, _ => none
  | _ + 1, [] => none
  | n + 1, c :: rest =>
      if c = '"' then some ([], rest)
      else if c = '\\' then
        (readEscape rest).bind fun e => (readChars n e.2).map fun p => (e.1 :: p.1, p.2)
      else if c.toNat < 32 then none
      else (readChars n rest).map fun p => (c :: p.1, p.2)

def readString (t : Text) : Option (Text × Text) := readChars (t.length + 1) t

/-- A comma, after which there is more, or the closing bracket. -/
def readSeparator (close : Char) (t : Text) : Option (Bool × Text) :=
  match skipSpaces t with
  | [] => none
  | c :: rest =>
      if c = ',' then some (true, rest)
      else if c = close then some (false, rest)
      else none

def readColon (t : Text) : Option Text :=
  match skipSpaces t with
  | [] => none
  | c :: rest => if c = ':' then some rest else none

def readKey (t : Text) : Option (Text × Text) :=
  match skipSpaces t with
  | [] => none
  | c :: rest =>
      if c = '"' then
        (readString rest).bind fun k => (readColon k.2).map fun rest => (k.1, rest)
      else none

variable {N : Type} (F : NumberFormat N)

def readNumber (t : Text) : Option (Value N Empty × Text) :=
  (F.read (t.takeWhile isNumberChar)).map fun n => (.number n, t.dropWhile isNumberChar)

def readWord (word : Text) (value : Value N Empty) (t : Text) : Option (Value N Empty × Text) :=
  if t.take word.length = word then some (value, t.drop word.length) else none

mutual

def readValue : Nat → Text → Option (Value N Empty × Text)
  | 0, _ => none
  | n + 1, t =>
      match skipSpaces t with
      | [] => none
      | c :: rest =>
          if c = '"' then (readString rest).map fun p => (.string p.1, p.2)
          else if c = '[' then
            if (skipSpaces rest).head? = some ']' then some (.array [], (skipSpaces rest).tail)
            else (readElements n rest).map fun p => (.array p.1, p.2)
          else if c = Char.ofNat 123 then
            if (skipSpaces rest).head? = some (Char.ofNat 125) then
              some (.object [], (skipSpaces rest).tail)
            else (readMembers n rest).map fun p => (.object p.1, p.2)
          else if c = 'n' then readWord "null".toList .null (c :: rest)
          else if c = 't' then readWord "true".toList (.bool true) (c :: rest)
          else if c = 'f' then readWord "false".toList (.bool false) (c :: rest)
          else readNumber F (c :: rest)

def readElements : Nat → Text → Option (List (Value N Empty) × Text)
  | 0, _ => none
  | n + 1, t =>
      (readValue n t).bind fun v => (readSeparator ']' v.2).bind fun s =>
        if s.1 then (readElements n s.2).map fun p => (v.1 :: p.1, p.2)
        else some ([v.1], s.2)

def readMembers : Nat → Text → Option (List (Text × Value N Empty) × Text)
  | 0, _ => none
  | n + 1, t =>
      (readKey t).bind fun k => (readValue n k.2).bind fun v =>
        (readSeparator (Char.ofNat 125) v.2).bind fun s =>
          if s.1 then (readMembers n s.2).map fun p => ((k.1, v.1) :: p.1, p.2)
          else some ([(k.1, v.1)], s.2)

end

/-- A value with nothing but spaces behind it. -/
def read (t : Text) : Option (Value N Empty) :=
  (readValue F (t.length + 1) t).bind fun v => if skipSpaces v.2 = [] then some v.1 else none

end Reading

section Strings

variable {c : Char} {t rest : Text}

theorem hexValue_hexDigit : ∀ k < 16, hexValue (hexDigit k) = some k := by decide

theorem char_of_toNat {n : Nat} (h : c.toNat = n) : c = Char.ofNat n := by
  rw [← h, Char.ofNat_toNat]

/-- A control character is printed as a `\u` escape that reads as it. -/
theorem readEscape_control (h : c.toNat < 32) :
    readEscape ('u' :: '0' :: '0' :: hexDigit (c.toNat / 16) :: hexDigit (c.toNat % 16) :: rest) =
      some (c, rest) := by
  have hzero : hexValue '0' = some 0 := by decide
  have hhigh := hexValue_hexDigit (c.toNat / 16) (by omega)
  have hlow := hexValue_hexDigit (c.toNat % 16) (by omega)
  have hvalue : ((0 * 16 + 0) * 16 + c.toNat / 16) * 16 + c.toNat % 16 = c.toNat := by omega
  rw [readEscape, if_pos rfl, readUnit, hzero, hhigh, hlow]
  simp only [Option.bind_some, Option.map_some, hvalue]
  rw [if_neg (by omega), if_neg (by omega), Char.ofNat_toNat]

theorem escapeChar_length_pos (c : Char) : 0 < (escapeChar c).length := by
  unfold escapeChar
  split_ifs <;> simp

/-- Every character is read back from its escape. -/
theorem readChars_escapeChar (n : Nat) (c : Char) (rest : Text) :
    readChars (n + 1) (escapeChar c ++ rest) =
      (readChars n rest).map fun p => (c :: p.1, p.2) := by
  have hback : ∀ e, simpleEscape e = some c → e ≠ 'u' → readChars (n + 1) ('\\' :: e :: rest) =
      (readChars n rest).map fun p => (c :: p.1, p.2) := by
    intro e he hu
    rw [readChars, if_neg (by decide), if_pos rfl, readEscape, if_neg hu, he]
    rfl
  unfold escapeChar
  split_ifs with hquote hslash h8 h9 h10 h12 h13 hcontrol
  · exact hback '"' (by rw [hquote]; decide) (by decide)
  · exact hback '\\' (by rw [hslash]; decide) (by decide)
  · exact hback 'b' (by rw [char_of_toNat h8]; decide) (by decide)
  · exact hback 't' (by rw [char_of_toNat h9]; decide) (by decide)
  · exact hback 'n' (by rw [char_of_toNat h10]; decide) (by decide)
  · exact hback 'f' (by rw [char_of_toNat h12]; decide) (by decide)
  · exact hback 'r' (by rw [char_of_toNat h13]; decide) (by decide)
  · show readChars (n + 1) ('\\' :: 'u' :: '0' :: '0' :: _ :: _ :: rest) = _
    rw [readChars, if_neg (by decide), if_pos rfl, readEscape_control hcontrol]
    rfl
  · show readChars (n + 1) (c :: rest) = _
    rw [readChars, if_neg hquote, if_neg hslash, if_neg hcontrol]

theorem readChars_flatMap (t rest : Text) {n : Nat} (h : (t.flatMap escapeChar).length < n) :
    readChars n (t.flatMap escapeChar ++ '"' :: rest) = some (t, rest) := by
  induction t generalizing n with
  | nil =>
      obtain ⟨m, rfl⟩ := Nat.exists_eq_succ_of_ne_zero (by omega : n ≠ 0)
      show readChars (m + 1) ('"' :: rest) = _
      rw [readChars, if_pos rfl]
  | cons c t ih =>
      obtain ⟨m, rfl⟩ := Nat.exists_eq_succ_of_ne_zero (by omega : n ≠ 0)
      have hpos := escapeChar_length_pos c
      rw [List.flatMap_cons, List.length_append] at h
      rw [List.flatMap_cons, List.append_assoc, readChars_escapeChar, ih (by omega)]
      rfl

theorem readString_flatMap (t rest : Text) :
    readString (t.flatMap escapeChar ++ '"' :: rest) = some (t, rest) := by
  refine readChars_flatMap t rest ?_
  rw [List.length_append, List.length_cons]
  omega

theorem stringifyText_append (t rest : Text) :
    stringifyText t ++ rest = '"' :: (t.flatMap escapeChar ++ '"' :: rest) := by
  simp [stringifyText]

end Strings

section Numbers

theorem digits_eq (n : Nat) : digits n = Nat.toDigits 10 n := by
  unfold digits
  exact Nat.toList_repr

theorem isDigit_of_mem_digits {n : Nat} {c : Char} (h : c ∈ digits n) : c.isDigit = true := by
  rw [digits_eq] at h
  exact Nat.isDigit_of_mem_toDigits (by decide) (by decide) h

theorem digits_ne_nil (n : Nat) : digits n ≠ [] := by
  rw [digits_eq]
  exact Nat.toDigits_ne_nil

/-- Only zero begins with the digit zero. -/
theorem digits_head (n : Nat) (h : (digits n).head? = some '0') : digits n = ['0'] := by
  rw [digits_eq] at h ⊢
  induction n using Nat.strongRecOn with
  | _ n ih =>
      by_cases hn : n < 10
      · rw [Nat.toDigits_of_lt_base hn] at h ⊢
        simp only [List.head?_cons, Option.some.injEq] at h
        rw [h]
      · rw [Nat.toDigits_of_base_le (by decide) (by omega)] at h
        rw [List.head?_append, Option.or_of_isSome
          (List.isSome_head?.mpr Nat.toDigits_ne_nil)] at h
        have hzero := ih (n / 10) (by omega) h
        have hvalue := Nat.ofDigitChars_ten_toDigits (n := n / 10)
        rw [hzero] at hvalue
        have hnone : n / 10 = 0 := by rw [← hvalue]; decide
        omega

theorem takeWhile_append {p : Char → Bool} {ds rest : Text} (hds : ∀ c ∈ ds, p c = true)
    (hrest : ∀ c ∈ rest.head?, p c = false) :
    (ds ++ rest).takeWhile p = ds ∧ (ds ++ rest).dropWhile p = rest := by
  have hstop : rest.takeWhile p = [] ∧ rest.dropWhile p = rest := by
    cases rest with
    | nil => simp
    | cons c rest =>
        have hc := hrest c rfl
        simp [hc]
  rw [List.takeWhile_append_of_pos hds, List.dropWhile_append_of_pos hds, hstop.1, hstop.2]
  simp

/-- Digits without a leading zero. -/
def readDigits (t : Text) : Option Nat :=
  if t = [] ∨ (t.head? = some '0' ∧ t ≠ ['0']) ∨ t.any (!·.isDigit) then none
  else some (Nat.ofDigitChars 10 t 0)

def readInt : Text → Option Int
  | [] => none
  | c :: t =>
      if c = '-' then (readDigits t).map fun n => -(n : Int)
      else (readDigits (c :: t)).map fun n => (n : Int)

theorem readDigits_digits (n : Nat) : readDigits (digits n) = some n := by
  have hdigits : (digits n).any (!·.isDigit) = false := by
    rw [List.any_eq_false]
    intro c hc
    rw [isDigit_of_mem_digits hc]
    decide
  have hlead : ¬ (digits n = [] ∨ ((digits n).head? = some '0' ∧ digits n ≠ ['0']) ∨
      (digits n).any (!·.isDigit) = true) := by
    rintro (hnil | ⟨hhead, hne⟩ | hany)
    · exact digits_ne_nil n hnil
    · exact hne (digits_head n hhead)
    · rw [hdigits] at hany
      cases hany
  unfold readDigits
  rw [if_neg hlead, digits_eq, Nat.ofDigitChars_ten_toDigits]

theorem readInt_stringifyInt (n : Int) : readInt (stringifyInt n) = some n := by
  cases n with
  | ofNat n =>
      obtain ⟨c, t, hdigits⟩ := List.exists_cons_of_ne_nil (digits_ne_nil n)
      have hc : c.isDigit = true := isDigit_of_mem_digits (n := n) (by simp [hdigits])
      have hminus : c ≠ '-' := by
        rintro rfl
        exact absurd hc (by decide)
      have hread := readDigits_digits n
      show readInt (digits n) = _
      rw [hdigits] at hread ⊢
      rw [readInt, if_neg hminus, hread]
      rfl
  | negSucc n =>
      show readInt ('-' :: digits (n + 1)) = _
      rw [readInt, if_pos rfl, readDigits_digits]
      rfl

theorem isNumberChar_digit {c : Char} (h : c.isDigit = true) : isNumberChar c = true := by
  unfold isNumberChar
  rw [h]
  rfl

/-- Integers in decimal. -/
def integers : NumberFormat Int where
  text := stringifyInt
  read := readInt
  read_text := readInt_stringifyInt
  isNumberChar_of_mem n c hc := by
    cases n with
    | ofNat n => exact isNumberChar_digit (isDigit_of_mem_digits (n := n) hc)
    | negSucc n =>
        rcases List.mem_cons.mp hc with rfl | hc
        · decide
        · exact isNumberChar_digit (isDigit_of_mem_digits (n := n + 1) hc)
  text_head n := by
    cases n with
    | ofNat n =>
        obtain ⟨c, t, hdigits⟩ := List.exists_cons_of_ne_nil (digits_ne_nil n)
        exact ⟨c, t, hdigits, .inr (isDigit_of_mem_digits (n := n) (by simp [hdigits]))⟩
    | negSucc n => exact ⟨'-', _, rfl, .inl rfl⟩

end Numbers

section Values

variable {c : Char} {t rest : Text}

theorem skipSpaces_cons (h : isSpace c = false) : skipSpaces (c :: t) = c :: t := by
  unfold skipSpaces
  rw [List.dropWhile_cons_of_neg (by rw [h]; decide)]

/-- The characters with which a printed value begins. -/
structure Begins (c : Char) : Prop where
  space : isSpace c = false
  bracket : c ≠ ']'

theorem begins_of_isDigit (h : c.isDigit = true) : Begins c := by
  unfold Char.isDigit at h
  simp only [Bool.and_eq_true, decide_eq_true_eq] at h
  constructor
  · unfold isSpace
    have hlow : 48 ≤ c.toNat := h.1
    simp only [Bool.or_eq_false_iff, beq_eq_false_iff_ne]
    omega
  · rintro rfl
    exact absurd h (by decide)

theorem readSeparator_comma (close : Char) (rest : Text) :
    readSeparator close (',' :: rest) = some (true, rest) := by
  unfold readSeparator
  rw [skipSpaces_cons (by decide)]
  exact if_pos rfl

theorem readSeparator_close {close : Char} (hspace : isSpace close = false) (h : close ≠ ',') :
    readSeparator close (close :: rest) = some (false, rest) := by
  unfold readSeparator
  rw [skipSpaces_cons hspace]
  exact (if_neg h).trans (if_pos rfl)

theorem readKey_append (k rest : Text) :
    readKey (stringifyText k ++ ':' :: rest) = some (k, rest) := by
  have hcolon : readColon (':' :: rest) = some rest := by
    unfold readColon
    rw [skipSpaces_cons (by decide)]
    exact if_pos rfl
  unfold readKey
  rw [stringifyText_append, skipSpaces_cons (by decide)]
  refine (if_pos rfl).trans ?_
  rw [readString_flatMap, Option.bind_some, hcolon]
  rfl

theorem joinComma_cons (u w : Text) (ts : List Text) :
    joinComma (u :: w :: ts) = u ++ ',' :: joinComma (w :: ts) := rfl

end Values

section RoundTrip

/-- What follows a value does not continue a number. -/
def EndsNumber (rest : Text) : Prop := ∀ c ∈ rest.head?, isNumberChar c = false

theorem endsNumber_cons {c : Char} {rest : Text} (h : isNumberChar c = false) :
    EndsNumber (c :: rest) := by
  intro d hd
  cases hd
  exact h

variable {N : Type} {F : NumberFormat N} {rest : Text}

theorem begins_of_number {c : Char} (h : c = '-' ∨ c.isDigit = true) : Begins c := by
  rcases h with rfl | h
  · exact ⟨by decide, by decide⟩
  · exact begins_of_isDigit h

theorem print_head (v : Value N Empty) : ∃ c t, print F v = c :: t ∧ Begins c := by
  cases v with
  | null =>
      have htext : "null".toList = ['n', 'u', 'l', 'l'] := rfl
      exact ⟨'n', _, htext, by decide, by decide⟩
  | bool b =>
      cases b with
      | true =>
          have htext : "true".toList = ['t', 'r', 'u', 'e'] := rfl
          exact ⟨'t', _, htext, by decide, by decide⟩
      | false =>
          have htext : "false".toList = ['f', 'a', 'l', 's', 'e'] := rfl
          exact ⟨'f', _, htext, by decide, by decide⟩
  | number n =>
      obtain ⟨c, t, htext, hc⟩ := F.text_head n
      exact ⟨c, t, htext, begins_of_number hc⟩
  | bigint n => exact n.elim
  | string t => exact ⟨'"', _, rfl, by decide, by decide⟩
  | array vs => exact ⟨'[', _, rfl, by decide, by decide⟩
  | object es => exact ⟨Char.ofNat 123, _, rfl, by decide, by decide⟩

theorem print_length_pos (v : Value N Empty) : 0 < (print F v).length := by
  obtain ⟨c, t, heq, -⟩ := @print_head N F v
  rw [heq]
  exact Nat.succ_pos _

theorem readNumber_text (n : N) (h : EndsNumber rest) :
    readNumber F (F.text n ++ rest) = some (.number n, rest) := by
  obtain ⟨htake, hdrop⟩ := takeWhile_append (F.isNumberChar_of_mem n) h
  unfold readNumber
  rw [htake, hdrop, F.read_text]
  rfl

/-- A number is none of the other values. -/
theorem readValue_number (m : Nat) (n : N) (h : EndsNumber rest) :
    readValue F (m + 1) (F.text n ++ rest) = some (.number n, rest) := by
  have hread := readNumber_text (F := F) n h
  obtain ⟨c, t, heq, hkind⟩ := F.text_head n
  rw [heq, List.cons_append] at hread ⊢
  have hne : ∀ d : Char, d ≠ '-' → d.isDigit = false → c ≠ d := by
    rintro d hd hdigit rfl
    rcases hkind with rfl | hkind
    · exact hd rfl
    · rw [hkind] at hdigit
      cases hdigit
  rw [readValue, skipSpaces_cons (begins_of_number hkind).space]
  show (if c = '"' then _ else _) = _
  rw [if_neg (hne _ (by decide) (by decide)), if_neg (hne _ (by decide) (by decide)),
    if_neg (hne _ (by decide) (by decide)), if_neg (hne _ (by decide) (by decide)),
    if_neg (hne _ (by decide) (by decide)), if_neg (hne _ (by decide) (by decide)), hread]

theorem readWord_append (word : Text) (v : Value N Empty) (rest : Text) :
    readWord word v (word ++ rest) = some (v, rest) := by
  unfold readWord
  rw [List.take_left, if_pos rfl, List.drop_left]

theorem joinComma_values_head (v : Value N Empty) (vs : List (Value N Empty)) :
    ∃ c t, joinComma (printValues F (v :: vs)) = c :: t ∧ Begins c := by
  obtain ⟨c, t, heq, hbegins⟩ := @print_head N F v
  cases vs with
  | nil => exact ⟨c, t, heq, hbegins⟩
  | cons w ws =>
      refine ⟨c, t ++ ',' :: joinComma (printValues F (w :: ws)), ?_, hbegins⟩
      show print F v ++ ',' :: joinComma (printValues F (w :: ws)) = _
      rw [heq]
      rfl

theorem joinComma_members_head (k : Text) (v : Value N Empty) (es : List (Text × Value N Empty)) :
    ∃ t, joinComma (printEntries F ((k, v) :: es)) = '"' :: t := by
  cases es with
  | nil => exact ⟨_, rfl⟩
  | cons e es =>
      obtain ⟨l, w⟩ := e
      exact ⟨_, rfl⟩

theorem readValue_null (m : Nat) :
    readValue F (m + 1) (print F .null ++ rest) = some (.null, rest) := by
  have hread := readWord_append (N := N) "null".toList .null rest
  rw [show print F .null = "null".toList from rfl]
  rw [show "null".toList = ['n', 'u', 'l', 'l'] from rfl] at hread ⊢
  show readValue F (m + 1) ('n' :: 'u' :: 'l' :: 'l' :: rest) = _
  rw [readValue, skipSpaces_cons (by decide)]
  exact hread

theorem readValue_bool (m : Nat) (b : Bool) :
    readValue F (m + 1) (print F (.bool b) ++ rest) = some (.bool b, rest) := by
  cases b with
  | true =>
      have hread := readWord_append (N := N) "true".toList (.bool true) rest
      rw [show print F (.bool true) = "true".toList from rfl]
      rw [show "true".toList = ['t', 'r', 'u', 'e'] from rfl] at hread ⊢
      show readValue F (m + 1) ('t' :: 'r' :: 'u' :: 'e' :: rest) = _
      rw [readValue, skipSpaces_cons (by decide)]
      exact hread
  | false =>
      have hread := readWord_append (N := N) "false".toList (.bool false) rest
      rw [show print F (.bool false) = "false".toList from rfl]
      rw [show "false".toList = ['f', 'a', 'l', 's', 'e'] from rfl] at hread ⊢
      show readValue F (m + 1) ('f' :: 'a' :: 'l' :: 's' :: 'e' :: rest) = _
      rw [readValue, skipSpaces_cons (by decide)]
      exact hread

theorem readValue_string (m : Nat) (t : Text) :
    readValue F (m + 1) (print F (.string t) ++ rest) = some (.string t, rest) := by
  show readValue F (m + 1) (stringifyText t ++ rest) = _
  rw [stringifyText_append, readValue, skipSpaces_cons (by decide)]
  show (if '"' = '"' then _ else _) = _
  rw [if_pos rfl, readString_flatMap]
  rfl

/-- An array is read as its elements are. -/
theorem readValue_array (m : Nat) (vs : List (Value N Empty))
    (h : ∀ w ws, vs = w :: ws →
      readElements F m (joinComma (printValues F vs) ++ ']' :: rest) = some (vs, rest)) :
    readValue F (m + 1) (print F (.array vs) ++ rest) = some (.array vs, rest) := by
  rw [print, List.append_assoc, List.append_assoc]
  show readValue F (m + 1) ('[' :: (joinComma (printValues F vs) ++ ']' :: rest)) = _
  rw [readValue, skipSpaces_cons (by decide)]
  show (if '[' = '"' then _ else _) = _
  rw [if_neg (by decide), if_pos rfl]
  cases vs with
  | nil =>
      have hclose : skipSpaces (']' :: rest) = ']' :: rest := skipSpaces_cons (by decide)
      show (if (skipSpaces (']' :: rest)).head? = some ']' then
        some (Value.array [], (skipSpaces (']' :: rest)).tail) else _) = _
      rw [hclose]
      exact if_pos rfl
  | cons w ws =>
      obtain ⟨c, t, hhead, hbegins⟩ := @joinComma_values_head N F w ws
      have hne : ¬ (skipSpaces (joinComma (printValues F (w :: ws)) ++ ']' :: rest)).head? =
          some ']' := by
        rw [hhead, List.cons_append, skipSpaces_cons hbegins.space]
        simpa using hbegins.bracket
      rw [if_neg hne, h w ws rfl]
      rfl

/-- An object is read as its members are. -/
theorem readValue_object (m : Nat) (es : List (Text × Value N Empty))
    (h : ∀ k w fs, es = (k, w) :: fs →
      readMembers F m (joinComma (printEntries F es) ++ Char.ofNat 125 :: rest) =
        some (es, rest)) :
    readValue F (m + 1) (print F (.object es) ++ rest) = some (.object es, rest) := by
  rw [print, List.append_assoc, List.append_assoc]
  show readValue F (m + 1) (Char.ofNat 123 ::
    (joinComma (printEntries F es) ++ Char.ofNat 125 :: rest)) = _
  rw [readValue, skipSpaces_cons (by decide)]
  show (if Char.ofNat 123 = '"' then _ else _) = _
  rw [if_neg (by decide), if_neg (by decide), if_pos rfl]
  cases es with
  | nil =>
      have hclose : skipSpaces (Char.ofNat 125 :: rest) = Char.ofNat 125 :: rest :=
        skipSpaces_cons (by decide)
      show (if (skipSpaces (Char.ofNat 125 :: rest)).head? = some (Char.ofNat 125) then
        some (Value.object [], (skipSpaces (Char.ofNat 125 :: rest)).tail) else _) = _
      rw [hclose]
      exact if_pos rfl
  | cons e fs =>
      obtain ⟨k, w⟩ := e
      obtain ⟨t, hhead⟩ := @joinComma_members_head N F k w fs
      have hne : ¬ (skipSpaces (joinComma (printEntries F ((k, w) :: fs)) ++
          Char.ofNat 125 :: rest)).head? = some (Char.ofNat 125) := by
        rw [hhead, List.cons_append, skipSpaces_cons (by decide), List.head?_cons]
        decide
      rw [if_neg hne, h k w fs rfl]
      rfl

mutual

theorem readValue_print (v : Value N Empty) (n : Nat) (rest : Text)
    (hn : (print F v).length ≤ n) (hrest : EndsNumber rest) :
    readValue F n (print F v ++ rest) = some (v, rest) := by
  obtain ⟨m, rfl⟩ := Nat.exists_eq_succ_of_ne_zero
    (by have := @print_length_pos N F v; omega : n ≠ 0)
  cases v with
  | null => exact readValue_null m
  | bool b => exact readValue_bool m b
  | number i => exact readValue_number m i hrest
  | bigint i => exact i.elim
  | string t => exact readValue_string m t
  | array vs =>
      rw [print, List.length_append, List.length_append] at hn
      refine readValue_array m vs fun w ws hvs => ?_
      subst hvs
      refine readElements_print w ws m rest ?_
      simp only [List.length_cons, List.length_nil] at hn
      omega
  | object es =>
      rw [print, List.length_append, List.length_append] at hn
      refine readValue_object m es fun k w fs hes => ?_
      subst hes
      refine readMembers_print k w fs m rest ?_
      simp only [List.length_cons, List.length_nil] at hn
      omega
termination_by n

theorem readElements_print (v : Value N Empty) (vs : List (Value N Empty)) (n : Nat) (rest : Text)
    (hn : (joinComma (printValues F (v :: vs))).length < n) :
    readElements F n (joinComma (printValues F (v :: vs)) ++ ']' :: rest) =
      some (v :: vs, rest) := by
  obtain ⟨m, rfl⟩ := Nat.exists_eq_succ_of_ne_zero (by omega : n ≠ 0)
  cases vs with
  | nil =>
      replace hn : (print F v).length < m + 1 := hn
      show readElements F (m + 1) (print F v ++ ']' :: rest) = _
      rw [readElements, readValue_print v m _ (by omega) (endsNumber_cons (by decide))]
      rw [Option.bind_some, readSeparator_close (by decide) (by decide)]
      rfl
  | cons w ws =>
      replace hn : (joinComma (print F v :: print F w :: printValues F ws)).length < m + 1 := hn
      have hpos := @print_length_pos N F v
      rw [joinComma_cons, List.length_append, List.length_cons] at hn
      have hnext := readElements_print w ws m rest (by
        show (joinComma (print F w :: printValues F ws)).length < m
        omega)
      show readElements F (m + 1) (joinComma (print F v :: print F w :: printValues F ws) ++
        ']' :: rest) = _
      rw [joinComma_cons, List.append_assoc, List.cons_append, readElements,
        readValue_print v m _ (by omega) (endsNumber_cons (by decide))]
      rw [Option.bind_some, readSeparator_comma, Option.bind_some, if_pos rfl]
      exact congrArg (Option.map fun p => (v :: p.1, p.2)) hnext
termination_by n

theorem readMembers_print (k : Text) (v : Value N Empty) (es : List (Text × Value N Empty))
    (n : Nat) (rest : Text)
    (hn : (joinComma (printEntries F ((k, v) :: es))).length < n) :
    readMembers F n (joinComma (printEntries F ((k, v) :: es)) ++ Char.ofNat 125 :: rest) =
      some ((k, v) :: es, rest) := by
  obtain ⟨m, rfl⟩ := Nat.exists_eq_succ_of_ne_zero (by omega : n ≠ 0)
  cases es with
  | nil =>
      replace hn : (stringifyText k ++ ':' :: print F v).length < m + 1 := hn
      rw [List.length_append, List.length_cons] at hn
      show readMembers F (m + 1) (stringifyText k ++ ':' :: print F v ++ Char.ofNat 125 :: rest) = _
      rw [List.append_assoc, List.cons_append, readMembers, readKey_append, Option.bind_some,
        readValue_print v m _ (by omega) (endsNumber_cons (by decide)), Option.bind_some,
        readSeparator_close (by decide) (by decide)]
      rfl
  | cons e es =>
      obtain ⟨l, w⟩ := e
      replace hn : (joinComma ((stringifyText k ++ ':' :: print F v) ::
        (stringifyText l ++ ':' :: print F w) :: printEntries F es)).length < m + 1 := hn
      rw [joinComma_cons, List.length_append, List.length_append, List.length_cons,
        List.length_cons] at hn
      have hnext := readMembers_print l w es m rest (by
        show (joinComma ((stringifyText l ++ ':' :: print F w) :: printEntries F es)).length < m
        omega)
      show readMembers F (m + 1) (joinComma ((stringifyText k ++ ':' :: print F v) ::
        (stringifyText l ++ ':' :: print F w) :: printEntries F es) ++ Char.ofNat 125 :: rest) = _
      rw [joinComma_cons, List.append_assoc, List.append_assoc, List.cons_append, List.cons_append,
        readMembers, readKey_append, Option.bind_some,
        readValue_print v m _ (by omega) (endsNumber_cons (by decide)), Option.bind_some,
        readSeparator_comma, Option.bind_some, if_pos rfl]
      exact congrArg (Option.map fun p => ((k, v) :: p.1, p.2)) hnext
termination_by n

end

/-- What is printed is read back. -/
theorem read_print (F : NumberFormat N) (v : Value N Empty) : read F (print F v) = some v := by
  have hread := readValue_print (F := F) v ((print F v).length + 1) [] (by omega) (by
    intro c hc
    cases hc)
  rw [List.append_nil] at hread
  unfold read
  rw [hread]
  rfl

end RoundTrip

section Json

/-- `JSON.stringify`. -/
def stringify (v : Json) : Text := print integers v

/-- `JSON.parse`; `none` is the `SyntaxError`.  Of two members with one key the later counts. -/
def parse (t : Text) : Option Json := read integers t

theorem stringify_length_pos (v : Json) : 0 < (stringify v).length := print_length_pos v

/-- `JSON.parse` inverts `JSON.stringify`. -/
theorem parse_stringify (v : Json) : parse (stringify v) = some v := read_print integers v

theorem stringify_injective : Function.Injective stringify := by
  intro v w h
  have hparse := parse_stringify v
  rw [h, parse_stringify w] at hparse
  exact (Option.some.inj hparse).symm

end Json

end BlocTrust.JsonReader
