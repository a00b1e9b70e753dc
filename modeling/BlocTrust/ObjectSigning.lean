import BlocTrust.Http.UriComponents
import BlocTrust.Encodings
import BlocTrust.JsonReader
import Mathlib.Algebra.Group.Nat.Defs
import Mathlib.Data.List.Sort

/-!
Signed requests to the object store.
The API and the worker send their requests in the same way.  The signature is over a text that ends
with the hash of the canonical request, so it speaks for the request as far as the lines of the
canonical request can be taken apart again.  They can, as no line has a line break in it and no
segment of the path has a slash.
-/
namespace BlocTrust.ObjectStorage

open Http JsonReader

inductive Method
  | put | get | delete
  deriving DecidableEq, Repr

def Method.text : Method → Text
  | put => "PUT".toList
  | get => "GET".toList
  | delete => "DELETE".toList

section Dates

/-- A date of four-digit years, in UTC. -/
structure UtcDate where
  year : Nat
  month : Nat
  day : Nat
  hour : Nat
  minute : Nat
  second : Nat
  millisecond : Nat
  date_bounds : year < 10000 ∧ month ≤ 12 ∧ day ≤ 31
  time_bounds : hour < 24 ∧ minute < 60 ∧ second < 60 ∧ millisecond < 1000

/-- The digits of a number, with zeros in front up to the width. -/
def padded (width n : Nat) : Text :=
  List.replicate (width - (digits n).length) '0' ++ digits n

/-- `Date.prototype.toISOString`. -/
def toISOString (now : UtcDate) : Text :=
  padded 4 now.year ++ '-' :: padded 2 now.month ++ '-' :: padded 2 now.day ++
    'T' :: padded 2 now.hour ++ ':' :: padded 2 now.minute ++ ':' :: padded 2 now.second ++
    '.' :: padded 3 now.millisecond ++ ['Z']

/-- Three digits come first. -/
def fraction : Text → Bool
  | a :: b :: d :: _ => a.isDigit && b.isDigit && d.isDigit
  | _ => false

/-- The text after so many characters, without colons and hyphens and without a point before three
digits and those digits. -/
def compactFrom : Nat → Text → Text
  | _, [] => []
  | k + 1, _ :: t => compactFrom k t
  | 0, c :: t =>
      if c = ':' ∨ c = '-' then compactFrom 0 t
      else if c = '.' ∧ fraction t = true then compactFrom 3 t
      else c :: compactFrom 0 t

def compact (t : Text) : Text := compactFrom 0 t

def amzDate (now : UtcDate) : Text := compact (toISOString now)

/-- Two dates within one second. -/
def SameSecond (now now' : UtcDate) : Prop :=
  now.year = now'.year ∧ now.month = now'.month ∧ now.day = now'.day ∧ now.hour = now'.hour ∧
    now.minute = now'.minute ∧ now.second = now'.second

variable {width n m : Nat} {now now' : UtcDate}

theorem isDigit_of_mem_padded {c : Char} (h : c ∈ padded width n) : c.isDigit = true := by
  rcases List.mem_append.mp h with hzero | hdigit
  · rw [List.eq_of_mem_replicate hzero]
    rfl
  · exact isDigit_of_mem_digits hdigit

theorem ofDigitChars_padded : Nat.ofDigitChars 10 (padded width n) 0 = n := by
  unfold padded
  induction width - (digits n).length with
  | zero => rw [List.replicate_zero, List.nil_append, digits_eq, Nat.ofDigitChars_ten_toDigits]
  | succ k ih =>
      rw [List.replicate_succ, List.cons_append, Nat.ofDigitChars_cons]
      exact ih

theorem padded_injective (h : padded width n = padded width m) : n = m := by
  rw [← @ofDigitChars_padded width n, h, ofDigitChars_padded]

theorem length_padded (hwidth : 0 < width) (hn : n < 10 ^ width) :
    (padded width n).length = width := by
  have hle : (digits n).length ≤ width := by
    rw [digits_eq]
    exact (Nat.length_toDigits_le_iff (by decide) hwidth).mpr hn
  rw [padded, List.length_append, List.length_replicate]
  omega

/-- A character that the compaction keeps wherever it stands. -/
def keeps (c : Char) : Bool := !(c = ':' ∨ c = '-' ∨ c = '.')

theorem compact_append {a t : Text} (h : ∀ c ∈ a, keeps c = true) :
    compact (a ++ t) = a ++ compact t := by
  induction a with
  | nil => rfl
  | cons c a ih =>
      have hc := h c List.mem_cons_self
      simp only [keeps, Bool.not_eq_true', decide_eq_false_iff_not, not_or] at hc
      have hfirst : ¬ (c = ':' ∨ c = '-') := by
        rintro (heq | heq)
        · exact hc.1 heq
        · exact hc.2.1 heq
      have hpoint : ¬ (c = '.' ∧ fraction (a ++ t) = true) := fun h => hc.2.2 h.1
      show compactFrom 0 (c :: (a ++ t)) = _
      rw [compactFrom, if_neg hfirst, if_neg hpoint]
      exact congrArg (c :: ·) (ih fun d hd => h d (List.mem_cons_of_mem _ hd))

theorem keeps_of_isDigit {c : Char} (h : c.isDigit = true) : keeps c = true := by
  unfold keeps
  by_cases hc : c = ':' ∨ c = '-' ∨ c = '.'
  · rcases hc with rfl | rfl | rfl <;> cases h
  · simp [hc]

theorem compact_padded {t : Text} : compact (padded width n ++ t) = padded width n ++ compact t :=
  compact_append fun _ hc => keeps_of_isDigit (isDigit_of_mem_padded hc)

theorem compact_milliseconds {t : Text} (hn : n < 1000) :
    compact ('.' :: padded 3 n ++ t) = compact t := by
  have hlength : (padded 3 n).length = 3 := length_padded (by decide) hn
  have hdigit : ∀ c ∈ padded 3 n, c.isDigit = true := fun c hc => isDigit_of_mem_padded hc
  obtain ⟨a, b, d, hp⟩ := List.length_eq_three.mp hlength
  rw [hp] at hdigit ⊢
  have hfraction : fraction ([a, b, d] ++ t) = true := by
    have ha := hdigit a (by simp)
    have hb := hdigit b (by simp)
    have hd := hdigit d (by simp)
    simp [fraction, ha, hb, hd]
  show compactFrom 0 ('.' :: ([a, b, d] ++ t)) = _
  rw [compactFrom, if_neg (by decide), if_pos ⟨rfl, hfraction⟩]
  rfl

/-- The date as it is signed. -/
theorem amzDate_eq (now : UtcDate) : amzDate now =
    padded 4 now.year ++ (padded 2 now.month ++ (padded 2 now.day ++ 'T' :: (padded 2 now.hour ++
      (padded 2 now.minute ++ (padded 2 now.second ++ ['Z']))))) := by
  have hskip : ∀ t, compact ('-' :: t) = compact t := by
    intro t
    show compactFrom 0 ('-' :: t) = _
    rw [compactFrom, if_pos (.inr rfl), compact]
  have hcolon : ∀ t, compact (':' :: t) = compact t := by
    intro t
    show compactFrom 0 (':' :: t) = _
    rw [compactFrom, if_pos (.inl rfl), compact]
  have hmark : ∀ t, compact ('T' :: t) = 'T' :: compact t := by
    intro t
    refine @compact_append ['T'] t fun c hc => ?_
    rw [List.mem_singleton.mp hc]
    rfl
  have hends : compact ['Z'] = ['Z'] := by decide
  have hmilli := compact_milliseconds (t := ['Z']) now.time_bounds.2.2.2
  unfold amzDate toISOString
  simp only [List.append_assoc, List.cons_append] at hmilli ⊢
  rw [compact_padded, hskip, compact_padded, hskip, compact_padded, hmark, compact_padded, hcolon,
    compact_padded, hcolon, compact_padded, hmilli, hends]

/-- The signed date tells the second. -/
theorem sameSecond_of_amzDate (h : amzDate now = amzDate now') : SameSecond now now' := by
  obtain ⟨hyear, hmonth, hday⟩ := now.date_bounds
  obtain ⟨hyear', hmonth', hday'⟩ := now'.date_bounds
  obtain ⟨hhour, hminute, hsecond, -⟩ := now.time_bounds
  obtain ⟨hhour', hminute', hsecond', -⟩ := now'.time_bounds
  have hlength : ∀ {a b : Nat}, a < 100 → b < 100 → (padded 2 a).length = (padded 2 b).length := by
    intro a b ha hb
    rw [length_padded (by decide) ha, length_padded (by decide) hb]
  have hyears : (padded 4 now.year).length = (padded 4 now'.year).length := by
    rw [length_padded (by decide) hyear, length_padded (by decide) hyear']
  rw [amzDate_eq, amzDate_eq] at h
  obtain ⟨hy, h⟩ := List.append_inj h hyears
  obtain ⟨hm, h⟩ := List.append_inj h (hlength (by omega) (by omega))
  obtain ⟨hd, h⟩ := List.append_inj h (hlength (by omega) (by omega))
  obtain ⟨hh, h⟩ := List.append_inj (List.cons.inj h).2 (hlength (by omega) (by omega))
  obtain ⟨hmi, h⟩ := List.append_inj h (hlength (by omega) (by omega))
  obtain ⟨hs, -⟩ := List.append_inj h (hlength (by omega) (by omega))
  exact ⟨padded_injective hy, padded_injective hm, padded_injective hd, padded_injective hh,
    padded_injective hmi, padded_injective hs⟩

theorem amzDate_of_sameSecond (h : SameSecond now now') : amzDate now = amzDate now' := by
  obtain ⟨hy, hm, hd, hh, hmi, hs⟩ := h
  rw [amzDate_eq, amzDate_eq, hy, hm, hd, hh, hmi, hs]

theorem line_not_mem_amzDate : '\n' ∉ amzDate now := by
  rw [amzDate_eq]
  have hdigit : ∀ w n, '\n' ∉ padded w n := fun w n hc => by
    cases isDigit_of_mem_padded hc
  simp [hdigit]

end Dates

section Requests

/-- What is read from the environment, and the digests; `hmacHex` is `hmac` in hexadecimal. -/
structure Config where
  host : Text
  accessKey : Text
  secretKey : Text
  region : Text
  sha256 : Bytes → Text
  hmac : Bytes → Bytes → Bytes
  hmacHex : Bytes → Bytes → Text

/-- A call of `send`: what is to be done, and when. -/
structure Call where
  method : Method
  bucket : Text
  key : Text
  payloadHash : Text
  contentLength : Option Nat
  now : UtcDate

structure Outgoing where
  method : Text
  path : Text
  headers : List (Text × Text)
  deriving DecidableEq, Repr

def textLe : Text → Text → Bool
  | [], _ => true
  | _ :: _, [] => false
  | a :: s, b :: t => a.toNat < b.toNat || a == b && textLe s t

/-- `Array.prototype.sort` of names in ASCII. -/
def sortNames (names : List Text) : List Text :=
  names.insertionSort fun name other => textLe name other = true

def joined (separator : Char) (parts : List Text) : Text := [separator].intercalate parts

def pathname (c : Call) : Text :=
  '/' :: encodeURIComponent c.bucket ++
    '/' :: joined '/' ((c.key.splitOn '/').map encodeURIComponent)

def headers (cfg : Config) (c : Call) : List (Text × Text) :=
  [("host".toList, cfg.host), ("x-amz-content-sha256".toList, c.payloadHash),
    ("x-amz-date".toList, amzDate c.now)] ++
    (c.contentLength.map fun n => ("content-length".toList, digits n)).toList

def signedHeaderNames (cfg : Config) (c : Call) : List Text :=
  sortNames ((headers cfg c).map Prod.fst)

def canonicalHeaders (cfg : Config) (c : Call) : Text :=
  (signedHeaderNames cfg c).flatMap fun name =>
    name ++ ':' :: ((headers cfg c).lookup name).getD [] ++ ['\n']

def canonicalRequest (cfg : Config) (c : Call) : Text :=
  joined '\n' [c.method.text, pathname c, [], canonicalHeaders cfg c,
    joined ';' (signedHeaderNames cfg c), c.payloadHash]

def scope (cfg : Config) (c : Call) : Text :=
  (amzDate c.now).take 8 ++ '/' :: cfg.region ++ "/s3/aws4_request".toList

def stringToSign (cfg : Config) (c : Call) : Text :=
  joined '\n' ["AWS4-HMAC-SHA256".toList, amzDate c.now, scope cfg c,
    cfg.sha256 (utf8 (canonicalRequest cfg c))]

def signingKey (cfg : Config) (date : Text) : Bytes :=
  let dateKey := cfg.hmac (utf8 ("AWS4".toList ++ cfg.secretKey)) (utf8 date)
  let regionKey := cfg.hmac dateKey (utf8 cfg.region)
  let serviceKey := cfg.hmac regionKey (utf8 "s3".toList)
  cfg.hmac serviceKey (utf8 "aws4_request".toList)

def signature (cfg : Config) (c : Call) : Text :=
  cfg.hmacHex (signingKey cfg ((amzDate c.now).take 8)) (utf8 (stringToSign cfg c))

def authorization (cfg : Config) (c : Call) : Text :=
  "AWS4-HMAC-SHA256 Credential=".toList ++ cfg.accessKey ++ '/' :: scope cfg c ++
    ", SignedHeaders=".toList ++ joined ';' (signedHeaderNames cfg c) ++
    ", Signature=".toList ++ signature cfg c

/-- The request that `send` makes, in the API as in the worker. -/
def send (cfg : Config) (c : Call) : Outgoing where
  method := c.method.text
  path := pathname c
  headers := headers cfg c ++ [("authorization".toList, authorization cfg c)]

end Requests
section Texts

variable {cfg : Config} {c c' : Call}

/-- Parts without the separator are read back from the joined text. -/
theorem splitOn_joined {separator : Char} {parts : List Text} (hparts : parts ≠ [])
    (h : ∀ part ∈ parts, separator ∉ part) : (joined separator parts).splitOn separator = parts :=
  List.splitOn_intercalate separator h hparts

theorem joined_injective {separator : Char} {parts parts' : List Text} (hparts : parts ≠ [])
    (hparts' : parts' ≠ []) (h : ∀ part ∈ parts, separator ∉ part)
    (h' : ∀ part ∈ parts', separator ∉ part)
    (heq : joined separator parts = joined separator parts') : parts = parts' := by
  rw [← splitOn_joined hparts h, heq, splitOn_joined hparts' h']

def segments (c : Call) : List Text :=
  [] :: encodeURIComponent c.bucket :: (c.key.splitOn '/').map encodeURIComponent

theorem pathname_eq (c : Call) : pathname c = joined '/' (segments c) := by
  have hsegments : (c.key.splitOn '/').map encodeURIComponent ≠ [] := by simp
  unfold pathname segments joined
  rw [List.intercalate_cons_of_ne_nil (by simp), List.intercalate_cons_of_ne_nil hsegments]
  simp

/-- What must be escaped is in no segment of a path. -/
theorem not_mem_segments {d : Char} (hd : d ≠ '%') (hescaped : isUnescaped d = false) :
    ∀ segment ∈ segments c, d ∉ segment := by
  intro segment hsegment
  rcases List.mem_cons.mp hsegment with rfl | hsegment
  · exact List.not_mem_nil
  rcases List.mem_cons.mp hsegment with rfl | hsegment
  · exact encodeURIComponent_no_separator hd hescaped
  obtain ⟨part, -, rfl⟩ := List.mem_map.mp hsegment
  exact encodeURIComponent_no_separator hd hescaped

/-- The path tells the bucket and the key. -/
theorem pathname_injective (h : pathname c = pathname c') :
    c.bucket = c'.bucket ∧ c.key = c'.key := by
  rw [pathname_eq, pathname_eq] at h
  have hsegments : segments c = segments c' :=
    joined_injective (List.cons_ne_nil _ _) (List.cons_ne_nil _ _)
      (not_mem_segments (by decide) (by decide)) (not_mem_segments (by decide) (by decide)) h
  obtain ⟨hbucket, hkey⟩ := List.cons.inj (List.cons.inj hsegments).2
  refine ⟨encodeURIComponent_injective hbucket, ?_⟩
  have hparts := List.map_injective_iff.mpr encodeURIComponent_injective hkey
  calc
    c.key = ['/'].intercalate (c.key.splitOn '/') := (List.intercalate_splitOn '/').symm
    _ = ['/'].intercalate (c'.key.splitOn '/') := by rw [hparts]
    _ = c'.key := List.intercalate_splitOn '/'

theorem mem_joined {separator d : Char} {parts : List Text} (h : d ∈ joined separator parts) :
    d = separator ∨ ∃ part ∈ parts, d ∈ part := by
  induction parts with
  | nil => cases h
  | cons part parts ih =>
      cases parts with
      | nil =>
          have h : d ∈ part := by simpa [joined] using h
          exact .inr ⟨part, List.mem_cons_self, h⟩
      | cons next parts =>
          unfold joined at h
          rw [List.intercalate_cons_of_ne_nil (List.cons_ne_nil _ _)] at h
          rcases List.mem_append.mp h with h | h
          · rcases List.mem_append.mp h with h | h
            · exact .inr ⟨part, List.mem_cons_self, h⟩
            · exact .inl (List.mem_singleton.mp h)
          · rcases ih h with heq | ⟨other, hother, h⟩
            · exact .inl heq
            · exact .inr ⟨other, List.mem_cons_of_mem _ hother, h⟩

theorem line_not_mem_pathname (c : Call) : '\n' ∉ pathname c := by
  rw [pathname_eq]
  intro h
  rcases mem_joined h with heq | ⟨segment, hsegment, h⟩
  · exact absurd heq (by decide)
  · exact not_mem_segments (by decide) (by decide) segment hsegment h

/-- The header lines, in the order of their names. -/
def headerLines (cfg : Config) (c : Call) : List Text :=
  (c.contentLength.map fun n => "content-length:".toList ++ digits n).toList ++
    ["host:".toList ++ cfg.host, "x-amz-content-sha256:".toList ++ c.payloadHash,
      "x-amz-date:".toList ++ amzDate c.now]

/-- The names of the headers are few, and their order is fixed. -/
theorem signedHeaderNames_eq (cfg : Config) (c : Call) : signedHeaderNames cfg c =
    (c.contentLength.map fun _ => "content-length".toList).toList ++
      ["host".toList, "x-amz-content-sha256".toList, "x-amz-date".toList] := by
  unfold signedHeaderNames headers
  cases c.contentLength with
  | none =>
      show sortNames ["host".toList, "x-amz-content-sha256".toList, "x-amz-date".toList] = _
      decide
  | some n =>
      show sortNames ["host".toList, "x-amz-content-sha256".toList, "x-amz-date".toList,
        "content-length".toList] = ["content-length".toList, "host".toList,
          "x-amz-content-sha256".toList, "x-amz-date".toList]
      decide

theorem canonicalHeaders_eq (cfg : Config) (c : Call) :
    canonicalHeaders cfg c = (headerLines cfg c).flatMap (· ++ ['\n']) := by
  unfold canonicalHeaders
  rw [signedHeaderNames_eq]
  unfold headers headerLines
  cases c.contentLength with
  | none => simp [List.lookup_cons]
  | some n => simp [List.lookup_cons]

/-- The lines of the canonical request. -/
def requestLines (cfg : Config) (c : Call) : List Text :=
  [c.method.text, pathname c, []] ++ headerLines cfg c ++
    [[], joined ';' (signedHeaderNames cfg c), c.payloadHash]

theorem canonicalRequest_eq (cfg : Config) (c : Call) :
    canonicalRequest cfg c = joined '\n' (requestLines cfg c) := by
  rw [canonicalRequest, canonicalHeaders_eq]
  unfold requestLines headerLines joined
  cases c.contentLength with
  | none => simp [List.intercalate, List.intersperse]
  | some n => simp [List.intercalate, List.intersperse]

/-- Neither the host nor the hash of the body has a line break. -/
structure Plain (cfg : Config) (c : Call) : Prop where
  host : '\n' ∉ cfg.host
  payloadHash : '\n' ∉ c.payloadHash

theorem digits_injective : Function.Injective digits := by
  intro n m h
  rw [digits_eq, digits_eq] at h
  rw [← @Nat.ofDigitChars_ten_toDigits n, h, Nat.ofDigitChars_ten_toDigits]

theorem line_not_mem_headerLines (h : Plain cfg c) : ∀ line ∈ headerLines cfg c,
    '\n' ∉ line := by
  have hdigits : ∀ n, '\n' ∉ digits n := fun n hmem => by cases isDigit_of_mem_digits hmem
  unfold headerLines
  cases c.contentLength with
  | none => simp [h.host, h.payloadHash, line_not_mem_amzDate]
  | some n => simp [h.host, h.payloadHash, line_not_mem_amzDate, hdigits]

theorem line_not_mem_requestLines (h : Plain cfg c) : ∀ line ∈ requestLines cfg c,
    '\n' ∉ line := by
  have hmethod : '\n' ∉ c.method.text := by cases c.method <;> decide
  have hnames : '\n' ∉ joined ';' (signedHeaderNames cfg c) := by
    rw [signedHeaderNames_eq]
    cases c.contentLength with
    | none => decide
    | some n =>
        show '\n' ∉ joined ';' ["content-length".toList, "host".toList,
          "x-amz-content-sha256".toList, "x-amz-date".toList]
        decide
  intro line hline
  rcases List.mem_append.mp hline with hline | hline
  · rcases List.mem_append.mp hline with hline | hline
    · simp only [List.mem_cons, List.not_mem_nil, or_false] at hline
      rcases hline with rfl | rfl | rfl
      · exact hmethod
      · exact line_not_mem_pathname c
      · exact List.not_mem_nil
    · exact line_not_mem_headerLines h line hline
  · simp only [List.mem_cons, List.not_mem_nil, or_false] at hline
    rcases hline with rfl | rfl | rfl
    · exact List.not_mem_nil
    · exact hnames
    · exact h.payloadHash

theorem Method.text_injective : Function.Injective Method.text := by
  intro m m' h
  cases m <;> cases m' <;> first | rfl | exact absurd h (by decide)

/-- The calls ask for the same thing within the same second. -/
structure SameRequest (c c' : Call) : Prop where
  method : c.method = c'.method
  bucket : c.bucket = c'.bucket
  key : c.key = c'.key
  payloadHash : c.payloadHash = c'.payloadHash
  contentLength : c.contentLength = c'.contentLength
  second : SameSecond c.now c'.now

/-- The canonical request can be taken apart line by line. -/
theorem sameRequest_of_canonicalRequest (h : Plain cfg c) (h' : Plain cfg c')
    (heq : canonicalRequest cfg c = canonicalRequest cfg c') : SameRequest c c' := by
  rw [canonicalRequest_eq, canonicalRequest_eq] at heq
  have hlines := joined_injective (by simp [requestLines]) (by simp [requestLines])
    (line_not_mem_requestLines h) (line_not_mem_requestLines h') heq
  unfold requestLines headerLines at hlines
  cases hlength : c.contentLength with
  | none =>
      cases hlength' : c'.contentLength with
      | none =>
          simp only [hlength, hlength', Option.map_none, Option.toList_none, List.nil_append,
            List.cons_append, List.cons.injEq, List.append_cancel_left_eq] at hlines
          obtain ⟨hmethod, hpath, -, -, hhash, hdate, -⟩ := hlines
          obtain ⟨hbucket, hkey⟩ := pathname_injective hpath
          exact ⟨Method.text_injective hmethod, hbucket, hkey, hhash, hlength.trans hlength'.symm,
            sameSecond_of_amzDate hdate⟩
      | some n => simp [hlength, hlength'] at hlines
  | some n =>
      cases hlength' : c'.contentLength with
      | none => simp [hlength, hlength'] at hlines
      | some m =>
          simp only [hlength, hlength', Option.map_some, Option.toList_some, List.nil_append,
            List.cons_append, List.cons.injEq, List.append_cancel_left_eq] at hlines
          obtain ⟨hmethod, hpath, -, hsize, -, hhash, hdate, -⟩ := hlines
          obtain ⟨hbucket, hkey⟩ := pathname_injective hpath
          have hsame : n = m := digits_injective hsize
          exact ⟨Method.text_injective hmethod, hbucket, hkey, hhash,
            hlength.trans ((congrArg some hsame).trans hlength'.symm), sameSecond_of_amzDate hdate⟩

theorem length_amzDate (now : UtcDate) : (amzDate now).length = 16 := by
  obtain ⟨hyear, hmonth, hday⟩ := now.date_bounds
  obtain ⟨hhour, hminute, hsecond, -⟩ := now.time_bounds
  have htwo : ∀ {n : Nat}, n < 100 → (padded 2 n).length = 2 :=
    fun hn => length_padded (by decide) hn
  rw [amzDate_eq]
  simp only [List.length_append, List.length_cons, List.length_nil,
    @length_padded 4 now.year (by decide) hyear, @htwo now.month (by omega),
    @htwo now.day (by omega), @htwo now.hour (by omega), @htwo now.minute (by omega),
    @htwo now.second (by omega)]

/-- The date has one length, and the scope follows from it, so the hash is where it is. -/
theorem hash_of_stringToSign (h : stringToSign cfg c = stringToSign cfg c') :
    cfg.sha256 (utf8 (canonicalRequest cfg c)) =
      cfg.sha256 (utf8 (canonicalRequest cfg c')) := by
  have hparts : ∀ c, stringToSign cfg c = "AWS4-HMAC-SHA256".toList ++ '\n' ::
      (amzDate c.now ++ '\n' :: (scope cfg c ++ '\n' ::
        cfg.sha256 (utf8 (canonicalRequest cfg c)))) := by
    intro c
    simp [stringToSign, joined, List.intercalate, List.intersperse]
  rw [hparts, hparts] at h
  have hrest := (List.cons.inj (List.append_cancel_left h)).2
  obtain ⟨hdate, hrest⟩ := List.append_inj hrest (by rw [length_amzDate, length_amzDate])
  have hscope : scope cfg c = scope cfg c' := by rw [scope, scope, hdate]
  rw [hscope] at hrest
  exact (List.cons.inj (List.append_cancel_left (List.cons.inj hrest).2)).2

theorem SameRequest.headers (h : SameRequest c c') : headers cfg c = headers cfg c' := by
  rw [ObjectStorage.headers, ObjectStorage.headers, h.payloadHash, h.contentLength,
    amzDate_of_sameSecond h.second]

theorem SameRequest.pathname (h : SameRequest c c') : pathname c = pathname c' := by
  rw [ObjectStorage.pathname, ObjectStorage.pathname, h.bucket, h.key]

theorem SameRequest.scope (h : SameRequest c c') : scope cfg c = scope cfg c' := by
  rw [ObjectStorage.scope, ObjectStorage.scope, amzDate_of_sameSecond h.second]

theorem SameRequest.names (h : SameRequest c c') :
    signedHeaderNames cfg c = signedHeaderNames cfg c' := by
  rw [signedHeaderNames, signedHeaderNames, h.headers]

theorem SameRequest.stringToSign (h : SameRequest c c') :
    stringToSign cfg c = stringToSign cfg c' := by
  have hcanonical : canonicalRequest cfg c = canonicalRequest cfg c' := by
    rw [canonicalRequest, canonicalRequest, canonicalHeaders, canonicalHeaders, h.names, h.headers,
      h.method, h.pathname, h.payloadHash]
  rw [ObjectStorage.stringToSign, ObjectStorage.stringToSign, hcanonical, h.scope,
    amzDate_of_sameSecond h.second]

theorem SameRequest.signature (h : SameRequest c c') :
    signature cfg c = signature cfg c' := by
  rw [ObjectStorage.signature, ObjectStorage.signature, amzDate_of_sameSecond h.second,
    h.stringToSign]

theorem SameRequest.authorization (h : SameRequest c c') :
    authorization cfg c = authorization cfg c' := by
  unfold ObjectStorage.authorization
  rw [h.scope, h.names, h.signature]

theorem SameRequest.send (h : SameRequest c c') : send cfg c = send cfg c' := by
  unfold ObjectStorage.send
  rw [h.method, h.pathname, h.headers, h.authorization]

/-- The digests tell the texts of the two calls apart. -/
structure Collisionless (cfg : Config) (c c' : Call) : Prop where
  sha256 : cfg.sha256 (utf8 (canonicalRequest cfg c)) =
    cfg.sha256 (utf8 (canonicalRequest cfg c')) →
      canonicalRequest cfg c = canonicalRequest cfg c'
  hmac : cfg.hmacHex (signingKey cfg ((amzDate c.now).take 8))
      (utf8 (stringToSign cfg c)) =
    cfg.hmacHex (signingKey cfg ((amzDate c'.now).take 8)) (utf8 (stringToSign cfg c')) →
      stringToSign cfg c = stringToSign cfg c'

/-- A signature is for one request of one second: it is another's only when the method, the bucket,
the key, the hash of the body and its length are the same, and then the whole request is. -/
theorem signatures_tell_requests (h : Plain cfg c) (h' : Plain cfg c')
    (hdigests : Collisionless cfg c c') :
    (signature cfg c = signature cfg c' ↔ SameRequest c c') ∧
      (signature cfg c = signature cfg c' → send cfg c = send cfg c') := by
  have htells : signature cfg c = signature cfg c' → SameRequest c c' := by
    intro hsigned
    have htext : stringToSign cfg c = stringToSign cfg c' := hdigests.hmac hsigned
    exact sameRequest_of_canonicalRequest h h' (hdigests.sha256 (hash_of_stringToSign htext))
  exact ⟨⟨htells, SameRequest.signature⟩, fun hsigned => (htells hsigned).send⟩

end Texts
section Sample

def sampleConfig : Config where
  host := "localhost:9000".toList
  accessKey := "bloctrust-local".toList
  secretKey := "bloctrust-local-secret".toList
  region := "us-east-1".toList
  sha256 := base64url
  hmac _ bs := bs
  hmacHex _ bs := base64url bs

/-- A call in the last second of the year. -/
def sampleCall (method : Method) (millisecond : Nat) (h : millisecond < 1000) : Call where
  method := method
  bucket := "documents".toList
  key := "1/invoice 7.pdf".toList
  payloadHash := "e3b0c442".toList
  contentLength := none
  now := ⟨2025, 12, 31, 23, 59, 59, millisecond, by decide, by decide, by decide, by decide, h⟩

example : pathname (sampleCall .get 0 (by decide)) = "/documents/1/invoice%207.pdf".toList := by
  decide

theorem sample_plain (method : Method) (millisecond : Nat) (h : millisecond < 1000) :
    Plain sampleConfig (sampleCall method millisecond h) where
  host := by decide
  payloadHash := by show '\n' ∉ "e3b0c442".toList; decide

theorem sample_collisionless (c c' : Call) : Collisionless sampleConfig c c' where
  sha256 := by
    generalize canonicalRequest sampleConfig c = t
    generalize canonicalRequest sampleConfig c' = t'
    exact fun h => utf8_injective (Function.LeftInverse.injective decodeBase64_base64url h)
  hmac := by
    generalize stringToSign sampleConfig c = t
    generalize stringToSign sampleConfig c' = t'
    exact fun h => utf8_injective (Function.LeftInverse.injective decodeBase64_base64url h)

/-- Half a second makes no difference to a signature, and reading instead of deleting does. -/
theorem signatures_tell_requests_sample :
    send sampleConfig (sampleCall .get 0 (by decide)) =
        send sampleConfig (sampleCall .get 500 (by decide)) ∧
      signature sampleConfig (sampleCall .get 0 (by decide)) ≠
        signature sampleConfig (sampleCall .delete 0 (by decide)) := by
  have hsame := signatures_tell_requests (sample_plain .get 0 (by decide))
    (sample_plain .get 500 (by decide)) (sample_collisionless _ _)
  have hother := signatures_tell_requests (sample_plain .get 0 (by decide))
    (sample_plain .delete 0 (by decide)) (sample_collisionless _ _)
  refine ⟨hsame.2 (hsame.1.mpr ?_), fun hsigned => ?_⟩
  · exact ⟨rfl, rfl, rfl, rfl, rfl, rfl, rfl, rfl, rfl, rfl, rfl⟩
  · exact absurd (hother.1.mp hsigned).method (by decide)

end Sample
end BlocTrust.ObjectStorage
