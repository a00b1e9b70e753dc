import BlocTrust.Http.Cookies

/-!
Texts in a path.
`encodeURIComponent` writes what is not a letter, a digit or one of nine marks as the octets of its
UTF-8 encoding.  `decodeURIComponent` reads back what it was given, so that two texts have two
encodings, and no encoding has a character that ends a segment or a line.
-/
namespace BlocTrust.Http

/-- The characters that stand for themselves; the last mark is the apostrophe. -/
def isUnescaped (c : Char) : Bool :=
  c.isAlphanum || [ '-', '_', '.', '!', '~', '*', '(', ')', Char.ofNat 39].contains c

def upperHexDigit (n : Nat) : Char :=
  if n < 10 then Char.ofNat (48 + n) else Char.ofNat (55 + n)

def escapeOctet (b : Nat) : Text := ['%', upperHexDigit (b / 16), upperHexDigit (b % 16)]

/-- The octets of a character in UTF-8. -/
def octetsOf (c : Char) : List Nat :=
  let n := c.toNat
  if n < 128 then [n]
  else if n < 2048 then [192 + n / 64, 128 + n % 64]
  else if n < 65536 then [224 + n / 4096, 128 + n / 64 % 64, 128 + n % 64]
  else [240 + n / 262144, 128 + n / 4096 % 64, 128 + n / 64 % 64, 128 + n % 64]

def encodeChar (c : Char) : Text :=
  if isUnescaped c then [c] else (octetsOf c).flatMap escapeOctet

def encodeURIComponent (t : Text) : Text := t.flatMap encodeChar

section RoundTrip

variable {c : Char} {t rest : Text} {es : List Escaped} {b n : Nat}

theorem hexValue_upperHexDigit : ∀ k < 16, hexValue (upperHexDigit k) = some k := by decide

theorem toNat_lt (c : Char) : c.toNat < 1114112 := by
  rcases c.valid with hlow | hhigh
  · have hlow : c.toNat < 55296 := hlow
    omega
  · exact hhigh.2

theorem octetsOf_lt (hb : b ∈ octetsOf c) : b < 256 := by
  have hvalid := toNat_lt c
  unfold octetsOf at hb
  simp only at hb
  split at hb
  · simp only [List.mem_cons, List.not_mem_nil, or_false] at hb
    omega
  split at hb
  · simp only [List.mem_cons, List.not_mem_nil, or_false] at hb
    omega
  split at hb
  · simp only [List.mem_cons, List.not_mem_nil, or_false] at hb
    omega
  · simp only [List.mem_cons, List.not_mem_nil, or_false] at hb
    omega

theorem unescape_octet (hb : b < 256) :
    unescape (escapeOctet b ++ rest) = (unescape rest).map (.octet b :: ·) := by
  have hvalue : 16 * (b / 16) + b % 16 = b := by omega
  unfold escapeOctet
  rw [List.cons_append, List.cons_append, List.cons_append, List.nil_append, unescape]
  simp only [if_pos, hexValue_upperHexDigit (b / 16) (by omega),
    hexValue_upperHexDigit (b % 16) (by omega)]
  cases unescape rest with
  | none => rfl
  | some es =>
      show some (Escaped.octet (16 * (b / 16) + b % 16) :: es) = _
      rw [hvalue]
      rfl

theorem unescape_char (hc : c ≠ '%') :
    unescape (c :: rest) = (unescape rest).map (.char c :: ·) := by
  conv => lhs; unfold unescape
  rw [if_neg hc]

theorem unescape_octets {bs : List Nat} (h : ∀ b ∈ bs, b < 256) :
    unescape (bs.flatMap escapeOctet ++ rest) = (unescape rest).map (bs.map .octet ++ ·) := by
  induction bs with
  | nil => simp
  | cons b bs ih =>
      rw [List.flatMap_cons, List.append_assoc, unescape_octet (h b List.mem_cons_self),
        ih fun b hb => h b (List.mem_cons_of_mem _ hb), Option.map_map]
      rfl

/-- A character as the decoder takes it apart. -/
def pieces (c : Char) : List Escaped :=
  if isUnescaped c then [.char c] else (octetsOf c).map .octet

theorem unescape_encodeChar : unescape (encodeChar c ++ rest) =
    (unescape rest).map (pieces c ++ ·) := by
  unfold encodeChar pieces
  by_cases hc : isUnescaped c = true
  · have hpercent : c ≠ '%' := by
      intro heq
      rw [heq] at hc
      exact absurd hc (by decide)
    rw [if_pos hc, if_pos hc, List.cons_append, List.nil_append]
    exact unescape_char hpercent
  · rw [if_neg hc, if_neg hc]
    exact unescape_octets fun b hb => octetsOf_lt hb

theorem unescape_encodeURIComponent :
    unescape (encodeURIComponent t) = some (t.flatMap pieces) := by
  induction t with
  | nil => rfl
  | cons c t ih =>
      have hcons : encodeURIComponent (c :: t) = encodeChar c ++ encodeURIComponent t := rfl
      rw [hcons, unescape_encodeChar, ih]
      rfl

theorem continuation_octet (hn : n < 64) : continuation (.octet (128 + n)) = some n := by
  have hrange : 128 ≤ 128 + n ∧ 128 + n < 192 := by omega
  rw [continuation, if_pos hrange, Nat.add_sub_cancel_left]

theorem character_toNat {least : Nat} (h : least ≤ c.toNat) : character least c.toNat = some c := by
  rw [character, if_pos ⟨h, c.valid⟩, Char.ofNat_toNat]

/-- The octets of a character are read back as the character, by the number of octets. -/
theorem decodeOctets_octetsOf : decodeOctets ((octetsOf c).map .octet ++ es) =
    (decodeOctets es).map (c :: ·) := by
  have hvalid : c.toNat < 1114112 := toNat_lt c
  unfold octetsOf
  simp only
  by_cases hone : c.toNat < 128
  · rw [if_pos hone]
    show decodeOctets (.octet c.toNat :: es) = _
    conv => lhs; unfold decodeOctets
    rw [if_pos hone, Char.ofNat_toNat]
  rw [if_neg hone]
  by_cases htwo : c.toNat < 2048
  · rw [if_pos htwo]
    show decodeOctets (.octet (192 + c.toNat / 64) :: .octet (128 + c.toNat % 64) :: es) = _
    have hpoint : (192 + c.toNat / 64 - 192) * 64 + c.toNat % 64 = c.toNat := by omega
    conv => lhs; unfold decodeOctets
    rw [if_neg (by omega), if_neg (by omega), if_pos (by omega)]
    simp only [@continuation_octet (c.toNat % 64) (by omega), Option.bind_eq_bind,
      Option.bind_some, hpoint, @character_toNat c 128 (by omega)]
  rw [if_neg htwo]
  by_cases hthree : c.toNat < 65536
  · rw [if_pos hthree]
    show decodeOctets (.octet (224 + c.toNat / 4096) :: .octet (128 + c.toNat / 64 % 64) ::
      .octet (128 + c.toNat % 64) :: es) = _
    have hpoint : ((224 + c.toNat / 4096 - 224) * 64 + c.toNat / 64 % 64) * 64 + c.toNat % 64 =
        c.toNat := by omega
    conv => lhs; unfold decodeOctets
    rw [if_neg (by omega), if_neg (by omega), if_neg (by omega), if_pos (by omega)]
    simp only [@continuation_octet (c.toNat / 64 % 64) (by omega),
      @continuation_octet (c.toNat % 64) (by omega), Option.bind_eq_bind, Option.bind_some, hpoint,
      @character_toNat c 2048 (by omega)]
  · rw [if_neg hthree]
    show decodeOctets (.octet (240 + c.toNat / 262144) :: .octet (128 + c.toNat / 4096 % 64) ::
      .octet (128 + c.toNat / 64 % 64) :: .octet (128 + c.toNat % 64) :: es) = _
    have hpoint : (((240 + c.toNat / 262144 - 240) * 64 + c.toNat / 4096 % 64) * 64 +
        c.toNat / 64 % 64) * 64 + c.toNat % 64 = c.toNat := by omega
    conv => lhs; unfold decodeOctets
    rw [if_neg (by omega), if_neg (by omega), if_neg (by omega), if_neg (by omega),
      if_pos (by omega)]
    simp only [@continuation_octet (c.toNat / 4096 % 64) (by omega),
      @continuation_octet (c.toNat / 64 % 64) (by omega),
      @continuation_octet (c.toNat % 64) (by omega), Option.bind_eq_bind, Option.bind_some, hpoint,
      @character_toNat c 65536 (by omega)]

theorem decodeOctets_pieces : decodeOctets (pieces c ++ es) = (decodeOctets es).map (c :: ·) := by
  unfold pieces
  by_cases hc : isUnescaped c = true
  · rw [if_pos hc, List.cons_append, List.nil_append, decodeOctets]
  · rw [if_neg hc]
    exact decodeOctets_octetsOf

@[simp] theorem decodeURIComponent_encodeURIComponent (t : Text) :
    decodeURIComponent (encodeURIComponent t) = some t := by
  rw [decodeURIComponent, unescape_encodeURIComponent]
  show decodeOctets (t.flatMap pieces) = some t
  induction t with
  | nil => rfl
  | cons c t ih =>
      rw [List.flatMap_cons, decodeOctets_pieces, ih]
      rfl

theorem encodeURIComponent_injective : Function.Injective encodeURIComponent := by
  intro t t' h
  have hdecode := decodeURIComponent_encodeURIComponent t
  rw [h, decodeURIComponent_encodeURIComponent] at hdecode
  exact (Option.some.inj hdecode).symm

end RoundTrip

section Characters

variable {c d : Char} {t : Text}

theorem isUnescaped_upperHexDigit : ∀ k < 16, isUnescaped (upperHexDigit k) = true := by decide

/-- Encodings consist of percent signs and of characters that stand for themselves. -/
theorem mem_encodeURIComponent (h : d ∈ encodeURIComponent t) : d = '%' ∨ isUnescaped d = true := by
  obtain ⟨c, -, hd⟩ := List.mem_flatMap.mp h
  unfold encodeChar at hd
  by_cases hc : isUnescaped c = true
  · rw [if_pos hc] at hd
    exact .inr (List.mem_singleton.mp hd ▸ hc)
  rw [if_neg hc] at hd
  obtain ⟨b, hb, hd⟩ := List.mem_flatMap.mp hd
  have hlt := octetsOf_lt hb
  simp only [escapeOctet, List.mem_cons, List.not_mem_nil, or_false] at hd
  rcases hd with rfl | rfl | rfl
  · exact .inl rfl
  · exact .inr (isUnescaped_upperHexDigit _ (by omega))
  · exact .inr (isUnescaped_upperHexDigit _ (by omega))

theorem encodeURIComponent_no_separator {c : Char} (hc : c ≠ '%') (hplain : isUnescaped c = false) :
    c ∉ encodeURIComponent t := by
  intro h
  rcases mem_encodeURIComponent h with heq | htrue
  · exact hc heq
  · rw [hplain] at htrue
    cases htrue

end Characters
end BlocTrust.Http
