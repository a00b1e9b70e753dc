import BlocTrust.Json

/-!
Base64, its variant for URLs, and UTF-8.
The decoder reads both alphabets, stops at padding and passes over every other character, as
that of Node does.
-/
namespace BlocTrust

section Sextets

def sextetChar (url : Bool) (n : Nat) : Char :=
  if n < 26 then Char.ofNat (65 + n)
  else if n < 52 then Char.ofNat (71 + n)
  else if n < 62 then Char.ofNat (n - 4)
  else if n = 62 then if url then '-' else '+'
  else if url then '_' else '/'

def charSextet (c : Char) : Option Nat :=
  if 65 ≤ c.toNat ∧ c.toNat ≤ 90 then some (c.toNat - 65)
  else if 97 ≤ c.toNat ∧ c.toNat ≤ 122 then some (c.toNat - 71)
  else if 48 ≤ c.toNat ∧ c.toNat ≤ 57 then some (c.toNat + 4)
  else if c = '-' ∨ c = '+' then some 62
  else if c = '_' ∨ c = '/' then some 63
  else none

def sextets : Bytes → List Nat
  | a :: b :: c :: rest =>
      a.toNat / 4 :: (a.toNat % 4 * 16 + b.toNat / 16) :: (b.toNat % 16 * 4 + c.toNat / 64) ::
        c.toNat % 64 :: sextets rest
  | [a, b] => [a.toNat / 4, a.toNat % 4 * 16 + b.toNat / 16, b.toNat % 16 * 4]
  | [a] => [a.toNat / 4, a.toNat % 4 * 16]
  | [] => []

def octets : List Nat → Bytes
  | w :: x :: y :: z :: rest =>
      UInt8.ofNat (w * 4 + x / 16) :: UInt8.ofNat (x % 16 * 16 + y / 4) ::
        UInt8.ofNat (y % 4 * 64 + z) :: octets rest
  | [w, x, y] => [UInt8.ofNat (w * 4 + x / 16), UInt8.ofNat (x % 16 * 16 + y / 4)]
  | [w, x] => [UInt8.ofNat (w * 4 + x / 16)]
  | _ => []

/-- `toString('base64url')`. -/
def base64url (bs : Bytes) : Text := (sextets bs).map (sextetChar true)

/-- `toString('base64')`. -/
def base64 (bs : Bytes) : Text :=
  (sextets bs).map (sextetChar false) ++ List.replicate ((3 - bs.length % 3) % 3) '='

/-- `Buffer.from(text, 'base64')`, and also `'base64url'`. -/
def decodeBase64 (t : Text) : Bytes :=
  octets ((t.takeWhile (· ≠ '=')).filterMap charSextet)

end Sextets

section RoundTrips

theorem octets_sextets (bs : Bytes) : octets (sextets bs) = bs := by
  induction bs using sextets.induct with
  | case1 a b c rest ih =>
      have ha := a.toNat_lt
      have hb := b.toNat_lt
      have hc := c.toNat_lt
      rw [sextets, octets, ih,
        show a.toNat / 4 * 4 + (a.toNat % 4 * 16 + b.toNat / 16) / 16 = a.toNat by omega,
        show (a.toNat % 4 * 16 + b.toNat / 16) % 16 * 16 +
          (b.toNat % 16 * 4 + c.toNat / 64) / 4 = b.toNat by omega,
        show (b.toNat % 16 * 4 + c.toNat / 64) % 4 * 64 + c.toNat % 64 = c.toNat by omega]
      simp only [UInt8.ofNat_toNat]
  | case2 a b =>
      have ha := a.toNat_lt
      have hb := b.toNat_lt
      rw [sextets, octets,
        show a.toNat / 4 * 4 + (a.toNat % 4 * 16 + b.toNat / 16) / 16 = a.toNat by omega,
        show (a.toNat % 4 * 16 + b.toNat / 16) % 16 * 16 + b.toNat % 16 * 4 / 4 = b.toNat by
          omega]
      simp only [UInt8.ofNat_toNat]
  | case3 a =>
      have ha := a.toNat_lt
      rw [sextets, octets, show a.toNat / 4 * 4 + a.toNat % 4 * 16 / 16 = a.toNat by omega]
      simp only [UInt8.ofNat_toNat]
  | case4 => rfl

theorem sextets_lt (bs : Bytes) : ∀ n ∈ sextets bs, n < 64 := by
  induction bs using sextets.induct with
  | case1 a b c rest ih =>
      have ha := a.toNat_lt
      have hb := b.toNat_lt
      have hc := c.toNat_lt
      simp only [sextets, List.mem_cons]
      rintro n (rfl | rfl | rfl | rfl | hn)
      · omega
      · omega
      · omega
      · omega
      · exact ih n hn
  | case2 a b =>
      have ha := a.toNat_lt
      have hb := b.toNat_lt
      simp only [sextets, List.mem_cons, List.not_mem_nil, or_false]
      rintro n (rfl | rfl | rfl) <;> omega
  | case3 a =>
      have ha := a.toNat_lt
      simp only [sextets, List.mem_cons, List.not_mem_nil, or_false]
      rintro n (rfl | rfl) <;> omega
  | case4 => simp [sextets]

theorem charSextet_sextetChar : ∀ url, ∀ n < 64, charSextet (sextetChar url n) = some n := by
  decide

theorem sextetChar_plain : ∀ url, ∀ n < 64, sextetChar url n ≠ '=' ∧ sextetChar url n ≠ '.' := by
  decide

theorem decodeBase64_map (url : Bool) (bs : Bytes) {padding : Text}
    (h : ∀ c ∈ padding.head?, c = '=') :
    decodeBase64 ((sextets bs).map (sextetChar url) ++ padding) = bs := by
  have htake : ((sextets bs).map (sextetChar url) ++ padding).takeWhile (· ≠ '=') =
      (sextets bs).map (sextetChar url) := by
    rw [List.takeWhile_append_of_pos]
    · cases padding with
      | nil => simp
      | cons c cs => simp [h c rfl]
    · intro c hc
      obtain ⟨n, hn, rfl⟩ := List.mem_map.mp hc
      simpa using (sextetChar_plain url n (sextets_lt bs n hn)).1
  have hread : ∀ ns : List Nat, (∀ n ∈ ns, n < 64) →
      (ns.map (sextetChar url)).filterMap charSextet = ns := by
    intro ns hns
    induction ns with
    | nil => rfl
    | cons n ns ih =>
        have hn := charSextet_sextetChar url n (hns n (List.mem_cons_self ..))
        rw [List.map_cons, List.filterMap_cons_some hn, ih fun m hm => hns m (.tail _ hm)]
  unfold decodeBase64
  rw [htake, hread _ (sextets_lt bs), octets_sextets]

@[simp] theorem decodeBase64_base64url (bs : Bytes) : decodeBase64 (base64url bs) = bs := by
  have h := @decodeBase64_map true bs [] (by simp)
  rwa [List.append_nil] at h

@[simp] theorem decodeBase64_base64 (bs : Bytes) : decodeBase64 (base64 bs) = bs := by
  refine decodeBase64_map false bs fun c hc => ?_
  exact List.eq_of_mem_replicate (List.mem_of_mem_head? hc)

theorem base64url_no_dot {bs : Bytes} {c : Char} (h : c ∈ base64url bs) : c ≠ '.' := by
  obtain ⟨n, hn, rfl⟩ := List.mem_map.mp h
  exact (sextetChar_plain true n (sextets_lt bs n hn)).2

theorem base64url_ne_nil {bs : Bytes} (h : bs ≠ []) : base64url bs ≠ [] := by
  intro hnil
  have hback := decodeBase64_base64url bs
  rw [hnil] at hback
  exact h hback.symm

end RoundTrips

section Utf8

/-- The text of some bytes.  What is not UTF-8 has none here; Node puts replacement characters
for it, but the services decode only what they have encoded. -/
def decodeUtf8 (bs : Bytes) : Option Text :=
  (ByteArray.mk bs.toArray).utf8Decode?.map Array.toList

@[simp] theorem decodeUtf8_utf8 (t : Text) : decodeUtf8 (utf8 t) = some t := by
  have hbytes : ByteArray.mk (utf8 t).toArray = t.utf8Encode := by
    unfold utf8
    rw [Array.toArray_toList]
    exact String.toByteArray_ofList
  unfold decodeUtf8
  rw [hbytes, List.utf8Decode?_utf8Encode]
  rfl

theorem utf8_injective : Function.Injective utf8 := by
  intro t t' h
  have hdecode := decodeUtf8_utf8 t
  rw [h, decodeUtf8_utf8] at hdecode
  exact (Option.some.inj hdecode).symm

theorem utf8_ne_nil {t : Text} (h : t ≠ []) : utf8 t ≠ [] := by
  intro hnil
  exact h (utf8_injective (hnil.trans rfl))

end Utf8

end BlocTrust
