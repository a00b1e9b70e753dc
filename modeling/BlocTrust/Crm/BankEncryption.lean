import BlocTrust.Crm.BankEncryptionService
import Mathlib.Tactic.Tauto

/-!
What encryption keeps of a bank account, and where it can be opened.
The cipher is ideal: it opens what it has sealed, and only under the associated data it was
sealed with.  UUIDs have one length, so the associated data names its organization and vendor.
-/
namespace BlocTrust.Crm

open JsonReader (stringify parse parse_stringify)

/-- An ideal authenticated cipher with tags of 16 bytes, and an injective keyed hash. -/
structure Crypto.Ideal (crypto : Crypto) : Prop where
  tag_length : ∀ key iv aad p, (crypto.encipher key iv aad p).2.length = 16
  opens : ∀ key iv aad p, crypto.decipher key iv aad (crypto.encipher key iv aad p).1
    (crypto.encipher key iv aad p).2 = some p
  authentic : ∀ key iv aad aad' p q, crypto.decipher key iv aad' (crypto.encipher key iv aad p).1
    (crypto.encipher key iv aad p).2 = some q → aad' = aad
  hmac_injective : ∀ key, Function.Injective (crypto.hmac key)

/-- A UUID: 32 hexadecimal digits in five groups. -/
def isUuid (t : Text) : Bool :=
  t.length == 36 && t.zipIdx.all fun p =>
    if [8, 13, 18, 23].contains p.2 then p.1 == '-' else (Http.hexValue p.1).isSome

theorem isUuid_length {t : Text} (h : isUuid t = true) : t.length = 36 := by
  unfold isUuid at h
  simp only [Bool.and_eq_true, beq_iff_eq] at h
  exact h.1

section Numbers

variable {value : Text}

theorem toUpper_isAccountChar {c : Char} (h : isAccountChar c = true) : c.toUpper = c := by
  have hall : ∀ n < 91, isAccountChar (Char.ofNat n) = true →
      (Char.ofNat n).toUpper = Char.ofNat n := by decide
  have hlt : c.toNat < 91 := by
    unfold isAccountChar at h
    simp only [Bool.or_eq_true, Bool.and_eq_true, decide_eq_true_eq] at h
    omega
  have hchar := hall c.toNat hlt
  rw [Char.ofNat_toNat] at hchar
  exact hchar h

theorem isAccountNumber_mem (h : isAccountNumber value = true) {c : Char} (hc : c ∈ value) :
    isAccountChar c = true ∨ c = ' ' ∨ c = '-' := by
  cases value with
  | nil => cases hc
  | cons d rest =>
      simp only [isAccountNumber, Bool.and_eq_true, List.all_eq_true, Bool.or_eq_true,
        beq_iff_eq] at h
      rcases List.mem_cons.mp hc with rfl | hc
      · exact .inl h.1.1.1
      · have hrest := h.2 c hc
        tauto

/-- An accepted number is in upper case already. -/
theorem normalizeAccount_eq (h : ∀ c ∈ value, isAccountChar c = true ∨ c = ' ' ∨ c = '-') :
    normalizeAccount value = value.filter fun c => c ≠ ' ' ∧ c ≠ '-' := by
  unfold normalizeAccount
  refine (List.map_congr_left fun c hc => ?_).trans (List.map_id _)
  obtain ⟨hc, hplain⟩ := List.mem_filter.mp hc
  simp only [decide_eq_true_eq] at hplain
  rcases h c hc with hchar | rfl | rfl
  · exact toUpper_isAccountChar hchar
  · exact absurd rfl hplain.1
  · exact absurd rfl hplain.2

theorem normalizeAccount_idem (h : isAccountNumber value = true) :
    normalizeAccount (normalizeAccount value) = normalizeAccount value := by
  have hvalue := normalizeAccount_eq fun c hc => isAccountNumber_mem h hc
  rw [hvalue, normalizeAccount_eq fun c hc => isAccountNumber_mem h (List.mem_filter.mp hc).1,
    List.filter_filter]
  simp only [Bool.and_self]

end Numbers

section Contexts

variable {crypto : Crypto} {s : BankEncryptionService} {iv : Bytes}
  {organizationId organizationId' vendorId vendorId' : Text}

theorem aad_inj (ho : isUuid organizationId = true) (ho' : isUuid organizationId' = true)
    (h : BankEncryptionService.aad organizationId' vendorId' =
      BankEncryptionService.aad organizationId vendorId) :
    organizationId' = organizationId ∧ vendorId' = vendorId := by
  have htext := utf8_injective h
  have htail := List.append_inj_right htext (by
    simp [isUuid_length ho, isUuid_length ho'])
  have hfront := List.append_inj_left htext (by
    simp [isUuid_length ho, isUuid_length ho'])
  exact ⟨List.append_cancel_left hfront, (List.cons.inj htail).2⟩

/-- Decryption parses what was sealed, in a context that unseals it. -/
theorem decrypt_encrypt (hc : crypto.Ideal) (hiv : iv.length = 12) (a : PlainBankAccount) :
    BankEncryptionService.decrypt crypto s organizationId vendorId
      (BankEncryptionService.encrypt crypto s iv organizationId vendorId a) =
        .ok a.normal.toJson := by
  unfold BankEncryptionService.decrypt BankEncryptionService.encrypt
  simp only [ne_eq, not_true_eq_false, if_false, decodeBase64_base64, hiv, hc.tag_length, or_self,
    hc.opens, Option.bind_some, decodeUtf8_utf8, Option.bind_eq_bind, parse_stringify]

/-- Where an account can be decrypted it was encrypted. -/
theorem decrypt_context (hc : crypto.Ideal) (ho : isUuid organizationId = true)
    (ho' : isUuid organizationId' = true) {a : PlainBankAccount} {account : Json}
    (h : BankEncryptionService.decrypt crypto s organizationId' vendorId'
      (BankEncryptionService.encrypt crypto s iv organizationId vendorId a) = .ok account) :
    organizationId' = organizationId ∧ vendorId' = vendorId := by
  unfold BankEncryptionService.decrypt BankEncryptionService.encrypt at h
  simp only [ne_eq, not_true_eq_false, if_false, decodeBase64_base64] at h
  split at h
  · cases h
  · split at h
    · rename_i found hfound
      obtain ⟨text, htext, -⟩ := Option.bind_eq_some_iff.mp hfound
      obtain ⟨bytes, hbytes, -⟩ := Option.bind_eq_some_iff.mp htext
      exact aad_inj ho ho' (hc.authentic _ _ _ _ _ _ hbytes)
    · cases h

theorem normal_normal {a : PlainBankAccount} (ha : Accepted a) : a.normal.normal = a.normal := by
  have hnumber := normalizeAccount_idem ha.accountNumber
  have hholder : trim (trim a.accountHolder) = trim a.accountHolder := by
    rw [ha.holder, ha.holder]
  have hname : (((a.bankName.filter (· ≠ [])).map trim).filter (· ≠ [])).map trim =
      (a.bankName.filter (· ≠ [])).map trim := by
    cases hbank : a.bankName with
    | none => rfl
    | some name =>
        have htrim := (ha.bankName name hbank).1
        by_cases hnil : name = []
        · rw [hnil, Option.filter_some_neg (by simp)]
          rfl
        · rw [Option.filter_some_pos (by simpa using hnil), Option.map_some, htrim,
            Option.filter_some_pos (by simpa using hnil), Option.map_some, htrim]
  show PlainBankAccount.mk _ _ _ = PlainBankAccount.mk _ _ _
  simp only [PlainBankAccount.normal, hnumber, hholder]
  exact congrArg _ hname

end Contexts

section Sample

/-- The associated data, its end marked, as it begins a sealed text. -/
def sealOf (aad : Bytes) : Bytes := aad.flatMap (fun b => [1, b]) ++ [0]

def sampleCrypto : Crypto where
  encipher _ _ aad p := (sealOf aad ++ p, List.replicate 16 0)
  decipher _ _ aad c _ := if (sealOf aad).isPrefixOf c then some (c.drop (sealOf aad).length) else none
  hmac _ bs := base64url bs

theorem sealOf_prefix {aad aad' p : Bytes} (h : sealOf aad' <+: sealOf aad ++ p) : aad' = aad := by
  induction aad' generalizing aad with
  | nil =>
      cases aad with
      | nil => rfl
      | cons b bs => simp [sealOf] at h
  | cons b' bs' ih =>
      cases aad with
      | nil => simp [sealOf] at h
      | cons b bs =>
          simp only [sealOf, List.flatMap_cons, List.cons_append, List.nil_append,
            List.cons_prefix_cons, true_and] at h
          rw [h.1, ih h.2]

theorem sampleCrypto_ideal : sampleCrypto.Ideal where
  tag_length _ _ _ _ := by simp [sampleCrypto]
  opens _ _ aad p := by
    simp [sampleCrypto]
  authentic _ _ aad aad' p q h := by
    simp only [sampleCrypto, Option.ite_none_right_eq_some] at h
    exact sealOf_prefix (List.isPrefixOf_iff_prefix.mp h.1)
  hmac_injective _ := Function.LeftInverse.injective decodeBase64_base64url

def sampleAccount : PlainBankAccount where
  accountNumber := "MD24 AG00 0000 0000 0000 0001".toList
  accountHolder := "Synthetic Vendor SRL".toList
  bankName := some "Synthetic Bank".toList

end Sample

end BlocTrust.Crm
