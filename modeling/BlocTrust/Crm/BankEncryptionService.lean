import BlocTrust.Encodings
import BlocTrust.JsonReader

/-!
Encryption of bank accounts.
The plaintext is the JSON text of the normalized account, and the context, organization and
vendor, is associated data.  AES-256-GCM and HMAC-SHA-256 are parameters; the two keys are
derived from the configured secret when the service is constructed.
-/
namespace BlocTrust.Crm

open JsonReader (stringify parse)

structure PlainBankAccount where
  accountNumber : Text
  accountHolder : Text
  bankName : Option Text
  deriving DecidableEq, Repr

/-- The object, without `bankName` when it is absent. -/
def PlainBankAccount.toJson (a : PlainBankAccount) : Json :=
  .object ([("accountNumber".toList, .string a.accountNumber),
    ("accountHolder".toList, .string a.accountHolder)] ++
      a.bankName.toList.map fun name => ("bankName".toList, .string name))

structure StoredBankAccount where
  encryptedAccount : Text
  encryptionIv : Text
  encryptionTag : Text
  encryptionKeyId : Text
  accountFingerprint : Text
  maskedAccount : Text
  maskedAccountHolder : Text
  deriving DecidableEq, Repr

/-- `encipher` and `decipher` take key, nonce and associated data; `hmac` is in hexadecimal. -/
structure Crypto where
  encipher : Bytes → Bytes → Bytes → Bytes → Bytes × Bytes
  decipher : Bytes → Bytes → Bytes → Bytes → Bytes → Option Bytes
  hmac : Bytes → Bytes → Text

structure BankEncryptionService where
  keyId : Text
  encryptionKey : Bytes
  fingerprintKey : Bytes

inductive BankEncryptionError
  | fieldKeyUnavailable | fieldDecryptionFailed
  deriving DecidableEq, Repr

section Normal

/-- Spaces and hyphens removed, in upper case.  An account number is ASCII. -/
def normalizeAccount (value : Text) : Text :=
  (value.filter fun c => c ≠ ' ' ∧ c ≠ '-').map Char.toUpper

def bullets (n : Nat) : Text := List.replicate n '•'

def maskAccount (value : Text) : Text :=
  let first := value.take (min 2 (value.length - 4))
  first ++ bullets (max 4 (min 10 (value.length - first.length - 4))) ++
    value.drop (value.length - 4)

/-- `slice(0, 1)`.  Half of a surrogate pair is stored as a replacement character. -/
def firstUnit : Text → Text
  | [] => []
  | c :: _ => [if c.toNat < 0x10000 then c else Char.ofNat 0xFFFD]

def maskPart (part : Text) : Text := firstUnit part ++ bullets (max 2 (textLength part - 1))

/-- `split(/\s+/u)` of a trimmed text. -/
def splitSpaces (t : Text) : List Text :=
  if t = [] then [[]] else (t.splitOnP isTrimmed).filter (· ≠ [])

def maskHolder (value : Text) : Text :=
  [' '].intercalate ((splitSpaces (trim value)).map maskPart)

/-- The account that is encrypted. -/
def PlainBankAccount.normal (a : PlainBankAccount) : PlainBankAccount where
  accountNumber := normalizeAccount a.accountNumber
  accountHolder := trim a.accountHolder
  bankName := (a.bankName.filter (· ≠ [])).map trim

end Normal

namespace BankEncryptionService

variable (crypto : Crypto) (s : BankEncryptionService)

def aad (organizationId vendorId : Text) : Bytes :=
  utf8 ("bloctrust:bank:v1:".toList ++ organizationId ++ ':' :: vendorId)

/-- `iv` is what `randomBytes` returns. -/
def encrypt (iv : Bytes) (organizationId vendorId : Text) (account : PlainBankAccount) :
    StoredBankAccount :=
  let accountNumber := normalizeAccount account.accountNumber
  let plaintext := utf8 (stringify account.normal.toJson)
  let sealed := crypto.encipher s.encryptionKey iv (aad organizationId vendorId) plaintext
  { encryptedAccount := base64 sealed.1
    encryptionIv := base64 iv
    encryptionTag := base64 sealed.2
    encryptionKeyId := s.keyId
    accountFingerprint := crypto.hmac s.fingerprintKey
      (utf8 (organizationId ++ ':' :: accountNumber))
    maskedAccount := maskAccount accountNumber
    maskedAccountHolder := maskHolder account.accountHolder }

def decrypt (organizationId vendorId : Text) (stored : StoredBankAccount) :
    Except BankEncryptionError Json :=
  if stored.encryptionKeyId ≠ s.keyId then .error .fieldKeyUnavailable
  else
    let iv := decodeBase64 stored.encryptionIv
    let authenticationTag := decodeBase64 stored.encryptionTag
    if iv.length ≠ 12 ∨ authenticationTag.length ≠ 16 then .error .fieldDecryptionFailed
    else
      match (crypto.decipher s.encryptionKey iv (aad organizationId vendorId)
          (decodeBase64 stored.encryptedAccount) authenticationTag).bind decodeUtf8 >>= parse with
      | some account => .ok account
      | none => .error .fieldDecryptionFailed

end BankEncryptionService

section Accepted

/-- A character of a normalized number. -/
def isAccountChar (c : Char) : Bool :=
  (65 ≤ c.toNat && c.toNat ≤ 90) || (48 ≤ c.toNat && c.toNat ≤ 57)

/-- `/^[A-Z0-9][A-Z0-9 -]{5,63}$/u`. -/
def isAccountNumber : Text → Bool
  | [] => false
  | c :: rest => isAccountChar c && 5 ≤ rest.length && rest.length ≤ 63 &&
      rest.all fun c => isAccountChar c || c == ' ' || c == '-'

/-- An account as `CreateBankAccountVersionDto` delivers it: its texts are trimmed. -/
structure Accepted (a : PlainBankAccount) : Prop where
  holder : trim a.accountHolder = a.accountHolder
  holderLength : 2 ≤ textLength a.accountHolder ∧ textLength a.accountHolder ≤ 200
  bankName : ∀ name ∈ a.bankName, trim name = name ∧ textLength name ≤ 160
  accountNumber : isAccountNumber a.accountNumber = true

end Accepted

section Masks

/-- A short number is masked by writing bullets between its two halves. -/
theorem maskAccount_short {n : Text} (h : n.length ≤ 6) :
    maskAccount n = n.take (n.length - 4) ++ bullets 4 ++ n.drop (n.length - 4) := by
  have hfirst : min 2 (n.length - 4) = n.length - 4 := by omega
  have hlength : (n.take (n.length - 4)).length = n.length - 4 := by
    rw [List.length_take]
    omega
  unfold maskAccount
  simp only [hfirst, hlength]
  rw [show max 4 (min 10 (n.length - (n.length - 4) - 4)) = 4 by omega]

theorem maskAccount_short_inj {m n : Text} (hlength : m.length = n.length) (h : n.length ≤ 6)
    (heq : maskAccount m = maskAccount n) : m = n := by
  rw [maskAccount_short (by omega), maskAccount_short h, hlength] at heq
  obtain ⟨hfront, hback⟩ := List.append_inj heq (by simp [hlength])
  obtain ⟨hfirst, -⟩ := List.append_inj hfront (by simp [hlength])
  rw [← List.take_append_drop (n.length - 4) m, hfirst, hback, List.take_append_drop]

/-- From seven characters on the third one is not shown. -/
theorem maskAccount_set {n : Text} (c : Char) (h : 7 ≤ n.length) :
    maskAccount (n.set 2 c) = maskAccount n := by
  have htake : (n.set 2 c).take (min 2 (n.length - 4)) = n.take (min 2 (n.length - 4)) :=
    List.take_set_of_le (by omega)
  have hdrop : (n.set 2 c).drop (n.length - 4) = n.drop (n.length - 4) :=
    List.drop_set_of_lt (by omega)
  unfold maskAccount
  rw [List.length_set, htake, hdrop]

theorem length_normalizeAccount (value : Text) : (normalizeAccount value).length =
    (value.filter fun c => c ≠ ' ' ∧ c ≠ '-').length := by
  unfold normalizeAccount
  rw [List.length_map]

variable {crypto : Crypto} {s : BankEncryptionService}

/-- The stored mask hides a character exactly when the number has seven characters. -/
theorem maskedAccount_hides (iv : Bytes) (organizationId vendorId : Text)
    (a : PlainBankAccount) :
    let number := normalizeAccount a.accountNumber
    (∃ i c, i < number.length ∧ isAccountChar c = true ∧ number[i]? ≠ some c ∧
      maskAccount (number.set i c) =
        (BankEncryptionService.encrypt crypto s iv organizationId vendorId a).maskedAccount) ↔
    7 ≤ (a.accountNumber.filter fun c => c ≠ ' ' ∧ c ≠ '-').length := by
  intro number
  have hlength : number.length =
      (a.accountNumber.filter fun c => c ≠ ' ' ∧ c ≠ '-').length := length_normalizeAccount _
  rw [← hlength]
  constructor
  · rintro ⟨i, c, hi, -, hne, hmask⟩
    by_contra hshort
    have hsame : number.set i c = number :=
      maskAccount_short_inj (List.length_set ..) (by omega) hmask
    refine hne ?_
    rw [← hsame, List.getElem?_set_self hi]
  · intro h
    by_cases hA : number[2]? = some 'A'
    · refine ⟨2, 'B', by omega, by decide, ?_, maskAccount_set 'B' h⟩
      rw [hA]
      decide
    · exact ⟨2, 'A', by omega, by decide, hA, maskAccount_set 'A' h⟩

/-- Six characters are accepted, and all of them are shown. -/
theorem maskedAccount_shows_all :
    isAccountNumber "ABCDEF".toList = true ∧ maskAccount "ABCDEF".toList = "AB••••CDEF".toList ∧
    ¬ ∀ value, isAccountNumber value = true → ∃ i c, i < (normalizeAccount value).length ∧
      isAccountChar c = true ∧ (normalizeAccount value)[i]? ≠ some c ∧
      maskAccount ((normalizeAccount value).set i c) = maskAccount (normalizeAccount value) := by
  refine ⟨by decide +kernel, by decide +kernel, fun h => ?_⟩
  obtain ⟨i, c, hi, -, hne, hmask⟩ := h "ABCDEF".toList (by decide +kernel)
  have hlength : (normalizeAccount "ABCDEF".toList).length ≤ 6 := by decide +kernel
  have hsame := maskAccount_short_inj (List.length_set ..) hlength hmask
  have hread := List.getElem?_set_self (a := c) hi
  rw [hsame] at hread
  exact hne hread

end Masks

end BlocTrust.Crm
