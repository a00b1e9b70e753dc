import BlocTrust.Json

/-!
Signed messages of the fake bank.
The signature is taken over the timestamp and the canonical text of the payload; `hmac` is
HMAC-SHA-256 in hexadecimal, a parameter.
-/
namespace BlocTrust.FakeBank

inductive BankAccountVerificationStatus
  | pending | verified | rejected
  deriving DecidableEq, Repr

def BankAccountVerificationStatus.name : BankAccountVerificationStatus → Text
  | pending => "PENDING".toList
  | verified => "VERIFIED".toList
  | rejected => "REJECTED".toList

structure FakeBankPayload where
  eventId : Text
  organizationId : Text
  vendorId : Text
  bankAccountVersionId : Text
  status : BankAccountVerificationStatus
  deriving DecidableEq, Repr

def FakeBankPayload.toJson (p : FakeBankPayload) : Json :=
  .object
    [("eventId".toList, .string p.eventId), ("organizationId".toList, .string p.organizationId),
     ("vendorId".toList, .string p.vendorId),
     ("bankAccountVersionId".toList, .string p.bankAccountVersionId),
     ("status".toList, .string p.status.name)]

/-- What is hashed and signed. -/
def signedText (localeCompare : Text → Text → Ordering) (payload : Json) (timestamp : Text) :
    Text := timestamp ++ '.' :: canonicalJson localeCompare payload

section Signatures

variable (hmac : Text → Bytes → Text) (localeCompare : Text → Text → Ordering)

def signFakeBankWebhook (payload : Json) (timestamp secret : Text) : Text :=
  "sha256=".toList ++ hmac secret (utf8 (signedText localeCompare payload timestamp))

/-- `/^\d{10}$/u`. -/
def isTimestamp (t : Text) : Bool := t.length == 10 && t.all Char.isDigit

def verifyFakeBankWebhook (payload : Json) (timestamp signature : Option Text) (secret : Text)
    (now : Time) (maximumAgeSeconds : Nat) : Bool :=
  match timestamp, signature with
  | some timestamp, some signature =>
      isTimestamp timestamp &&
        decide (((now / 1000 : Nat) - (Nat.ofDigitChars 10 timestamp 0 : Int)).natAbs ≤
          maximumAgeSeconds) &&
        utf8 signature == utf8 (signFakeBankWebhook hmac localeCompare payload timestamp secret)
  | _, _ => false

end Signatures

end BlocTrust.FakeBank
