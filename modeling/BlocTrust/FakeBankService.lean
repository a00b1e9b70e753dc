import BlocTrust.FakeBankWebhook
import BlocTrust.ReadCommitted.Machine

/-!
`FakeBankService` and its tables.
A delivery is keyed by its unique index on organization and event.  Identifiers are columns of
type UUID, which do not distinguish the letter case; the digest of a payload is a parameter.
-/
namespace BlocTrust.FakeBank

open ReadCommitted

section Tables

structure FakeBankWebhookDelivery where
  vendorId : Text
  bankAccountVersionId : Text
  status : BankAccountVerificationStatus
  payloadHash : Text
  providerTimestamp : Time
  processedAt : Time
  deriving DecidableEq, Repr

structure VendorBankAccountVersion where
  organizationId : Text
  vendorId : Text
  deriving DecidableEq, Repr

structure ReceivedStatus where
  vendorId : Text
  bankAccountVersionId : Text
  status : BankAccountVerificationStatus
  stateTransitioned : Bool
  deriving DecidableEq, Repr

/-- `after` is `none` for the events of other services. -/
structure AuditEvent where
  organizationId : Text
  action : String
  entityType : String
  entityId : Text
  after : Option ReceivedStatus
  deriving DecidableEq, Repr

inductive Key
  | delivery (organizationId eventId : Text)
  | bankAccount (id : Text)
  | audit (id : Id)
  deriving DecidableEq, Repr

@[reducible] def Val : Key → Type
  | .delivery _ _ => FakeBankWebhookDelivery
  | .bankAccount _ => VendorBankAccountVersion
  | .audit _ => AuditEvent

abbrev Db := Log Val

def Db.deliveries (db : Db) : List ((Text × Text) × FakeBankWebhookDelivery) :=
  Log.table (fun event : Text × Text => Key.delivery event.1 event.2)
    (fun | .delivery o e => some (o, e) | _ => none) (fun _ d => d) db

/-- A text as a value of type UUID. -/
def uuid (t : Text) : Text := t.map Char.toLower

end Tables

section Statements

inductive Failure
  | unauthorized (code : String)
  | conflict (code : String)
  | notFound (code : String)
  | uniqueViolation
  | foreignKeyViolation
  | unavailable (name : String)
  deriving DecidableEq, Repr

inductive Query
  | findDelivery (organizationId eventId : Text)
  | findBankAccount (id organizationId vendorId : Text)
  | previousStatus (organizationId bankAccountVersionId : Text)
  deriving DecidableEq, Repr

@[reducible] def Query.Out : Query → Type
  | findDelivery _ _ => Option FakeBankWebhookDelivery
  | findBankAccount _ _ _ => Option Text
  | previousStatus _ _ => Option BankAccountVerificationStatus

/-- `processedAt` is assigned by the database. -/
inductive Stmt
  | read (q : Query)
  | insertDelivery (organizationId eventId vendorId bankAccountVersionId : Text)
      (status : BankAccountVerificationStatus) (payloadHash : Text) (providerTimestamp : Time)
  | insertAudit (a : AuditEvent)

@[reducible] def Out : Stmt → Type
  | .read q => q.Out
  | _ => Unit

/-- `findFirst` in the order of `processedAt`, newest first: any of the newest. -/
def latestStatus (choice : Nat) (ds : List FakeBankWebhookDelivery) :
    Option (Option BankAccountVerificationStatus) :=
  let newest := ds.filter fun d => ds.all fun d' => decide (d'.processedAt ≤ d.processedAt)
  if newest.isEmpty then some none else newest[choice]?.map fun d => some d.status

def answer (choice : Nat) (db : Db) : (q : Query) → Option q.Out
  | .findDelivery organizationId eventId =>
      some (Log.row (.delivery (uuid organizationId) (uuid eventId)) db)
  | .findBankAccount id organizationId vendorId =>
      some (((Log.row (.bankAccount (uuid id)) db).filter fun a =>
        a.organizationId = uuid organizationId ∧ a.vendorId = uuid vendorId).map fun _ => uuid id)
  | .previousStatus organizationId bankAccountVersionId =>
      latestStatus choice ((db.deliveries.filter fun (event, d) =>
        event.1 = uuid organizationId ∧ d.bankAccountVersionId = uuid bankAccountVersionId).map
          Prod.snd)

/-- The identifier of an audit event is new, and the clock gives `processedAt`. -/
def engine : Engine Val Out Failure
  | .read q, choice, db => (answer choice db q).map fun out => .ok (out, [])
  | .insertDelivery organizationId eventId vendorId bankAccountVersionId status payloadHash
      providerTimestamp, choice, db =>
      if Key.delivery (uuid organizationId) (uuid eventId) ∈ db.keys then
        some (.error .uniqueViolation)
      else if (Log.row (.bankAccount (uuid bankAccountVersionId)) db).any fun a =>
          a.organizationId = uuid organizationId then
        some (.ok ((), [⟨.delivery (uuid organizationId) (uuid eventId),
          { vendorId := uuid vendorId
            bankAccountVersionId := uuid bankAccountVersionId
            status
            payloadHash
            providerTimestamp
            processedAt := choice }⟩]))
      else some (.error .foreignKeyViolation)
  | .insertAudit a, choice, db =>
      if Key.audit choice ∈ db.keys then none else some (.ok ((), [⟨.audit choice, a⟩]))

end Statements

section Service

/-- `sha256` and `hmac` are in hexadecimal. -/
structure Config where
  secret : Option Text
  hmac : Text → Bytes → Text
  sha256 : Bytes → Text
  localeCompare : Text → Text → Ordering

structure FakeBankResponse where
  accepted : Bool
  duplicate : Bool
  stateTransitioned : Bool
  deriving DecidableEq, Repr

abbrev Program := Prog Out Failure

open Prog

/-- `vendorId`, the account and the status, as they are written to the audit log. -/
def statusReceived (payload : FakeBankPayload) (stateTransitioned : Bool) : AuditEvent where
  organizationId := uuid payload.organizationId
  action := "FAKE_BANK_STATUS_RECEIVED"
  entityType := "FAKE_BANK_WEBHOOK"
  entityId := uuid payload.eventId
  after := some
    { vendorId := payload.vendorId
      bankAccountVersionId := payload.bankAccountVersionId
      status := payload.status
      stateTransitioned }

def query (q : Query) : Program q.Out := sql (Stmt.read q)
def create (s : Stmt) : Program (Out s) := sql s

def report (payload : FakeBankPayload) (stateTransitioned : Bool) : Program FakeBankResponse := do
  let _ ← create (.insertAudit (statusReceived payload stateTransitioned))
  return ⟨true, false, stateTransitioned⟩

def store (payload : FakeBankPayload) (payloadHash : Text) (providerTimestamp : Time)
    (stateTransitioned : Bool) : Program FakeBankResponse := do
  let _ ← create (.insertDelivery payload.organizationId payload.eventId payload.vendorId
    payload.bankAccountVersionId payload.status payloadHash providerTimestamp)
  report payload stateTransitioned

def compareStatus (payload : FakeBankPayload) (payloadHash : Text) (providerTimestamp : Time)
    (bankAccountId : Text) : Program FakeBankResponse := do
  let previous ← query (.previousStatus payload.organizationId bankAccountId)
  store payload payloadHash providerTimestamp (decide (previous.getD .pending ≠ payload.status))

/-- What is done for an event that is not on record. -/
def receive (payload : FakeBankPayload) (payloadHash : Text) (providerTimestamp : Time) :
    Program FakeBankResponse := do
  let found ← query (.findBankAccount payload.bankAccountVersionId payload.organizationId
    payload.vendorId)
  let bankAccountId ← orThrow found (.notFound "FAKE_BANK_ACCOUNT_NOT_FOUND")
  compareStatus payload payloadHash providerTimestamp bankAccountId

/-- An event that is on record with another digest is refused. -/
def replay (payloadHash : Text) (stored : FakeBankWebhookDelivery) : Program FakeBankResponse :=
  if stored.payloadHash ≠ payloadHash then throw (.conflict "FAKE_BANK_EVENT_ID_REUSED")
  else return ⟨true, true, false⟩

def record (payload : FakeBankPayload) (payloadHash : Text) (providerTimestamp : Time) :
    Program FakeBankResponse := do
  let stored ← query (.findDelivery payload.organizationId payload.eventId)
  match stored with
  | some stored => replay payloadHash stored
  | none => receive payload payloadHash providerTimestamp

variable (cfg : Config)

/-- `createHash('sha256')` of the timestamp and the canonical payload. -/
def payloadHash (payload : FakeBankPayload) (timestamp : Text) : Text :=
  cfg.sha256 (utf8 (signedText cfg.localeCompare payload.toJson timestamp))

/-- `Number(timestamp) * 1_000`. -/
def providerTimestamp (timestamp : Text) : Time := Nat.ofDigitChars 10 timestamp 0 * 1000

def FakeBankService.process (payload : FakeBankPayload) (timestamp signature : Option Text)
    (now : Time) : Program FakeBankResponse := do
  let secret ← orThrow (cfg.secret.filter fun secret => !secret.isEmpty)
    (.unauthorized "FAKE_BANK_WEBHOOK_NOT_CONFIGURED")
  require (verifyFakeBankWebhook cfg.hmac cfg.localeCompare payload.toJson timestamp signature
    secret now 300 = true) (.unauthorized "FAKE_BANK_SIGNATURE_INVALID")
  let timestamp := timestamp.getD "undefined".toList
  transaction (record payload (payloadHash cfg payload timestamp) (providerTimestamp timestamp))

end Service

section System

/-- A delivery of a message at the time `now`. -/
structure Op where
  payload : FakeBankPayload
  timestamp : Option Text
  signature : Option Text
  now : Time
  deriving DecidableEq, Repr

/-- The event that a delivery reports, by its unique index. -/
def Op.event (op : Op) : Text × Text := (uuid op.payload.organizationId, uuid op.payload.eventId)

/-- Other services add account versions and audit events of their own. -/
def outside : Sigma Val → Bool
  | ⟨.delivery _ _, _⟩ => false
  | ⟨.bankAccount _, _⟩ => true
  | ⟨.audit _, a⟩ => a.action != "FAKE_BANK_STATUS_RECEIVED"

def machine (cfg : Config) : Machine Val Out Failure FakeBankResponse Op where
  engine := engine
  program op := FakeBankService.process cfg op.payload op.timestamp op.signature op.now
  external db rows := rows.NodupKeys ∧ ∀ s ∈ rows, outside s = true ∧ s.1 ∉ db.keys

abbrev Process := Proc Val Out Failure FakeBankResponse Op
abbrev System := Sys Val Out Failure FakeBankResponse Op
abbrev SystemAction := Action Val Failure Op

end System

end BlocTrust.FakeBank
