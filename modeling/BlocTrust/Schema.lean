import BlocTrust.RiskEngine
import BlocTrust.ReadCommitted.Log

/-!
The tables of the migrations.
A `Key` names a row, an entry of a unique index, an advisory lock, a stored object or a
random object key; columns that no modelled statement reads are left out, and so is the
row-level security, whose filter every statement repeats in its own condition.
-/
namespace BlocTrust

open ReadCommitted

structure Invoice where
  organizationId : Id
  vendorId : Option Id
  contractId : Option Id
  invoiceNumber : Option Text
  issueDate : Option Time
  dueDate : Option Time
  currency : Option Text
  subtotal : Option Cents
  taxAmount : Option Cents
  totalAmount : Option Cents
  notes : Option Text
  status : InvoiceStatus
  version : Nat
  vendorBankAccountVersionId : Option Id
  createdByMembershipId : Id
  createdAt : Time
  deriving DecidableEq, Repr

/-- `quantity`, `unitPrice` and `taxRate` are counted in ten-thousandths. -/
structure InvoiceLine where
  description : Text
  quantity : Nat
  unitPrice : Nat
  taxRate : Option Nat
  amount : Cents
  position : Nat
  deriving DecidableEq, Repr

structure Document where
  organizationId : Id
  invoiceId : Id
  originalFilename : Text
  declaredMimeType : Text
  detectedMimeType : Text
  sizeBytes : Nat
  quarantineObjectKey : Id
  approvedObjectKey : Option Id
  sha256 : Option Digest
  duplicateOfDocumentId : Option Id
  storageState : DocumentStorageState
  createdByMembershipId : Id
  createdAt : Time
  deriving DecidableEq, Repr

structure DocumentProcessing where
  organizationId : Id
  state : DocumentProcessingState
  progress : Nat
  scanResult : DocumentScanResult
  scanDetail : Option Text
  ocrEngine : Option Text
  suggestions : List (Text × Text)
  attempts : Nat
  errorCode : Option Text
  errorMessage : Option Text
  deriving DecidableEq, Repr

structure OrganizationRiskPolicy extends RiskPolicySnapshot where
  requireSeparationOfDuties : Bool
  deriving DecidableEq, Repr

structure RiskAssessment where
  organizationId : Id
  invoiceId : Id
  invoiceVersion : Nat
  evaluation : RiskEvaluation
  deriving DecidableEq, Repr

structure ApprovalRequest where
  organizationId : Id
  invoiceId : Id
  invoiceVersion : Nat
  riskAssessmentId : Id
  vendorBankAccountVersionId : Option Id
  version : Nat
  status : ApprovalRequestStatus
  requiredDecisions : Nat
  initiatedByMembershipId : Id
  idempotencyKeyHash : Digest
  invalidatedReason : Option String
  completedAt : Option Time
  deriving DecidableEq, Repr

structure ApprovalDecision where
  organizationId : Id
  approvalRequestId : Id
  approvalVersion : Nat
  decidedByMembershipId : Id
  sessionId : Id
  outcome : ApprovalDecisionOutcome
  reason : Text
  stepUpVerifiedAt : Time
  idempotencyKeyHash : Digest
  createdAt : Time
  deriving DecidableEq, Repr

/-- What `BankEncryptionService.encrypt` returns and later readers show. -/
structure SealedAccount where
  maskedAccount : Text
  maskedAccountHolder : Text
  encryptionKeyId : Text
  deriving DecidableEq, Repr

structure VendorBankAccountVersion where
  organizationId : Id
  vendorId : Id
  versionNumber : Nat
  countryCode : Text
  account : SealedAccount
  createdByMembershipId : Id
  deriving DecidableEq, Repr

structure AuditEvent where
  organizationId : Id
  actorMembershipId : Option Id
  action : String
  entityType : String
  entityId : Id
  reason : Option Text
  deriving DecidableEq, Repr

structure Vendor where
  organizationId : Id
  deriving DecidableEq, Repr

structure Contract where
  organizationId : Id
  vendorId : Id
  valueLimit : Option Cents
  deriving DecidableEq, Repr

structure Membership where
  organizationId : Id
  userId : Id
  role : MembershipRole
  status : MembershipStatus
  createdAt : Time
  deriving DecidableEq, Repr

structure Session where
  organizationId : Id
  userId : Id
  revokedAt : Option Time
  expiresAt : Time
  stepUpVerifiedAt : Option Time
  deriving DecidableEq, Repr

structure MembershipBuildingAccess where
  organizationId : Id
  membershipId : Id
  buildingId : Id
  validFrom : Time
  validUntil : Option Time
  deriving DecidableEq, Repr

/-- The unique indexes that modelled statements can collide on. -/
inductive UniqueIndex
  | riskAssessment (organizationId invoiceId invoiceVersion : Nat)
  | requestVersion (organizationId invoiceId version : Nat)
  | requestKey (organizationId : Id) (idempotencyKeyHash : Digest)
  | decisionKey (organizationId : Id) (idempotencyKeyHash : Digest)
  | bankVersion (organizationId vendorId versionNumber : Nat)
  deriving DecidableEq, Repr

inductive Bucket
  | quarantine | approved
  deriving DecidableEq, Repr

/-- A decision is keyed by its unique index on request and membership. -/
inductive Key
  | invoice (id : Id)
  | lines (invoiceId : Id)
  | document (id : Id)
  | processing (documentId : Id)
  | policy (organizationId : Id)
  | risk (id : Id)
  | request (id : Id)
  | decision (approvalRequestId decidedByMembershipId : Id)
  | bank (id : Id)
  | audit (id : Id)
  | vendor (id : Id)
  | contract (id : Id)
  | membership (id : Id)
  | session (id : Id)
  | grant (id : Id)
  | vendorBuilding (vendorId buildingId : Id)
  | unique (index : UniqueIndex)
  | advisory (organizationId : Id) (sha256 : Digest)
  | drawn (key : Id)
  | object (bucket : Bucket) (key : Id)
  deriving DecidableEq, Repr

@[reducible] def Val : Key → Type
  | .invoice _ => Invoice
  | .lines _ => List InvoiceLine
  | .document _ => Document
  | .processing _ => DocumentProcessing
  | .policy _ => OrganizationRiskPolicy
  | .risk _ => RiskAssessment
  | .request _ => ApprovalRequest
  | .decision _ _ => ApprovalDecision
  | .bank _ => VendorBankAccountVersion
  | .audit _ => AuditEvent
  | .vendor _ => Vendor
  | .contract _ => Contract
  | .membership _ => Membership
  | .session _ => Session
  | .grant _ => MembershipBuildingAccess
  | .vendorBuilding _ _ => Id
  | .unique _ => Unit
  | .advisory _ _ => Unit
  | .drawn _ => Unit
  | .object _ _ => Option Bytes

abbrev Db := Log Val

namespace Db

def invoice (db : Db) (id : Id) : Option Invoice := Log.row (.invoice id) db
def document (db : Db) (id : Id) : Option Document := Log.row (.document id) db
def processing (db : Db) (documentId : Id) : Option DocumentProcessing :=
  Log.row (.processing documentId) db
def policy (db : Db) (organizationId : Id) : Option OrganizationRiskPolicy :=
  Log.row (.policy organizationId) db
def risk (db : Db) (id : Id) : Option RiskAssessment := Log.row (.risk id) db
def request (db : Db) (id : Id) : Option ApprovalRequest := Log.row (.request id) db
def decision (db : Db) (requestId membershipId : Id) : Option ApprovalDecision :=
  Log.row (.decision requestId membershipId) db
def bank (db : Db) (id : Id) : Option VendorBankAccountVersion := Log.row (.bank id) db
def vendor (db : Db) (id : Id) : Option Vendor := Log.row (.vendor id) db
def contract (db : Db) (id : Id) : Option Contract := Log.row (.contract id) db
def membership (db : Db) (id : Id) : Option Membership := Log.row (.membership id) db
def session (db : Db) (id : Id) : Option Session := Log.row (.session id) db

/-- The lines of an invoice in the order of their positions. -/
def lines (db : Db) (invoiceId : Id) : List InvoiceLine :=
  (Log.row (.lines invoiceId) db).getD []

/-- The bytes stored under a key, if any. -/
def object (db : Db) (bucket : Bucket) (key : Id) : Option Bytes :=
  (Log.row (.object bucket key) db).join

def invoices (db : Db) : List (Id × Invoice) :=
  Log.table Key.invoice (fun | .invoice i => some i | _ => none) (fun _ v => v) db
def documents (db : Db) : List (Id × Document) :=
  Log.table Key.document (fun | .document i => some i | _ => none) (fun _ v => v) db
def requests (db : Db) : List (Id × ApprovalRequest) :=
  Log.table Key.request (fun | .request i => some i | _ => none) (fun _ v => v) db
def decisions (db : Db) : List ((Id × Id) × ApprovalDecision) :=
  Log.table (fun rm : Id × Id => Key.decision rm.1 rm.2)
    (fun | .decision r m => some (r, m) | _ => none) (fun _ v => v) db
def banks (db : Db) : List (Id × VendorBankAccountVersion) :=
  Log.table Key.bank (fun | .bank i => some i | _ => none) (fun _ v => v) db
def memberships (db : Db) : List (Id × Membership) :=
  Log.table Key.membership (fun | .membership i => some i | _ => none) (fun _ v => v) db
def grants (db : Db) : List (Id × MembershipBuildingAccess) :=
  Log.table Key.grant (fun | .grant i => some i | _ => none) (fun _ v => v) db
def vendorBuildings (db : Db) : List ((Id × Id) × Id) :=
  Log.table (fun vb : Id × Id => Key.vendorBuilding vb.1 vb.2)
    (fun | .vendorBuilding v b => some (v, b) | _ => none) (fun _ v => v) db

variable {db : Db}

@[simp] theorem mem_invoices {i : Id} {v : Invoice} :
    (i, v) ∈ db.invoices ↔ db.invoice i = some v := by
  simp [invoices, invoice, Log.mem_table]

@[simp] theorem mem_documents {i : Id} {v : Document} :
    (i, v) ∈ db.documents ↔ db.document i = some v := by
  simp [documents, document, Log.mem_table]

@[simp] theorem mem_requests {i : Id} {v : ApprovalRequest} :
    (i, v) ∈ db.requests ↔ db.request i = some v := by
  simp [requests, request, Log.mem_table]

@[simp] theorem mem_decisions {r m : Id} {v : ApprovalDecision} :
    ((r, m), v) ∈ db.decisions ↔ db.decision r m = some v := by
  simp [decisions, decision, Log.mem_table]

@[simp] theorem mem_banks {i : Id} {v : VendorBankAccountVersion} :
    (i, v) ∈ db.banks ↔ db.bank i = some v := by
  simp [banks, bank, Log.mem_table]

end Db
end BlocTrust
