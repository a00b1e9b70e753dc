import BlocTrust.Schema
import BlocTrust.ReadCommitted.Machine

/-!
The statements of the services and the worker, and what the database answers.
Reads are one snapshot each.  An `UPDATE` is a condition and an assignment on one row,
checked and applied to its newest version together with the triggers and checks of the
migrations; the multi-row freezes are issued as a read of the matching rows followed by one
such update for each.  The object store, the scanner and the clock answer in the same way.
-/
namespace BlocTrust

open ReadCommitted

structure OcrResult where
  engine : Text
  suggestions : List (Text × Text)
  deriving DecidableEq, Repr

structure CreateBankAccountVersionDto where
  accountHolder : Text
  bankName : Option Text
  countryCode : Text
  accountNumber : Text
  deriving DecidableEq, Repr

structure InvoiceIngestJob where
  invoiceId : Id
  documentId : Id
  organizationId : Id
  deriving DecidableEq, Repr

/-- The environment: settings, and library functions outside the repository. -/
structure Config where
  sha256 : Bytes → Digest
  localeCompare : Text → Text → Ordering
  toLowerCase : Text → Text
  toUpperCase : Text → Text
  uuidText : Id → Text
  stepUpTtlMilliseconds : Nat
  encrypt : Id → Id → CreateBankAccountVersionDto → SealedAccount
  extractSuggestions : Bytes → Text → OcrResult

/-- The columns `InvoicesService.update` assigns. -/
structure InvoiceEdit where
  vendorId : Field Id
  contractId : Field Id
  invoiceNumber : Field Text
  issueDate : Field Time
  dueDate : Field Time
  currency : Field Text
  subtotal : Field Cents
  taxAmount : Field Cents
  totalAmount : Field Cents
  notes : Field Text
  invalidatesApproval : Bool
  deriving DecidableEq, Repr

def InvoiceEdit.apply (e : InvoiceEdit) (v : Invoice) : Invoice :=
  { v with
    vendorId := e.vendorId.overwrite v.vendorId
    contractId := e.contractId.overwrite v.contractId
    invoiceNumber := e.invoiceNumber.overwrite v.invoiceNumber
    issueDate := e.issueDate.overwrite v.issueDate
    dueDate := e.dueDate.overwrite v.dueDate
    currency := e.currency.overwrite v.currency
    subtotal := e.subtotal.overwrite v.subtotal
    taxAmount := e.taxAmount.overwrite v.taxAmount
    totalAmount := e.totalAmount.overwrite v.totalAmount
    notes := e.notes.overwrite v.notes
    status := if e.invalidatesApproval then .needsReview else v.status
    vendorBankAccountVersionId :=
      if e.invalidatesApproval then none else v.vendorBankAccountVersionId
    version := v.version + 1 }

/-- The `UPDATE` statements on invoices, one for each place that issues one. -/
inductive InvoiceChange
  | submitted (organizationId : Id) (version : Nat) (bankAccountId : Id)
  | returned (version : Nat)
  | frozen (organizationId vendorId : Id)
  | edited (organizationId : Id) (version : Nat) (edit : InvoiceEdit)
  | decided (outcome : ApprovalDecisionOutcome)
  | suggested (organizationId : Id)
  | blocked (organizationId : Id)
  | manualReview (organizationId : Id)
  | queueFailed (organizationId : Id)
  deriving DecidableEq, Repr

namespace InvoiceChange

def applies : InvoiceChange → Invoice → Bool
  | submitted org version _, v =>
      v.organizationId = org ∧ v.version = version ∧ v.status = .needsReview
  | returned version, v => v.version = version ∧ v.status = .awaitingApproval
  | frozen org vendor, v =>
      v.organizationId = org ∧ v.vendorId = some vendor ∧ v.status = .awaitingApproval
  | edited org version _, v => v.organizationId = org ∧ v.version = version
  | decided _, _ => true
  | suggested org, v => v.organizationId = org
  | blocked org, v => v.organizationId = org
  | manualReview org, v => v.organizationId = org ∧ v.status = .processing
  | queueFailed org, v => v.organizationId = org

def apply : InvoiceChange → Invoice → Invoice
  | submitted _ _ bank, v =>
      { v with
        status := .awaitingApproval
        vendorBankAccountVersionId := some bank
        version := v.version + 1 }
  | returned _, v => { v with status := .needsReview, version := v.version + 1 }
  | frozen _ _, v =>
      { v with
        status := .needsReview
        vendorBankAccountVersionId := none
        version := v.version + 1 }
  | edited _ _ e, v => e.apply v
  | decided outcome, v => { v with status := outcome.invoiceStatus }
  | suggested _, v => { v with status := .needsReview }
  | blocked _, v => { v with status := .blocked }
  | manualReview _, v => { v with status := .manualReview }
  | queueFailed _, v => { v with status := .manualReview }

/-- Whether the statement assigns `vendorId` or `contractId`. -/
def setsContract : InvoiceChange → Bool
  | edited _ _ e => e.vendorId.isPresent || e.contractId.isPresent
  | _ => false

end InvoiceChange

inductive RequestChange
  | invalidated (reason : String)
  | completed (outcome : ApprovalDecisionOutcome) (completedAt : Time)
  deriving DecidableEq, Repr

namespace RequestChange

def applies : RequestChange → ApprovalRequest → Bool
  | invalidated _, r => r.status = .pending
  | completed _ _, _ => true

def apply : RequestChange → ApprovalRequest → ApprovalRequest
  | invalidated reason, r => { r with status := .invalidated, invalidatedReason := some reason }
  | completed outcome completedAt, r =>
      { r with status := outcome.requestStatus, completedAt := some completedAt }

end RequestChange

inductive DocumentChange
  | promoted (organizationId approvedKey : Id) (sha256 : Digest) (duplicateOf : Option Id)
  | blocked (organizationId : Id)
  deriving DecidableEq, Repr

namespace DocumentChange

def applies : DocumentChange → Document → Bool
  | promoted org _ _ _, d => d.organizationId = org
  | blocked org, d => d.organizationId = org

def apply : DocumentChange → Document → Document
  | promoted _ key sha duplicate, d =>
      { d with
        approvedObjectKey := some key
        sha256 := some sha
        duplicateOfDocumentId := duplicate
        storageState := .approved }
  | blocked _, d => { d with storageState := .blocked }

end DocumentChange

inductive ProcessingChange
  | progressed (organizationId : Id) (state : DocumentProcessingState) (progress : Nat)
      (incrementAttempt : Bool) (scanResult : Option DocumentScanResult)
  | parsed (organizationId : Id)
  | suggested (organizationId : Id) (ocr : OcrResult)
  | blocked (organizationId : Id)
  | manualReview (organizationId : Id) (errorCode : Text)
  | reset (organizationId : Id) (storage : DocumentStorageState)
  | queueFailed (organizationId : Id) (errorCode : Text)
  deriving DecidableEq, Repr

namespace ProcessingChange

def applies : ProcessingChange → DocumentProcessing → Bool
  | progressed org _ _ _ _, p => p.organizationId = org
  | parsed org, p => p.organizationId = org
  | suggested org _, p => p.organizationId = org
  | blocked org, p => p.organizationId = org
  | manualReview org _, p =>
      p.organizationId = org ∧ p.state ≠ .needsReview ∧ p.state ≠ .blocked
  | reset org _, p => p.organizationId = org
  | queueFailed org _, p => p.organizationId = org

def apply : ProcessingChange → DocumentProcessing → DocumentProcessing
  | progressed _ state progress increment scan, p =>
      { p with
        state := state
        progress := progress
        attempts := p.attempts + if increment then 1 else 0
        scanResult := scan.getD p.scanResult }
  | parsed _, p => { p with state := .parsed, progress := 75, scanResult := .clean }
  | suggested _ ocr, p =>
      { p with
        state := .needsReview
        progress := 100
        ocrEngine := some ocr.engine
        suggestions := ocr.suggestions }
  | blocked _, p =>
      { p with
        state := .blocked
        progress := 100
        scanResult := .infected
        scanDetail := some "MALWARE_FOUND".toList }
  | manualReview _ code, p =>
      { p with
        state := .manualReview
        progress := 100
        scanResult := if p.scanResult = .pending then .error else p.scanResult
        errorCode := some code
        errorMessage := some "Processing requires operator review".toList }
  | reset _ storage, p =>
      { p with
        state := if storage = .approved then .parsed else .quarantined
        progress := if storage = .approved then 75 else 10
        errorCode := none
        errorMessage := none }
  | queueFailed _ code, p =>
      { p with state := .manualReview, progress := 100, errorCode := some code }

end ProcessingChange

/-- The columns `ApprovalsService.updatePolicy` may assign. -/
structure PolicyChange where
  mediumThreshold : Option Nat
  highThreshold : Option Nat
  changedBankAccountScore : Option Nat
  duplicateHashScore : Option Nat
  duplicateInvoiceNumberScore : Option Nat
  contractLimitScore : Option Nat
  amountSpikeScore : Option Nat
  deriving DecidableEq, Repr

def PolicyChange.apply (c : PolicyChange) (p : OrganizationRiskPolicy) :
    OrganizationRiskPolicy :=
  { p with
    ruleVersion := p.ruleVersion + 1
    mediumThreshold := c.mediumThreshold.getD p.mediumThreshold
    highThreshold := c.highThreshold.getD p.highThreshold
    changedBankAccountScore := c.changedBankAccountScore.getD p.changedBankAccountScore
    duplicateHashScore := c.duplicateHashScore.getD p.duplicateHashScore
    duplicateInvoiceNumberScore :=
      c.duplicateInvoiceNumberScore.getD p.duplicateInvoiceNumberScore
    contractLimitScore := c.contractLimitScore.getD p.contractLimitScore
    amountSpikeScore := c.amountSpikeScore.getD p.amountSpikeScore }

def defaultPolicy : OrganizationRiskPolicy where
  ruleVersion := 1
  mediumThreshold := 30
  highThreshold := 70
  changedBankAccountScore := 70
  duplicateHashScore := 70
  duplicateInvoiceNumberScore := 35
  contractLimitScore := 50
  amountSpikeScore := 25
  requireSeparationOfDuties := true

section Constraints

def invoiceChecks (v : Invoice) : Bool :=
  (match v.issueDate, v.dueDate with
    | some issue, some due => decide (issue ≤ due)
    | _, _ => true) &&
  (match v.currency with
    | some c => c.length = 3 && c.all fun x => 65 ≤ x.toNat && x.toNat ≤ 90
    | none => true) &&
  decide (0 < v.version)

def lineChecks (l : InvoiceLine) : Bool := 0 < l.quantity

def documentChecks (d : Document) : Bool := 0 < d.sizeBytes

def processingChecks (p : DocumentProcessing) : Bool := p.progress ≤ 100

def policyChecks (p : OrganizationRiskPolicy) : Bool :=
  0 < p.ruleVersion ∧ 0 < p.mediumThreshold ∧ p.mediumThreshold < p.highThreshold

def riskChecks (r : RiskAssessment) : Bool :=
  0 < r.invoiceVersion ∧ 0 < r.evaluation.ruleVersion

def requestChecks (r : ApprovalRequest) : Bool :=
  0 < r.invoiceVersion ∧ 0 < r.version ∧ 1 ≤ r.requiredDecisions ∧ r.requiredDecisions ≤ 2

def trimSpaces (t : Text) : Text :=
  ((t.dropWhile (· = ' ')).reverse.dropWhile (· = ' ')).reverse

def decisionChecks (d : ApprovalDecision) : Bool :=
  0 < d.approvalVersion ∧ 10 ≤ (trimSpaces d.reason).length

end Constraints

section Triggers

/-- `bloctrust_validate_invoice_contract_vendor`. -/
def validateInvoiceContractVendor (db : Db) (new : Invoice) : Bool :=
  match new.contractId with
  | none => true
  | some contractId =>
      match new.vendorId, db.contract contractId with
      | some vendorId, some c =>
          c.organizationId = new.organizationId ∧ c.vendorId = vendorId
      | _, _ => false

/-- `bloctrust_guard_invoice_approval`. -/
def guardInvoiceApproval (db : Db) (id : Id) (old new : Invoice) : Bool :=
  !(new.status = .approved ∧ old.status ≠ new.status) ||
    db.requests.any fun (_, r) =>
      r.organizationId = new.organizationId ∧ r.invoiceId = id ∧
        r.invoiceVersion = new.version ∧ r.status = .approved

/-- `bloctrust_validate_approval_request_update`; its other columns are never assigned. -/
def validateApprovalRequestUpdate (old new : ApprovalRequest) : Bool :=
  old.status = .pending ∨ new.status = old.status

/-- `bloctrust_protect_document_identity`; its other columns are never assigned. -/
def protectDocumentIdentity (old new : Document) : Bool :=
  (old.approvedObjectKey = none ∨ new.approvedObjectKey = old.approvedObjectKey) ∧
    (old.sha256 = none ∨ new.sha256 = old.sha256)

/-- `bloctrust_validate_document_processing_transition`. -/
def validateDocumentProcessingTransition (old new : DocumentProcessingState) : Bool :=
  new = old ||
    match old, new with
    | .quarantined, .scanning | .quarantined, .manualReview => true
    | .scanning, .quarantined | .scanning, .parsed | .scanning, .blocked
    | .scanning, .manualReview => true
    | .parsed, .needsReview | .parsed, .manualReview => true
    | _, _ => false

end Triggers

inductive Query
  | findInvoice (organizationId id : Id)
  | findDocuments (organizationId invoiceId : Id)
  | findProcessings (documentIds : List Id)
  | findContract (id : Id)
  | findContractOf (organizationId id vendorId : Id)
  | findVendor (organizationId id : Id)
  | findRequestByKey (organizationId : Id) (idempotencyKeyHash : Digest)
  | findRequest (organizationId id : Id)
  | findRisk (id : Id)
  | findDecisions (requestId : Id)
  | findDecisionByKey (organizationId : Id) (idempotencyKeyHash : Digest)
  | latestRequest (organizationId invoiceId : Id)
  | latestBank (organizationId vendorId : Id)
  | countSameNumber (organizationId vendorId : Id) (invoiceNumber : Text) (exclude : Id)
  | previousAmounts (organizationId vendorId exclude : Id)
  | findPolicy (organizationId : Id)
  | findMembership (id organizationId userId : Id)
  | findApprovers (organizationId : Id) (exclude : Option Id)
  | findSession (id organizationId userId : Id) (now stepUpAfter : Time)
  | countApprovals (organizationId requestId : Id) (approvalVersion : Nat)
  | pendingOfInvoice (organizationId invoiceId : Id)
  | pendingOfVendor (organizationId vendorId : Id)
  | awaitingOfVendor (organizationId vendorId : Id)
  | findGrants (organizationId membershipId : Id) (now : Time)
  | findVendorInScope (organizationId id : Id) (buildings : Option (List Id))
  | findLines (invoiceId : Id)
  | load (job : InvoiceIngestJob)
  | documentStorage (organizationId documentId : Id)
  | findDuplicate (organizationId : Id) (sha256 : Digest) (exclude : Id)
  deriving DecidableEq, Repr

@[reducible] def Query.Out : Query → Type
  | findInvoice _ _ => Option Invoice
  | findDocuments _ _ => List (Id × Document)
  | findProcessings _ => List (Option DocumentProcessing)
  | findContract _ => Option Contract
  | findContractOf _ _ _ => Option Contract
  | findVendor _ _ => Option Vendor
  | findRequestByKey _ _ => Option (Id × ApprovalRequest)
  | findRequest _ _ => Option ApprovalRequest
  | findRisk _ => Option RiskAssessment
  | findDecisions _ => List ApprovalDecision
  | findDecisionByKey _ _ => Option ApprovalDecision
  | latestRequest _ _ => Option Nat
  | latestBank _ _ => Option (Id × VendorBankAccountVersion)
  | countSameNumber _ _ _ _ => Nat
  | previousAmounts _ _ _ => List Cents
  | findPolicy _ => Option OrganizationRiskPolicy
  | findMembership _ _ _ => Option Membership
  | findApprovers _ _ => List Id
  | findSession _ _ _ _ _ => Option Session
  | countApprovals _ _ _ => Nat
  | pendingOfInvoice _ _ => List Id
  | pendingOfVendor _ _ => List Id
  | awaitingOfVendor _ _ => List Id
  | findGrants _ _ _ => List Id
  | findVendorInScope _ _ _ => Option Vendor
  | findLines _ => List InvoiceLine
  | load _ => Option (Document × DocumentProcessing)
  | documentStorage _ _ => Option DocumentStorageState
  | findDuplicate _ _ _ => Option Id

inductive Update
  | insertInvoice (id : Id) (v : Invoice)
  | insertDocument (id : Id) (d : Document)
  | insertProcessing (documentId : Id) (p : DocumentProcessing)
  | insertPolicy (organizationId : Id)
  | insertRisk (r : RiskAssessment)
  | insertRequest (r : ApprovalRequest)
  | insertDecision (d : ApprovalDecision)
  | insertBank (b : VendorBankAccountVersion)
  | insertAudit (a : AuditEvent)
  | updateInvoice (id : Id) (change : InvoiceChange)
  | updateRequest (id : Id) (change : RequestChange)
  | updateDocument (id : Id) (change : DocumentChange)
  | updateProcessing (documentId : Id) (change : ProcessingChange)
  | updatePolicy (organizationId : Id) (change : PolicyChange)
  | deleteLines (invoiceId : Id)
  | createLines (invoiceId : Id) (lines : List InvoiceLine)
  | advisoryLock (organizationId : Id) (sha256 : Digest)
  deriving DecidableEq, Repr

/-- An insert that lets the database choose the identifier answers it, an update its count. -/
@[reducible] def Update.Out : Update → Type
  | insertPolicy _ => OrganizationRiskPolicy
  | updatePolicy _ _ => OrganizationRiskPolicy
  | insertRisk _ => Id
  | insertRequest _ => Id
  | insertBank _ => Id
  | updateInvoice _ _ => Nat
  | updateRequest _ _ => Nat
  | updateDocument _ _ => Nat
  | updateProcessing _ _ => Nat
  | _ => Unit

/-- Calls that leave the database. -/
inductive External
  | clock
  | randomUUID
  | randomObjectKey
  | putObject (bucket : Bucket) (key : Id) (bytes : Bytes)
  | getObject (bucket : Bucket) (key : Id)
  | deleteObject (bucket : Bucket) (key : Id)
  | scanFile (bytes : Bytes)
  | extractSuggestions (bytes : Bytes) (mimeType : Text)
  | enqueue (job : InvoiceIngestJob)
  deriving DecidableEq, Repr

@[reducible] def External.Out : External → Type
  | clock => Time
  | randomUUID => Id
  | randomObjectKey => Id
  | putObject _ _ _ => Unit
  | getObject _ _ => Bytes
  | deleteObject _ _ => Unit
  | scanFile _ => Bool
  | extractSuggestions _ _ => OcrResult
  | enqueue _ => Unit

inductive Stmt
  | read (q : Query)
  | write (u : Update)
  | call (c : External)
  deriving DecidableEq, Repr

@[reducible] def Out : Stmt → Type
  | .read q => q.Out
  | .write u => u.Out
  | .call c => c.Out

section Answers

variable (cfg : Config)

def approverRoles : List MembershipRole := [.owner, .administrator, .accountant]

/-- A row that a condition selects. -/
def rowWhere {α : Type} (condition : α → Bool) (row : Option α) : Option α :=
  row.filter condition

/-- `findFirst` over candidates in any order: any one of them, none only when there is none. -/
def anyOf {α : Type} (choice : Nat) (candidates : List α) : Option (Option α) :=
  if candidates.isEmpty then some none else candidates[choice]?.map some

def answer (choice : Nat) (db : Db) : (q : Query) → Option q.Out
  | .findInvoice org id => some (rowWhere (·.organizationId = org) (db.invoice id))
  | .findDocuments org invoiceId =>
      some (db.documents.filter fun (_, d) => d.organizationId = org ∧ d.invoiceId = invoiceId)
  | .findProcessings ids => some (ids.map db.processing)
  | .findContract id => some (db.contract id)
  | .findContractOf org id vendorId =>
      some (rowWhere (fun c => c.organizationId = org ∧ c.vendorId = vendorId)
        (db.contract id))
  | .findVendor org id => some (rowWhere (·.organizationId = org) (db.vendor id))
  | .findRequestByKey org hash =>
      anyOf choice (db.requests.filter fun (_, r) =>
        r.organizationId = org ∧ r.idempotencyKeyHash = hash)
  | .findRequest org id => some (rowWhere (·.organizationId = org) (db.request id))
  | .findRisk id => some (db.risk id)
  | .findDecisions requestId =>
      some (sortBy (·.createdAt) ((db.decisions.filter fun (rm, _) => rm.1 = requestId).map
        Prod.snd))
  | .findDecisionByKey org hash =>
      anyOf choice ((db.decisions.filter fun (_, d) =>
        d.organizationId = org ∧ d.idempotencyKeyHash = hash).map Prod.snd)
  | .latestRequest org invoiceId =>
      some ((db.requests.filter fun (_, r) =>
        r.organizationId = org ∧ r.invoiceId = invoiceId).map (·.2.version)).max?
  | .latestBank org vendorId =>
      anyOf choice (greatest (·.2.versionNumber) (db.banks.filter fun (_, b) =>
        b.organizationId = org ∧ b.vendorId = vendorId))
  | .countSameNumber org vendorId number exclude =>
      -- `equals` in mode `insensitive` is `ILIKE`, for which `_`, `%` and a backslash are
      -- wildcards; what is assumed here is equality up to letter case
      some (db.invoices.filter fun (id, v) =>
        v.organizationId = org ∧ v.vendorId = some vendorId ∧ id ≠ exclude ∧
          v.invoiceNumber.map cfg.toLowerCase = some (cfg.toLowerCase number)).length
  | .previousAmounts org vendorId exclude =>
      let others := db.invoices.filter fun (id, v) =>
        v.organizationId = org ∧ v.vendorId = some vendorId ∧ id ≠ exclude ∧
          v.totalAmount ≠ none
      some (((sortBy (·.2.createdAt) others).reverse.take 12).filterMap (·.2.totalAmount))
  | .findPolicy org => some (db.policy org)
  | .findMembership id org user =>
      some (rowWhere (fun m => m.organizationId = org ∧ m.userId = user ∧ m.status = .active ∧
        m.role ∈ approverRoles) (db.membership id))
  | .findApprovers org exclude =>
      some ((sortBy (·.2.createdAt) (db.memberships.filter fun (id, m) =>
        m.organizationId = org ∧ m.status = .active ∧ m.role ∈ approverRoles ∧
          some id ≠ exclude)).map Prod.fst)
  | .findSession id org user now stepUpAfter =>
      some (rowWhere (fun s => s.organizationId = org ∧ s.userId = user ∧ s.revokedAt = none ∧
        now < s.expiresAt ∧ s.stepUpVerifiedAt.any (stepUpAfter ≤ ·)) (db.session id))
  | .countApprovals org requestId version =>
      some (db.decisions.filter fun (_, d) =>
        d.organizationId = org ∧ d.approvalRequestId = requestId ∧
          d.approvalVersion = version ∧ d.outcome = .approve).length
  | .pendingOfInvoice org invoiceId =>
      some ((db.requests.filter fun (_, r) =>
        r.organizationId = org ∧ r.invoiceId = invoiceId ∧ r.status = .pending).map Prod.fst)
  | .pendingOfVendor org vendorId =>
      some ((db.requests.filter fun (_, r) =>
        r.organizationId = org ∧ r.status = .pending ∧
          (db.invoice r.invoiceId).any (·.vendorId = some vendorId)).map Prod.fst)
  | .awaitingOfVendor org vendorId =>
      some ((db.invoices.filter fun (_, v) =>
        v.organizationId = org ∧ v.vendorId = some vendorId ∧
          v.status = .awaitingApproval).map Prod.fst)
  | .findGrants org membershipId now =>
      some ((db.grants.filter fun (_, g) =>
        g.organizationId = org ∧ g.membershipId = membershipId ∧ g.validFrom ≤ now ∧
          g.validUntil.all (now < ·)).map (·.2.buildingId))
  | .findVendorInScope org id buildings =>
      some (rowWhere (fun v => v.organizationId = org ∧ buildings.all fun bs =>
        db.vendorBuildings.any fun (link, _) => link.1 = id ∧ link.2 ∈ bs)
        (db.vendor id))
  | .findLines invoiceId => some (db.lines invoiceId)
  | .load job =>
      some (do
        let d ← rowWhere (fun d => d.invoiceId = job.invoiceId ∧
          d.organizationId = job.organizationId) (db.document job.documentId)
        let p ← rowWhere (·.organizationId = d.organizationId) (db.processing job.documentId)
        return (d, p))
  | .documentStorage org documentId =>
      some ((rowWhere (·.organizationId = org) (db.document documentId)).map (·.storageState))
  | .findDuplicate org sha exclude =>
      (anyOf choice (least (·.2.createdAt) (db.documents.filter fun (id, d) =>
        d.organizationId = org ∧ d.sha256 = some sha ∧ id ≠ exclude))).map
        fun found => found.map Prod.fst

/-- `INSERT` of the row `k` with its entries in unique indexes. -/
def insertRow (db : Db) (k : Key) (v : Val k) (indexes : List UniqueIndex) :
    Except Failure Db :=
  if k ∈ db.keys ∨ ∃ u ∈ indexes, Key.unique u ∈ db.keys then .error .uniqueViolation
  else .ok (⟨k, v⟩ :: indexes.map fun u => ⟨.unique u, ()⟩)

/-- `UPDATE` of the row `k`: the number of rows changed, and the new version. -/
def updateRow (db : Db) (k : Key) (applies : Val k → Bool)
    (change : Val k → Except Failure (Val k)) : Except Failure (Nat × Db) :=
  match Log.row k db with
  | none => .ok (0, [])
  | some v =>
      if applies v then (change v).map fun w => (1, [⟨k, w⟩]) else .ok (0, [])

/-- The value, unless a trigger or a check refuses it. -/
def admitted {α : Type} (v : α) (triggers : List (Bool × String)) (checks : Bool)
    (constraint : String) : Except Failure α :=
  match triggers.find? (fun t => !t.1) with
  | some t => .error (.raised t.2)
  | none => if checks then .ok v else .error (.check constraint)

def changeInvoice (db : Db) (id : Id) (change : InvoiceChange) (old : Invoice) :
    Except Failure Invoice :=
  let new := change.apply old
  admitted new
    [(guardInvoiceApproval db id old new, "invoice requires a completed approval request"),
     (!change.setsContract || validateInvoiceContractVendor db new,
      "invoice contract does not belong to vendor")]
    (invoiceChecks new) "Invoice_check"

def changeRequest (change : RequestChange) (old : ApprovalRequest) :
    Except Failure ApprovalRequest :=
  let new := change.apply old
  admitted new
    [(validateApprovalRequestUpdate old new, "completed approval request is immutable")]
    (requestChecks new) "ApprovalRequest_values_check"

def changeDocument (change : DocumentChange) (old : Document) : Except Failure Document :=
  let new := change.apply old
  admitted new [(protectDocumentIdentity old new, "document identity is immutable")]
    (documentChecks new) "Document_size_check"

def changeProcessing (change : ProcessingChange) (old : DocumentProcessing) :
    Except Failure DocumentProcessing :=
  let new := change.apply old
  admitted new
    [(validateDocumentProcessingTransition old.state new.state,
      "invalid document processing transition")]
    (processingChecks new) "DocumentProcessing_progress_check"

def insertChecked (db : Db) (k : Key) (v : Val k) (indexes : List UniqueIndex)
    (checks : Bool) (constraint : String) : Except Failure Db :=
  if checks then insertRow db k v indexes else .error (.check constraint)

def performUpdate (choice : Nat) (db : Db) : (u : Update) → Except Failure (u.Out × Db)
  | .insertInvoice id v =>
      if validateInvoiceContractVendor db v then
        (insertChecked db (.invoice id) v [] (invoiceChecks v) "Invoice_check").map ((), ·)
      else .error (.raised "invoice contract does not belong to vendor")
  | .insertDocument id d =>
      (insertChecked db (.document id) d [] (documentChecks d) "Document_size_check").map ((), ·)
  | .insertProcessing documentId p =>
      (insertChecked db (.processing documentId) p [] (processingChecks p)
        "DocumentProcessing_progress_check").map ((), ·)
  | .insertPolicy org =>
      (insertRow db (.policy org) defaultPolicy []).map (defaultPolicy, ·)
  | .insertRisk r =>
      (insertChecked db (.risk choice) r
        [.riskAssessment r.organizationId r.invoiceId r.invoiceVersion] (riskChecks r)
        "RiskAssessment_values_check").map (choice, ·)
  | .insertRequest r =>
      (insertChecked db (.request choice) r
        [.requestVersion r.organizationId r.invoiceId r.version,
         .requestKey r.organizationId r.idempotencyKeyHash] (requestChecks r)
        "ApprovalRequest_values_check").map (choice, ·)
  | .insertDecision d =>
      (insertChecked db (.decision d.approvalRequestId d.decidedByMembershipId) d
        [.decisionKey d.organizationId d.idempotencyKeyHash] (decisionChecks d)
        "ApprovalDecision_values_check").map ((), ·)
  | .insertBank b =>
      (insertRow db (.bank choice) b
        [.bankVersion b.organizationId b.vendorId b.versionNumber]).map (choice, ·)
  | .insertAudit a => (insertRow db (.audit choice) a []).map ((), ·)
  | .updateInvoice id c => updateRow db (.invoice id) c.applies (changeInvoice db id c)
  | .updateRequest id c => updateRow db (.request id) c.applies (changeRequest c)
  | .updateDocument id c => updateRow db (.document id) c.applies (changeDocument c)
  | .updateProcessing id c => updateRow db (.processing id) c.applies (changeProcessing c)
  | .updatePolicy org c =>
      match db.policy org with
      | none => .error .recordNotFound
      | some p =>
          if policyChecks (c.apply p) then .ok (c.apply p, [⟨.policy org, c.apply p⟩])
          else .error (.check "OrganizationRiskPolicy_thresholds_check")
  | .deleteLines invoiceId => .ok ((), [⟨.lines invoiceId, []⟩])
  | .createLines invoiceId lines =>
      if lines.all lineChecks then
        .ok ((), [⟨.lines invoiceId, db.lines invoiceId ++ lines⟩])
      else .error (.check "InvoiceLine_values_check")
  | .advisoryLock org sha => .ok ((), [⟨.advisory org sha, ()⟩])

/-- A random object key has never been drawn before; `none` excludes the other choices. -/
def reply (choice : Nat) (db : Db) : (c : External) → Option (Except Failure (c.Out × Db))
  | .clock => some (.ok (choice, []))
  | .randomUUID => some (.ok (choice, []))
  | .randomObjectKey =>
      if Key.drawn choice ∈ db.keys then none
      else some (.ok (choice, [⟨.drawn choice, ()⟩]))
  | .putObject bucket key bytes => some (.ok ((), [⟨.object bucket key, some bytes⟩]))
  | .getObject bucket key =>
      match db.object bucket key with
      | some bytes => some (.ok (bytes, []))
      | none => some (.error (.unavailable "Object storage status 404."))
  | .deleteObject bucket key => some (.ok ((), [⟨.object bucket key, none⟩]))
  | .scanFile _ => some (.ok (decide (choice ≠ 0), []))
  | .extractSuggestions bytes mimeType =>
      some (.ok (cfg.extractSuggestions bytes mimeType, []))
  | .enqueue _ => some (.ok ((), []))

def engine : Engine Val Out Failure
  | .read q, choice, db => (answer cfg choice db q).map fun out => .ok (out, [])
  | .write u, choice, db => some (performUpdate choice db u)
  | .call c, choice, db => reply cfg choice db c

end Answers
end BlocTrust
