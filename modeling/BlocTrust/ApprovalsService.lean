import BlocTrust.Services

/-!
`ApprovalsService`: submission of a reviewed invoice, decisions of approvers, and the
organization's risk policy.
-/
namespace BlocTrust.ApprovalsService

open ReadCommitted Prog

structure SubmitInvoiceDto where
  version : Nat
  deriving DecidableEq, Repr

structure ApprovalDecisionDto where
  approvalVersion : Nat
  outcome : ApprovalDecisionOutcome
  reason : Text
  deriving DecidableEq, Repr

structure UpdateRiskPolicyDto where
  mediumThreshold : Field Nat
  highThreshold : Field Nat
  changedBankAccountScore : Field Nat
  duplicateHashScore : Field Nat
  duplicateInvoiceNumberScore : Field Nat
  contractLimitScore : Field Nat
  amountSpikeScore : Field Nat
  deriving DecidableEq, Repr

/-- The invoice columns that `requestInclude` selects. -/
structure InvoiceSummary where
  id : Id
  invoiceNumber : Option Text
  totalAmount : Option Cents
  currency : Option Text
  status : InvoiceStatus
  version : Nat
  vendorId : Option Id
  deriving DecidableEq, Repr

structure RequestDetails where
  id : Id
  request : ApprovalRequest
  invoice : InvoiceSummary
  riskAssessment : RiskAssessment
  decisions : List ApprovalDecision
  deriving DecidableEq, Repr

structure ApprovalView extends RequestDetails where
  eligibleApprovers : List Id
  deriving DecidableEq, Repr

def approvalView (details : RequestDetails) (eligibleApprovers : List Id) : ApprovalView :=
  { details with eligibleApprovers := eligibleApprovers }

def notFound : Failure := .notFound "INVOICE_NOT_FOUND"
def approvalNotFound : Failure := .notFound "APPROVAL_REQUEST_NOT_FOUND"
def staleInvoice : Failure := .conflict "STALE_INVOICE_VERSION"
def staleApproval : Failure := .conflict "STALE_APPROVAL_VERSION"
def idempotencyConflict : Failure := .conflict "IDEMPOTENCY_KEY_REUSED"
def approvalForbidden (code : String) : Failure := .forbidden code

/-- The trimmed key when it has between 16 and 200 characters. -/
def normalizedKey (key : Option Text) : Option Text :=
  (key.map trim).filter fun t => 16 ≤ textLength t ∧ textLength t ≤ 200

def idempotencyKeyHash (cfg : Config) (key : Option Text) : Program Digest := do
  let normalized ← orThrow (normalizedKey key) (.unprocessable "IDEMPOTENCY_KEY_REQUIRED")
  return cfg.sha256 (utf8 normalized)

def summary (id : Id) (v : Invoice) : InvoiceSummary :=
  { id := id
    invoiceNumber := v.invoiceNumber
    totalAmount := v.totalAmount
    currency := v.currency
    status := v.status
    version := v.version
    vendorId := v.vendorId }

/-- The relations of `requestInclude`, each read by a statement of its own. -/
def requestDetails (id : Id) (request : ApprovalRequest) : Program RequestDetails := do
  let found ← query (.findInvoice request.organizationId request.invoiceId)
  let invoice ← orThrow found .recordNotFound
  let found ← query (.findRisk request.riskAssessmentId)
  let risk ← orThrow found .recordNotFound
  let decisions ← query (.findDecisions id)
  return { id := id
           request := request
           invoice := summary request.invoiceId invoice
           riskAssessment := risk
           decisions := decisions }

def policy (organizationId : Id) : Program OrganizationRiskPolicy := do
  match ← query (.findPolicy organizationId) with
  | some existing => return existing
  | none => update (.insertPolicy organizationId)

def eligibleApprovers (organizationId : Id) (request : ApprovalRequest) :
    Program (List Id) := do
  let policy ← policy organizationId
  query (.findApprovers organizationId
    (if policy.requireSeparationOfDuties then some request.initiatedByMembershipId else none))

def invalidate (id : Id) (request : ApprovalRequest) (reason : String) : Program Unit := do
  let _ ← update (.updateRequest id (.invalidated reason))
  let _ ← update (.updateInvoice request.invoiceId (.returned request.invoiceVersion))
  return ()

section Submit

/-- The vendor, number and total of an invoice whose review is complete. -/
def reviewed (v : Invoice) (documents : List (Id × Document))
    (processings : List (Option DocumentProcessing)) : Option (Id × Text × Cents) :=
  match v.vendorId, v.invoiceNumber, v.currency, v.totalAmount with
  | some vendorId, some number, some currency, some total =>
      if number ≠ [] ∧ currency ≠ [] ∧ documents ≠ [] ∧
          ((documents.zip processings).all fun (d, p) =>
            d.2.storageState = .approved ∧ p.map (·.scanResult) = some .clean) then
        some (vendorId, number, total)
      else none
  | _, _, _, _ => none

def riskFacts (bank : VendorBankAccountVersion) (documents : List (Id × Document))
    (duplicates : Nat) (total : Cents) (contract : Option Contract)
    (previousAmounts : List Cents) : InvoiceRiskFacts :=
  { bankAccountVersion := some bank.versionNumber
    exactDocumentDuplicate := documents.any (·.2.duplicateOfDocumentId.isSome)
    duplicateInvoiceNumber := 0 < duplicates
    totalAmount := some total
    contractValueLimit := contract.bind (·.valueLimit)
    priorInvoiceAverage := average (previousAmounts.map number) }

def newAssessment (auth : AuthContext) (invoiceId : Id) (v : Invoice)
    (evaluation : RiskEvaluation) : RiskAssessment :=
  { organizationId := auth.organizationId
    invoiceId := invoiceId
    invoiceVersion := v.version + 1
    evaluation := evaluation }

def newRequest (auth : AuthContext) (invoiceId : Id) (v : Invoice) (evaluation : RiskEvaluation)
    (riskId bankId requestVersion : Id) (keyHash : Digest) : ApprovalRequest :=
  { organizationId := auth.organizationId
    invoiceId := invoiceId
    invoiceVersion := v.version + 1
    riskAssessmentId := riskId
    vendorBankAccountVersionId := some bankId
    version := requestVersion
    status := .pending
    requiredDecisions := if evaluation.level = .high then 2 else 1
    initiatedByMembershipId := auth.membershipId
    idempotencyKeyHash := keyHash
    invalidatedReason := none
    completedAt := none }

/-- The writes of `submit`, once the facts are gathered. -/
def createRequest (auth : AuthContext) (invoiceId : Id) (dto : SubmitInvoiceDto) (v : Invoice)
    (evaluation : RiskEvaluation) (bankId requestVersion : Id) (keyHash : Digest) :
    Program ApprovalView := do
  let riskId ← update (.insertRisk (newAssessment auth invoiceId v evaluation))
  let request := newRequest auth invoiceId v evaluation riskId bankId requestVersion keyHash
  let requestId ← update (.insertRequest request)
  let details ← requestDetails requestId request
  let moved ← update (.updateInvoice invoiceId
    (.submitted auth.organizationId dto.version bankId))
  require (moved = 1) staleInvoice
  writeAudit auth "INVOICE_RISK_ASSESSED" "INVOICE" invoiceId none
  writeAudit auth "APPROVAL_REQUEST_CREATED" "APPROVAL_REQUEST" requestId none
  let eligible ← eligibleApprovers auth.organizationId request
  return approvalView details eligible

def assess (cfg : Config) (auth : AuthContext) (invoiceId : Id)
    (contract : Option Contract) (documents : List (Id × Document))
    (vendorId : Id) (invoiceNumber : Text) (total : Cents) :
    Program (Id × RiskEvaluation) := do
  let policy ← policy auth.organizationId
  let found ← query (.latestBank auth.organizationId vendorId)
  let bank ← orThrow found (.unprocessable "VENDOR_BANK_ACCOUNT_REQUIRED")
  let duplicates ← query (.countSameNumber auth.organizationId vendorId invoiceNumber invoiceId)
  let previousAmounts ← query (.previousAmounts auth.organizationId vendorId invoiceId)
  let facts := riskFacts bank.2 documents duplicates total contract previousAmounts
  return (bank.1, evaluateInvoiceRisk (cfg.uuidText invoiceId) facts
    policy.toRiskPolicySnapshot cfg.sha256 cfg.localeCompare)

def findContract : Option Id → Program (Option Contract)
  | none => return none
  | some id => query (.findContract id)

def submitNew (cfg : Config) (auth : AuthContext) (invoiceId : Id) (dto : SubmitInvoiceDto)
    (keyHash : Digest) : Program ApprovalView := do
  let found ← query (.findInvoice auth.organizationId invoiceId)
  let v ← orThrow found notFound
  let contract ← findContract v.contractId
  let documents ← query (.findDocuments auth.organizationId invoiceId)
  let processings ← query (.findProcessings (documents.map Prod.fst))
  require (v.version = dto.version) staleInvoice
  require (v.status = .needsReview) (.conflict "INVOICE_NOT_READY_FOR_SUBMISSION")
  let complete ← orThrow (reviewed v documents processings)
    (.unprocessable "INVOICE_REVIEW_INCOMPLETE")
  let assessed ← assess cfg auth invoiceId contract documents complete.1 complete.2.1
    complete.2.2
  let latest ← query (.latestRequest auth.organizationId invoiceId)
  createRequest auth invoiceId dto v assessed.2 assessed.1 (latest.getD 0 + 1) keyHash

def submit (cfg : Config) (auth : AuthContext) (invoiceId : Id) (dto : SubmitInvoiceDto)
    (idempotencyKey : Option Text) : Program ApprovalView := do
  let keyHash ← idempotencyKeyHash cfg idempotencyKey
  transaction do
    match ← query (.findRequestByKey auth.organizationId keyHash) with
    | some replay => do
        let details ← requestDetails replay.1 replay.2
        require (replay.2.invoiceId = invoiceId) idempotencyConflict
        return approvalView details []
    | none => submitNew cfg auth invoiceId dto keyHash

end Submit

section Decide

/-- Whether the request names the vendor's latest bank account, as far as there is a vendor. -/
def bankIsCurrent (organizationId : Id) (request : ApprovalRequest) (vendorId : Option Id) :
    Program Bool :=
  match vendorId with
  | none => return true
  | some vendorId => do
      match ← query (.latestBank organizationId vendorId) with
      | some latest => return request.vendorBankAccountVersionId == some latest.1
      | none => return false

/-- Eligibility, separation of duties and a fresh passkey step-up of the caller. -/
def authorize (cfg : Config) (auth : AuthContext) (request : ApprovalRequest) :
    Program Time := do
  let found ← query (.findMembership auth.membershipId auth.organizationId auth.userId)
  let _ ← orThrow found (approvalForbidden "APPROVER_NOT_ELIGIBLE")
  let policy ← policy auth.organizationId
  require (¬ (policy.requireSeparationOfDuties = true ∧
    request.initiatedByMembershipId = auth.membershipId))
    (approvalForbidden "SELF_APPROVAL_FORBIDDEN")
  let checkedAt ← now
  let current ← now
  let session ← query (.findSession auth.sessionId auth.organizationId auth.userId current
    (checkedAt - cfg.stepUpTtlMilliseconds))
  orThrow (session.bind (·.stepUpVerifiedAt)) (approvalForbidden "PASSKEY_STEP_UP_REQUIRED")

/-- The decision row; `createdAt` has the default `now()`. -/
def newDecision (auth : AuthContext) (requestId : Id) (request : ApprovalRequest)
    (dto : ApprovalDecisionDto) (keyHash : Digest) (verifiedAt createdAt : Time) :
    ApprovalDecision :=
  { organizationId := auth.organizationId
    approvalRequestId := requestId
    approvalVersion := request.version
    decidedByMembershipId := auth.membershipId
    sessionId := auth.sessionId
    outcome := dto.outcome
    reason := trim dto.reason
    stepUpVerifiedAt := verifiedAt
    idempotencyKeyHash := keyHash
    createdAt := createdAt }

def createDecision (d : ApprovalDecision) : Program Unit :=
  tryCatch (update (.insertDecision d)) fun error =>
    if error = .uniqueViolation then throw (.conflict "DUPLICATE_APPROVAL_DECISION")
    else throw error

/-- The two unconditional updates that end a request; `update` throws when it finds no row. -/
def complete (requestId : Id) (request : ApprovalRequest) (outcome : ApprovalDecisionOutcome) :
    Program Unit := do
  let completedAt ← now
  let requests ← update (.updateRequest requestId (.completed outcome completedAt))
  require (requests ≠ 0) .recordNotFound
  let invoices ← update (.updateInvoice request.invoiceId (.decided outcome))
  require (invoices ≠ 0) .recordNotFound

def settle (auth : AuthContext) (requestId : Id) (request : ApprovalRequest)
    (outcome : ApprovalDecisionOutcome) : Program Unit :=
  match outcome with
  | .reject => complete requestId request .reject
  | .approve => do
      let approvals ← query (.countApprovals auth.organizationId requestId request.version)
      if request.requiredDecisions ≤ approvals then
        complete requestId request .approve
      else return ()

def record (cfg : Config) (auth : AuthContext) (requestId : Id) (request : ApprovalRequest)
    (dto : ApprovalDecisionDto) (keyHash : Digest) : Program ApprovalView := do
  let verifiedAt ← authorize cfg auth request
  let createdAt ← now
  createDecision (newDecision auth requestId request dto keyHash verifiedAt createdAt)
  settle auth requestId request dto.outcome
  writeAudit auth
    (if dto.outcome = .approve then "APPROVAL_DECISION_APPROVED"
      else "APPROVAL_DECISION_REJECTED")
    "APPROVAL_REQUEST" requestId (some dto.reason)
  let found ← query (.findRequest auth.organizationId requestId)
  let updated ← orThrow found .recordNotFound
  let details ← requestDetails requestId updated
  let eligible ← eligibleApprovers auth.organizationId updated
  return approvalView details eligible

/-- `none` stands for the answer `{ stale: true }`. -/
def decideNew (cfg : Config) (auth : AuthContext) (requestId : Id) (dto : ApprovalDecisionDto)
    (keyHash : Digest) : Program (Option ApprovalView) := do
  let found ← query (.findRequest auth.organizationId requestId)
  let request ← orThrow found approvalNotFound
  let details ← requestDetails requestId request
  require (request.status = .pending) (.conflict "APPROVAL_REQUEST_NOT_PENDING")
  require (request.version = dto.approvalVersion) staleApproval
  if details.invoice.version ≠ request.invoiceVersion ∨
      details.invoice.status ≠ .awaitingApproval then do
    invalidate requestId request "INVOICE_VERSION_CHANGED"
    return none
  else do
    let current ← bankIsCurrent auth.organizationId request details.invoice.vendorId
    if current = false then do
      invalidate requestId request "VENDOR_BANK_ACCOUNT_CHANGED"
      return none
    else do
      let view ← record cfg auth requestId request dto keyHash
      return some view

def decide (cfg : Config) (auth : AuthContext) (requestId : Id) (dto : ApprovalDecisionDto)
    (idempotencyKey : Option Text) : Program ApprovalView := do
  let keyHash ← idempotencyKeyHash cfg idempotencyKey
  let result ← transaction do
    match ← query (.findDecisionByKey auth.organizationId keyHash) with
    | some replay => do
        let found ← query (.findRequest auth.organizationId replay.approvalRequestId)
        let request ← orThrow found .recordNotFound
        let details ← requestDetails replay.approvalRequestId request
        require (replay.approvalRequestId = requestId) idempotencyConflict
        return some (approvalView details [])
    | none => decideNew cfg auth requestId dto keyHash
  orThrow result staleApproval

end Decide

section Policy

/-- A JSON `null` for a column is refused by the Prisma client. -/
def assignment (f : Field Nat) : Option (Option Nat) :=
  match f with
  | .absent => some none
  | .null => none
  | .given n => some (some n)

def policyChange (dto : UpdateRiskPolicyDto) : Option PolicyChange := do
  let mediumThreshold ← assignment dto.mediumThreshold
  let highThreshold ← assignment dto.highThreshold
  let changedBankAccountScore ← assignment dto.changedBankAccountScore
  let duplicateHashScore ← assignment dto.duplicateHashScore
  let duplicateInvoiceNumberScore ← assignment dto.duplicateInvoiceNumberScore
  let contractLimitScore ← assignment dto.contractLimitScore
  let amountSpikeScore ← assignment dto.amountSpikeScore
  return { mediumThreshold, highThreshold, changedBankAccountScore, duplicateHashScore,
           duplicateInvoiceNumberScore, contractLimitScore, amountSpikeScore }

def updatePolicy (auth : AuthContext) (dto : UpdateRiskPolicyDto) :
    Program OrganizationRiskPolicy :=
  transaction do
    let existing ← policy auth.organizationId
    let mediumThreshold := (dto.mediumThreshold.orElse none).getD existing.mediumThreshold
    let highThreshold := (dto.highThreshold.orElse none).getD existing.highThreshold
    require (mediumThreshold < highThreshold) (.unprocessable "RISK_THRESHOLDS_INVALID")
    let change ← orThrow (policyChange dto) (.unavailable "PrismaClientValidationError")
    let updated ← update (.updatePolicy auth.organizationId change)
    writeAudit auth "RISK_POLICY_UPDATED" "RISK_POLICY" auth.organizationId none
    return updated

end Policy
end BlocTrust.ApprovalsService
