import BlocTrust.Legal

/-!
What each service has seen before it writes.
A conduct lists, for every statement that changes a row, the answers that led to it in
the same transaction, and what a transaction has completed when it commits.  No other
statement writes, and no transaction changes an invoice or a request twice.
-/
namespace BlocTrust

open ReadCommitted

abbrev Saw (calls : Calls Out) (q : Query) (out : q.Out) : Prop :=
  (⟨.read q, out⟩ : Sigma Out) ∈ calls

abbrev Did (calls : Calls Out) (u : Update) (out : u.Out) : Prop :=
  (⟨.write u, out⟩ : Sigma Out) ∈ calls

abbrev Called (calls : Calls Out) (c : External) (out : c.Out) : Prop :=
  (⟨.call c, out⟩ : Sigma Out) ∈ calls

def InvoiceUntouched (cur : Calls Out) (id : Id) : Prop :=
  ∀ c n, ¬ Did cur (.updateInvoice id c) n

def RequestUntouched (cur : Calls Out) (id : Id) : Prop :=
  ∀ c n, ¬ Did cur (.updateRequest id c) n

/-- The row reads of the multi-row updates name each row once. -/
def Answers : (s : Stmt) → Out s → Prop
  | .read (.pendingOfInvoice _ _), ids => List.Nodup ids
  | .read (.pendingOfVendor _ _), ids => List.Nodup ids
  | .read (.awaitingOfVendor _ _), ids => List.Nodup ids
  | _, _ => True

section Submit

variable (auth : AuthContext) (invoiceId : Id) (dto : ApprovalsService.SubmitInvoiceDto)

/-- The invoice as `submit` read it and found it ready. -/
structure SubmitReady (cur : Calls Out) (v : Invoice) : Prop where
  seen : Saw cur (.findInvoice auth.organizationId invoiceId) (some v)
  version : v.version = dto.version
  status : v.status = .needsReview

/-- The assessment belongs to the version that the submission creates. -/
structure Assesses (v : Invoice) (a : RiskAssessment) : Prop where
  organization : a.organizationId = auth.organizationId
  invoice : a.invoiceId = invoiceId
  version : a.invoiceVersion = dto.version + 1
  total : a.evaluation.facts.totalAmount = v.totalAmount

structure RequestReady (cur : Calls Out) (r : ApprovalRequest) : Prop where
  basis : ∃ v vendorId bank a riskId requestVersion keyHash,
    SubmitReady auth invoiceId dto cur v ∧ v.vendorId = some vendorId ∧
      Saw cur (.latestBank auth.organizationId vendorId) (some bank) ∧
      Did cur (.insertRisk a) riskId ∧ Assesses auth invoiceId dto v a ∧
      r = ApprovalsService.newRequest auth invoiceId v a.evaluation riskId bank.1
        requestVersion keyHash
  once : ∀ r' id, ¬ Did cur (.insertRequest r') id

def submitConduct : Conduct Out where
  before _ cur
    | .write (.insertRisk a) => ∃ v, SubmitReady auth invoiceId dto cur v ∧
        Assesses auth invoiceId dto v a
    | .write (.insertRequest r) => RequestReady auth invoiceId dto cur r
    | .write (.updateInvoice id c) => id = invoiceId ∧ InvoiceUntouched cur id ∧
        ∃ r requestId bankId, Did cur (.insertRequest r) requestId ∧
          r.vendorBankAccountVersionId = some bankId ∧
          c = .submitted auth.organizationId dto.version bankId
    | .write (.insertPolicy _) => True
    | .write (.insertAudit _) => True
    | .write _ => False
    | _ => True
  due _ cur := ∀ r requestId, Did cur (.insertRequest r) requestId →
    ∃ bankId, r.vendorBankAccountVersionId = some bankId ∧
      Did cur (.updateInvoice invoiceId (.submitted auth.organizationId dto.version bankId)) 1
  answers := Answers

end Submit

section Decide

variable (cfg : Config) (auth : AuthContext) (requestId : Id)

/-- The request as `decide` first read it, still pending, with the invoice it belongs to. -/
structure DecideSeen (cur : Calls Out) (r : ApprovalRequest) (v : Invoice) : Prop where
  request : Saw cur (.findRequest auth.organizationId requestId) (some r)
  invoice : Saw cur (.findInvoice r.organizationId r.invoiceId) (some v)
  pending : r.status = .pending

structure DecideReady (cur : Calls Out) (r : ApprovalRequest) (v : Invoice) : Prop
    extends DecideSeen auth requestId cur r v where
  version : v.version = r.invoiceVersion
  status : v.status = .awaitingApproval

/-- The caller may decide: the bank account, the policy, the membership and the session. -/
structure Authorized (cur : Calls Out) (r : ApprovalRequest) (v : Invoice)
    (d : ApprovalDecision) : Prop where
  bank : ∀ vendorId, v.vendorId = some vendorId → ∃ bank,
    Saw cur (.latestBank auth.organizationId vendorId) (some bank) ∧
      r.vendorBankAccountVersionId = some bank.1
  membership : ∃ m, Saw cur (.findMembership auth.membershipId auth.organizationId auth.userId)
    (some m)
  policy : ∃ p, (Saw cur (.findPolicy auth.organizationId) (some p) ∨
      Did cur (.insertPolicy auth.organizationId) p) ∧
    ¬ (p.requireSeparationOfDuties = true ∧ r.initiatedByMembershipId = auth.membershipId)
  session : ∃ (current checkedAt : Time) (session : Session),
    Saw cur (.findSession auth.sessionId auth.organizationId auth.userId current
      (checkedAt - cfg.stepUpTtlMilliseconds)) (some session) ∧
      session.stepUpVerifiedAt = some d.stepUpVerifiedAt

/-- A decision that `decide` may record. -/
structure DecisionReady (cur : Calls Out) (d : ApprovalDecision) (r : ApprovalRequest)
    (v : Invoice) : Prop where
  ready : DecideReady auth requestId cur r v
  authorized : Authorized cfg auth cur r v d
  organization : d.organizationId = auth.organizationId
  request : d.approvalRequestId = requestId
  version : d.approvalVersion = r.version
  membership : d.decidedByMembershipId = auth.membershipId
  session : d.sessionId = auth.sessionId

/-- The request may be completed: the caller's decision is in, and for an approval the
decisions that were counted are enough. -/
structure CompleteReady (cur : Calls Out) (r : ApprovalRequest) (v : Invoice)
    (outcome : ApprovalDecisionOutcome) : Prop where
  ready : DecideReady auth requestId cur r v
  decision : ∃ d, Did cur (.insertDecision d) () ∧ d.approvalRequestId = requestId ∧
    d.outcome = outcome
  counted : outcome = .approve → ∃ n,
    Saw cur (.countApprovals auth.organizationId requestId r.version) n ∧
    r.requiredDecisions ≤ n

def decideBefore (cur : Calls Out) : Stmt → Prop
  | .read (.latestBank _ _) => ∃ r v, DecideReady auth requestId cur r v
  | .read (.countApprovals org id version) => org = auth.organizationId ∧ id = requestId ∧
      ∃ r v d, DecideReady auth requestId cur r v ∧ version = r.version ∧
        Did cur (.insertDecision d) () ∧ d.outcome = .approve
  | .write (.insertDecision d) => (∃ r v, DecisionReady cfg auth requestId cur d r v) ∧
      ∀ d', ¬ Did cur (.insertDecision d') ()
  | .write (.updateRequest id (.completed outcome _)) => id = requestId ∧
      RequestUntouched cur id ∧ ∃ r v, CompleteReady auth requestId cur r v outcome
  | .write (.updateRequest id (.invalidated _)) => id = requestId ∧
      RequestUntouched cur id ∧ (∃ r v, DecideSeen auth requestId cur r v) ∧
      ∀ d, ¬ Did cur (.insertDecision d) ()
  | .write (.updateInvoice id (.decided outcome)) => InvoiceUntouched cur id ∧
      ∃ r v completedAt n, CompleteReady auth requestId cur r v outcome ∧
        id = r.invoiceId ∧
        Did cur (.updateRequest requestId (.completed outcome completedAt)) n ∧ n ≠ 0
  | .write (.updateInvoice id (.returned version)) => InvoiceUntouched cur id ∧
      ∃ r v reason n, DecideSeen auth requestId cur r v ∧ id = r.invoiceId ∧
        version = r.invoiceVersion ∧ Did cur (.updateRequest requestId (.invalidated reason)) n
  | .write (.insertPolicy _) => True
  | .write (.insertAudit _) => True
  | .write _ => False
  | _ => True

/-- What a committing `decide` has completed. -/
structure DecideDue (cur : Calls Out) : Prop where
  settled : ∀ d, Did cur (.insertDecision d) () → ∃ r v, DecideReady auth requestId cur r v ∧
    (d.outcome = .reject → ∃ completedAt n, n ≠ 0 ∧
      Did cur (.updateRequest requestId (.completed .reject completedAt)) n) ∧
    (d.outcome = .approve → ∃ n,
      Saw cur (.countApprovals auth.organizationId requestId r.version) n ∧
      (r.requiredDecisions ≤ n → ∃ completedAt m, m ≠ 0 ∧
        Did cur (.updateRequest requestId (.completed .approve completedAt)) m))
  completed : ∀ outcome completedAt n,
    Did cur (.updateRequest requestId (.completed outcome completedAt)) n →
    ∃ r v m, DecideReady auth requestId cur r v ∧ m ≠ 0 ∧
      Did cur (.updateInvoice r.invoiceId (.decided outcome)) m
  invalidated : ∀ reason n, Did cur (.updateRequest requestId (.invalidated reason)) n →
    ∃ r v m, DecideSeen auth requestId cur r v ∧
      Did cur (.updateInvoice r.invoiceId (.returned r.invoiceVersion)) m

def decideConduct : Conduct Out where
  before _ cur := decideBefore cfg auth requestId cur
  due _ cur := DecideDue auth requestId cur
  answers := Answers

end Decide

def updatePolicyConduct (organizationId : Id) : Conduct Out where
  before _ _
    | .write (.updatePolicy org _) => org = organizationId
    | .write (.insertPolicy _) => True
    | .write (.insertAudit _) => True
    | .write _ => False
    | _ => True
  due _ _ := True
  answers := Answers

section Update

variable (auth : AuthContext) (invoiceId : Id) (dto : InvoicesService.UpdateInvoiceDraftDto)

/-- The invoice as `update` first read it, in a status that may be edited. -/
structure EditSeen (cur : Calls Out) (v : Invoice) : Prop where
  seen : Saw cur (.findInvoice auth.organizationId invoiceId) (some v)
  editable : v.status = .needsReview ∨ v.status = .awaitingApproval ∨ v.status = .manualReview

/-- Every request that was found pending has been told that the invoice data changed. -/
def Invalidated (cur : Calls Out) : Prop :=
  ∃ ids, Saw cur (.pendingOfInvoice auth.organizationId invoiceId) ids ∧
    ∀ id ∈ ids, ∃ n, Did cur (.updateRequest id (.invalidated "INVOICE_DATA_CHANGED")) n

structure EditReady (cur : Calls Out) (e : InvoiceEdit) (v : Invoice) : Prop
    extends EditSeen auth invoiceId cur v where
  invalidates : e.invalidatesApproval = true ↔ v.status = .awaitingApproval
  frozen : v.status = .awaitingApproval → Invalidated auth invoiceId cur

def updateConduct : Conduct Out where
  before _ cur
    | .write (.updateRequest id c) => c = .invalidated "INVOICE_DATA_CHANGED" ∧
        RequestUntouched cur id ∧
        (∃ v, EditSeen auth invoiceId cur v ∧ v.status = .awaitingApproval) ∧
        ∃ ids, Saw cur (.pendingOfInvoice auth.organizationId invoiceId) ids ∧ id ∈ ids
    | .write (.updateInvoice id c) => id = invoiceId ∧ InvoiceUntouched cur id ∧
        ∃ e v, EditReady auth invoiceId cur e v ∧ c = .edited auth.organizationId dto.version e
    | .write (.deleteLines id) => id = invoiceId ∧
        ∃ e, Did cur (.updateInvoice id (.edited auth.organizationId dto.version e)) 1
    | .write (.createLines id _) => id = invoiceId ∧
        ∃ e, Did cur (.updateInvoice id (.edited auth.organizationId dto.version e)) 1
    | .write (.insertAudit _) => True
    | .write _ => False
    | _ => True
  due _ cur := ∃ e, Did cur (.updateInvoice invoiceId (.edited auth.organizationId dto.version e)) 1
  answers := Answers

end Update

section Bank

variable (auth : AuthContext) (vendorId : Id)

/-- The requests found pending are invalidated. -/
def Frozen (cur : Calls Out) : Prop :=
  ∃ ids, Saw cur (.pendingOfVendor auth.organizationId vendorId) ids ∧
    ∀ id ∈ ids, ∃ n, Did cur (.updateRequest id (.invalidated "VENDOR_BANK_ACCOUNT_CHANGED")) n

def addBankVersionConduct : Conduct Out where
  before _ cur
    | .write (.insertBank b) => b.organizationId = auth.organizationId ∧ b.vendorId = vendorId ∧
        ∃ latest : Option (Id × VendorBankAccountVersion),
          Saw cur (.latestBank auth.organizationId vendorId) latest ∧
          b.versionNumber = (latest.map (·.2.versionNumber)).getD 0 + 1
    | .write (.updateRequest id c) => c = .invalidated "VENDOR_BANK_ACCOUNT_CHANGED" ∧
        RequestUntouched cur id ∧
        (∃ b bankId, Did cur (.insertBank b) bankId ∧ 1 < b.versionNumber) ∧
        (∃ ids, Saw cur (.pendingOfVendor auth.organizationId vendorId) ids ∧ id ∈ ids) ∧
        ∀ ids, ¬ Saw cur (.awaitingOfVendor auth.organizationId vendorId) ids
    | .write (.updateInvoice id c) => c = .frozen auth.organizationId vendorId ∧
        InvoiceUntouched cur id ∧ (∃ b bankId, Did cur (.insertBank b) bankId) ∧
        Frozen auth vendorId cur ∧
        ∃ ids, Saw cur (.awaitingOfVendor auth.organizationId vendorId) ids ∧ id ∈ ids
    | .write (.insertAudit _) => True
    | .write _ => False
    | _ => True
  due _ cur := ∀ b bankId, Did cur (.insertBank b) bankId → 1 < b.versionNumber →
    Frozen auth vendorId cur ∧
    ∃ ids, Saw cur (.awaitingOfVendor auth.organizationId vendorId) ids ∧
      ∀ id ∈ ids, ∃ n, Did cur (.updateInvoice id (.frozen auth.organizationId vendorId)) n
  answers := Answers

end Bank

section Upload

variable (organizationId : Id)

def uploadConduct : Conduct Out where
  before past cur
    | .write (.insertInvoice _ v) => v.organizationId = organizationId ∧
        v.status = .processing ∧ v.version = 1 ∧ ∀ i' v', ¬ Did cur (.insertInvoice i' v') ()
    | .write (.insertDocument _ d) => d.organizationId = organizationId ∧
        d.storageState = .quarantined ∧ d.approvedObjectKey = none ∧ d.sha256 = none ∧
        d.duplicateOfDocumentId = none ∧ (∃ v, Did cur (.insertInvoice d.invoiceId v) ()) ∧
        ∀ i' d', ¬ Did cur (.insertDocument i' d') ()
    | .write (.insertProcessing id p) => p.organizationId = organizationId ∧
        p.state = .quarantined ∧ p.scanResult = .pending ∧
        (∃ d, Did cur (.insertDocument id d) ()) ∧
        ∀ i' p', ¬ Did cur (.insertProcessing i' p') ()
    | .write (.updateProcessing id c) => (∃ code, c = .queueFailed organizationId code) ∧
        (∃ d, Did past (.insertDocument id d) ()) ∧
        (∀ i p, ¬ Did cur (.insertProcessing i p) ()) ∧
        ∀ c n, ¬ Did cur (.updateProcessing id c) n
    | .write (.updateInvoice id c) => c = .queueFailed organizationId ∧
        InvoiceUntouched cur id ∧ (∀ i v, ¬ Did cur (.insertInvoice i v) ()) ∧
        ∃ documentId d n code, Did past (.insertDocument documentId d) () ∧
          d.invoiceId = id ∧
          Did cur (.updateProcessing documentId (.queueFailed organizationId code)) n
    | .write (.insertAudit _) => True
    | .write _ => False
    | _ => True
  due past cur :=
    (∀ id v, Did cur (.insertInvoice id v) () → ∃ documentId d p,
      Did cur (.insertDocument documentId d) () ∧ d.invoiceId = id ∧
        Did cur (.insertProcessing documentId p) ()) ∧
    (∀ documentId code n,
      Did cur (.updateProcessing documentId (.queueFailed organizationId code)) n →
      ∃ d m, Did past (.insertDocument documentId d) () ∧
        Did cur (.updateInvoice d.invoiceId (.queueFailed organizationId)) m)
  answers := Answers

end Upload

section Process

variable (cfg : Config) (job : InvoiceIngestJob)

/-- The document of the job as the attempt loaded it, not yet at an end. -/
structure Loaded (past : Calls Out) (d : Document) (p : DocumentProcessing) : Prop where
  seen : Saw past (.load job) (some (d, p))
  unfinished : p.state ≠ .needsReview ∧ p.state ≠ .manualReview ∧ p.state ≠ .blocked

def ProcessingReady (past cur : Calls Out) : ProcessingChange → Prop
  | .progressed org state _ _ scan => org = job.organizationId ∧ ∃ d p, Loaded job past d p ∧
      ((state = .scanning ∧ scan = none ∧ d.storageState = .quarantined) ∨
        (state = .parsed ∧ scan = some .clean ∧ d.storageState ≠ .quarantined))
  | .parsed org => org = job.organizationId ∧ ∃ key sha duplicate n,
      Did cur (.updateDocument job.documentId (.promoted org key sha duplicate)) n
  | .suggested org _ => org = job.organizationId
  | .blocked org => org = job.organizationId ∧
      ∃ n, Did cur (.updateDocument job.documentId (.blocked org)) n
  | .manualReview org _ => org = job.organizationId
  | .reset org storage => org = job.organizationId ∧
      Saw cur (.documentStorage org job.documentId) (some storage)
  | .queueFailed _ _ => False

def DocumentReady (past cur : Calls Out) : DocumentChange → Prop
  | .promoted org key sha duplicate => org = job.organizationId ∧
      Did cur (.advisoryLock org sha) () ∧
      Saw cur (.findDuplicate org sha job.documentId) duplicate ∧
      (∃ bytes, Called past (.scanFile bytes) true ∧ sha = cfg.sha256 bytes) ∧
      Called past .randomObjectKey key ∧
      ∀ o k s d n, ¬ Did past (.updateDocument job.documentId (.promoted o k s d)) n
  | .blocked org => org = job.organizationId

def WorkerInvoiceReady (past cur : Calls Out) : InvoiceChange → Prop
  | .suggested org => org = job.organizationId ∧
      ∃ ocr n, Did cur (.updateProcessing job.documentId (.suggested org ocr)) n
  | .blocked org => org = job.organizationId ∧
      ∃ n, Did cur (.updateProcessing job.documentId (.blocked org)) n
  | .manualReview org => org = job.organizationId ∧
      ∃ code n, Did past (.updateProcessing job.documentId (.manualReview org code)) n
  | _ => False

/-- What a committing transaction of the worker has completed. -/
structure ProcessDue (cur : Calls Out) : Prop where
  promoted : ∀ org key sha duplicate n,
    Did cur (.updateDocument job.documentId (.promoted org key sha duplicate)) n →
    ∃ m, Did cur (.updateProcessing job.documentId (.parsed org)) m
  blocked : ∀ org n, Did cur (.updateDocument job.documentId (.blocked org)) n →
    ∃ m k, Did cur (.updateProcessing job.documentId (.blocked org)) m ∧
      Did cur (.updateInvoice job.invoiceId (.blocked org)) k
  suggested : ∀ org ocr n, Did cur (.updateProcessing job.documentId (.suggested org ocr)) n →
    ∃ m, Did cur (.updateInvoice job.invoiceId (.suggested org)) m

def processConduct : Conduct Out where
  before past cur
    | .read (.findDuplicate org sha exclude) => org = job.organizationId ∧
        exclude = job.documentId ∧ Did cur (.advisoryLock org sha) ()
    | .call .randomObjectKey => ∀ key, ¬ Called past .randomObjectKey key
    | .write (.updateProcessing id c) => id = job.documentId ∧
        (∃ d p, Loaded job past d p) ∧ (∀ c n, ¬ Did cur (.updateProcessing id c) n) ∧
        ProcessingReady job past cur c
    | .write (.updateDocument id c) => id = job.documentId ∧
        (∃ d p, Loaded job past d p) ∧ (∀ c n, ¬ Did cur (.updateDocument id c) n) ∧
        DocumentReady cfg job past cur c
    | .write (.updateInvoice id c) => id = job.invoiceId ∧ InvoiceUntouched cur id ∧
        (∃ d p, Loaded job past d p) ∧ WorkerInvoiceReady job past cur c
    | .write (.advisoryLock _ _) => True
    | .write (.insertAudit _) => True
    | .write _ => False
    | _ => True
  due _ cur := ProcessDue job cur
  answers := Answers

end Process

/-- The conduct of each call. -/
def conduct (cfg : Config) : Op → Conduct Out
  | .submit auth invoiceId dto _ => submitConduct auth invoiceId dto
  | .decide auth requestId _ _ => decideConduct cfg auth requestId
  | .updatePolicy auth _ => updatePolicyConduct auth.organizationId
  | .upload _ auth _ _ => uploadConduct auth.organizationId
  | .update auth invoiceId dto => updateConduct auth invoiceId dto
  | .addBankVersion auth vendorId _ => addBankVersionConduct auth vendorId
  | .process job _ => processConduct cfg job

end BlocTrust
