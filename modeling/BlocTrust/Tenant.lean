import BlocTrust.Events

/-!
Where runs start.
`Clear` is a tenant on which no approval has begun, `Uploaded` one on which no document has
been processed.  The sample tenant has one reviewed invoice with one processed document,
one bank account of its vendor and three owners with fresh step-ups; the runs that
show how a property fails, or that it is not vacuous, start there.
-/
namespace BlocTrust

open ReadCommitted

/-- No approval has begun. -/
structure Clear (db : Db) : Prop where
  requests : ∀ id, Db.request db id = none
  decisions : ∀ r m, Db.decision db r m = none
  invoices : ∀ i v, Db.invoice db i = some v →
    v.status ≠ .awaitingApproval ∧ v.status ≠ .approved ∧ v.status ≠ .rejected

/-- No document has been processed, and each has its processing row and an invoice of its own. -/
structure Uploaded (db : Db) : Prop where
  quarantined : ∀ id d, Db.document db id = some d → d.storageState = .quarantined ∧
    d.approvedObjectKey = none ∧ d.sha256 = none ∧ d.duplicateOfDocumentId = none
  processing : ∀ id d, Db.document db id = some d → ∃ r, Db.processing db id = some r ∧
    r.organizationId = d.organizationId ∧ r.state = .quarantined
  invoice : ∀ id d, Db.document db id = some d → ∃ v, Db.invoice db d.invoiceId = some v ∧
    v.organizationId = d.organizationId ∧ v.status = .processing
  owned : ∀ id r, Db.processing db id = some r → ∃ d, Db.document db id = some d
  single : ∀ id id' d d', Db.document db id = some d → Db.document db id' = some d' →
    d.invoiceId = d'.invoiceId → id = id'

/-- A log of first versions, each of a legal kind, is a legal history. -/
theorem idle_of_first {log : Db} (hn : log.keys.Nodup) (hlegal : ∀ s ∈ log, Legal s.1 none s.2) :
    Idle Legal (⟨log, []⟩ : System) :=
  ⟨.of_nodup hn hlegal, rfl⟩

/-- Any statement may be executed. -/
def always : Op → Calls Out → List (Event Val Out) → Log Val → Stmt → Prop :=
  fun _ _ _ _ _ => True

section Sample

/-- A configuration with an injective stand-in for the hash. -/
def sampleConfig : Config where
  sha256 bytes := bytes.foldl (fun n x => 257 * n + x.toNat + 1) 0
  localeCompare _ _ := .lt
  toLowerCase t := t
  toUpperCase t := t
  uuidText _ := []
  stepUpTtlMilliseconds := 300000
  encrypt _ _ _ := ⟨[], [], []⟩
  extractSuggestions _ _ := ⟨[], []⟩

def sampleInvoice : Invoice where
  organizationId := 1
  vendorId := some 1
  contractId := none
  invoiceNumber := some ['A']
  issueDate := none
  dueDate := none
  currency := some ['E', 'U', 'R']
  subtotal := none
  taxAmount := none
  totalAmount := some 100
  notes := none
  status := .needsReview
  version := 1
  vendorBankAccountVersionId := none
  createdByMembershipId := 1
  createdAt := 0

def sampleDocument : Document where
  organizationId := 1
  invoiceId := 1
  originalFilename := []
  declaredMimeType := []
  detectedMimeType := []
  sizeBytes := 1
  quarantineObjectKey := 1
  approvedObjectKey := some 2
  sha256 := some 5
  duplicateOfDocumentId := none
  storageState := .approved
  createdByMembershipId := 1
  createdAt := 0

def sampleProcessing : DocumentProcessing where
  organizationId := 1
  state := .needsReview
  progress := 100
  scanResult := .clean
  scanDetail := none
  ocrEngine := none
  suggestions := []
  attempts := 1
  errorCode := none
  errorMessage := none

def sampleMember (user : Id) : Membership where
  organizationId := 1
  userId := user
  role := .owner
  status := .active
  createdAt := 0

def sampleSession (user : Id) : Session where
  organizationId := 1
  userId := user
  revokedAt := none
  expiresAt := 1000000
  stepUpVerifiedAt := some 10

def sampleBank : VendorBankAccountVersion where
  organizationId := 1
  vendorId := 1
  versionNumber := 1
  countryCode := []
  account := ⟨[], [], []⟩
  createdByMembershipId := 1

def sampleDb : Db :=
  [⟨.invoice 1, sampleInvoice⟩, ⟨.document 1, sampleDocument⟩, ⟨.processing 1, sampleProcessing⟩,
    ⟨.policy 1, defaultPolicy⟩, ⟨.vendor 1, ⟨1⟩⟩, ⟨.bank 1, sampleBank⟩,
    ⟨.unique (.bankVersion 1 1 1), ()⟩, ⟨.membership 1, sampleMember 1⟩,
    ⟨.membership 2, sampleMember 2⟩, ⟨.membership 3, sampleMember 3⟩,
    ⟨.session 1, sampleSession 1⟩, ⟨.session 2, sampleSession 2⟩, ⟨.session 3, sampleSession 3⟩]

def sampleStart : System := ⟨sampleDb, []⟩

/-- The invoice when its submission has found a high risk. -/
def pendingInvoice : Invoice :=
  { sampleInvoice with
    status := .awaitingApproval
    version := 2
    vendorBankAccountVersionId := some 1 }

def pendingAssessment : RiskAssessment where
  organizationId := 1
  invoiceId := 1
  invoiceVersion := 2
  evaluation := evaluateInvoiceRisk [] ⟨some 1, true, false, some 100, none, none⟩
    defaultPolicy.toRiskPolicySnapshot sampleConfig.sha256 sampleConfig.localeCompare

def pendingRequest : ApprovalRequest where
  organizationId := 1
  invoiceId := 1
  invoiceVersion := 2
  riskAssessmentId := 1
  vendorBankAccountVersionId := some 1
  version := 1
  status := .pending
  requiredDecisions := 2
  initiatedByMembershipId := 1
  idempotencyKeyHash := 0
  invalidatedReason := none
  completedAt := none

/-- The sample tenant with a pending request that requires two approvals. -/
def pendingDb : Db :=
  ⟨.invoice 1, pendingInvoice⟩ :: ⟨.risk 1, pendingAssessment⟩ :: ⟨.request 1, pendingRequest⟩ ::
    ⟨.unique (.riskAssessment 1 1 2), ()⟩ :: ⟨.unique (.requestVersion 1 1 1), ()⟩ ::
    ⟨.unique (.requestKey 1 0), ()⟩ :: sampleDb.tail

def pendingStart : System := ⟨pendingDb, []⟩

/-- The sample tenant before its document is processed. -/
def uploadedDb : Db :=
  ⟨.invoice 1, { sampleInvoice with status := .processing }⟩ ::
    ⟨.document 1, { sampleDocument with
      approvedObjectKey := none
      sha256 := none
      storageState := .quarantined }⟩ ::
    ⟨.processing 1, { sampleProcessing with
      state := .quarantined
      progress := 10
      scanResult := .pending }⟩ ::
    ⟨.object .quarantine 1, some [7]⟩ :: sampleDb.drop 3

def uploadedStart : System := ⟨uploadedDb, []⟩

def sampleJob : InvoiceIngestJob := ⟨1, 1, 1⟩

/-- Owner `m`, in a session of its own. -/
def sampleAuth (m : Id) : AuthContext where
  userId := m
  membershipId := m
  sessionId := m
  organizationId := 1
  role := .owner

def sampleKey (c : Char) : Option Text := some (List.replicate 16 c)

def sampleDecision (outcome : ApprovalDecisionOutcome) : ApprovalsService.ApprovalDecisionDto where
  approvalVersion := 1
  outcome := outcome
  reason := List.replicate 12 'x'

/-- An edit of the total amount. -/
def sampleEdit (version total : Nat) : InvoicesService.UpdateInvoiceDraftDto where
  version := version
  vendorId := .absent
  contractId := .absent
  invoiceNumber := .absent
  issueDate := .absent
  dueDate := .absent
  currency := .absent
  subtotal := .absent
  taxAmount := .absent
  totalAmount := .given total
  notes := .absent
  lines := .absent

/-- Statements of process `i`, with the choices of the database. -/
def execs (i : Nat) (choices : List Nat) : List SystemAction := choices.map (.exec i)

/-- The statements by which process `i` submits the invoice, as request `i`. -/
def submission (i : Nat) : List SystemAction :=
  execs i (List.replicate 9 0 ++ [i, i, 0, 0, 0, 0, 2 * i + 1, 2 * i + 2, 0, 0, 0])

/-- The statements by which process `i` approves a request with the last approval it needs. -/
def approval (i : Nat) : List SystemAction :=
  execs i (List.replicate 17 0 ++ [2 * i + 1] ++ List.replicate 7 0)

/-- The statements of a first attempt of process `i` up to the promotion of the document under
the object key `key`, of a later attempt on it before its last transaction, and that one. -/
def promotion (i key : Nat) : List SystemAction :=
  execs i [0, 0, 0, 0, 0, 0, 1, 0, key, 0, 0, 0, 0, 0, 0, 0, 0]

def resumption (i : Nat) : List SystemAction := execs i (List.replicate 8 0)

def finishing (i audit : Nat) : List SystemAction := execs i [0, 0, audit, 0]

/-- A submission and an approval by another owner. -/
def approvedRun : List SystemAction :=
  .start (.submit (sampleAuth 1) 1 ⟨1⟩ (sampleKey 'a')) :: submission 0 ++
    .start (.decide (sampleAuth 2) 0 (sampleDecision .approve) (sampleKey 'b')) :: approval 1

/-- Any action may be taken, for runs that the account does not restrict. -/
theorem permitted_always (s : System) (a : SystemAction)
    (h : Account.screened (fun _ => true) (fun _ _ => true) s a = true) :
    Account.permitted (fun _ => True) always s a :=
  Account.permitted_of_screened _ _ (fun _ _ => trivial) (fun _ _ _ _ _ _ => trivial) s a h

/-- The operations that a run starts are screened, and nothing else. -/
theorem permitted_starts (starts : Op → Bool) (s : System) (a : SystemAction)
    (h : Account.screened starts (fun _ _ => true) s a = true) :
    Account.permitted (fun op => starts op = true) always s a :=
  Account.permitted_of_screened _ _ (fun _ hop => hop) (fun _ _ _ _ _ _ => trivial) s a h

theorem sampleStart_idle : Idle Legal sampleStart := by
  refine idle_of_first (by decide) fun s hs => ?_
  simp only [sampleDb, List.mem_cons, List.not_mem_nil, or_false] at hs
  rcases hs with rfl | rfl | rfl | rfl | rfl | rfl | rfl | rfl | rfl | rfl | rfl | rfl | rfl <;>
    trivial

theorem sampleStart_clear : Clear sampleStart.db where
  requests id := Log.row_eq_none.mpr (by simp [sampleStart, sampleDb, List.keys])
  decisions r m := Log.row_eq_none.mpr (by simp [sampleStart, sampleDb, List.keys])
  invoices i v hv := by
    have hmem := Log.mem_of_row hv
    simp only [sampleStart, sampleDb, List.mem_cons, Sigma.mk.injEq, reduceCtorEq, false_and,
      Key.invoice.injEq, or_false, List.not_mem_nil] at hmem
    obtain ⟨rfl, heq⟩ := hmem
    cases heq
    decide

/-- One version of a bank account is on record. -/
theorem sampleStart_bank {id : Id} {b : VendorBankAccountVersion}
    (hb : Db.bank sampleStart.db id = some b) : id = 1 ∧ b = sampleBank := by
  have hmem := Log.mem_of_row hb
  simp only [sampleStart, sampleDb, List.mem_cons, Sigma.mk.injEq, reduceCtorEq, false_and,
    Key.bank.injEq, or_false, false_or, List.not_mem_nil] at hmem
  obtain ⟨rfl, heq⟩ := hmem
  exact ⟨rfl, eq_of_heq heq⟩

theorem pendingStart_idle : Idle Legal pendingStart := by
  refine idle_of_first (by decide) fun s hs => ?_
  simp only [pendingDb, sampleDb, List.tail_cons, List.mem_cons, List.not_mem_nil, or_false] at hs
  rcases hs with rfl | rfl | rfl | rfl | rfl | rfl | rfl | rfl | rfl | rfl | rfl | rfl | rfl |
    rfl | rfl | rfl | rfl | rfl <;> trivial

theorem uploadedStart_idle : Idle Legal uploadedStart := by
  refine idle_of_first (by decide) fun s hs => ?_
  simp only [uploadedDb, sampleDb, List.drop_succ_cons, List.drop_zero, List.mem_cons,
    List.not_mem_nil, or_false] at hs
  rcases hs with rfl | rfl | rfl | rfl | rfl | rfl | rfl | rfl | rfl | rfl | rfl | rfl | rfl |
    rfl <;> trivial

theorem uploadedStart_uploaded : Uploaded uploadedStart.db := by
  have hdocument : ∀ id d, Db.document uploadedStart.db id = some d → id = 1 ∧
      d = { sampleDocument with
        approvedObjectKey := none
        sha256 := none
        storageState := .quarantined } := by
    intro id d hd
    have hmem := Log.mem_of_row hd
    simp only [uploadedStart, uploadedDb, sampleDb, List.drop_succ_cons, List.drop_zero,
      List.mem_cons, Sigma.mk.injEq, reduceCtorEq, false_and, Key.document.injEq, or_false,
      false_or, List.not_mem_nil] at hmem
    obtain ⟨rfl, heq⟩ := hmem
    exact ⟨rfl, eq_of_heq heq⟩
  refine ⟨fun id d hd => ?_, fun id d hd => ?_, fun id d hd => ?_, fun id r hr => ?_,
    fun id id' d d' hd hd' _ => (hdocument id d hd).1.trans (hdocument id' d' hd').1.symm⟩
  · rw [(hdocument id d hd).2]
    exact ⟨rfl, rfl, rfl, rfl⟩
  · obtain ⟨rfl, rfl⟩ := hdocument id d hd
    exact ⟨_, rfl, rfl, rfl⟩
  · obtain ⟨rfl, rfl⟩ := hdocument id d hd
    exact ⟨_, rfl, rfl, rfl⟩
  · have hmem := Log.mem_of_row hr
    simp only [uploadedStart, uploadedDb, sampleDb, List.drop_succ_cons, List.drop_zero,
      List.mem_cons, Sigma.mk.injEq, reduceCtorEq, false_and, Key.processing.injEq, or_false,
      false_or, List.not_mem_nil] at hmem
    obtain ⟨rfl, -⟩ := hmem
    exact ⟨_, rfl⟩

def twinDocument : Document :=
  { sampleDocument with
    invoiceId := 2
    quarantineObjectKey := 3
    approvedObjectKey := none
    sha256 := none
    storageState := .quarantined }

def twinProcessing : DocumentProcessing :=
  { sampleProcessing with
    state := .quarantined
    progress := 10
    scanResult := .pending }

/-- The sample tenant with the same bytes uploaded for a second invoice of the same number. -/
def twinDb : Db :=
  ⟨.invoice 2, { sampleInvoice with status := .processing }⟩ :: ⟨.document 2, twinDocument⟩ ::
    ⟨.processing 2, twinProcessing⟩ :: ⟨.object .quarantine 3, some [7]⟩ :: uploadedDb

def twinStart : System := ⟨twinDb, []⟩

theorem twinStart_idle : Idle Legal twinStart := by
  refine idle_of_first (by decide) fun s hs => ?_
  simp only [twinDb, uploadedDb, sampleDb, List.drop_succ_cons, List.drop_zero, List.mem_cons,
    List.not_mem_nil, or_false] at hs
  rcases hs with rfl | rfl | rfl | rfl | rfl | rfl | rfl | rfl | rfl | rfl | rfl | rfl | rfl |
    rfl | rfl | rfl | rfl | rfl <;> trivial

theorem twinStart_document {id : Id} {d : Document} (h : Db.document twinStart.db id = some d) :
    (id = 2 ∧ d = twinDocument) ∨ id = 1 ∧ d = { twinDocument with
      invoiceId := 1
      quarantineObjectKey := 1 } := by
  have hmem := Log.mem_of_row h
  simp only [twinStart, twinDb, uploadedDb, sampleDb, List.drop_succ_cons, List.drop_zero,
    List.mem_cons, Sigma.mk.injEq, reduceCtorEq, false_and, Key.document.injEq, or_false,
    false_or, List.not_mem_nil] at hmem
  exact hmem.imp (fun h => ⟨h.1, eq_of_heq h.2⟩) fun h => ⟨h.1, eq_of_heq h.2⟩

theorem twinStart_uploaded : Uploaded twinStart.db where
  quarantined id d hd := by
    rcases twinStart_document hd with ⟨-, rfl⟩ | ⟨-, rfl⟩ <;> exact ⟨rfl, rfl, rfl, rfl⟩
  processing id d hd := by
    rcases twinStart_document hd with ⟨rfl, rfl⟩ | ⟨rfl, rfl⟩ <;> exact ⟨_, rfl, rfl, rfl⟩
  invoice id d hd := by
    rcases twinStart_document hd with ⟨rfl, rfl⟩ | ⟨rfl, rfl⟩ <;> exact ⟨_, rfl, rfl, rfl⟩
  owned id r hr := by
    have hmem := Log.mem_of_row hr
    simp only [twinStart, twinDb, uploadedDb, sampleDb, List.drop_succ_cons, List.drop_zero,
      List.mem_cons, Sigma.mk.injEq, reduceCtorEq, false_and, Key.processing.injEq, or_false,
      false_or, List.not_mem_nil] at hmem
    rcases hmem with ⟨rfl, -⟩ | ⟨rfl, -⟩ <;> exact ⟨_, rfl⟩
  single id id' d d' hd hd' hsame := by
    rcases twinStart_document hd with ⟨rfl, rfl⟩ | ⟨rfl, rfl⟩ <;>
      rcases twinStart_document hd' with ⟨rfl, rfl⟩ | ⟨rfl, rfl⟩
    · rfl
    · cases hsame
    · cases hsame
    · rfl

/-- Both documents are processed, one after the other. -/
def twinProcessed : List SystemAction :=
  .start (.process ⟨1, 1, 1⟩ true) :: promotion 0 7 ++ execs 0 (List.replicate 4 0) ++
    finishing 0 20 ++ .start (.process ⟨2, 2, 1⟩ true) :: promotion 1 8 ++
    execs 1 (List.replicate 4 0) ++ finishing 1 21

end Sample
end BlocTrust
