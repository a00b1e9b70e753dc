import BlocTrust.Legal

/-!
What the history of a row keeps.
`Later` compares two versions of a row: columns that no statement assigns, decisions and
assessments that never change, statuses that are never left, and an invoice version that
grows with every change of the invoice's content.
-/
namespace BlocTrust

open ReadCommitted

/-- Equal financial content; the status, the version and the bank reference may differ. -/
structure SameContent (a b : Invoice) : Prop where
  vendorId : b.vendorId = a.vendorId
  contractId : b.contractId = a.contractId
  invoiceNumber : b.invoiceNumber = a.invoiceNumber
  issueDate : b.issueDate = a.issueDate
  dueDate : b.dueDate = a.dueDate
  currency : b.currency = a.currency
  subtotal : b.subtotal = a.subtotal
  taxAmount : b.taxAmount = a.taxAmount
  totalAmount : b.totalAmount = a.totalAmount
  notes : b.notes = a.notes

theorem SameContent.refl (a : Invoice) : SameContent a a :=
  ⟨rfl, rfl, rfl, rfl, rfl, rfl, rfl, rfl, rfl, rfl⟩

theorem SameContent.trans {a b c : Invoice} (h : SameContent a b) (h' : SameContent b c) :
    SameContent a c :=
  ⟨h'.vendorId.trans h.vendorId, h'.contractId.trans h.contractId,
    h'.invoiceNumber.trans h.invoiceNumber, h'.issueDate.trans h.issueDate,
    h'.dueDate.trans h.dueDate, h'.currency.trans h.currency, h'.subtotal.trans h.subtotal,
    h'.taxAmount.trans h.taxAmount, h'.totalAmount.trans h.totalAmount, h'.notes.trans h.notes⟩

structure InvoiceLater (a b : Invoice) : Prop where
  organizationId : b.organizationId = a.organizationId
  version : a.version ≤ b.version
  content : b.version = a.version → SameContent a b
  started : a.status ≠ .processing → b.status ≠ .processing

structure RequestLater (a b : ApprovalRequest) : Prop where
  same : b = { a with
    status := b.status
    invalidatedReason := b.invalidatedReason
    completedAt := b.completedAt }
  closed : a.status ≠ .pending → b.status = a.status

namespace RequestLater

variable {a b : ApprovalRequest}

theorem organizationId (h : RequestLater a b) : b.organizationId = a.organizationId := by
  rw [h.same]

theorem invoiceId (h : RequestLater a b) : b.invoiceId = a.invoiceId := by rw [h.same]

theorem invoiceVersion (h : RequestLater a b) : b.invoiceVersion = a.invoiceVersion := by
  rw [h.same]

theorem riskAssessmentId (h : RequestLater a b) : b.riskAssessmentId = a.riskAssessmentId := by
  rw [h.same]

theorem bankAccount (h : RequestLater a b) :
    b.vendorBankAccountVersionId = a.vendorBankAccountVersionId := by rw [h.same]

theorem version (h : RequestLater a b) : b.version = a.version := by rw [h.same]

theorem requiredDecisions (h : RequestLater a b) : b.requiredDecisions = a.requiredDecisions := by
  rw [h.same]

theorem initiatedByMembershipId (h : RequestLater a b) :
    b.initiatedByMembershipId = a.initiatedByMembershipId := by rw [h.same]

/-- A request that is pending now always was. -/
theorem pending (h : RequestLater a b) (hb : b.status = .pending) : a.status = .pending := by
  by_contra hne
  exact hne (by rw [← h.closed hne, hb])

end RequestLater

structure DocumentLater (a b : Document) : Prop where
  organizationId : b.organizationId = a.organizationId
  invoiceId : b.invoiceId = a.invoiceId
  quarantineObjectKey : b.quarantineObjectKey = a.quarantineObjectKey
  approvedObjectKey : a.approvedObjectKey ≠ none → b.approvedObjectKey = a.approvedObjectKey
  sha256 : a.sha256 ≠ none → b.sha256 = a.sha256

/-- The states in which the worker is done with a document. -/
def DocumentProcessingState.done : DocumentProcessingState → Bool
  | .needsReview | .manualReview | .blocked => true
  | _ => false

structure ProcessingLater (a b : DocumentProcessing) : Prop where
  organizationId : b.organizationId = a.organizationId
  done : a.state.done = true → b.state = a.state

/-- How a later version of a row relates to an earlier one. -/
def Later : (k : Key) → Val k → Val k → Prop
  | .invoice _, a, b => InvoiceLater a b
  | .request _, a, b => RequestLater a b
  | .document _, a, b => DocumentLater a b
  | .processing _, a, b => ProcessingLater a b
  | .decision _ _, a, b => b = a
  | .risk _, a, b => b = a
  | .bank _, a, b => b = a
  | .membership _, a, b => b.organizationId = a.organizationId ∧ b.userId = a.userId
  | .session _, a, b => b.organizationId = a.organizationId ∧ b.userId = a.userId
  | _, _, _ => True

section Changes

theorem InvoiceChange.later (c : InvoiceChange) (v : Invoice) (h : c.applies v = true) :
    InvoiceLater v (c.apply v) := by
  have hbump : ∀ w : Invoice, w.version = v.version + 1 → w.organizationId = v.organizationId →
      (v.status ≠ .processing → w.status ≠ .processing) → InvoiceLater v w := by
    intro w hversion horg hstatus
    refine ⟨horg, by omega, fun heq => ?_, hstatus⟩
    omega
  have hkeep : ∀ status : InvoiceStatus, status ≠ .processing →
      InvoiceLater v { v with status := status } :=
    fun status hs => ⟨rfl, Nat.le_refl _,
      fun _ => ⟨rfl, rfl, rfl, rfl, rfl, rfl, rfl, rfl, rfl, rfl⟩, fun _ => hs⟩
  cases c with
  | submitted org version bank => exact hbump _ rfl rfl fun _ => by simp [InvoiceChange.apply]
  | returned version => exact hbump _ rfl rfl fun _ => by simp [InvoiceChange.apply]
  | frozen org vendor => exact hbump _ rfl rfl fun _ => by simp [InvoiceChange.apply]
  | edited org version e =>
      refine hbump _ rfl rfl fun hs => ?_
      simp only [InvoiceChange.apply, InvoiceEdit.apply]
      split
      · simp
      · exact hs
  | decided outcome => cases outcome <;> exact hkeep _ (by decide)
  | suggested org => exact hkeep _ (by decide)
  | blocked org => exact hkeep _ (by decide)
  | manualReview org => exact hkeep _ (by decide)
  | queueFailed org => exact hkeep _ (by decide)

theorem RequestChange.later (c : RequestChange) (r : ApprovalRequest)
    (hfrozen : validateApprovalRequestUpdate r (c.apply r) = true) :
    RequestLater r (c.apply r) := by
  have hclosed : r.status ≠ .pending → (c.apply r).status = r.status := by
    intro hs
    simpa [validateApprovalRequestUpdate, hs] using hfrozen
  cases c with
  | invalidated reason => exact ⟨rfl, hclosed⟩
  | completed outcome t => exact ⟨rfl, hclosed⟩

theorem DocumentChange.later (c : DocumentChange) (d : Document)
    (hidentity : protectDocumentIdentity d (c.apply d) = true) : DocumentLater d (c.apply d) := by
  simp only [protectDocumentIdentity, decide_eq_true_eq] at hidentity
  have hkey := fun h => hidentity.1.resolve_left h
  have hsha := fun h => hidentity.2.resolve_left h
  cases c with
  | promoted org key sha duplicate => exact ⟨rfl, rfl, rfl, hkey, hsha⟩
  | blocked org => exact ⟨rfl, rfl, rfl, hkey, hsha⟩

theorem transition_done {a b : DocumentProcessingState}
    (h : validateDocumentProcessingTransition a b = true) (ha : a.done = true) : b = a := by
  cases a <;> cases b <;> simp_all [validateDocumentProcessingTransition,
    DocumentProcessingState.done]

theorem ProcessingChange.later (c : ProcessingChange) (r : DocumentProcessing)
    (h : validateDocumentProcessingTransition r.state (c.apply r).state = true) :
    ProcessingLater r (c.apply r) := by
  refine ⟨?_, transition_done h⟩
  cases c <;> rfl

end Changes

theorem InvoiceLater.trans {a b c : Invoice} (h : InvoiceLater a b) (h' : InvoiceLater b c) :
    InvoiceLater a c where
  organizationId := h'.organizationId.trans h.organizationId
  version := h.version.trans h'.version
  content heq := by
    have hab := h.version
    have hbc := h'.version
    exact (h.content (by omega)).trans (h'.content (by omega))
  started hs := h'.started (h.started hs)

theorem RequestLater.trans {a b c : ApprovalRequest} (h : RequestLater a b)
    (h' : RequestLater b c) : RequestLater a c where
  same := by
    have hb := h.same
    have hc := h'.same
    rw [hb] at hc
    exact hc
  closed hs := by
    have hb := h.closed hs
    rw [h'.closed (hb ▸ hs), hb]

theorem DocumentLater.trans {a b c : Document} (h : DocumentLater a b) (h' : DocumentLater b c) :
    DocumentLater a c where
  organizationId := h'.organizationId.trans h.organizationId
  invoiceId := h'.invoiceId.trans h.invoiceId
  quarantineObjectKey := h'.quarantineObjectKey.trans h.quarantineObjectKey
  approvedObjectKey hne := by
    have hb := h.approvedObjectKey hne
    rw [h'.approvedObjectKey (hb ▸ hne), hb]
  sha256 hne := by
    have hb := h.sha256 hne
    rw [h'.sha256 (hb ▸ hne), hb]

theorem ProcessingLater.trans {a b c : DocumentProcessing} (h : ProcessingLater a b)
    (h' : ProcessingLater b c) : ProcessingLater a c where
  organizationId := h'.organizationId.trans h.organizationId
  done hs := by
    have hb := h.done hs
    rw [h'.done (hb ▸ hs), hb]

theorem Later.refl (k : Key) (v : Val k) : Later k v v := by
  cases k with
  | invoice i => exact ⟨rfl, Nat.le_refl _, fun _ => .refl v, id⟩
  | request i => exact ⟨rfl, fun _ => rfl⟩
  | document i => exact ⟨rfl, rfl, rfl, fun _ => rfl, fun _ => rfl⟩
  | processing i => exact ⟨rfl, fun _ => rfl⟩
  | membership i => exact ⟨rfl, rfl⟩
  | session i => exact ⟨rfl, rfl⟩
  | decision r m => rfl
  | risk i => rfl
  | bank i => rfl
  | _ => trivial

theorem Later.trans (k : Key) (a b c : Val k) (h : Later k a b) (h' : Later k b c) :
    Later k a c := by
  cases k with
  | invoice i => exact InvoiceLater.trans h h'
  | request i => exact RequestLater.trans h h'
  | document i => exact DocumentLater.trans h h'
  | processing i => exact ProcessingLater.trans h h'
  | membership i => exact ⟨h'.1.trans h.1, h'.2.trans h.2⟩
  | session i => exact ⟨h'.1.trans h.1, h'.2.trans h.2⟩
  | decision r m => exact Eq.trans h' h
  | risk i => exact Eq.trans h' h
  | bank i => exact Eq.trans h' h
  | _ => trivial

/-- Every legal version is a later one. -/
theorem later_persists : Log.Persists Legal Later where
  refl := Later.refl
  trans := Later.trans
  legal k a b h := by
    cases k with
    | invoice i =>
        obtain ⟨c, happlies, rfl⟩ := h
        exact c.later a happlies
    | request i =>
        obtain ⟨c, -, hfrozen, rfl⟩ := h
        exact c.later a hfrozen
    | document i =>
        obtain ⟨c, -, hidentity, rfl⟩ := h
        exact c.later a hidentity
    | processing i =>
        obtain ⟨c, -, htransition, rfl⟩ := h
        exact c.later a htransition
    | membership i => exact h
    | session i => exact h
    | decision r m => exact h.elim
    | risk i => exact h.elim
    | bank i => exact h.elim
    | _ => trivial

section Rows

variable {older newer : Db}

/-- A row stays, in a later version. -/
theorem row_later (hc : Log.Chain Legal newer) (hs : older <:+ newer) {k : Key} {v : Val k}
    (hv : Log.row k older = some v) : ∃ w, Log.row k newer = some w ∧ Later k v w :=
  hc.related later_persists hs hv

theorem invoice_later (hc : Log.Chain Legal newer) (hs : older <:+ newer) {i : Id} {v : Invoice}
    (hv : Db.invoice older i = some v) : ∃ w, Db.invoice newer i = some w ∧ InvoiceLater v w :=
  row_later hc hs hv

theorem request_later (hc : Log.Chain Legal newer) (hs : older <:+ newer) {i : Id}
    {r : ApprovalRequest} (hr : Db.request older i = some r) :
    ∃ r', Db.request newer i = some r' ∧ RequestLater r r' :=
  row_later hc hs hr

theorem document_later (hc : Log.Chain Legal newer) (hs : older <:+ newer) {i : Id} {d : Document}
    (hd : Db.document older i = some d) : ∃ d', Db.document newer i = some d' ∧ DocumentLater d d' :=
  row_later hc hs hd

theorem processing_later (hc : Log.Chain Legal newer) (hs : older <:+ newer) {i : Id}
    {r : DocumentProcessing} (hr : Db.processing older i = some r) :
    ∃ r', Db.processing newer i = some r' ∧ ProcessingLater r r' :=
  row_later hc hs hr

theorem decision_later (hc : Log.Chain Legal newer) (hs : older <:+ newer) {r m : Id}
    {d : ApprovalDecision} (hd : Db.decision older r m = some d) :
    Db.decision newer r m = some d := by
  obtain ⟨w, hw, rfl⟩ := row_later hc hs hd
  exact hw

theorem risk_later (hc : Log.Chain Legal newer) (hs : older <:+ newer) {i : Id}
    {a : RiskAssessment} (ha : Db.risk older i = some a) : Db.risk newer i = some a := by
  obtain ⟨w, hw, rfl⟩ := row_later hc hs ha
  exact hw

theorem bank_later (hc : Log.Chain Legal newer) (hs : older <:+ newer) {i : Id}
    {b : VendorBankAccountVersion} (hb : Db.bank older i = some b) : Db.bank newer i = some b := by
  obtain ⟨w, hw, rfl⟩ := row_later hc hs hb
  exact hw

/-- No risk policy ever drops the separation of duties. -/
theorem policy_separates {log : Db} (hc : Log.Chain Legal log) {org : Id}
    {p : OrganizationRiskPolicy} (hp : Db.policy log org = some p) :
    p.requireSeparationOfDuties = true := by
  let P : (k : Key) → Val k → Prop
    | .policy _, p => p.requireSeparationOfDuties = true
    | _, _ => True
  have hP : P (.policy org) p := by
    refine hc.current (P := P) (fun k o v hlegal hold => ?_) hp
    cases k with
    | policy org =>
        cases o with
        | none => exact hlegal
        | some old =>
            obtain ⟨c, rfl⟩ := hlegal
            exact hold old rfl
    | _ => trivial
  exact hP

def DecisionKeyed : (k : Key) → Val k → Prop
  | .decision r m, d => d.approvalRequestId = r ∧ d.decidedByMembershipId = m
  | _, _ => True

/-- A decision is stored under its request and its membership. -/
theorem decision_keys {log : Db} (hc : Log.Chain Legal log) {r m : Id} {d : ApprovalDecision}
    (hd : Db.decision log r m = some d) :
    d.approvalRequestId = r ∧ d.decidedByMembershipId = m := by
  have hP : DecisionKeyed (.decision r m) d := by
    refine hc.current (P := DecisionKeyed) (fun k o v hlegal hold => ?_) hd
    cases k with
    | decision r m =>
        cases o with
        | none => exact hlegal
        | some old => exact hlegal.elim
    | _ => trivial
  exact hP

end Rows
end BlocTrust
