import BlocTrust.DecisionRecord
import BlocTrust.Storage

/-!
The audit trail.
Most transactions that change the status of an invoice or of a request leave an audit row
about the invoice, the request or the document.  Four do not: a decision that finds its
request stale, a new bank version that freezes approvals, an attempt that gives up, and an
upload whose job cannot be queued.
-/
namespace BlocTrust

open ReadCommitted Prog

/-- An audit row about the entity is among the calls. -/
def Audited (entity : Id) (cur : Calls Out) : Prop :=
  ∃ a, Did cur (.insertAudit a) () ∧ a.entityId = entity

/-- What the committing transactions of each operation have audited. -/
def auditConduct (op : Op) : Conduct Out where
  before _ _ _ := True
  due _ cur :=
    match op with
    | .submit _ invoiceId _ _ => ∀ r id, Did cur (.insertRequest r) id → Audited invoiceId cur
    | .decide _ requestId _ _ => ∀ d, Did cur (.insertDecision d) () → Audited requestId cur
    | .update _ invoiceId _ => Audited invoiceId cur
    | .upload _ _ _ _ => ∀ i v, Did cur (.insertInvoice i v) () → Audited i cur
    | .process job _ =>
        (∀ org ocr n, Did cur (.updateProcessing job.documentId (.suggested org ocr)) n →
          Audited job.documentId cur) ∧
        ∀ org n, Did cur (.updateProcessing job.documentId (.blocked org)) n →
          Audited job.documentId cur
    | _ => True
  answers _ _ := True

/-- The statements that insert no request. -/
def Unrequested : Stmt → Prop
  | .write (.insertRequest _) => False
  | _ => True

section Rules

variable {op : Op} {past cur : Calls Out} {entity : Id} {auth : AuthContext}

theorem Audited.mono {cur' : Calls Out} (h : Audited entity cur) (hsub : cur ⊆ cur') :
    Audited entity cur' := by
  obtain ⟨a, ha, hentity⟩ := h
  exact ⟨a, hsub ha, hentity⟩

/-- A part of a transaction, and what it has added to the calls. -/
theorem part_wp {α β : Type} {P : Stmt → Prop} {p : Program α} {f : α → Program β}
    {Q : β → Calls Out → Calls Out → Prop} {R : Failure → Calls Out → Calls Out → Prop}
    (hp : p.Plain P) (hR : ∀ e cur, R e past cur)
    (hf : ∀ a cur', cur ⊆ cur' → (∀ c ∈ cur', c ∈ cur ∨ P c.1) →
      (f a).wp (auditConduct op) Q R past cur') :
    (p >>= f).wp (auditConduct op) Q R past cur := by
  rw [wp_bind]
  refine wp_mono (fun a past' cur' h => ?_) (fun e past' cur' h => ?_)
    (hp.keeps (fun _ _ _ => trivial) cur)
  · obtain ⟨rfl, hsub, hadded⟩ := h
    exact hf a cur' hsub hadded
  · rw [h]
    exact hR e cur'

/-- A part of a transaction before the call that has to be audited. -/
theorem quiet_wp {α β : Type} {P : Stmt → Prop} {p : Program α} {f : α → Program β}
    {Q : β → Calls Out → Calls Out → Prop} {R : Failure → Calls Out → Calls Out → Prop}
    (hp : p.Plain P) (hcur : ∀ c ∈ cur, P c.1) (hR : ∀ e cur, R e past cur)
    (hf : ∀ a cur', (∀ c ∈ cur', P c.1) → (f a).wp (auditConduct op) Q R past cur') :
    (p >>= f).wp (auditConduct op) Q R past cur := by
  refine part_wp hp hR fun a cur' _ hadded => hf a cur' fun c hc => ?_
  rcases hadded c hc with hold | hnew
  · exact hcur c hold
  · exact hnew

/-- The audit of a transaction. -/
theorem auditing_wp {β : Type} {f : Unit → Program β} {action entityType : String}
    {reason : Option Text} {Q : β → Calls Out → Calls Out → Prop}
    {R : Failure → Calls Out → Calls Out → Prop} (hR : ∀ e cur, R e past cur)
    (hf : ∀ cur', Audited entity cur' → (f ()).wp (auditConduct op) Q R past cur') :
    (writeAudit auth action entityType entity reason >>= f).wp (auditConduct op) Q R past cur := by
  rw [wp_bind]
  exact update_wp trivial hR fun _ => hf _ ⟨_, List.mem_cons_self, rfl⟩

/-- The rest of a transaction after its audit. -/
theorem rest_wp {α : Type} {P : Stmt → Prop} {p : Program α}
    {Q : α → Calls Out → Calls Out → Prop} {R : Failure → Calls Out → Calls Out → Prop}
    (hp : p.Plain P) (hR : ∀ e cur, R e past cur) (haudited : Audited entity cur)
    (hQ : ∀ a cur', Audited entity cur' → Q a past cur') :
    p.wp (auditConduct op) Q R past cur := by
  refine wp_mono (fun a past' cur' h => ?_) (fun e past' cur' h => ?_)
    (hp.keeps (fun _ _ _ => trivial) cur)
  · obtain ⟨rfl, hsub, -⟩ := h
    exact hQ a cur' (haudited.mono hsub)
  · rw [h]
    exact hR e cur'

end Rules
section Approvals

variable {cfg : Config} {auth : AuthContext} {past cur : Calls Out}

theorem createRequest_audits {i : Id} {dto : ApprovalsService.SubmitInvoiceDto} {v : Invoice}
    {evaluation : RiskEvaluation} {bank version : Id} {hash : Digest} {op : Op}
    {Q : ApprovalsService.ApprovalView → Calls Out → Calls Out → Prop}
    {R : Failure → Calls Out → Calls Out → Prop} (hR : ∀ e cur, R e past cur)
    (hQ : ∀ a cur', Audited i cur' → Q a past cur') :
    (ApprovalsService.createRequest auth i dto v evaluation bank version hash).wp
      (auditConduct op) Q R past cur := by
  have hsql : ∀ u : Update, (update u).Plain fun _ => True := fun u => (plain_sql _).mpr trivial
  rw [ApprovalsService.createRequest]
  refine part_wp (hsql _) hR fun risk _ _ _ => ?_
  refine part_wp (hsql _) hR fun request _ _ _ => ?_
  refine part_wp (requestDetails_plain _ _) hR fun details _ _ _ => ?_
  refine part_wp (hsql _) hR fun moved _ _ _ => ?_
  refine part_wp (P := fun _ => True) (plain_require _ _) hR fun _ _ _ _ => ?_
  refine auditing_wp hR fun cur' haudited => ?_
  refine rest_wp (P := Unrecorded) ?_ hR haudited hQ
  refine (writeAudit_plain _ _ _ _).bind fun _ => ?_
  exact (eligibleApprovers_plain _ _).bind fun _ => plain_pure _

theorem assess_plain {i : Id} {contract : Option Contract} {documents : List (Id × Document)}
    {vendorId : Id} {number : Text} {total : Cents} :
    (ApprovalsService.assess cfg auth i contract documents vendorId number total).Plain
      Unrecorded := by
  refine (policy_plain _).bind fun policy => ?_
  refine (query_plain _).bind fun found => (plain_orThrow _ _).bind fun bank => ?_
  refine (query_plain _).bind fun duplicates => (query_plain _).bind fun amounts => ?_
  exact plain_pure _

/-- A submission inserts its request together with the audit of the invoice. -/
theorem submit_audits (i : Id) (dto : ApprovalsService.SubmitInvoiceDto) (key : Option Text) :
    (program cfg (.submit auth i dto key)).wp (auditConduct (.submit auth i dto key))
      (fun _ _ _ => True) (fun _ _ _ => True) [] [] := by
  have hR : ∀ (e : Failure) (cur : Calls Out), True := fun _ _ => trivial
  have hquery : ∀ q : Query, (query q).Plain Unrequested := fun q => (plain_sql _).mpr trivial
  rw [program, wp_bind, ApprovalsService.submit, wp_bind, ApprovalsService.idempotencyKeyHash,
    wp_bind]
  refine orThrow_wp (fun _ _ => trivial) fun normalized _ => ?_
  rw [wp_pure, wp_transaction]
  refine quiet_wp (hquery _) (fun _ hc => absurd hc List.not_mem_nil) hR fun found cur hcur => ?_
  cases found with
  | some replay =>
      refine quiet_wp (requestDetails_reads (fun _ => trivial) _ _) hcur hR fun details cur hcur => ?_
      refine quiet_wp (plain_require _ _) hcur hR fun _ cur hcur => ?_
      exact ⟨fun r id hdid => (hcur _ hdid).elim, trivial, fun _ => trivial⟩
  | none =>
      rw [ApprovalsService.submitNew]
      refine part_wp (hquery _) hR fun found _ _ _ => ?_
      refine part_wp (P := Unrequested) (plain_orThrow _ _) hR fun v _ _ _ => ?_
      have hcontract : (ApprovalsService.findContract v.contractId).Plain Unrequested := by
        cases v.contractId with
        | none => trivial
        | some id => exact hquery _
      refine part_wp hcontract hR fun contract _ _ _ => ?_
      refine part_wp (hquery _) hR fun documents _ _ _ => ?_
      refine part_wp (hquery _) hR fun processings _ _ _ => ?_
      refine part_wp (P := Unrequested) (plain_require _ _) hR fun _ _ _ _ => ?_
      refine part_wp (P := Unrequested) (plain_require _ _) hR fun _ _ _ _ => ?_
      refine part_wp (P := Unrequested) (plain_orThrow _ _) hR fun complete _ _ _ => ?_
      refine part_wp assess_plain hR fun assessed _ _ _ => ?_
      refine part_wp (hquery _) hR fun latest _ _ _ => ?_
      exact createRequest_audits hR fun _ _ haudited =>
        ⟨fun _ _ _ => haudited, trivial, fun _ => trivial⟩

theorem record_audits {id : Id} {r : ApprovalRequest} {dto : ApprovalsService.ApprovalDecisionDto}
    {hash : Digest} {op : Op} {Q : ApprovalsService.ApprovalView → Calls Out → Calls Out → Prop}
    {R : Failure → Calls Out → Calls Out → Prop} (hR : ∀ e cur, R e past cur)
    (hQ : ∀ a cur', Audited id cur' → Q a past cur') :
    (ApprovalsService.record cfg auth id r dto hash).wp (auditConduct op) Q R past cur := by
  rw [ApprovalsService.record]
  refine part_wp (authorize_plain _) hR fun verifiedAt _ _ _ => ?_
  refine part_wp (P := Unrecorded) ((plain_sql _).mpr trivial) hR fun createdAt _ _ _ => ?_
  rw [wp_bind, ApprovalsService.createDecision, wp_tryCatch]
  refine update_wp trivial (fun e cur => ?_) fun _ => ?_
  · split
    · exact hR _ cur
    · exact hR _ cur
  refine part_wp (settle_plain _ _) hR fun _ _ _ _ => ?_
  refine auditing_wp hR fun cur' haudited => ?_
  refine rest_wp (P := Unrecorded) ?_ hR haudited hQ
  refine (query_plain _).bind fun found => (plain_orThrow _ _).bind fun updated => ?_
  refine (requestDetails_plain id updated).bind fun details => ?_
  exact (eligibleApprovers_plain _ updated).bind fun eligible => plain_pure _

/-- What a committing decision has audited. -/
def DecisionAudited (id : Id) (cur : Calls Out) : Prop :=
  ∀ d, Did cur (.insertDecision d) () → Audited id cur

theorem decideNew_audits {id : Id} {dto : ApprovalsService.ApprovalDecisionDto} {hash : Digest}
    {op : Op} {Q : Option ApprovalsService.ApprovalView → Calls Out → Calls Out → Prop}
    {R : Failure → Calls Out → Calls Out → Prop} (hcur : ∀ c ∈ cur, Unrecorded c.1)
    (hR : ∀ e cur, R e past cur) (hQ : ∀ a cur', DecisionAudited id cur' → Q a past cur') :
    (ApprovalsService.decideNew cfg auth id dto hash).wp (auditConduct op) Q R past cur := by
  have hstale : ∀ (r : ApprovalRequest) (reason : String) (cur : Calls Out),
      (∀ c ∈ cur, Unrecorded c.1) → (do
        ApprovalsService.invalidate id r reason
        return none : Program (Option ApprovalsService.ApprovalView)).wp (auditConduct op) Q R
          past cur := fun r reason cur hcur =>
    quiet_wp (invalidate_plain id r reason) hcur hR fun _ cur hcur =>
      hQ none cur fun _ hdid => (hcur _ hdid).elim
  rw [ApprovalsService.decideNew]
  refine quiet_wp (query_plain _) hcur hR fun found cur hcur => ?_
  refine quiet_wp (plain_orThrow _ _) hcur hR fun request cur hcur => ?_
  refine quiet_wp (requestDetails_plain id request) hcur hR fun details cur hcur => ?_
  refine quiet_wp (plain_require _ _) hcur hR fun _ cur hcur => ?_
  refine quiet_wp (plain_require _ _) hcur hR fun _ cur hcur => ?_
  split
  · exact hstale request _ cur hcur
  · refine quiet_wp (bankIsCurrent_plain _ _ _) hcur hR fun current cur hcur => ?_
    split
    · exact hstale request _ cur hcur
    · rw [wp_bind]
      exact record_audits hR fun view cur haudited => hQ _ cur fun _ _ => haudited

/-- A decision is recorded together with the audit of its request. -/
theorem decide_audits (id : Id) (dto : ApprovalsService.ApprovalDecisionDto) (key : Option Text) :
    (program cfg (.decide auth id dto key)).wp (auditConduct (.decide auth id dto key))
      (fun _ _ _ => True) (fun _ _ _ => True) [] [] := by
  have hR : ∀ (e : Failure) (cur : Calls Out), True := fun _ _ => trivial
  rw [program, wp_bind, ApprovalsService.decide, wp_bind, ApprovalsService.idempotencyKeyHash,
    wp_bind]
  refine orThrow_wp (fun _ _ => trivial) fun normalized _ => ?_
  rw [wp_pure, wp_bind, wp_transaction]
  have hended : ∀ result cur', DecisionAudited id cur' →
      DecisionAudited id cur' ∧ (orThrow result ApprovalsService.staleApproval).wp
        (auditConduct (.decide auth id dto key))
        (fun a => (pure (.approval a) : Program Response).wp (auditConduct (.decide auth id dto key))
          (fun _ _ _ => True) fun _ _ _ => True) (fun _ _ _ => True) (cur' ++ []) [] ∧
        ∀ e : Failure, True :=
    fun result cur' haudited =>
      ⟨haudited, (wp_orThrow _ _).mpr ⟨fun _ _ => trivial, fun _ => trivial⟩, fun _ => trivial⟩
  refine quiet_wp (query_plain _) (fun _ hc => absurd hc List.not_mem_nil) hR fun found cur hcur => ?_
  cases found with
  | some replay =>
      refine quiet_wp (query_plain _) hcur hR fun found cur hcur => ?_
      refine quiet_wp (plain_orThrow _ _) hcur hR fun request cur hcur => ?_
      refine quiet_wp (requestDetails_plain _ request) hcur hR fun details cur hcur => ?_
      refine quiet_wp (plain_require _ _) hcur hR fun _ cur hcur => ?_
      exact hended _ cur fun _ hdid => (hcur _ hdid).elim
  | none => exact decideNew_audits hcur hR hended

end Approvals
section Invoices

variable {cfg : Config} {auth : AuthContext} {past cur : Calls Out}

theorem invalidatePending_plain (org i : Id) :
    (InvoicesService.invalidatePending org i).Plain fun _ => True := by
  refine Plain.bind ((plain_sql _).mpr trivial) fun pending => ?_
  have hupdate : ∀ id, (update (.updateRequest id (.invalidated "INVOICE_DATA_CHANGED"))).Plain
      fun _ => True := fun id => (plain_sql _).mpr trivial
  exact Plain.bind (plain_each hupdate pending) fun _ => plain_pure _

theorem replaceLines_plain (i : Id) (lines : Field (List InvoicesService.InvoiceLineDto)) :
    (InvoicesService.replaceLines i lines).Plain fun _ => True := by
  cases lines with
  | absent => trivial
  | null => trivial
  | given lines =>
      refine Plain.bind ((plain_sql _).mpr trivial) fun _ => ?_
      split
      · exact plain_pure _
      · exact (plain_sql _).mpr trivial

/-- Every edit is audited. -/
theorem update_audits (i : Id) (dto : InvoicesService.UpdateInvoiceDraftDto) :
    (program cfg (.update auth i dto)).wp (auditConduct (.update auth i dto))
      (fun _ _ _ => True) (fun _ _ _ => True) [] [] := by
  have hR : ∀ (e : Failure) (cur : Calls Out), True := fun _ _ => trivial
  have hquery : ∀ q : Query, (query q).Plain fun _ => True := fun q => (plain_sql _).mpr trivial
  have hupdate : ∀ u : Update, (update u).Plain fun _ => True := fun u => (plain_sql _).mpr trivial
  have hrequire : ∀ (c : Prop) [Decidable c] (e : Failure),
      (require c e : Program Unit).Plain fun _ => True := fun c _ e => plain_require c e
  rw [program, wp_bind, InvoicesService.update, wp_transaction]
  refine part_wp (hquery _) hR fun found _ _ _ => ?_
  refine part_wp (P := fun _ => True) (plain_orThrow _ _) hR fun existing _ _ _ => ?_
  refine part_wp (hquery _) hR fun documents _ _ _ => ?_
  refine part_wp (hquery _) hR fun processings _ _ _ => ?_
  refine part_wp (hrequire _ _) hR fun _ _ _ _ => ?_
  rw [InvoicesService.updateChecked]
  refine part_wp (P := fun _ => True) ?_ hR fun _ _ _ _ => ?_
  · unfold whenever
    split
    · exact invalidatePending_plain _ _
    · exact plain_pure _
  refine part_wp (P := fun _ => True) (assertRelationships_plain _ _ _ fun _ => trivial) hR
    fun _ _ _ _ => ?_
  refine part_wp (P := fun _ => True) (plain_orThrow _ _) hR fun edit _ _ _ => ?_
  refine part_wp (hupdate _) hR fun count _ _ _ => ?_
  refine part_wp (hrequire _ _) hR fun _ _ _ _ => ?_
  refine part_wp (replaceLines_plain _ _) hR fun _ _ _ _ => ?_
  refine part_wp (hquery _) hR fun found _ _ _ => ?_
  refine part_wp (P := fun _ => True) (plain_orThrow _ _) hR fun updated _ _ _ => ?_
  refine part_wp (hquery _) hR fun lines _ _ _ => ?_
  refine part_wp (hquery _) hR fun documents _ _ _ => ?_
  refine part_wp (hquery _) hR fun processings _ _ _ => ?_
  refine auditing_wp hR fun cur' haudited => ?_
  refine rest_wp (P := fun _ => True) ?_ hR haudited fun _ _ haudited =>
    ⟨haudited, trivial, fun _ => trivial⟩
  refine Plain.bind ?_ fun _ => plain_pure _
  unfold whenever
  split
  · exact hupdate _
  · exact plain_pure _

/-- The statements that insert no other invoice. -/
def InsertsOnly (i : Id) (s : Stmt) : Prop := ∀ j v, s = .write (.insertInvoice j v) → j = i

theorem createInvoice_audits {dto : InvoicesService.UploadInvoiceDto}
    {file : InvoicesService.UploadedFile} {validated : DocumentValidation.ValidatedDocument}
    {documentId i key : Id} {op : Op} {Q : InvoicesService.InvoiceView → Calls Out → Calls Out → Prop}
    {R : Failure → Calls Out → Calls Out → Prop} (hcur : ∀ c ∈ cur, InsertsOnly i c.1)
    (hR : ∀ e cur, R e past cur)
    (hQ : ∀ a cur', (∀ j v, Did cur' (.insertInvoice j v) () → Audited j cur') → Q a past cur') :
    (InvoicesService.createInvoice cfg auth dto file validated documentId i key).wp
      (auditConduct op) Q R past cur := by
  have hread : ∀ q, InsertsOnly i (.read q) := fun _ _ _ h => by cases h
  have hquery : ∀ q : Query, (query q).Plain (InsertsOnly i) := fun q => (plain_sql _).mpr (hread q)
  rw [InvoicesService.createInvoice]
  refine quiet_wp (assertRelationships_plain _ _ _ hread) hcur hR fun _ cur hcur => ?_
  refine quiet_wp (P := InsertsOnly i) ((plain_sql _).mpr fun _ _ h => by cases h) hcur hR
    fun createdAt cur hcur => ?_
  refine quiet_wp (P := InsertsOnly i) ((plain_sql _).mpr fun _ _ h => by cases h; rfl) hcur hR
    fun _ cur hcur => ?_
  refine quiet_wp (P := InsertsOnly i) ((plain_sql _).mpr fun _ _ h => by cases h) hcur hR
    fun _ cur hcur => ?_
  refine quiet_wp (P := InsertsOnly i) ((plain_sql _).mpr fun _ _ h => by cases h) hcur hR
    fun _ cur hcur => ?_
  refine quiet_wp (hquery _) hcur hR fun found cur hcur => ?_
  refine quiet_wp (plain_orThrow _ _) hcur hR fun created cur hcur => ?_
  refine quiet_wp (hquery _) hcur hR fun documents cur hcur => ?_
  refine quiet_wp (hquery _) hcur hR fun processings cur hcur => ?_
  rw [wp_bind]
  refine update_wp trivial hR fun _ => hQ _ _ fun j v hdid => ?_
  rcases List.mem_cons.mp hdid with heq | hold
  · cases heq
  · rw [hcur _ hold j v rfl]
    exact ⟨_, List.mem_cons_self, rfl⟩

/-- The statements that insert no invoice. -/
def Uninvoiced : Stmt → Prop
  | .write (.insertInvoice _ _) => False
  | _ => True

theorem uninvoiced_due {normalize : Text → Text} {dto : InvoicesService.UploadInvoiceDto}
    {file : Option InvoicesService.UploadedFile} (h : ∀ c ∈ cur, Uninvoiced c.1) :
    (auditConduct (.upload normalize auth dto file)).due past cur :=
  fun _ _ hdid => (h _ hdid).elim

/-- An uploaded invoice is inserted together with its audit. -/
theorem upload_audits (normalize : Text → Text) (dto : InvoicesService.UploadInvoiceDto)
    (file : Option InvoicesService.UploadedFile) :
    (program cfg (.upload normalize auth dto file)).wp
      (auditConduct (.upload normalize auth dto file))
      (fun _ _ _ => True) (fun _ _ _ => True) [] [] := by
  have hnone : ∀ c, Uninvoiced (.call c) := fun _ => trivial
  have hcall : ∀ {α : Type} (c : External) {f : c.Out → Program α} {past : Calls Out},
      (∀ out past', (f out).wp (auditConduct (.upload normalize auth dto file))
        (fun _ _ _ => True) (fun _ _ _ => True) past' []) →
      (external c >>= f).wp (auditConduct (.upload normalize auth dto file))
        (fun _ _ _ => True) (fun _ _ _ => True) past [] := by
    intro α c f past hf
    rw [wp_bind]
    refine auto_wp trivial (fun out => uninvoiced_due fun c hc => ?_) (fun _ => trivial)
      fun out => hf out _
    rw [List.mem_singleton.mp hc]
    trivial
  have hquiet : ∀ {α : Type} {p : Program α} {past : Calls Out}, p.Issues Uninvoiced →
      p.wp (auditConduct (.upload normalize auth dto file)) (fun _ _ _ => True)
        (fun _ _ _ => True) past [] := fun hp =>
    wp_mono (fun _ _ _ _ => trivial) (fun _ _ _ _ => trivial)
      (hp.keeps (fun _ _ _ _ => trivial) (fun _ _ hcur => uninvoiced_due hcur)
        fun _ hc => absurd hc List.not_mem_nil)
  rw [program, wp_bind, InvoicesService.upload, wp_bind]
  refine orThrow_wp (fun _ _ => trivial) fun file _ => ?_
  cases InvoicesService.validateDocumentFile cfg normalize file with
  | error failure => trivial
  | ok validated =>
      refine hcall _ fun documentId past => hcall _ fun i past => hcall _ fun key past =>
        hcall _ fun _ past => ?_
      have hdiscard : ∀ e : Failure, (do
          tryCatch (external (.deleteObject .quarantine key)) fun _ => return ()
          throw e : Program InvoicesService.InvoiceView).Issues Uninvoiced := fun e =>
        Issues.bind (Issues.tryCatch (issues_auto (hnone _)) fun _ => trivial) fun _ => trivial
      have hmark : ∀ code, (InvoicesService.markManualReview auth.organizationId documentId i
          code).Issues Uninvoiced := fun code =>
        Issues.transaction ((issues_sql trivial).bind fun _ => (issues_sql trivial).bind fun _ =>
          trivial)
      rw [wp_bind, wp_tryCatch, wp_transaction]
      refine createInvoice_audits (fun _ hc => absurd hc List.not_mem_nil)
        (fun e cur => hquiet (hdiscard e))
        fun view cur haudited => ⟨haudited, ?_, fun e => hquiet (hdiscard e)⟩
      exact hquiet (Issues.bind (Issues.tryCatch (issues_auto (hnone _)) fun _ => hmark _)
        fun _ => trivial)

end Invoices
section Worker

variable {cfg : Config} {job : InvoiceIngestJob} {d : Document} {past cur : Calls Out}

/-- The statements that do not end the processing of a document. -/
def Ongoing : Stmt → Prop
  | .write (.updateProcessing _ (.suggested _ _)) => False
  | .write (.updateProcessing _ (.blocked _)) => False
  | _ => True

theorem ongoing_due {final : Bool} (h : ∀ c ∈ cur, Ongoing c.1) :
    (auditConduct (.process job final)).due past cur :=
  ⟨fun _ _ _ hdid => (h _ hdid).elim, fun _ _ hdid => (h _ hdid).elim⟩

/-- The two transactions that end it are audited. -/
theorem audited_due {final : Bool} (h : Audited job.documentId cur) :
    (auditConduct (.process job final)).due past cur := ⟨fun _ _ _ _ => h, fun _ _ _ => h⟩

/-- A part of an attempt that leaves the processing going. -/
theorem ongoing_wp {α : Type} {p : Program α} {final : Bool} (h : p.Issues Ongoing)
    (hcur : ∀ c ∈ cur, Ongoing c.1) :
    p.wp (auditConduct (.process job final)) (fun _ _ cur => ∀ c ∈ cur, Ongoing c.1)
      (fun _ _ cur => ∀ c ∈ cur, Ongoing c.1) past cur :=
  wp_mono (fun _ _ _ hgrown => hgrown.opened) (fun _ _ _ hgrown => hgrown.opened)
    (h.keeps (fun _ _ _ _ => trivial) (fun _ _ hcur => ongoing_due hcur) hcur)

theorem block_audits {final : Bool} {Q : Unit → Calls Out → Calls Out → Prop}
    {R : Failure → Calls Out → Calls Out → Prop} (hR : ∀ e past, R e past [])
    (hQ : ∀ past, Q () past []) :
    (InvoicePipeline.block job).wp (auditConduct (.process job final)) Q R past cur := by
  have hsql : ∀ u : Update, (update u).Plain fun _ => True := fun u => (plain_sql _).mpr trivial
  rw [InvoicePipeline.block, wp_transaction]
  refine part_wp (hsql _) (fun e _ => hR e past) fun _ _ _ _ => ?_
  refine part_wp (hsql _) (fun e _ => hR e past) fun _ _ _ _ => ?_
  refine part_wp (hsql _) (fun e _ => hR e past) fun _ _ _ _ => ?_
  exact update_wp trivial (fun e _ => hR e past) fun _ =>
    ⟨audited_due ⟨_, List.mem_cons_self, rfl⟩, hQ _, fun e => hR e past⟩

theorem finishReview_audits {ocr : OcrResult} {final : Bool}
    {Q : Unit → Calls Out → Calls Out → Prop} {R : Failure → Calls Out → Calls Out → Prop}
    (hR : ∀ e past, R e past []) (hQ : ∀ past, Q () past []) :
    (InvoicePipeline.finishReview job ocr).wp (auditConduct (.process job final)) Q R past cur := by
  have hsql : ∀ u : Update, (update u).Plain fun _ => True := fun u => (plain_sql _).mpr trivial
  rw [InvoicePipeline.finishReview, wp_transaction]
  refine part_wp (hsql _) (fun e _ => hR e past) fun _ _ _ _ => ?_
  refine part_wp (hsql _) (fun e _ => hR e past) fun _ _ _ _ => ?_
  exact update_wp trivial (fun e _ => hR e past) fun _ =>
    ⟨audited_due ⟨_, List.mem_cons_self, rfl⟩, hQ _, fun e => hR e past⟩

/-- What an attempt leaves open. -/
def Calmly (_ : Calls Out) (cur : Calls Out) : Prop := ∀ c ∈ cur, Ongoing c.1

theorem calmly_nil (past : Calls Out) : Calmly past [] := fun _ hc => absurd hc List.not_mem_nil

theorem scanAndPromote_audits {final : Bool} (hcur : ∀ c ∈ cur, Ongoing c.1) :
    (InvoicePipeline.scanAndPromote job cfg d).wp (auditConduct (.process job final))
      (fun _ => Calmly) (fun _ => Calmly) past cur := by
  have hcall : ∀ c, Ongoing (.call c) := fun _ => trivial
  have hpromote : ∀ key sha, (InvoicePipeline.promote job key sha).Issues Ongoing := fun key sha =>
    promote_issues (fun _ => trivial) trivial (fun _ => trivial) trivial
  rw [InvoicePipeline.scanAndPromote, wp_bind]
  refine wp_mono (fun _ past cur hcur => ?_) (fun _ _ _ h => h)
    (ongoing_wp (updateProcessing_issues trivial) hcur)
  rw [wp_bind]
  refine wp_mono (fun bytes past cur hcur => ?_) (fun _ _ _ h => h)
    (ongoing_wp (issues_auto (hcall _)) hcur)
  rw [wp_bind]
  refine wp_mono (fun clean past cur hcur => ?_) (fun _ _ _ h => h)
    (ongoing_wp (issues_auto (hcall _)) hcur)
  rw [wp_ite]
  refine ⟨fun _ => ?_, fun _ => ongoing_wp ?_ hcur⟩
  · rw [wp_bind]
    exact block_audits (fun _ past => calmly_nil past) fun past => calmly_nil past
  · refine (issues_auto (hcall _)).bind fun key => ?_
    refine (issues_auto (hcall _)).bind fun _ => ?_
    refine Issues.bind ?_ fun _ => (issues_auto (hcall _)).bind fun _ => trivial
    refine (hpromote _ _).tryCatch fun e => ?_
    exact Issues.bind ((issues_auto (hcall _)).tryCatch fun _ => trivial) fun _ => trivial

theorem ingest_audits {final : Bool} (hcur : ∀ c ∈ cur, Ongoing c.1) :
    (InvoicePipeline.ingest job cfg d).wp (auditConduct (.process job final))
      (fun _ _ _ => True) (fun _ => Calmly) past cur := by
  have hrest : ∀ (file : Option Bytes) (past cur : Calls Out), Calmly past cur →
      (InvoicePipeline.review job d file).wp (auditConduct (.process job final))
            (fun _ _ _ => True) (fun _ => Calmly) past cur := by
    intro file past cur hcur
    cases file with
    | none => trivial
    | some bytes =>
        rw [InvoicePipeline.review, wp_bind]
        refine wp_mono (fun ocr past cur hcur => ?_) (fun _ _ _ h => h)
          (ongoing_wp (p := external _) (issues_auto trivial) hcur)
        exact finishReview_audits (fun _ past => calmly_nil past) fun _ => trivial
  rw [InvoicePipeline.ingest, wp_ite]
  refine ⟨fun _ => ?_, fun _ => ?_⟩
  · rw [wp_bind]
    exact wp_mono (fun file _ _ hcur => hrest file _ _ hcur) (fun _ _ _ h => h)
      (scanAndPromote_audits hcur)
  · rw [wp_bind]
    exact wp_mono (fun file _ _ hcur => hrest file _ _ hcur) (fun _ _ _ h => h)
      (ongoing_wp (downloadApproved_issues trivial fun _ => trivial) hcur)

/-- An attempt ends the processing of its document together with an audit. -/
theorem process_audits (final : Bool) :
    (program cfg (.process job final)).wp (auditConduct (.process job final))
      (fun _ _ _ => True) (fun _ _ _ => True) [] [] := by
  rw [program, wp_bind, InvoicePipeline.process, wp_bind, InvoicePipeline.load]
  have hload : (auto (Stmt.read (.load job)) : Program _).Issues Ongoing := issues_auto trivial
  refine wp_mono (fun found past cur hcur => ?_) (fun _ _ _ _ => trivial)
    (ongoing_wp hload fun _ hc => absurd hc List.not_mem_nil)
  cases found with
  | none => trivial
  | some found =>
      obtain ⟨d, p⟩ := found
      simp only
      rw [wp_ite]
      refine ⟨fun _ => trivial, fun _ => ?_⟩
      rw [wp_tryCatch]
      refine wp_mono (fun _ _ _ _ => trivial) (fun e past cur hcur => ?_) (ingest_audits hcur)
      rw [wp_ite]
      refine ⟨fun _ => ?_, fun _ => ?_⟩
      · rw [wp_bind]
        exact wp_mono (fun _ _ _ _ => trivial) (fun _ _ _ _ => trivial)
          (ongoing_wp (manualReview_issues trivial trivial) hcur)
      · rw [wp_bind]
        exact wp_mono (fun _ _ _ _ => trivial) (fun _ _ _ _ => trivial)
          (ongoing_wp (resetForRetry_issues (fun _ => trivial) fun _ => trivial) hcur)

end Worker

/-- The services and the worker keep their audits. -/
theorem auditing (cfg : Config) : Discipline (machine cfg) auditConduct Legal where
  program op := by
    cases op with
    | submit auth i dto key => exact submit_audits i dto key
    | decide auth id dto key => exact decide_audits id dto key
    | update auth i dto => exact update_audits i dto
    | upload normalize auth dto file => exact upload_audits normalize dto file
    | process job final => exact process_audits final
    | _ => exact wp_unconditional _ _ _
  legal q c view out rows hrun hc := (engine_ok hrun).chain hc
  answers op q c view out rows hrun := trivial
  external db rows hext _ := hext.2

end BlocTrust
