import BlocTrust.Knowledge
import BlocTrust.ReadCommitted.Extend
import BlocTrust.WorkerPrograms

/-!
Whose rows a call of a service reads and writes.
Every audit row that a call inserts names the organization of its caller, every policy that it
creates or changes is the policy of that organization; an attempt of the worker writes for the
organization of its job.  Most queries of a call of the API name the organization of the caller in
their condition.  The others name rows by their identifiers only: these the transaction has from
rows of the organization that it has read, or from the request that it has just inserted.
-/
namespace BlocTrust

open ReadCommitted Prog

/-- The organization for which a call is made. -/
def Op.organizationId : Op → Id
  | .submit auth _ _ _ => auth.organizationId
  | .decide auth _ _ _ => auth.organizationId
  | .updatePolicy auth _ => auth.organizationId
  | .upload _ auth _ _ => auth.organizationId
  | .update auth _ _ => auth.organizationId
  | .addBankVersion auth _ _ => auth.organizationId
  | .process job _ => job.organizationId

/-- Statements that write no audit row and no policy but those of the organization. -/
def ofTenant (o : Id) : Stmt → Prop
  | .write (.insertAudit a) => a.organizationId = o
  | .write (.insertPolicy organizationId) => organizationId = o
  | .write (.updatePolicy organizationId _) => organizationId = o
  | _ => True

/-- The transaction has a request of the organization in hand. -/
def InHand (o : Id) (cur : Calls Out) (id : Id) (r : ApprovalRequest) : Prop :=
  r.organizationId = o ∧ (Saw cur (.findRequest o id) (some r) ∨
    (∃ key, Saw cur (.findRequestByKey o key) (some (id, r))) ∨ Did cur (.insertRequest r) id)

def known (o : Id) (cur : Calls Out) : Query → Prop
  | .findInvoice org _ | .findDocuments org _ | .findContractOf org _ _ | .findVendor org _
  | .findRequestByKey org _ | .findRequest org _ | .findDecisionByKey org _ | .latestRequest org _
  | .latestBank org _ | .countSameNumber org _ _ _ | .previousAmounts org _ _ | .findPolicy org
  | .findMembership _ org _ | .findApprovers org _ | .findSession _ org _ _ _
  | .countApprovals org _ _ | .pendingOfInvoice org _ | .pendingOfVendor org _
  | .awaitingOfVendor org _ | .findGrants org _ _ | .findVendorInScope org _ _
  | .documentStorage org _ | .findDuplicate org _ _ => org = o
  | .findProcessings ids => ∃ i documents, Saw cur (.findDocuments o i) documents ∧
      ids = documents.map Prod.fst
  | .findContract id => ∃ i v, Saw cur (.findInvoice o i) (some v) ∧ v.contractId = some id
  | .findRisk id => ∃ requestId r, InHand o cur requestId r ∧ id = r.riskAssessmentId
  | .findDecisions requestId => ∃ r, InHand o cur requestId r
  | .findLines i => ∃ v, Saw cur (.findInvoice o i) (some v)
  | .load job => job.organizationId = o

/-- A request that is found by its organization belongs to it. -/
def FindsOwned : (s : Stmt) → Out s → Prop
  | .read (.findRequest org _), found => ∀ r, found = some r → r.organizationId = org
  | .read (.findRequestByKey org _), found => ∀ id r, found = some (id, r) → r.organizationId = org
  | _, _ => True

def asking (o : Id) : Conduct Out where
  before _ cur
    | .read q => known o cur q
    | s => ofTenant o s
  due _ _ := True
  answers := FindsOwned

def writing (o : Id) : Conduct Out where
  before _ _ := ofTenant o
  due _ _ := True
  answers _ _ := True

/-- The worker connects as the owner of the tables, and reads what it likes. -/
def tenantConduct : Op → Conduct Out
  | .process job _ => writing job.organizationId
  | op => asking op.organizationId

/-- The statements that name the organization, and those that read nothing. -/
def names (o : Id) : Stmt → Prop
  | .read q => known o [] q
  | s => ofTenant o s

section Rules

variable {o : Id} {cur : Calls Out} {α β : Type} {Q : α → Calls Out → Prop}

theorem InHand.extend {id : Id} {r : ApprovalRequest} {cur' : Calls Out} (h : InHand o cur id r)
    (hsub : cur ⊆ cur') : InHand o cur' id r := by
  obtain ⟨horg, hseen | ⟨key, hseen⟩ | hdid⟩ := h
  · exact ⟨horg, .inl (hsub hseen)⟩
  · exact ⟨horg, .inr (.inl ⟨key, hsub hseen⟩)⟩
  · exact ⟨horg, .inr (.inr (hsub hdid))⟩

theorem not_inHand_nil {id : Id} {r : ApprovalRequest} : ¬ InHand o [] id r := by
  rintro ⟨-, h | ⟨key, h⟩ | h⟩
  · exact List.not_mem_nil h
  · exact List.not_mem_nil h
  · exact List.not_mem_nil h

theorem names_known {s : Stmt} (h : names o s) (past cur : Calls Out) :
    (asking o).before past cur s := by
  cases s with
  | read q =>
      have h : known o [] q := h
      show known o cur q
      cases q with
      | findProcessings ids =>
          obtain ⟨i, documents, hseen, -⟩ := h
          exact absurd hseen List.not_mem_nil
      | findContract id =>
          obtain ⟨i, v, hseen, -⟩ := h
          exact absurd hseen List.not_mem_nil
      | findRisk id =>
          obtain ⟨requestId, r, hhand, -⟩ := h
          exact absurd hhand not_inHand_nil
      | findDecisions requestId =>
          obtain ⟨r, hhand⟩ := h
          exact absurd hhand not_inHand_nil
      | findLines i =>
          obtain ⟨v, hseen⟩ := h
          exact absurd hseen List.not_mem_nil
      | _ => exact h
  | write u => exact h
  | call c => trivial

/-- The open transaction asks for rows of the organization, and leads to `Q` where it goes on. -/
def Asking (o : Id) (cur : Calls Out) (p : Program α) (Q : α → Calls Out → Prop) : Prop :=
  ∀ past, p.wp (asking o) (fun a _ cur => Q a cur) (fun _ _ _ => True) past cur

theorem asking_bind {p : Program α} {f : α → Program β} {Q : β → Calls Out → Prop}
    (h : Asking o cur p fun a cur => Asking o cur (f a) Q) : Asking o cur (p >>= f) Q :=
  fun past => (wp_bind p f).mpr
    (wp_mono (fun _ past _ hf => hf past) (fun _ _ _ _ => trivial) (h past))

theorem asking_pure {a : α} (h : Q a cur) : Asking o cur (pure a) Q := fun _ => h

theorem asking_require {c : Prop} [Decidable c] {e : Failure} {Q : Unit → Calls Out → Prop}
    (h : c → Q () cur) : Asking o cur (require c e) Q :=
  fun _ => (wp_require c e).mpr ⟨h, fun _ => trivial⟩

theorem asking_orThrow {a : Option α} {e : Failure} (h : ∀ v, a = some v → Q v cur) :
    Asking o cur (orThrow a e) Q := fun _ => (wp_orThrow a e).mpr ⟨h, fun _ => trivial⟩

theorem asking_query {q : Query} {Q : q.Out → Calls Out → Prop} (hq : known o cur q)
    (h : ∀ out, FindsOwned (.read q) out → Q out (⟨.read q, out⟩ :: cur)) :
    Asking o cur (query q) Q := fun _ => ⟨hq, fun out ha => h out ha, fun _ => trivial⟩

theorem asking_plain {p : Program α} (hp : p.Plain (names o))
    (h : ∀ a cur', cur ⊆ cur' → Q a cur') : Asking o cur p Q := by
  intro past
  refine wp_mono (fun a _ cur' hkeeps => h a cur' hkeeps.2.1) (fun _ _ _ _ => trivial)
    (hp.keeps (fun s hs cur => names_known hs past cur) cur)

theorem asking_update {u : Update} {Q : u.Out → Calls Out → Prop} (hu : ofTenant o (.write u))
    (h : ∀ out, Q out (⟨.write u, out⟩ :: cur)) : Asking o cur (update u) Q :=
  fun _ => ⟨hu, fun out _ => h out, fun _ => trivial⟩

/-- A transaction that asks for rows of the organization to its end. -/
theorem asking_transaction {p : Program α} (h : Asking o [] p fun _ _ => True) (past : Calls Out) :
    (transaction p).wp (asking o) (fun _ _ _ => True) (fun _ _ _ => True) past [] :=
  (wp_transaction p).mpr (wp_mono (fun _ _ _ _ => ⟨trivial, trivial, fun _ => trivial⟩)
    (fun _ _ _ h => h) (h past))

theorem asking_issues {p : Program α} (h : p.Issues (names o)) (past : Calls Out) :
    p.wp (asking o) (fun _ _ _ => True) (fun _ _ _ => True) past [] :=
  wp_mono (fun _ _ _ _ => trivial) (fun _ _ _ _ => trivial)
    (h.keeps (fun _ hs _ _ => names_known hs _ _) (fun _ _ _ => trivial) fun _ hc => by simp at hc)

end Rules

section Stretches

variable {o : Id} {cur : Calls Out} {auth : AuthContext}

theorem policy_names (o : Id) : (ApprovalsService.policy o).Plain (names o) := by
  rw [ApprovalsService.policy]
  refine Plain.bind ((plain_sql _).mpr rfl) fun found => ?_
  cases found with
  | some p => trivial
  | none => exact (plain_sql _).mpr rfl

theorem eligibleApprovers_names (r : ApprovalRequest) :
    (ApprovalsService.eligibleApprovers o r).Plain (names o) := by
  rw [ApprovalsService.eligibleApprovers]
  exact (policy_names o).bind fun p => (plain_sql _).mpr rfl

theorem writeAudit_names (action entityType : String) (entityId : Id) (reason : Option Text) :
    (writeAudit auth action entityType entityId reason).Plain (names auth.organizationId) :=
  (plain_sql _).mpr rfl

theorem assertRelationships_names (vendorId contractId : Option Id) :
    (InvoicesService.assertRelationships o vendorId contractId).Plain (names o) := by
  have hvendor : (InvoicesService.assertVendor o vendorId).Plain (names o) := by
    cases vendorId with
    | none => trivial
    | some v => exact Plain.bind ((plain_sql _).mpr rfl) fun _ => plain_require _ _
  refine hvendor.bind fun _ => ?_
  cases contractId with
  | none => trivial
  | some c =>
      refine (plain_orThrow _ _).bind fun v => ?_
      exact Plain.bind ((plain_sql _).mpr rfl) fun _ => plain_require _ _

theorem asking_requestDetails {id : Id} {r : ApprovalRequest}
    {Q : ApprovalsService.RequestDetails → Calls Out → Prop} (hhand : InHand o cur id r)
    (h : ∀ details cur', cur ⊆ cur' → Q details cur') :
    Asking o cur (ApprovalsService.requestDetails id r) Q := by
  rw [ApprovalsService.requestDetails]
  refine asking_bind (asking_query hhand.1 fun found _ => ?_)
  refine asking_bind (asking_orThrow fun v _ => ?_)
  have hrisk : InHand o (⟨.read (.findInvoice r.organizationId r.invoiceId), found⟩ :: cur) id r :=
    hhand.extend (List.subset_cons_self _ _)
  refine asking_bind (asking_query ⟨id, r, hrisk, rfl⟩ fun found' _ => ?_)
  refine asking_bind (asking_orThrow fun a _ => ?_)
  refine asking_bind (asking_query ⟨r, hrisk.extend (List.subset_cons_self _ _)⟩ fun _ _ => ?_)
  refine asking_pure (h _ _ fun c hc => ?_)
  exact List.mem_cons_of_mem _ (List.mem_cons_of_mem _ (List.mem_cons_of_mem _ hc))

/-- The documents of an invoice with their processings. -/
theorem asking_processings {i : Id} {documents : List (Id × Document)}
    {Q : List (Option DocumentProcessing) → Calls Out → Prop}
    (hseen : Saw cur (.findDocuments o i) documents) (h : ∀ out cur', cur ⊆ cur' → Q out cur') :
    Asking o cur (query (.findProcessings (documents.map Prod.fst))) Q :=
  asking_query ⟨i, documents, hseen, rfl⟩ fun out _ => h out _ (List.subset_cons_self _ _)

end Stretches

section Services

variable {cfg : Config} {auth : AuthContext} {i : Id}

theorem assess_names (contract : Option Contract) (documents : List (Id × Document))
    (vendorId : Id) (invoiceNumber : Text) (total : Cents) :
    (ApprovalsService.assess cfg auth i contract documents vendorId invoiceNumber total).Plain
      (names auth.organizationId) := by
  rw [ApprovalsService.assess]
  refine (policy_names _).bind fun policy => Plain.bind ((plain_sql _).mpr rfl) fun found => ?_
  refine (plain_orThrow _ _).bind fun bank => Plain.bind ((plain_sql _).mpr rfl) fun _ => ?_
  exact Plain.bind ((plain_sql _).mpr rfl) fun _ => trivial

theorem createRequest_asking {cur : Calls Out} (dto : ApprovalsService.SubmitInvoiceDto)
    (v : Invoice) (evaluation : RiskEvaluation) (bankId version : Id) (keyHash : Digest) :
    Asking auth.organizationId cur
      (ApprovalsService.createRequest auth i dto v evaluation bankId version keyHash)
      fun _ _ => True := by
  rw [ApprovalsService.createRequest]
  refine asking_bind (asking_update trivial fun riskId => ?_)
  refine asking_bind (asking_update trivial fun requestId => ?_)
  refine asking_bind (asking_requestDetails ⟨rfl, .inr (.inr List.mem_cons_self)⟩ ?_)
  intro details cur₁ _
  refine asking_plain ?_ fun _ _ _ => trivial
  refine Plain.bind ((plain_sql _).mpr trivial) fun moved => (plain_require _ _).bind fun _ => ?_
  refine (writeAudit_names _ _ _ _).bind fun _ => (writeAudit_names _ _ _ _).bind fun _ => ?_
  exact (eligibleApprovers_names _).bind fun _ => trivial

theorem findContract_asking {cur : Calls Out} {v : Invoice}
    {Q : Option BlocTrust.Contract → Calls Out → Prop}
    (hseen : Saw cur (.findInvoice auth.organizationId i) (some v))
    (h : ∀ contract cur', cur ⊆ cur' → Q contract cur') :
    Asking auth.organizationId cur (ApprovalsService.findContract v.contractId) Q := by
  cases hid : v.contractId with
  | none => exact asking_pure (h none cur (List.Subset.refl _))
  | some id =>
      exact asking_query ⟨i, v, hseen, hid⟩ fun contract _ =>
        h contract _ (List.subset_cons_self _ _)

theorem submit_asking (dto : ApprovalsService.SubmitInvoiceDto) (key : Option Text) :
    (program cfg (.submit auth i dto key)).wp (asking auth.organizationId) (fun _ _ _ => True)
      (fun _ _ _ => True) [] [] := by
  rw [program, wp_bind, ApprovalsService.submit, wp_bind, ApprovalsService.idempotencyKeyHash,
    wp_bind]
  refine orThrow_wp (fun _ _ => trivial) fun normalized _ => ?_
  rw [wp_pure]
  refine wp_mono (fun _ _ _ _ => trivial) (fun _ _ _ h => h) (asking_transaction ?_ [])
  refine asking_bind (asking_query rfl fun replay hfound => ?_)
  cases replay with
  | some replay =>
      have horg := hfound replay.1 replay.2 rfl
      refine asking_bind (asking_requestDetails ⟨horg, .inr (.inl ⟨_, List.mem_cons_self⟩)⟩ ?_)
      intro details cur _
      exact asking_bind (asking_require fun _ => asking_pure trivial)
  | none =>
      simp only [ApprovalsService.submitNew]
      refine asking_bind (asking_query rfl fun found _ => ?_)
      refine asking_bind (asking_orThrow fun v hv => ?_)
      subst hv
      refine asking_bind (findContract_asking List.mem_cons_self fun contract cur₁ _ => ?_)
      refine asking_bind (asking_query rfl fun documents _ => ?_)
      refine asking_bind (asking_processings List.mem_cons_self fun processings cur₂ _ => ?_)
      refine asking_bind (asking_require fun _ => ?_)
      refine asking_bind (asking_require fun _ => ?_)
      refine asking_bind (asking_orThrow fun complete _ => ?_)
      refine asking_bind (asking_plain (assess_names _ _ _ _ _) fun assessed cur₃ _ => ?_)
      exact asking_bind (asking_query rfl fun latest _ => createRequest_asking _ _ _ _ _ _)

theorem invalidate_names {o : Id} (id : Id) (r : ApprovalRequest) (reason : String) :
    (ApprovalsService.invalidate id r reason).Plain (names o) := by
  rw [ApprovalsService.invalidate]
  refine Plain.bind ((plain_sql _).mpr trivial) fun _ => ?_
  exact Plain.bind ((plain_sql _).mpr trivial) fun _ => trivial

theorem bankIsCurrent_names {o : Id} (r : ApprovalRequest) (vendorId : Option Id) :
    (ApprovalsService.bankIsCurrent o r vendorId).Plain (names o) := by
  cases vendorId with
  | none => trivial
  | some vendor =>
      refine Plain.bind ((plain_sql _).mpr rfl) fun latest => ?_
      cases latest <;> trivial

theorem authorize_names (r : ApprovalRequest) :
    (ApprovalsService.authorize cfg auth r).Plain (names auth.organizationId) := by
  rw [ApprovalsService.authorize]
  refine Plain.bind ((plain_sql _).mpr rfl) fun found => (plain_orThrow _ _).bind fun m => ?_
  refine (policy_names _).bind fun policy => (plain_require _ _).bind fun _ => ?_
  refine Plain.bind ((plain_sql _).mpr trivial) fun checked => ?_
  refine Plain.bind ((plain_sql _).mpr trivial) fun current => ?_
  exact Plain.bind ((plain_sql _).mpr rfl) fun session => plain_orThrow _ _

theorem settle_names (id : Id) (r : ApprovalRequest) (outcome : ApprovalDecisionOutcome) :
    (ApprovalsService.settle auth id r outcome).Plain (names auth.organizationId) := by
  have hcomplete : ∀ outcome, (ApprovalsService.complete id r outcome).Plain
      (names auth.organizationId) := by
    intro outcome
    refine Plain.bind ((plain_sql _).mpr trivial) fun t => ?_
    refine Plain.bind ((plain_sql _).mpr trivial) fun n => (plain_require _ _).bind fun _ => ?_
    exact Plain.bind ((plain_sql _).mpr trivial) fun m => plain_require _ _
  cases outcome with
  | reject => exact hcomplete .reject
  | approve =>
      rw [ApprovalsService.settle]
      refine Plain.bind ((plain_sql _).mpr rfl) fun n => ?_
      split
      · exact hcomplete .approve
      · trivial

theorem createDecision_names {o : Id} (d : ApprovalDecision) :
    (ApprovalsService.createDecision d).Plain (names o) := by
  refine Plain.tryCatch ((plain_sql _).mpr trivial) fun e => ?_
  split
  · exact ⟨_, rfl⟩
  · exact ⟨e, rfl⟩

theorem record_asking {cur : Calls Out} (id : Id) (r : ApprovalRequest)
    (dto : ApprovalsService.ApprovalDecisionDto) (keyHash : Digest) :
    Asking auth.organizationId cur (ApprovalsService.record cfg auth id r dto keyHash)
      fun _ _ => True := by
  rw [ApprovalsService.record]
  refine asking_bind (asking_plain (authorize_names r) fun verifiedAt cur₀ _ => ?_)
  refine asking_bind (asking_plain ((plain_sql _).mpr trivial) fun createdAt cur₁ _ => ?_)
  refine asking_bind (asking_plain (createDecision_names _) fun _ cur₂ _ => ?_)
  refine asking_bind (asking_plain (settle_names _ _ _) fun _ cur₃ _ => ?_)
  refine asking_bind (asking_plain (writeAudit_names _ _ _ _) fun _ cur₄ _ => ?_)
  refine asking_bind (asking_query rfl fun found hfound => ?_)
  refine asking_bind (asking_orThrow fun updated hupdated => ?_)
  subst hupdated
  refine asking_bind (asking_requestDetails ⟨hfound updated rfl, .inl List.mem_cons_self⟩ ?_)
  intro details cur₅ _
  exact asking_bind (asking_plain (eligibleApprovers_names _) fun _ _ _ => asking_pure trivial)

theorem decide_asking (id : Id) (dto : ApprovalsService.ApprovalDecisionDto) (key : Option Text) :
    (program cfg (.decide auth id dto key)).wp (asking auth.organizationId) (fun _ _ _ => True)
      (fun _ _ _ => True) [] [] := by
  rw [program, wp_bind, ApprovalsService.decide, wp_bind, ApprovalsService.idempotencyKeyHash,
    wp_bind]
  refine orThrow_wp (fun _ _ => trivial) fun normalized _ => ?_
  rw [wp_pure, wp_bind]
  refine wp_mono (fun result past cur _ => ?_) (fun _ _ _ h => h) (asking_transaction ?_ [])
  · exact orThrow_wp (fun _ _ => trivial) fun view _ => trivial
  refine asking_bind (asking_query rfl fun replay _ => ?_)
  cases replay with
  | some replay =>
      refine asking_bind (asking_query rfl fun found hfound => ?_)
      refine asking_bind (asking_orThrow fun request hrequest => ?_)
      subst hrequest
      refine asking_bind (asking_requestDetails ⟨hfound request rfl, .inl List.mem_cons_self⟩ ?_)
      intro details cur _
      exact asking_bind (asking_require fun _ => asking_pure trivial)
  | none =>
      simp only [ApprovalsService.decideNew]
      refine asking_bind (asking_query rfl fun found hfound => ?_)
      refine asking_bind (asking_orThrow fun request hrequest => ?_)
      subst hrequest
      refine asking_bind (asking_requestDetails ⟨hfound request rfl, .inl List.mem_cons_self⟩ ?_)
      intro details cur₁ _
      refine asking_bind (asking_require fun _ => ?_)
      refine asking_bind (asking_require fun _ => ?_)
      split
      · exact asking_bind (asking_plain (invalidate_names _ _ _) fun _ _ _ => asking_pure trivial)
      · refine asking_bind (asking_plain (bankIsCurrent_names _ _) fun current cur₂ _ => ?_)
        split
        · exact asking_bind (asking_plain (invalidate_names _ _ _) fun _ _ _ => asking_pure trivial)
        · exact asking_bind fun past => wp_mono (fun _ _ _ _ => asking_pure trivial)
            (fun _ _ _ h => h) (record_asking id request dto _ past)

theorem updatePolicy_asking (dto : ApprovalsService.UpdateRiskPolicyDto) :
    (program cfg (.updatePolicy auth dto)).wp (asking auth.organizationId) (fun _ _ _ => True)
      (fun _ _ _ => True) [] [] := by
  rw [program, wp_bind, ApprovalsService.updatePolicy]
  refine wp_mono (fun _ _ _ _ => trivial) (fun _ _ _ h => h) (asking_transaction ?_ [])
  refine asking_plain ((policy_names _).bind fun existing => ?_) fun _ _ _ => trivial
  refine (plain_require _ _).bind fun _ => (plain_orThrow _ _).bind fun change => ?_
  refine Plain.bind ((plain_sql _).mpr rfl) fun updated => ?_
  exact (writeAudit_names _ _ _ _).bind fun _ => trivial

theorem createInvoice_asking (dto : InvoicesService.UploadInvoiceDto)
    (file : InvoicesService.UploadedFile) (validated : DocumentValidation.ValidatedDocument)
    (documentId invoiceId key : Id) :
    Asking auth.organizationId [] (InvoicesService.createInvoice cfg auth dto file validated
      documentId invoiceId key) fun _ _ => True := by
  rw [InvoicesService.createInvoice]
  refine asking_bind (asking_plain (assertRelationships_names _ _) fun _ cur₁ _ => ?_)
  refine asking_bind (asking_plain ((plain_sql _).mpr trivial) fun t cur₂ _ => ?_)
  refine asking_bind (asking_update trivial fun _ => asking_bind (asking_update trivial fun _ => ?_))
  refine asking_bind (asking_update trivial fun _ => asking_bind (asking_query rfl fun found _ => ?_))
  refine asking_bind (asking_orThrow fun created _ => ?_)
  refine asking_bind (asking_query rfl fun documents _ => ?_)
  refine asking_bind (asking_processings List.mem_cons_self fun processings cur₃ _ => ?_)
  exact asking_bind (asking_plain (writeAudit_names _ _ _ _) fun _ _ _ => asking_pure trivial)

theorem upload_asking (normalize : Text → Text) (dto : InvoicesService.UploadInvoiceDto)
    (file : Option InvoicesService.UploadedFile) :
    (program cfg (.upload normalize auth dto file)).wp (asking auth.organizationId)
      (fun _ _ _ => True) (fun _ _ _ => True) [] [] := by
  have hauto : ∀ {c : External} {Q : c.Out → Calls Out → Calls Out → Prop}
      {R : Failure → Calls Out → Calls Out → Prop} {past : Calls Out},
      (∀ e past, R e past []) → (∀ out past, Q out past []) →
      (external c).wp (asking auth.organizationId) Q R past [] :=
    fun hR hQ => auto_wp trivial (fun _ => trivial) (fun e => hR e _) fun out => hQ out _
  rw [program, wp_bind, InvoicesService.upload, wp_bind]
  refine orThrow_wp (fun _ _ => trivial) fun file _ => ?_
  cases InvoicesService.validateDocumentFile cfg normalize file with
  | error failure => trivial
  | ok validated =>
      simp only
      rw [wp_bind]
      refine hauto (fun _ _ => trivial) fun documentId past₁ => ?_
      rw [wp_bind]
      refine hauto (fun _ _ => trivial) fun invoiceId past₂ => ?_
      rw [wp_bind]
      refine hauto (fun _ _ => trivial) fun key past₃ => ?_
      rw [wp_bind]
      refine hauto (fun _ _ => trivial) fun _ past₄ => ?_
      have hdiscard : ∀ {Q : InvoicesService.InvoiceView → Calls Out → Calls Out → Prop}
          (e : Failure) (past : Calls Out), (do
            tryCatch (external (.deleteObject .quarantine key)) fun _ => return ()
            throw e : Program InvoicesService.InvoiceView).wp (asking auth.organizationId) Q
              (fun _ _ _ => True) past [] := by
        intro Q e past
        rw [wp_bind, wp_tryCatch]
        exact hauto (fun _ _ => trivial) fun _ _ => trivial
      have hmark : (InvoicesService.markManualReview auth.organizationId documentId invoiceId
          "QUEUE_UNAVAILABLE".toList).Issues (names auth.organizationId) := by
        refine Issues.transaction (Issues.bind (issues_sql trivial) fun _ => ?_)
        exact Issues.bind (issues_sql trivial) fun _ => trivial
      rw [wp_bind, wp_tryCatch, wp_transaction]
      refine wp_mono (fun view past cur _ => ⟨trivial, ?_, fun e => hdiscard e _⟩)
        (fun e past _ _ => hdiscard e past) (createInvoice_asking dto file validated _ _ _ past₄)
      rw [wp_bind, wp_tryCatch]
      refine hauto (fun e past => ?_) fun _ _ => trivial
      exact wp_mono (fun _ _ _ _ => trivial) (fun _ _ _ h => h) (asking_issues hmark past)

theorem invalidatePending_names (o : Id) :
    (InvoicesService.invalidatePending o i).Plain (names o) := by
  refine Plain.bind ((plain_sql _).mpr rfl) fun pending => ?_
  refine Plain.bind (plain_each (fun id => ?_) _) fun _ => trivial
  exact (plain_sql (Stmt.write (.updateRequest id _))).mpr trivial

theorem replaceLines_names {o : Id} (lines : Field (List InvoicesService.InvoiceLineDto)) :
    (InvoicesService.replaceLines i lines).Plain (names o) := by
  cases lines with
  | given lines =>
      refine Plain.bind ((plain_sql _).mpr trivial) fun _ => ?_
      split
      · trivial
      · exact (plain_sql _).mpr trivial
  | _ => trivial

theorem whenever_names {o : Id} {c : Prop} [Decidable c] {p : Program Unit}
    (h : p.Plain (names o)) : (whenever c p).Plain (names o) := by
  unfold whenever
  split
  · exact h
  · trivial

theorem update_asking (dto : InvoicesService.UpdateInvoiceDraftDto) :
    (program cfg (.update auth i dto)).wp (asking auth.organizationId) (fun _ _ _ => True)
      (fun _ _ _ => True) [] [] := by
  rw [program, wp_bind, InvoicesService.update]
  refine wp_mono (fun _ _ _ _ => trivial) (fun _ _ _ h => h) (asking_transaction ?_ [])
  refine asking_bind (asking_query rfl fun found _ => ?_)
  refine asking_bind (asking_orThrow fun existing _ => ?_)
  refine asking_bind (asking_query rfl fun documents _ => ?_)
  refine asking_bind (asking_processings List.mem_cons_self fun processings cur₁ _ => ?_)
  refine asking_bind (asking_require fun _ => ?_)
  simp only [InvoicesService.updateChecked]
  refine asking_bind (asking_plain (whenever_names (invalidatePending_names _)) fun _ cur₂ _ => ?_)
  refine asking_bind (asking_plain (assertRelationships_names _ _) fun _ cur₃ _ => ?_)
  refine asking_bind (asking_orThrow fun edit _ => asking_bind (asking_update trivial fun count => ?_))
  refine asking_bind (asking_require fun _ => ?_)
  refine asking_bind (asking_plain (replaceLines_names _) fun _ cur₄ _ => ?_)
  refine asking_bind (asking_query rfl fun found _ => ?_)
  refine asking_bind (asking_orThrow fun updated hupdated => ?_)
  subst hupdated
  refine asking_bind (asking_query ⟨updated, List.mem_cons_self⟩ fun lines _ => ?_)
  refine asking_bind (asking_query rfl fun documents _ => ?_)
  refine asking_bind (asking_processings List.mem_cons_self fun processings cur₅ _ => ?_)
  refine asking_bind (asking_plain (writeAudit_names _ _ _ _) fun _ cur₆ _ => ?_)
  refine asking_bind (asking_plain (whenever_names (writeAudit_names _ _ _ _)) fun _ _ _ => ?_)
  exact asking_pure trivial

theorem freeze_names (o vendorId : Id) : (VendorsService.freeze o vendorId).Plain (names o) := by
  refine Plain.bind ((plain_sql _).mpr rfl) fun pending => ?_
  refine Plain.bind (plain_each (fun id => ?_) _) fun _ => ?_
  · exact (plain_sql (Stmt.write (.updateRequest id _))).mpr trivial
  refine Plain.bind ((plain_sql _).mpr rfl) fun awaiting => ?_
  refine Plain.bind (plain_each (fun id => ?_) _) fun _ => trivial
  exact (plain_sql (Stmt.write (.updateInvoice id _))).mpr trivial

theorem assertCanReadVendor_names (vendorId : Id) :
    (VendorsService.assertCanReadVendor auth vendorId).Plain (names auth.organizationId) := by
  have hscope : (VendorsService.vendorScope auth).Plain (names auth.organizationId) := by
    rw [VendorsService.vendorScope]
    split
    · trivial
    · refine Plain.bind ((plain_sql _).mpr trivial) fun t => ?_
      exact Plain.bind ((plain_sql _).mpr rfl) fun _ => trivial
  refine hscope.bind fun scope => Plain.bind ((plain_sql _).mpr rfl) fun vendor => ?_
  exact plain_require _ _

theorem addBankVersion_asking (vendorId : Id) (dto : CreateBankAccountVersionDto) :
    (program cfg (.addBankVersion auth vendorId dto)).wp (asking auth.organizationId)
      (fun _ _ _ => True) (fun _ _ _ => True) [] [] := by
  rw [program, wp_bind, VendorsService.addBankVersion]
  refine wp_mono (fun _ _ _ _ => trivial) (fun _ _ _ h => h) (asking_transaction ?_ [])
  refine asking_plain ((assertCanReadVendor_names _).bind fun _ => ?_) fun _ _ _ => trivial
  refine Plain.bind ((plain_sql _).mpr rfl) fun latest => Plain.tryCatch ?_ fun e => ?_
  · refine Plain.bind ((plain_sql _).mpr trivial) fun id => ?_
    refine (whenever_names (freeze_names _ _)).bind fun _ => ?_
    exact (writeAudit_names _ _ _ _).bind fun _ => trivial
  · split
    · exact ⟨_, rfl⟩
    · exact ⟨e, rfl⟩

end Services

section Worker

variable {cfg : Config} {job : InvoiceIngestJob}

theorem ingest_ofTenant (d : Document) :
    (InvoicePipeline.ingest job cfg d).Issues (ofTenant job.organizationId) := by
  have haudit : ∀ action, (InvoicePipeline.audit job action).Issues (ofTenant job.organizationId) :=
    fun action => issues_sql rfl
  have hblock : (InvoicePipeline.block job).Issues (ofTenant job.organizationId) := by
    refine Issues.transaction (Issues.bind (issues_sql trivial) fun _ => ?_)
    refine Issues.bind (issues_sql trivial) fun _ => ?_
    exact Issues.bind (issues_sql trivial) fun _ => haudit _
  have hfinish : ∀ ocr, (InvoicePipeline.finishReview job ocr).Issues
      (ofTenant job.organizationId) := by
    intro ocr
    refine Issues.transaction (Issues.bind (issues_sql trivial) fun _ => ?_)
    exact Issues.bind (issues_sql trivial) fun _ => haudit _
  have hreview : ∀ file : Option Bytes, (InvoicePipeline.review job d file).Issues
      (ofTenant job.organizationId) := fun file => finish_issues hfinish fun _ => trivial
  rw [InvoicePipeline.ingest]
  split
  · refine Issues.bind
      (scanAndPromote_issues hblock (fun _ _ => ?_) trivial fun _ => trivial) hreview
    exact promote_issues (fun _ => trivial) trivial (fun _ => trivial) trivial
  · exact Issues.bind (downloadApproved_issues trivial fun _ => trivial) hreview

theorem process_ofTenant (final : Bool) :
    (InvoicePipeline.process job cfg final).Issues (ofTenant job.organizationId) := by
  have hload : (InvoicePipeline.load job).Issues (ofTenant job.organizationId) :=
    issues_auto trivial
  rw [InvoicePipeline.process]
  refine hload.bind fun found => ?_
  cases found with
  | none => trivial
  | some found =>
      obtain ⟨d, r⟩ := found
      simp only
      split
      · trivial
      · refine (ingest_ofTenant d).tryCatch fun e => ?_
        split
        · exact (manualReview_issues trivial trivial).bind fun _ => trivial
        · exact (resetForRetry_issues (fun _ => trivial) fun _ => trivial).bind fun _ => trivial

end Worker

theorem FindsOwned.of_ran {cfg : Config} {view rows : Db} {s : Stmt} {out : Out s}
    (h : Ran cfg view s out rows) : FindsOwned s out := by
  cases h with
  | @read q out choice h =>
      cases q with
      | findRequest org id =>
          intro r hr
          cases h
          exact of_decide_eq_true (rowWhere_eq_some.mp hr).2
      | findRequestByKey org key =>
          intro id r hr
          subst hr
          have hmem := mem_of_anyOf h
          have hcond := (List.mem_filter.mp hmem).2
          exact (of_decide_eq_true hcond).1
      | _ => trivial
  | write h => trivial
  | call choice h => trivial

/-- Every call of the API asks for the rows of its organization, and every call writes for its
organization. -/
theorem tenancy (cfg : Config) : Discipline (machine cfg) tenantConduct Legal where
  program op := by
    cases op with
    | submit auth i dto key => exact submit_asking dto key
    | decide auth id dto key => exact decide_asking id dto key
    | updatePolicy auth dto => exact @updatePolicy_asking cfg auth dto
    | upload normalize auth dto file => exact upload_asking normalize dto file
    | update auth i dto => exact update_asking dto
    | addBankVersion auth vendorId dto => exact addBankVersion_asking vendorId dto
    | process job final =>
        exact wp_mono (fun _ _ _ _ => trivial) (fun _ _ _ _ => trivial)
          (Issues.keeps ((process_ofTenant final).bind fun _ => trivial) (fun _ hs _ _ => hs)
            (fun _ _ _ => trivial) fun c hc => absurd hc List.not_mem_nil)
  legal := (discipline cfg).legal
  answers op q c view out rows hrun := by
    have h := FindsOwned.of_ran (engine_ok hrun)
    cases op <;> first | exact h | trivial
  external := (discipline cfg).external

theorem ofTenant_of_before {op : Op} {past cur : Calls Out} {u : Update}
    (h : (tenantConduct op).before past cur (.write u)) : ofTenant op.organizationId (.write u) := by
  cases op <;> exact h

end BlocTrust
