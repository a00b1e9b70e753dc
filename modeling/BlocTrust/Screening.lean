import BlocTrust.Evidence
import BlocTrust.RiskRules

/-!
What a submission has looked at before it warns.
An assessment reports a duplicate number when the count of the vendor's other invoices with
the number is positive, and a duplicate document when a document of the invoice points to an
earlier one; all documents of the invoice were read as approved.
-/
namespace BlocTrust

open ReadCommitted Prog

/-- Two invoices of one vendor whose numbers differ in letter case at most. -/
structure SameBill (cfg : Config) (v w : Invoice) : Prop where
  organization : v.organizationId = w.organizationId
  vendor : v.vendorId ≠ none ∧ v.vendorId = w.vendorId
  number : v.invoiceNumber ≠ none ∧
    v.invoiceNumber.map cfg.toLowerCase = w.invoiceNumber.map cfg.toLowerCase

theorem SameBill.symm {cfg : Config} {v w : Invoice} (h : SameBill cfg v w) :
    SameBill cfg w v where
  organization := h.organization.symm
  vendor := ⟨h.vendor.2 ▸ h.vendor.1, h.vendor.2.symm⟩
  number := by
    refine ⟨fun hnone => h.number.1 ?_, h.number.2.symm⟩
    have hboth := h.number.2
    rw [hnone] at hboth
    exact Option.map_eq_none_iff.mp hboth

/-- The organization, vendor and number of an invoice. -/
def bill (v : Invoice) : Id × Option Id × Option Text :=
  (v.organizationId, v.vendorId, v.invoiceNumber)

theorem SameBill.congr {cfg : Config} {v w v' w' : Invoice} (h : SameBill cfg v w)
    (hv : bill v' = bill v) (hw : bill w' = bill w) : SameBill cfg v' w' := by
  obtain ⟨horg, hvendor, hnumber⟩ : v'.organizationId = v.organizationId ∧
    v'.vendorId = v.vendorId ∧ v'.invoiceNumber = v.invoiceNumber := by simpa [bill] using hv
  obtain ⟨horg', hvendor', hnumber'⟩ : w'.organizationId = w.organizationId ∧
    w'.vendorId = w.vendorId ∧ w'.invoiceNumber = w.invoiceNumber := by simpa [bill] using hw
  refine ⟨?_, ?_, ?_⟩
  · rw [horg, horg']
    exact h.organization
  · rw [hvendor, hvendor']
    exact h.vendor
  · rw [hnumber, hnumber']
    exact h.number

/-- The answers that the warnings of the assessment `a` rest on. -/
structure Screened (cfg : Config) (auth : AuthContext) (i : Id) (cur : Calls Out)
    (a : RiskAssessment) (v : Invoice) (documents : List (Id × Document))
    (processings : List (Option DocumentProcessing)) (complete : Id × Text × Cents)
    (count : Nat) : Prop where
  listed : Saw cur (.findDocuments auth.organizationId i) documents
  scanned : Saw cur (.findProcessings (documents.map Prod.fst)) processings
  reviewed : ApprovalsService.reviewed v documents processings = some complete
  counted : Saw cur (.countSameNumber auth.organizationId complete.1 complete.2.1 i) count
  evaluation : ∃ bank contract amounts policy, a = ApprovalsService.newAssessment auth i v
    (evaluateInvoiceRisk (cfg.uuidText i)
      (ApprovalsService.riskFacts bank documents count complete.2.2 contract amounts) policy
      cfg.sha256 cfg.localeCompare)

def submitScreening (cfg : Config) (auth : AuthContext) (i : Id)
    (dto : ApprovalsService.SubmitInvoiceDto) : Conduct Out where
  before _ cur
    | .read (.findDocuments _ _) => ∃ v, Saw cur (.findInvoice auth.organizationId i) (some v)
    | .read (.countSameNumber _ vendorId number _) => ∃ v,
        Saw cur (.findInvoice auth.organizationId i) (some v) ∧ v.version = dto.version ∧
          v.vendorId = some vendorId ∧ v.invoiceNumber = some number
    | .write (.insertRisk a) => ∃ v documents processings complete count,
        Screened cfg auth i cur a v documents processings complete count
    | _ => True
  due _ _ := True
  answers _ _ := True

def screeningConduct (cfg : Config) : Op → Conduct Out
  | .submit auth i dto _ => submitScreening cfg auth i dto
  | _ => .free

/-- The statements that screening has nothing to say about. -/
def unscreened : Stmt → Prop
  | .read (.findDocuments _ _) => False
  | .read (.countSameNumber _ _ _ _) => False
  | .write (.insertRisk _) => False
  | _ => True

section Programs

theorem policy_unscreened (org : Id) : (ApprovalsService.policy org).Plain unscreened := by
  rw [ApprovalsService.policy]
  refine ((plain_sql _).mpr trivial).bind fun found => ?_
  cases found with
  | some p => trivial
  | none => exact (plain_sql _).mpr trivial

theorem requestDetails_unscreened (id : Id) (r : ApprovalRequest) :
    (ApprovalsService.requestDetails id r).Plain unscreened := by
  rw [ApprovalsService.requestDetails]
  refine ((plain_sql _).mpr trivial).bind fun found => ?_
  refine (plain_orThrow _ _).bind fun v => ?_
  refine ((plain_sql _).mpr trivial).bind fun found => ?_
  refine (plain_orThrow _ _).bind fun risk => ?_
  exact ((plain_sql _).mpr trivial).bind fun _ => trivial

end Programs

section Submit

variable {cfg : Config} {auth : AuthContext} {i : Id} {dto : ApprovalsService.SubmitInvoiceDto}
  {past cur : Calls Out}

theorem submitScreening_unscreened (s : Stmt) (h : unscreened s) (past cur : Calls Out) :
    (submitScreening cfg auth i dto).before past cur s := by
  cases s with
  | read q =>
      cases q with
      | findDocuments org id => exact h.elim
      | countSameNumber org vendorId number exclude => exact h.elim
      | _ => trivial
  | write u =>
      cases u with
      | insertRisk a => exact h.elim
      | _ => trivial
  | call c => trivial

theorem screening_policy {org : Id} {Q : OrganizationRiskPolicy → Calls Out → Calls Out → Prop}
    (hQ : ∀ p cur', Extends cur cur' → Q p past cur') :
    (ApprovalsService.policy org).wp (submitScreening cfg auth i dto) Q (fun _ _ _ => True)
      past cur := by
  have hR : ∀ (e : Failure) (cur : Calls Out), True := fun _ _ => trivial
  rw [ApprovalsService.policy, wp_bind]
  refine query_wp rfl trivial hR fun found cur₁ h₁ _ _ => ?_
  cases found with
  | some p => exact hQ p cur₁ h₁
  | none =>
      refine update_wp trivial hR fun p => ?_
      exact hQ p _ (h₁.trans (.cons_write cur₁ _ _ rfl))

theorem Screened.extend {a : RiskAssessment} {v : Invoice} {documents : List (Id × Document)}
    {processings : List (Option DocumentProcessing)} {complete : Id × Text × Cents} {count : Nat}
    {cur' : Calls Out} (h : Screened cfg auth i cur a v documents processings complete count)
    (hsub : cur ⊆ cur') : Screened cfg auth i cur' a v documents processings complete count :=
  { h with
    listed := hsub h.listed
    scanned := hsub h.scanned
    counted := hsub h.counted }

theorem reviewed_number {v : Invoice} {documents : List (Id × Document)}
    {processings : List (Option DocumentProcessing)} {complete : Id × Text × Cents}
    (h : ApprovalsService.reviewed v documents processings = some complete) :
    v.invoiceNumber = some complete.2.1 ∧
      ∀ e ∈ documents.zip processings, e.1.2.storageState = .approved := by
  unfold ApprovalsService.reviewed at h
  split at h
  · rename_i vendorId number currency total hvendor hnumber _ htotal
    split at h
    · rename_i hall
      cases h
      refine ⟨hnumber, fun e he => ?_⟩
      exact (of_decide_eq_true (List.all_eq_true.mp hall.2.2.2 e he)).1
    · cases h
  · cases h

theorem screening_assess {contract : Option BlocTrust.Contract} {v : Invoice}
    {documents : List (Id × Document)} {processings : List (Option DocumentProcessing)}
    {complete : Id × Text × Cents}
    (hseen : Saw cur (.findInvoice auth.organizationId i) (some v))
    (hversion : v.version = dto.version)
    (hdocuments : Saw cur (.findDocuments auth.organizationId i) documents)
    (hprocessings : Saw cur (.findProcessings (documents.map Prod.fst)) processings)
    (hcomplete : ApprovalsService.reviewed v documents processings = some complete) :
    (ApprovalsService.assess cfg auth i contract documents complete.1 complete.2.1
      complete.2.2).wp (submitScreening cfg auth i dto) (fun assessed _ cur' => ∃ count,
        Screened cfg auth i cur' (ApprovalsService.newAssessment auth i v assessed.2) v documents
          processings complete count)
      (fun _ _ _ => True) past cur := by
  have hR : ∀ (e : Failure) (cur : Calls Out), True := fun _ _ => trivial
  rw [ApprovalsService.assess, wp_bind]
  refine screening_policy fun p cur₁ h₁ => ?_
  rw [wp_bind]
  refine query_wp rfl trivial hR fun found cur₂ h₂ _ _ => ?_
  rw [wp_bind]
  refine orThrow_wp hR fun bank _ => ?_
  rw [wp_bind]
  have hread : ∃ v, Saw cur₂ (.findInvoice auth.organizationId i) (some v) ∧
      v.version = dto.version ∧ v.vendorId = some complete.1 ∧
        v.invoiceNumber = some complete.2.1 :=
    ⟨v, h₂.sub (h₁.sub hseen), hversion, (reviewed_some hcomplete).1, (reviewed_number hcomplete).1⟩
  refine query_wp rfl hread hR fun count cur₃ h₃ hcounted _ => ?_
  rw [wp_bind]
  refine query_wp rfl trivial hR fun amounts cur₄ h₄ _ _ => ?_
  have h₀₄ : cur ⊆ cur₄ := fun _ h => h₄.sub (h₃.sub (h₂.sub (h₁.sub h)))
  exact ⟨count, h₀₄ hdocuments, h₀₄ hprocessings, hcomplete, h₄.sub hcounted, bank.2, contract,
    amounts, p.toRiskPolicySnapshot, rfl⟩

theorem screening_createRequest {v : Invoice} {documents : List (Id × Document)}
    {processings : List (Option DocumentProcessing)} {complete : Id × Text × Cents} {count : Nat}
    {evaluation : RiskEvaluation} {bankId version : Nat} {keyHash : Digest}
    (h : Screened cfg auth i cur (ApprovalsService.newAssessment auth i v evaluation) v documents
      processings complete count) :
    (ApprovalsService.createRequest auth i dto v evaluation bankId version keyHash).wp
      (submitScreening cfg auth i dto) (fun _ _ _ => True) (fun _ _ _ => True) past cur := by
  rw [ApprovalsService.createRequest, wp_bind]
  refine update_wp ⟨v, documents, processings, complete, count, h⟩ (fun _ _ => trivial)
    fun riskId => ?_
  refine wp_mono (fun _ _ _ _ => trivial) (fun _ _ _ _ => trivial)
    (Plain.keeps (P := unscreened) ?_ (fun s hs => submitScreening_unscreened s hs _) _)
  refine ((plain_sql _).mpr trivial).bind fun requestId => ?_
  refine (requestDetails_unscreened _ _).bind fun details => ?_
  refine ((plain_sql _).mpr trivial).bind fun moved => ?_
  refine (plain_require _ _).bind fun _ => ?_
  refine Plain.bind ((plain_sql _).mpr trivial) fun _ => ?_
  refine Plain.bind ((plain_sql _).mpr trivial) fun _ => ?_
  rw [ApprovalsService.eligibleApprovers]
  refine Plain.bind ?_ fun _ => trivial
  exact (policy_unscreened _).bind fun p => (plain_sql _).mpr trivial

theorem screening_findContract {contractId : Option Id}
    {Q : Option BlocTrust.Contract → Calls Out → Calls Out → Prop}
    (hQ : ∀ contract cur', Extends cur cur' → Q contract past cur') :
    (ApprovalsService.findContract contractId).wp (submitScreening cfg auth i dto) Q
      (fun _ _ _ => True) past cur := by
  cases contractId with
  | none => exact hQ none cur (.refl cur)
  | some id =>
      rw [ApprovalsService.findContract]
      exact query_wp rfl trivial (fun _ _ => trivial) fun c cur' h _ _ => hQ c cur' h

theorem submit_screening (key : Option Text) :
    (program cfg (.submit auth i dto key)).wp (submitScreening cfg auth i dto)
      (fun _ _ _ => True) (fun _ _ _ => True) [] [] := by
  have hR : ∀ (e : Failure) (cur : Calls Out), True := fun _ _ => trivial
  rw [program, wp_bind, ApprovalsService.submit, wp_bind, ApprovalsService.idempotencyKeyHash,
    wp_bind]
  refine orThrow_wp hR fun normalized _ => ?_
  rw [wp_pure, wp_transaction, wp_bind]
  refine query_wp rfl trivial hR fun replay cur₁ h₁ _ _ => ?_
  cases replay with
  | some replay =>
      refine wp_mono (fun _ _ _ _ => ⟨trivial, trivial, fun _ => trivial⟩) (fun _ _ _ _ => trivial)
        (Plain.keeps (P := unscreened) ?_ (fun s hs => submitScreening_unscreened s hs _) _)
      refine (requestDetails_unscreened _ _).bind fun details => ?_
      exact (plain_require _ _).bind fun _ => trivial
  | none =>
      simp only [ApprovalsService.submitNew]
      rw [wp_bind]
      refine query_wp rfl trivial hR fun found cur₂ h₂ hseen _ => ?_
      rw [wp_bind]
      refine orThrow_wp hR fun v hv => ?_
      subst hv
      rw [wp_bind]
      refine screening_findContract fun contract cur₃ h₃ => ?_
      rw [wp_bind]
      have hread : ∃ v, Saw cur₃ (.findInvoice auth.organizationId i) (some v) :=
        ⟨v, h₃.sub hseen⟩
      refine query_wp rfl hread hR fun documents cur₄ h₄ hdocuments _ => ?_
      rw [wp_bind]
      refine query_wp rfl trivial hR fun processings cur₅ h₅ hprocessings _ => ?_
      rw [wp_bind]
      refine require_wp hR fun hversion => ?_
      rw [wp_bind]
      refine require_wp hR fun _ => ?_
      rw [wp_bind]
      refine orThrow_wp hR fun complete hcomplete => ?_
      rw [wp_bind]
      have hsub : cur₂ ⊆ cur₅ := fun _ h => h₅.sub (h₄.sub (h₃.sub h))
      refine wp_mono (fun assessed past' cur' hscreened => ?_) (fun _ _ _ _ => trivial)
        (screening_assess (hsub hseen) hversion (h₅.sub hdocuments) hprocessings hcomplete)
      obtain ⟨count, hscreened⟩ := hscreened
      rw [wp_bind]
      refine query_wp rfl trivial hR fun latest cur₇ h₇ _ _ => ?_
      exact wp_mono (fun _ _ _ _ => ⟨trivial, trivial, fun _ => trivial⟩) (fun _ _ _ h => h)
        (screening_createRequest (hscreened.extend h₇.sub))

end Submit

/-- Every submission screens its invoice. -/
theorem screening (cfg : Config) : Discipline (machine cfg) (screeningConduct cfg) Legal where
  program op := by
    cases op with
    | submit auth i dto key => exact submit_screening key
    | _ => exact wp_unconditional _ _ _
  legal := (discipline cfg).legal
  answers op _ _ _ _ _ _ := by
    cases op <;> trivial
  external := (discipline cfg).external

end BlocTrust
