import BlocTrust.Knowledge
import BlocTrust.ReadCommitted.Outcomes

/-!
What an assessment was computed from.
`submit` evaluates the rules on the latest bank account and the policy that its transaction
read, and `addBankVersion` stores one bank account version; both are conducts beside the
one of the services, and a process keeps them together with it.
-/
namespace BlocTrust

open ReadCommitted Prog

/-- The invoice, bank account and policy that the evaluation of `a` rests on. -/
structure Computed (cfg : Config) (auth : AuthContext) (i : Id) (cur : Calls Out)
    (a : RiskAssessment) (v : Invoice) (vendorId : Id) (bank : Id × VendorBankAccountVersion)
    (policy : OrganizationRiskPolicy) : Prop where
  invoice : Saw cur (.findInvoice auth.organizationId i) (some v)
  vendor : v.vendorId = some vendorId
  latest : Saw cur (.latestBank auth.organizationId vendorId) (some bank)
  rules : Saw cur (.findPolicy auth.organizationId) (some policy) ∨
    Did cur (.insertPolicy auth.organizationId) policy
  organization : a.organizationId = auth.organizationId
  subject : a.invoiceId = i
  account : a.evaluation.facts.bankAccountVersion = some bank.2.versionNumber
  evaluation : a.evaluation = evaluateInvoiceRisk (cfg.uuidText i) a.evaluation.facts
    policy.toRiskPolicySnapshot cfg.sha256 cfg.localeCompare

def submitEvidence (cfg : Config) (auth : AuthContext) (i : Id) : Conduct Out where
  before _ cur
    | .write (.insertRisk a) => ∃ v vendorId bank policy,
        Computed cfg auth i cur a v vendorId bank policy
    | _ => True
  due _ _ := True
  answers _ _ := True

def bankEvidence : Conduct Out where
  before _ cur
    | .write (.insertBank _) => ∀ b id, ¬ Did cur (.insertBank b) id
    | _ => True
  due _ _ := True
  answers _ _ := True

def evidenceConduct (cfg : Config) : Op → Conduct Out
  | .submit auth i _ _ => submitEvidence cfg auth i
  | .addBankVersion _ _ _ => bankEvidence
  | _ => .free

/-- Every statement but the insertion of an assessment. -/
def spares : Stmt → Prop
  | .write (.insertRisk _) => False
  | .write (.insertBank _) => False
  | _ => True

section Programs

theorem policy_spares (org : Id) : (ApprovalsService.policy org).Plain spares := by
  rw [ApprovalsService.policy]
  refine ((plain_sql _).mpr trivial).bind fun found => ?_
  cases found with
  | some p => trivial
  | none => exact (plain_sql _).mpr trivial

theorem requestDetails_spares (id : Id) (r : ApprovalRequest) :
    (ApprovalsService.requestDetails id r).Plain spares := by
  rw [ApprovalsService.requestDetails]
  refine ((plain_sql _).mpr trivial).bind fun found => ?_
  refine (plain_orThrow _ _).bind fun v => ?_
  refine ((plain_sql _).mpr trivial).bind fun found => ?_
  refine (plain_orThrow _ _).bind fun risk => ?_
  exact ((plain_sql _).mpr trivial).bind fun _ => trivial

theorem eligibleApprovers_spares (org : Id) (r : ApprovalRequest) :
    (ApprovalsService.eligibleApprovers org r).Plain spares := by
  rw [ApprovalsService.eligibleApprovers]
  exact (policy_spares org).bind fun p => (plain_sql _).mpr trivial

theorem writeAudit_spares (auth : AuthContext) (action entityType : String) (id : Id)
    (reason : Option Text) : (writeAudit auth action entityType id reason).Plain spares :=
  (plain_sql _).mpr trivial

theorem freeze_spares (org vendorId : Id) : (VendorsService.freeze org vendorId).Plain spares := by
  rw [VendorsService.freeze]
  have hrequest : ∀ id reason, (update (.updateRequest id (.invalidated reason))).Plain spares :=
    fun _ _ => (plain_sql _).mpr trivial
  have hinvoice : ∀ id, (update (.updateInvoice id (.frozen org vendorId))).Plain spares :=
    fun _ => (plain_sql _).mpr trivial
  refine ((plain_sql _).mpr trivial).bind fun pending => ?_
  refine (plain_each (fun id => hrequest id _) _).bind fun _ => ?_
  refine ((plain_sql _).mpr trivial).bind fun awaiting => ?_
  exact (plain_each hinvoice _).bind fun _ => trivial

end Programs

section Submit

variable {cfg : Config} {auth : AuthContext} {i : Id} {past cur : Calls Out}

theorem submitEvidence_spares (s : Stmt) (h : spares s) (past cur : Calls Out) :
    (submitEvidence cfg auth i).before past cur s := by
  cases s with
  | write u =>
      cases u with
      | insertRisk a => exact h.elim
      | _ => trivial
  | _ => trivial

theorem submitEvidence_lenient : Lenient (submitEvidence cfg auth i) :=
  ⟨fun _ _ _ _ => trivial, fun _ _ => trivial, fun _ _ _ => trivial⟩

theorem evidence_assess {contract : Option BlocTrust.Contract} {documents : List (Id × Document)}
    {v : Invoice} {vendorId : Id} {invoiceNumber : Text} {total : Cents}
    (hseen : Saw cur (.findInvoice auth.organizationId i) (some v))
    (hvendor : v.vendorId = some vendorId) :
    (ApprovalsService.assess cfg auth i contract documents vendorId invoiceNumber total).wp
      (submitEvidence cfg auth i) (fun assessed _ cur' => ∃ bank policy,
        Computed cfg auth i cur' (ApprovalsService.newAssessment auth i v assessed.2) v vendorId
          bank policy)
      (fun _ _ _ => True) past cur := by
  have hR : ∀ (e : Failure) (cur : Calls Out), True := fun _ _ => trivial
  rw [ApprovalsService.assess, wp_bind]
  refine policy_wp submitEvidence_lenient (fun _ _ => trivial) hR fun p cur₁ h₁ hpolicy => ?_
  rw [wp_bind]
  refine query_wp rfl trivial hR fun found cur₂ h₂ hbank _ => ?_
  rw [wp_bind]
  refine orThrow_wp hR fun bank hfound => ?_
  subst hfound
  rw [wp_bind]
  refine query_wp rfl trivial hR fun duplicates cur₃ h₃ _ _ => ?_
  rw [wp_bind]
  refine query_wp rfl trivial hR fun amounts cur₄ h₄ _ _ => ?_
  have h₂₄ : cur₂ ⊆ cur₄ := fun _ h => h₄.sub (h₃.sub h)
  have h₁₄ : cur₁ ⊆ cur₄ := fun _ h => h₂₄ (h₂.sub h)
  exact ⟨bank, p, h₁₄ (h₁.sub hseen), hvendor, h₂₄ hbank,
    hpolicy.imp (fun h => h₁₄ h) (fun h => h₁₄ h), rfl, rfl, rfl, rfl⟩

theorem evidence_createRequest {dto : ApprovalsService.SubmitInvoiceDto} {v : Invoice}
    {vendorId : Id} {bank : Id × VendorBankAccountVersion} {policy : OrganizationRiskPolicy}
    {evaluation : RiskEvaluation} {bankId version : Nat} {keyHash : Digest}
    (h : Computed cfg auth i cur (ApprovalsService.newAssessment auth i v evaluation) v vendorId
      bank policy) :
    (ApprovalsService.createRequest auth i dto v evaluation bankId version keyHash).wp
      (submitEvidence cfg auth i) (fun _ _ _ => True) (fun _ _ _ => True) past cur := by
  rw [ApprovalsService.createRequest, wp_bind]
  refine update_wp ⟨v, vendorId, bank, policy, h⟩ (fun _ _ => trivial) fun riskId => ?_
  refine wp_mono (fun _ _ _ _ => trivial) (fun _ _ _ _ => trivial)
    (Plain.keeps (P := spares) ?_ (fun s hs => submitEvidence_spares s hs _) _)
  refine ((plain_sql _).mpr trivial).bind fun requestId => ?_
  refine (requestDetails_spares _ _).bind fun details => ?_
  refine ((plain_sql _).mpr trivial).bind fun moved => ?_
  refine (plain_require _ _).bind fun _ => ?_
  refine (writeAudit_spares _ _ _ _ _).bind fun _ => ?_
  refine (writeAudit_spares _ _ _ _ _).bind fun _ => ?_
  exact (eligibleApprovers_spares _ _).bind fun _ => trivial

theorem evidence_findContract {contractId : Option Id}
    {Q : Option BlocTrust.Contract → Calls Out → Calls Out → Prop}
    (hQ : ∀ contract cur', Extends cur cur' → Q contract past cur') :
    (ApprovalsService.findContract contractId).wp (submitEvidence cfg auth i) Q
      (fun _ _ _ => True) past cur := by
  cases contractId with
  | none => exact hQ none cur (.refl cur)
  | some id =>
      rw [ApprovalsService.findContract]
      exact query_wp rfl trivial (fun _ _ => trivial) fun c cur' h _ _ => hQ c cur' h

theorem submit_evidence (dto : ApprovalsService.SubmitInvoiceDto) (key : Option Text) :
    (program cfg (.submit auth i dto key)).wp (submitEvidence cfg auth i)
      (fun _ _ _ => True) (fun _ _ _ => True) [] [] := by
  have hR : ∀ (e : Failure) (cur : Calls Out), True := fun _ _ => trivial
  rw [program, wp_bind, ApprovalsService.submit, wp_bind, ApprovalsService.idempotencyKeyHash,
    wp_bind]
  refine orThrow_wp hR fun normalized _ => ?_
  rw [wp_pure, wp_transaction, wp_bind]
  refine query_wp rfl trivial hR fun replay cur₁ h₁ _ _ => ?_
  cases replay with
  | some replay =>
      refine wp_mono (fun _ _ _ _ => ⟨trivial, trivial, fun _ => trivial⟩) (fun _ _ _ _ => trivial)
        (Plain.keeps (P := spares) ?_ (fun s hs => submitEvidence_spares s hs _) _)
      refine (requestDetails_spares _ _).bind fun details => ?_
      exact (plain_require _ _).bind fun _ => trivial
  | none =>
      simp only [ApprovalsService.submitNew]
      rw [wp_bind]
      refine query_wp rfl trivial hR fun found cur₂ h₂ hseen _ => ?_
      rw [wp_bind]
      refine orThrow_wp hR fun v hv => ?_
      subst hv
      rw [wp_bind]
      refine evidence_findContract fun contract cur₃ h₃ => ?_
      rw [wp_bind]
      refine query_wp rfl trivial hR fun documents cur₄ h₄ _ _ => ?_
      rw [wp_bind]
      refine query_wp rfl trivial hR fun processings cur₅ h₅ _ _ => ?_
      rw [wp_bind]
      refine require_wp hR fun _ => ?_
      rw [wp_bind]
      refine require_wp hR fun _ => ?_
      rw [wp_bind]
      refine orThrow_wp hR fun complete hcomplete => ?_
      rw [wp_bind]
      have hsub : cur₂ ⊆ cur₅ := fun _ h => h₅.sub (h₄.sub (h₃.sub h))
      refine wp_mono (fun assessed past' cur' hcomputed => ?_) (fun _ _ _ _ => trivial)
        (evidence_assess (hsub hseen) (reviewed_some hcomplete).1)
      obtain ⟨bank, policy, hcomputed⟩ := hcomputed
      rw [wp_bind]
      refine query_wp rfl trivial hR fun latest cur₇ h₇ _ _ => ?_
      have hlater : Computed cfg auth i cur₇
          (ApprovalsService.newAssessment auth i v assessed.2) v complete.1 bank policy :=
        { hcomputed with
          invoice := h₇.sub hcomputed.invoice
          latest := h₇.sub hcomputed.latest
          rules := hcomputed.rules.imp (fun h => h₇.sub h) fun h => h₇.sub h }
      exact wp_mono (fun _ _ _ _ => ⟨trivial, trivial, fun _ => trivial⟩) (fun _ _ _ h => h)
        (evidence_createRequest hlater)

end Submit

section Bank

theorem bankEvidence_spares (s : Stmt) (h : spares s) (past cur : Calls Out) :
    bankEvidence.before past cur s := by
  cases s with
  | write u =>
      cases u with
      | insertBank b => exact h.elim
      | _ => trivial
  | _ => trivial

theorem bankEvidence_lenient : Lenient bankEvidence :=
  ⟨fun _ _ _ _ => trivial, fun _ _ => trivial, fun _ _ _ => trivial⟩

theorem addBankVersion_evidence (cfg : Config) (auth : AuthContext) (vendorId : Id)
    (dto : CreateBankAccountVersionDto) :
    (program cfg (.addBankVersion auth vendorId dto)).wp bankEvidence
      (fun _ _ _ => True) (fun _ _ _ => True) [] [] := by
  have hR : ∀ (e : Failure) (cur : Calls Out), True := fun _ _ => trivial
  have hscope : (VendorsService.assertCanReadVendor auth vendorId).wp bankEvidence
      (fun _ _ cur => Clean cur) (fun _ _ _ => True) [] [] := by
    rw [VendorsService.assertCanReadVendor, wp_bind, VendorsService.vendorScope, wp_ite]
    refine ⟨fun _ => ?_, fun _ => ?_⟩
    · rw [wp_pure, wp_bind]
      refine query_wp rfl trivial hR fun vendor cur₁ h₁ _ _ => ?_
      exact require_wp hR fun _ => clean_nil.extend h₁
    · rw [wp_bind]
      refine now_wp bankEvidence_lenient hR fun t cur₁ h₁ => ?_
      rw [wp_bind]
      refine query_wp rfl trivial hR fun buildings cur₂ h₂ _ _ => ?_
      rw [wp_pure, wp_bind]
      refine query_wp rfl trivial hR fun vendor cur₃ h₃ _ _ => ?_
      exact require_wp hR fun _ => clean_nil.extend ((h₁.trans h₂).trans h₃)
  rw [program, wp_bind, VendorsService.addBankVersion, wp_transaction, wp_bind]
  refine wp_mono (fun _ past cur hclean => ?_) (fun _ _ _ _ => trivial) hscope
  rw [wp_bind]
  refine query_wp rfl trivial hR fun latest cur₁ h₁ _ _ => ?_
  rw [wp_tryCatch, wp_bind]
  refine update_wp ?_ (fun e cur => ?_) fun id => ?_
  · exact fun b id hdid => (hclean.extend h₁) _ id rfl hdid
  · rw [wp_ite]
    exact ⟨fun _ => trivial, fun _ => trivial⟩
  · refine wp_mono (fun _ _ _ _ => ⟨trivial, trivial, fun _ => trivial⟩) (fun e past' cur' _ => ?_)
      (Plain.keeps (P := spares) ?_ (fun s hs => bankEvidence_spares s hs _) _)
    · rw [wp_ite]
      exact ⟨fun _ => trivial, fun _ => trivial⟩
    · refine Plain.bind ?_ fun _ => (writeAudit_spares _ _ _ _ _).bind fun _ => trivial
      unfold whenever
      split
      · exact freeze_spares _ _
      · trivial

end Bank

/-- Every call keeps its evidence as well. -/
theorem evidence (cfg : Config) : Discipline (machine cfg) (evidenceConduct cfg) Legal where
  program op := by
    cases op with
    | submit auth i dto key => exact submit_evidence dto key
    | addBankVersion auth vendorId dto => exact addBankVersion_evidence cfg auth vendorId dto
    | _ => exact wp_unconditional _ _ _
  legal := (discipline cfg).legal
  answers op _ _ _ _ _ _ := by
    cases op <;> trivial
  external := (discipline cfg).external

end BlocTrust
