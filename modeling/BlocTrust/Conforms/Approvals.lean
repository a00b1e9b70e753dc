import BlocTrust.Conforms.Rules

/-!
`ApprovalsService` keeps its conduct.
-/
namespace BlocTrust

open ReadCommitted Prog

section Submit

variable {auth : AuthContext} {i : Id} {dto : ApprovalsService.SubmitInvoiceDto}

theorem submit_lenient : Lenient (submitConduct auth i dto) :=
  ⟨fun _ _ _ _ => trivial, fun _ _ => trivial, fun _ _ _ => trivial⟩

variable {past cur : Calls Out} {R : Failure → Calls Out → Calls Out → Prop}

theorem SubmitReady.extend {cur cur' : Calls Out} {v : Invoice}
    (h : SubmitReady auth i dto cur v) (hsub : cur ⊆ cur') : SubmitReady auth i dto cur' v :=
  ⟨hsub h.seen, h.version, h.status⟩

theorem assess_wp {cfg : Config} {contract : Option BlocTrust.Contract}
    {documents : List (Id × Document)} {vendorId : Id} {invoiceNumber : Text} {total : Cents}
    {Q : Id × RiskEvaluation → Calls Out → Calls Out → Prop} (hR : ∀ e cur, R e past cur)
    (hQ : ∀ bank evaluation cur', Extends cur cur' →
      Saw cur' (.latestBank auth.organizationId vendorId) (some bank) →
      evaluation.facts.totalAmount = some total → Q (bank.1, evaluation) past cur') :
    (ApprovalsService.assess cfg auth i contract documents vendorId invoiceNumber total).wp
      (submitConduct auth i dto) Q R past cur := by
  rw [ApprovalsService.assess, wp_bind]
  refine policy_wp submit_lenient (fun _ _ => trivial) hR fun p cur₁ h₁ _ => ?_
  rw [wp_bind]
  refine query_wp rfl trivial hR fun found cur₂ h₂ hbank _ => ?_
  rw [wp_bind]
  refine orThrow_wp hR fun bank hfound => ?_
  subst hfound
  rw [wp_bind]
  refine query_wp rfl trivial hR fun duplicates cur₃ h₃ _ _ => ?_
  rw [wp_bind]
  refine query_wp rfl trivial hR fun amounts cur₄ h₄ _ _ => ?_
  exact hQ bank _ cur₄ ((h₁.trans h₂).trans (h₃.trans h₄)) (h₄.sub (h₃.sub hbank)) rfl

theorem findContract_wp {contractId : Option Id}
    {Q : Option BlocTrust.Contract → Calls Out → Calls Out → Prop} (hR : ∀ e cur, R e past cur)
    (hQ : ∀ contract cur', Extends cur cur' → Q contract past cur') :
    (ApprovalsService.findContract contractId).wp (submitConduct auth i dto) Q R past cur := by
  cases contractId with
  | none => exact hQ none cur (.refl cur)
  | some id =>
      rw [ApprovalsService.findContract]
      exact query_wp rfl trivial hR fun c cur' h _ _ => hQ c cur' h

/-- What `submit` has done once its request is stored. -/
theorem createRequest_wp {v : Invoice} {evaluation : RiskEvaluation} {vendorId : Id}
    {bank : Id × VendorBankAccountVersion} {requestVersion : Nat} {keyHash : Digest}
    {Q : ApprovalsService.ApprovalView → Calls Out → Calls Out → Prop}
    (hclean : Clean cur) (hready : SubmitReady auth i dto cur v)
    (hvendor : v.vendorId = some vendorId)
    (hbank : Saw cur (.latestBank auth.organizationId vendorId) (some bank))
    (htotal : evaluation.facts.totalAmount = v.totalAmount) (hR : ∀ e cur, R e past cur)
    (hQ : ∀ view cur', (submitConduct auth i dto).due past cur' → Q view past cur') :
    (ApprovalsService.createRequest auth i dto v evaluation bank.1 requestVersion keyHash).wp
      (submitConduct auth i dto) Q R past cur := by
  have hassesses : Assesses auth i dto v
      (ApprovalsService.newAssessment auth i v evaluation) :=
    ⟨rfl, rfl, by simp [ApprovalsService.newAssessment, hready.version], htotal⟩
  rw [ApprovalsService.createRequest, wp_bind]
  refine update_wp ⟨v, hready, hassesses⟩ hR fun riskId => ?_
  rw [wp_bind]
  refine update_wp ?_ hR fun requestId => ?_
  · refine ⟨⟨v, vendorId, bank, _, riskId, requestVersion, keyHash, ?_, hvendor, ?_, ?_, ?_, rfl⟩,
      ?_⟩
    · exact hready.extend (List.subset_cons_self ..)
    · exact List.mem_cons_of_mem _ hbank
    · exact List.mem_cons_self
    · exact hassesses
    · intro r' id hdid
      exact hclean _ id rfl (by simpa using hdid)
  rw [wp_bind]
  refine requestDetails_wp submit_lenient hR fun _ _ _ cur₁ h₁ _ => ?_
  rw [wp_bind]
  have hinserted : Did cur₁ (.insertRequest (ApprovalsService.newRequest auth i v evaluation
      riskId bank.1 requestVersion keyHash)) requestId := h₁.sub List.mem_cons_self
  have huntouched : InvoiceUntouched cur₁ i := by
    intro c n hdid
    have hold := h₁.back _ _ rfl hdid
    exact hclean _ n rfl (by simpa using hold)
  have honly : ∀ r id, Did cur₁ (.insertRequest r) id →
      r = ApprovalsService.newRequest auth i v evaluation riskId bank.1 requestVersion keyHash := by
    intro r id hdid
    have hold := h₁.back _ _ rfl hdid
    simp only [List.mem_cons, Sigma.mk.injEq, Stmt.write.injEq, Update.insertRequest.injEq] at hold
    rcases hold with h | h | h
    · exact h.1
    · cases h.1
    · exact absurd h (hclean _ _ rfl)
  refine update_wp ⟨rfl, huntouched, _, requestId, bank.1, hinserted, rfl, rfl⟩ hR fun moved => ?_
  rw [wp_bind]
  refine require_wp hR fun hmoved => ?_
  subst hmoved
  rw [wp_bind]
  refine writeAudit_wp submit_lenient hR fun cur₂ h₂ => ?_
  rw [wp_bind]
  refine writeAudit_wp submit_lenient hR fun cur₃ h₃ => ?_
  rw [wp_bind]
  refine eligibleApprovers_wp submit_lenient (fun _ _ => trivial) hR fun ids cur₄ h₄ => ?_
  refine hQ _ cur₄ fun r requestId' hdid => ⟨bank.1, ?_, ?_⟩
  · have hold := ((h₂.trans h₃).trans h₄).back _ _ rfl hdid
    rw [honly r requestId' (by simpa using hold)]
    rfl
  · exact ((h₂.trans h₃).trans h₄).sub List.mem_cons_self

theorem reviewed_some {v : Invoice} {documents : List (Id × Document)}
    {processings : List (Option DocumentProcessing)} {c : Id × Text × Cents}
    (h : ApprovalsService.reviewed v documents processings = some c) :
    v.vendorId = some c.1 ∧ v.totalAmount = some c.2.2 := by
  unfold ApprovalsService.reviewed at h
  split at h
  · rename_i vendorId number currency total hvendor _ _ htotal
    split at h
    · cases h
      exact ⟨hvendor, htotal⟩
    · cases h
  · cases h

theorem submit_conforms (cfg : Config) (key : Option Text) :
    (program cfg (.submit auth i dto key)).wp (submitConduct auth i dto)
      (fun _ _ _ => True) (fun _ _ _ => True) [] [] := by
  rw [program, wp_bind, ApprovalsService.submit, wp_bind, ApprovalsService.idempotencyKeyHash,
    wp_bind]
  refine orThrow_wp (fun _ _ => trivial) fun normalized _ => ?_
  rw [wp_pure, wp_transaction, wp_bind]
  refine query_wp rfl trivial (fun _ _ => trivial) fun replay cur₁ h₁ _ _ => ?_
  have hclean := clean_nil.extend h₁
  cases replay with
  | some replay =>
      rw [wp_bind]
      refine requestDetails_wp submit_lenient (fun _ _ => trivial) fun _ _ _ cur₂ h₂ _ => ?_
      rw [wp_bind]
      refine require_wp (fun _ _ => trivial) fun _ => ⟨?_, trivial, fun _ => trivial⟩
      exact fun r id hdid => absurd hdid (hclean.extend h₂ _ _ rfl)
  | none =>
      simp only [ApprovalsService.submitNew]
      rw [wp_bind]
      refine query_wp rfl trivial (fun _ _ => trivial) fun found cur₂ h₂ hseen _ => ?_
      rw [wp_bind]
      refine orThrow_wp (fun _ _ => trivial) fun v hv => ?_
      subst hv
      rw [wp_bind]
      refine findContract_wp (fun _ _ => trivial) fun contract cur₃ h₃ => ?_
      rw [wp_bind]
      refine query_wp rfl trivial (fun _ _ => trivial) fun documents cur₄ h₄ _ _ => ?_
      rw [wp_bind]
      refine query_wp rfl trivial (fun _ _ => trivial) fun processings cur₅ h₅ _ _ => ?_
      rw [wp_bind]
      refine require_wp (fun _ _ => trivial) fun hversion => ?_
      rw [wp_bind]
      refine require_wp (fun _ _ => trivial) fun hstatus => ?_
      rw [wp_bind]
      refine orThrow_wp (fun _ _ => trivial) fun complete hcomplete => ?_
      obtain ⟨hvendor, htotal⟩ := reviewed_some hcomplete
      rw [wp_bind]
      refine assess_wp (fun _ _ => trivial) fun bank evaluation cur₆ h₆ hbank hfacts => ?_
      rw [wp_bind]
      refine query_wp rfl trivial (fun _ _ => trivial) fun latest cur₇ h₇ _ _ => ?_
      have h₂₇ := ((h₃.trans h₄).trans h₅).trans (h₆.trans h₇)
      exact createRequest_wp ((hclean.extend h₂).extend h₂₇) ⟨h₂₇.sub hseen, hversion, hstatus⟩
        hvendor (h₇.sub hbank) (hfacts.trans htotal.symm) (fun _ _ => trivial)
        fun view cur' hdue => ⟨hdue, trivial, fun _ => trivial⟩

end Submit

section Decide

variable {cfg : Config} {auth : AuthContext} {requestId : Id}

theorem decide_lenient : Lenient (decideConduct cfg auth requestId) := by
  refine ⟨fun past cur q hq => ?_, fun _ _ => trivial, fun _ _ _ => trivial⟩
  cases q <;> first | exact hq.elim | trivial

variable {past cur cur' : Calls Out} {r : ApprovalRequest} {v : Invoice}
  {R : Failure → Calls Out → Calls Out → Prop}

theorem DecideSeen.extend (h : DecideSeen auth requestId cur r v) (hsub : cur ⊆ cur') :
    DecideSeen auth requestId cur' r v :=
  ⟨hsub h.request, hsub h.invoice, h.pending⟩

theorem DecideReady.extend (h : DecideReady auth requestId cur r v) (hsub : cur ⊆ cur') :
    DecideReady auth requestId cur' r v :=
  ⟨h.toDecideSeen.extend hsub, h.version, h.status⟩

theorem Authorized.extend {d : ApprovalDecision} (h : Authorized cfg auth cur r v d)
    (hsub : cur ⊆ cur') : Authorized cfg auth cur' r v d where
  bank vendorId hv := by
    obtain ⟨bank, hseen, heq⟩ := h.bank vendorId hv
    exact ⟨bank, hsub hseen, heq⟩
  membership := by
    obtain ⟨m, hseen⟩ := h.membership
    exact ⟨m, hsub hseen⟩
  policy := by
    obtain ⟨p, hpolicy, hseparated⟩ := h.policy
    exact ⟨p, hpolicy.imp (fun h => hsub h) fun h => hsub h, hseparated⟩
  session := by
    obtain ⟨current, checkedAt, session, hseen, hverified⟩ := h.session
    exact ⟨current, checkedAt, session, hsub hseen, hverified⟩

theorem Clean.decideDue (h : Clean cur) : DecideDue auth requestId cur where
  settled _ hdid := absurd hdid (h _ _ rfl)
  completed _ _ _ hdid := absurd hdid (h _ _ rfl)
  invalidated _ _ hdid := absurd hdid (h _ _ rfl)

theorem DecideDue.extend (h : DecideDue auth requestId cur) (he : Extends cur cur') :
    DecideDue auth requestId cur' where
  settled d hdid := by
    obtain ⟨r, v, hready, hreject, happrove⟩ := h.settled d (he.back _ _ rfl hdid)
    refine ⟨r, v, hready.extend he.sub, fun ho => ?_, fun ho => ?_⟩
    · obtain ⟨t, n, hn, hupdate⟩ := hreject ho
      exact ⟨t, n, hn, he.sub hupdate⟩
    · obtain ⟨n, hn, hdone⟩ := happrove ho
      refine ⟨n, he.sub hn, fun hle => ?_⟩
      obtain ⟨t, m, hm, hupdate⟩ := hdone hle
      exact ⟨t, m, hm, he.sub hupdate⟩
  completed outcome t n hdid := by
    obtain ⟨r, v, m, hready, hm, hupdate⟩ := h.completed outcome t n (he.back _ _ rfl hdid)
    exact ⟨r, v, m, hready.extend he.sub, hm, he.sub hupdate⟩
  invalidated reason n hdid := by
    obtain ⟨r, v, m, hseen, hupdate⟩ := h.invalidated reason n (he.back _ _ rfl hdid)
    exact ⟨r, v, m, hseen.extend he.sub, he.sub hupdate⟩

theorem invalidate_wp {reason : String} {Q : Unit → Calls Out → Calls Out → Prop}
    (hclean : Clean cur) (hseen : DecideSeen auth requestId cur r v)
    (hR : ∀ e cur, R e past cur)
    (hQ : ∀ cur', DecideDue auth requestId cur' → Q () past cur') :
    (ApprovalsService.invalidate requestId r reason).wp (decideConduct cfg auth requestId)
      Q R past cur := by
  rw [ApprovalsService.invalidate, wp_bind]
  refine update_wp ⟨rfl, fun c n => hclean _ _ rfl, ⟨r, v, hseen⟩, fun d => hclean _ _ rfl⟩ hR
    fun n => ?_
  rw [wp_bind]
  have hseen₁ := hseen.extend (List.subset_cons_self
    (⟨.write (.updateRequest requestId (.invalidated reason)), n⟩ : Sigma Out) cur)
  refine update_wp ⟨?_, r, v, reason, n, hseen₁, rfl, rfl, List.mem_cons_self⟩ hR fun m => ?_
  · intro c k hdid
    exact hclean _ k rfl (by simpa using hdid)
  refine hQ _ ⟨?_, ?_, ?_⟩
  · intro d hdid
    exact absurd (by simpa using hdid) (hclean (.insertDecision d) () rfl)
  · intro outcome t k hdid
    exact absurd (by simpa using hdid)
      (hclean (.updateRequest requestId (.completed outcome t)) k rfl)
  · intro reason' k _
    exact ⟨r, v, m, hseen₁.extend (List.subset_cons_self ..), List.mem_cons_self⟩

theorem bankIsCurrent_wp {Q : Bool → Calls Out → Calls Out → Prop}
    (hready : DecideReady auth requestId cur r v) (hR : ∀ e cur, R e past cur)
    (hQ : ∀ current cur', Extends cur cur' →
      (current = true → ∀ vendorId, v.vendorId = some vendorId → ∃ bank,
        Saw cur' (.latestBank auth.organizationId vendorId) (some bank) ∧
          r.vendorBankAccountVersionId = some bank.1) → Q current past cur') :
    (ApprovalsService.bankIsCurrent auth.organizationId r v.vendorId).wp
      (decideConduct cfg auth requestId) Q R past cur := by
  cases hvendor : v.vendorId with
  | none => exact hQ true cur (.refl cur) (by simp [hvendor])
  | some vendorId =>
      simp only [ApprovalsService.bankIsCurrent]
      rw [wp_bind]
      refine query_wp rfl ⟨r, v, hready⟩ hR fun latest cur₁ h₁ hseen _ => ?_
      cases latest with
      | none => exact hQ false cur₁ h₁ (by simp)
      | some bank =>
          refine hQ _ cur₁ h₁ fun hcurrent vendorId' hv => ?_
          rw [hvendor] at hv
          cases hv
          exact ⟨bank, hseen, by simpa using hcurrent⟩

/-- A decision over what `authorize` returned meets everything it has checked. -/
theorem authorize_wp {Q : Time → Calls Out → Calls Out → Prop}
    (hbank : ∀ vendorId, v.vendorId = some vendorId → ∃ bank,
      Saw cur (.latestBank auth.organizationId vendorId) (some bank) ∧
        r.vendorBankAccountVersionId = some bank.1) (hR : ∀ e cur, R e past cur)
    (hQ : ∀ verifiedAt cur', Extends cur cur' →
      (∀ d : ApprovalDecision, d.stepUpVerifiedAt = verifiedAt → Authorized cfg auth cur' r v d) →
        Q verifiedAt past cur') :
    (ApprovalsService.authorize cfg auth r).wp (decideConduct cfg auth requestId) Q R past cur := by
  rw [ApprovalsService.authorize, wp_bind]
  refine query_wp rfl trivial hR fun member cur₁ h₁ hmember _ => ?_
  rw [wp_bind]
  refine orThrow_wp hR fun m hm => ?_
  subst hm
  rw [wp_bind]
  refine policy_wp decide_lenient (fun _ _ => trivial) hR fun p cur₂ h₂ hpolicy => ?_
  rw [wp_bind]
  refine require_wp hR fun hseparated => ?_
  rw [wp_bind]
  refine now_wp decide_lenient hR fun checkedAt cur₃ h₃ => ?_
  rw [wp_bind]
  refine now_wp decide_lenient hR fun current cur₄ h₄ => ?_
  rw [wp_bind]
  refine query_wp rfl trivial hR fun session cur₅ h₅ hsession _ => ?_
  refine orThrow_wp hR fun verifiedAt hverified => ?_
  obtain ⟨found, rfl, hstep⟩ := Option.bind_eq_some_iff.mp hverified
  have h₂₅ := (h₃.trans h₄).trans h₅
  refine hQ _ cur₅ ((h₁.trans h₂).trans h₂₅) fun d hd => ⟨?_, ⟨m, ?_⟩, ⟨p, ?_, ?_⟩, ?_⟩
  · intro vendorId hv
    obtain ⟨bank, hseen, heq⟩ := hbank vendorId hv
    exact ⟨bank, h₂₅.sub (h₂.sub (h₁.sub hseen)), heq⟩
  · exact h₂₅.sub (h₂.sub hmember)
  · exact hpolicy.imp (fun h => h₂₅.sub h) fun h => h₂₅.sub h
  · exact hseparated
  · refine ⟨current, checkedAt, found, hsession, ?_⟩
    rw [hd]
    exact hstep

theorem createDecision_wp {d : ApprovalDecision} {Q : Unit → Calls Out → Calls Out → Prop}
    (hclean : Clean cur) (hready : DecisionReady cfg auth requestId cur d r v)
    (hR : ∀ e cur, R e past cur)
    (hQ : Q () past (⟨.write (.insertDecision d), ()⟩ :: cur)) :
    (ApprovalsService.createDecision d).wp (decideConduct cfg auth requestId) Q R past cur := by
  rw [ApprovalsService.createDecision, wp_tryCatch]
  refine update_wp ⟨⟨r, v, hready⟩, fun d' => hclean _ _ rfl⟩ (fun e cur => ?_) fun _ => hQ
  rw [wp_ite]
  exact ⟨fun _ => hR _ _, fun _ => hR _ _⟩

/-- The two updates of `complete`, and no other change of a request. -/
theorem complete_wp {outcome : ApprovalDecisionOutcome} {d : ApprovalDecision}
    {Q : Unit → Calls Out → Calls Out → Prop} (hclean : ∀ u out, tracked u = true →
      Did cur u out → u = .insertDecision d)
    (hready : CompleteReady auth requestId cur r v outcome) (hR : ∀ e cur, R e past cur)
    (hQ : ∀ completedAt n m cur', cur ⊆ cur' → n ≠ 0 → m ≠ 0 →
      Did cur' (.updateRequest requestId (.completed outcome completedAt)) n →
      Did cur' (.updateInvoice r.invoiceId (.decided outcome)) m →
      (∀ u out, tracked u = true → Did cur' u out → u = .insertDecision d ∨
        u = .updateRequest requestId (.completed outcome completedAt) ∨
        u = .updateInvoice r.invoiceId (.decided outcome)) → Q () past cur') :
    (ApprovalsService.complete requestId r outcome).wp (decideConduct cfg auth requestId)
      Q R past cur := by
  rw [ApprovalsService.complete, wp_bind]
  refine now_wp decide_lenient hR fun t cur₁ h₁ => ?_
  have hready₁ : CompleteReady auth requestId cur₁ r v outcome := by
    obtain ⟨hr, ⟨d, hd, hrest⟩, hcounted⟩ := hready
    refine ⟨hr.extend h₁.sub, ⟨d, h₁.sub hd, hrest⟩, fun ho => ?_⟩
    obtain ⟨n, hn, hle⟩ := hcounted ho
    exact ⟨n, h₁.sub hn, hle⟩
  have honly : ∀ u out, tracked u = true → Did cur₁ u out → u = .insertDecision d :=
    fun u out hu hdid => hclean u out hu (h₁.back u out hu hdid)
  rw [wp_bind]
  refine update_wp ⟨rfl, fun c n hdid => ?_, r, v, hready₁⟩ hR fun n => ?_
  · cases honly _ n rfl hdid
  rw [wp_bind]
  refine require_wp hR fun hn => ?_
  rw [wp_bind]
  have hsub := List.subset_cons_self
    (⟨.write (.updateRequest requestId (.completed outcome t)), n⟩ : Sigma Out) cur₁
  have hready₂ : CompleteReady auth requestId (⟨.write (.updateRequest requestId
      (.completed outcome t)), n⟩ :: cur₁) r v outcome := by
    obtain ⟨hr, ⟨d, hd, hrest⟩, hcounted⟩ := hready₁
    refine ⟨hr.extend hsub, ⟨d, hsub hd, hrest⟩, fun ho => ?_⟩
    obtain ⟨k, hk, hle⟩ := hcounted ho
    exact ⟨k, hsub hk, hle⟩
  refine update_wp ⟨fun c k hdid => ?_, r, v, t, n, hready₂, rfl, List.mem_cons_self, hn⟩ hR
    fun m => ?_
  · cases honly (.updateInvoice r.invoiceId c) k rfl (by simpa using hdid)
  refine require_wp hR fun hm => ?_
  refine hQ t n m _ ?_ hn hm ?_ List.mem_cons_self ?_
  · exact fun _ hmem => List.mem_cons_of_mem _ (hsub (h₁.sub hmem))
  · exact List.mem_cons_of_mem _ List.mem_cons_self
  · intro u out hu hdid
    simp only [List.mem_cons, Sigma.mk.injEq, Stmt.write.injEq] at hdid
    rcases hdid with ⟨rfl, -⟩ | ⟨rfl, -⟩ | hold
    · exact .inr (.inr rfl)
    · exact .inr (.inl rfl)
    · exact .inl (honly u out hu hold)

theorem settle_wp {d : ApprovalDecision} {Q : Unit → Calls Out → Calls Out → Prop}
    (hclean : Clean cur) (hready : DecideReady auth requestId cur r v)
    (hrequest : d.approvalRequestId = requestId) (hR : ∀ e cur, R e past cur)
    (hQ : ∀ cur', DecideDue auth requestId cur' → Q () past cur') :
    (ApprovalsService.settle auth requestId r d.outcome).wp (decideConduct cfg auth requestId)
      Q R past (⟨.write (.insertDecision d), ()⟩ :: cur) := by
  have hsub := List.subset_cons_self (⟨.write (.insertDecision d), ()⟩ : Sigma Out) cur
  have hready₁ := hready.extend hsub
  have honly : ∀ u out, tracked u = true →
      Did (⟨.write (.insertDecision d), ()⟩ :: cur) u out → u = .insertDecision d := by
    intro u out hu hdid
    simp only [List.mem_cons, Sigma.mk.injEq, Stmt.write.injEq] at hdid
    rcases hdid with ⟨rfl, -⟩ | hold
    · rfl
    · exact absurd hold (hclean u out hu)
  cases houtcome : d.outcome with
  | reject =>
      have hcomplete : CompleteReady auth requestId (⟨.write (.insertDecision d), ()⟩ :: cur)
          r v .reject := ⟨hready₁, ⟨d, List.mem_cons_self, hrequest, houtcome⟩, by simp⟩
      refine complete_wp honly hcomplete hR fun t n m cur' hcur hn hm hrequest' hinvoice honly' =>
        hQ cur' ⟨?_, ?_, ?_⟩
      · intro d' hdid
        rcases honly' _ _ rfl hdid with h | h | h <;> cases h
        exact ⟨r, v, hready₁.extend hcur, fun _ => ⟨t, n, hn, hrequest'⟩,
          fun ho => by simp [houtcome] at ho⟩
      · intro outcome t' n' hdid
        rcases honly' _ _ rfl hdid with h | h | h <;> cases h
        exact ⟨r, v, m, hready₁.extend hcur, hm, hinvoice⟩
      · intro reason n' hdid
        rcases honly' _ _ rfl hdid with h | h | h <;> cases h
  | approve =>
      simp only [ApprovalsService.settle]
      rw [wp_bind]
      refine query_wp rfl ⟨rfl, rfl, r, v, d, hready₁, rfl, List.mem_cons_self, houtcome⟩ hR
        fun n cur₂ h₂ hcounted _ => ?_
      have hready₂ := hready₁.extend h₂.sub
      rw [wp_ite]
      refine ⟨fun henough => ?_, fun hfew => hQ cur₂ ⟨?_, ?_, ?_⟩⟩
      · have hcomplete : CompleteReady auth requestId cur₂ r v .approve :=
          ⟨hready₂, ⟨d, h₂.sub List.mem_cons_self, hrequest, houtcome⟩,
            fun _ => ⟨n, hcounted, henough⟩⟩
        refine complete_wp (fun u out hu hdid => honly u out hu (h₂.back u out hu hdid)) hcomplete hR
          fun t k m cur' hcur hk hm hrequest' hinvoice honly' => hQ cur' ⟨?_, ?_, ?_⟩
        · intro d' hdid
          rcases honly' _ _ rfl hdid with h | h | h <;> cases h
          exact ⟨r, v, hready₂.extend hcur, fun ho => by simp [houtcome] at ho,
            fun _ => ⟨n, hcur hcounted, fun _ => ⟨t, k, hk, hrequest'⟩⟩⟩
        · intro outcome t' n' hdid
          rcases honly' _ _ rfl hdid with h | h | h <;> cases h
          exact ⟨r, v, m, hready₂.extend hcur, hm, hinvoice⟩
        · intro reason n' hdid
          rcases honly' _ _ rfl hdid with h | h | h <;> cases h
      · intro d' hdid
        cases honly _ _ rfl (h₂.back _ _ rfl hdid)
        exact ⟨r, v, hready₂, fun ho => by simp [houtcome] at ho,
          fun _ => ⟨n, hcounted, fun hle => absurd hle hfew⟩⟩
      · intro outcome t' n' hdid
        cases honly _ _ rfl (h₂.back _ _ rfl hdid)
      · intro reason n' hdid
        cases honly _ _ rfl (h₂.back _ _ rfl hdid)

theorem record_wp {dto : ApprovalsService.ApprovalDecisionDto} {keyHash : Digest}
    {Q : ApprovalsService.ApprovalView → Calls Out → Calls Out → Prop}
    (hclean : Clean cur) (hready : DecideReady auth requestId cur r v)
    (hbank : ∀ vendorId, v.vendorId = some vendorId → ∃ bank,
      Saw cur (.latestBank auth.organizationId vendorId) (some bank) ∧
        r.vendorBankAccountVersionId = some bank.1) (hR : ∀ e cur, R e past cur)
    (hQ : ∀ view cur', DecideDue auth requestId cur' → Q view past cur') :
    (ApprovalsService.record cfg auth requestId r dto keyHash).wp
      (decideConduct cfg auth requestId) Q R past cur := by
  rw [ApprovalsService.record, wp_bind]
  refine authorize_wp hbank hR fun verifiedAt cur₀ h₀ hauthorized => ?_
  rw [wp_bind]
  refine now_wp decide_lenient hR fun createdAt cur₁ h₁ => ?_
  rw [wp_bind]
  have hextends := h₀.trans h₁
  have hready₁ := hready.extend hextends.sub
  refine createDecision_wp (hclean.extend hextends)
    ⟨hready₁, (hauthorized _ rfl).extend h₁.sub, rfl, rfl, rfl, rfl, rfl⟩ hR ?_
  rw [wp_bind]
  have hsettle := @settle_wp cfg auth requestId past cur₁ r v R
    (ApprovalsService.newDecision auth requestId r dto keyHash verifiedAt createdAt)
  refine hsettle (hclean.extend hextends) hready₁ rfl hR fun cur₂ hdue => ?_
  rw [wp_bind]
  refine writeAudit_wp decide_lenient hR fun cur₃ h₃ => ?_
  rw [wp_bind]
  refine query_wp rfl trivial hR fun found cur₄ h₄ _ _ => ?_
  rw [wp_bind]
  refine orThrow_wp hR fun updated _ => ?_
  rw [wp_bind]
  refine requestDetails_wp decide_lenient hR fun _ _ _ cur₅ h₅ _ => ?_
  rw [wp_bind]
  refine eligibleApprovers_wp decide_lenient (fun _ _ => trivial) hR fun ids cur₆ h₆ => ?_
  exact hQ _ cur₆ (hdue.extend ((h₃.trans h₄).trans (h₅.trans h₆)))

theorem decideNew_wp {dto : ApprovalsService.ApprovalDecisionDto} {keyHash : Digest}
    {Q : Option ApprovalsService.ApprovalView → Calls Out → Calls Out → Prop}
    (hclean : Clean cur) (hR : ∀ e cur, R e past cur)
    (hQ : ∀ view cur', DecideDue auth requestId cur' → Q view past cur') :
    (ApprovalsService.decideNew cfg auth requestId dto keyHash).wp
      (decideConduct cfg auth requestId) Q R past cur := by
  rw [ApprovalsService.decideNew, wp_bind]
  refine query_wp rfl trivial hR fun found cur₁ h₁ hrequest _ => ?_
  rw [wp_bind]
  refine orThrow_wp hR fun r hr => ?_
  subst hr
  rw [wp_bind]
  refine requestDetails_wp decide_lenient hR fun v _ _ cur₂ h₂ hinvoice => ?_
  rw [wp_bind]
  refine require_wp hR fun hpending => ?_
  rw [wp_bind]
  refine require_wp hR fun _ => ?_
  have hseen : DecideSeen auth requestId cur₂ r v := ⟨h₂.sub hrequest, hinvoice, hpending⟩
  have hclean₂ := hclean.extend (h₁.trans h₂)
  rw [wp_ite]
  refine ⟨fun _ => ?_, fun hfresh => ?_⟩
  · rw [wp_bind]
    exact invalidate_wp hclean₂ hseen hR fun cur' hdue => hQ none cur' hdue
  · simp only [not_or, not_not] at hfresh
    have hready : DecideReady auth requestId cur₂ r v := ⟨hseen, hfresh.1, hfresh.2⟩
    rw [wp_bind]
    refine bankIsCurrent_wp hready hR fun current cur₃ h₃ hbank => ?_
    rw [wp_ite]
    refine ⟨fun _ => ?_, fun hcurrent => ?_⟩
    · rw [wp_bind]
      exact invalidate_wp (hclean₂.extend h₃) (hseen.extend h₃.sub) hR
        fun cur' hdue => hQ none cur' hdue
    · rw [wp_bind]
      exact record_wp (hclean₂.extend h₃) (hready.extend h₃.sub) (hbank (by simpa using hcurrent)) hR
        fun view cur' hdue => hQ (some view) cur' hdue

theorem decide_conforms (dto : ApprovalsService.ApprovalDecisionDto) (key : Option Text) :
    (program cfg (.decide auth requestId dto key)).wp (decideConduct cfg auth requestId)
      (fun _ _ _ => True) (fun _ _ _ => True) [] [] := by
  rw [program, wp_bind, ApprovalsService.decide, wp_bind, ApprovalsService.idempotencyKeyHash,
    wp_bind]
  refine orThrow_wp (fun _ _ => trivial) fun normalized _ => ?_
  rw [wp_pure, wp_bind, wp_transaction, wp_bind]
  have hanswer : ∀ result : Option ApprovalsService.ApprovalView, ∀ past : Calls Out,
      (orThrow result ApprovalsService.staleApproval : Program _).wp
        (decideConduct cfg auth requestId)
        (fun view => (pure (Response.approval view) : Program Response).wp
          (decideConduct cfg auth requestId) (fun _ _ _ => True) fun _ _ _ => True)
        (fun _ _ _ => True) past [] :=
    fun result past => orThrow_wp (fun _ _ => trivial) fun _ _ => trivial
  refine query_wp rfl trivial (fun _ _ => trivial) fun replay cur₁ h₁ _ _ => ?_
  have hclean := clean_nil.extend h₁
  cases replay with
  | some replay =>
      rw [wp_bind]
      refine query_wp rfl trivial (fun _ _ => trivial) fun found cur₂ h₂ _ _ => ?_
      rw [wp_bind]
      refine orThrow_wp (fun _ _ => trivial) fun r _ => ?_
      rw [wp_bind]
      refine requestDetails_wp decide_lenient (fun _ _ => trivial) fun _ _ _ cur₃ h₃ _ => ?_
      rw [wp_bind]
      refine require_wp (fun _ _ => trivial) fun _ => ?_
      exact ⟨(hclean.extend (h₂.trans h₃)).decideDue, hanswer _ _, fun _ => trivial⟩
  | none =>
      exact decideNew_wp hclean (fun _ _ => trivial)
        fun view cur' hdue => ⟨hdue, hanswer view _, fun _ => trivial⟩

end Decide

theorem updatePolicy_conforms (cfg : Config) (auth : AuthContext)
    (dto : ApprovalsService.UpdateRiskPolicyDto) :
    (program cfg (.updatePolicy auth dto)).wp (updatePolicyConduct auth.organizationId)
      (fun _ _ _ => True) (fun _ _ _ => True) [] [] := by
  have hlenient : Lenient (updatePolicyConduct auth.organizationId) :=
    ⟨fun _ _ _ _ => trivial, fun _ _ => trivial, fun _ _ _ => trivial⟩
  rw [program, wp_bind, ApprovalsService.updatePolicy, wp_transaction, wp_bind]
  refine policy_wp hlenient (fun _ _ => trivial) (fun _ _ => trivial) fun p cur₁ h₁ _ => ?_
  simp only
  rw [wp_bind]
  refine require_wp (fun _ _ => trivial) fun _ => ?_
  rw [wp_bind]
  refine orThrow_wp (fun _ _ => trivial) fun change _ => ?_
  rw [wp_bind]
  refine update_wp rfl (fun _ _ => trivial) fun updated => ?_
  rw [wp_bind]
  exact writeAudit_wp hlenient (fun _ _ => trivial) fun cur₂ _ =>
    ⟨trivial, trivial, fun _ => trivial⟩

end BlocTrust
