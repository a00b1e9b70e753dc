import BlocTrust.Conforms.Rules

/-!
`InvoicesService` and `VendorsService` keep their conducts.
-/
namespace BlocTrust

open ReadCommitted Prog

section Relations

variable {C : Conduct Out} {past cur : Calls Out} {R : Failure → Calls Out → Calls Out → Prop}

theorem assertRelationships_wp {organizationId : Id} {vendorId contractId : Option Id}
    {Q : Unit → Calls Out → Calls Out → Prop} (hC : Lenient C) (hR : ∀ e cur, R e past cur)
    (hQ : ∀ cur', Extends cur cur' → Q () past cur') :
    (InvoicesService.assertRelationships organizationId vendorId contractId).wp C Q R past cur := by
  rw [InvoicesService.assertRelationships, wp_bind]
  have hcontract : ∀ cur₁, Extends cur cur₁ →
      (InvoicesService.assertContract organizationId vendorId contractId).wp C Q R past cur₁ := by
    intro cur₁ h₁
    cases contractId with
    | none => exact hQ cur₁ h₁
    | some contractId =>
        rw [InvoicesService.assertContract, wp_bind]
        refine orThrow_wp hR fun vendor _ => ?_
        rw [wp_bind]
        refine query_wp rfl (hC.read past cur₁ _ trivial) hR fun contract cur₂ h₂ _ _ => ?_
        exact require_wp hR fun _ => hQ cur₂ (h₁.trans h₂)
  cases vendorId with
  | none => exact hcontract cur (.refl cur)
  | some vendorId =>
      rw [InvoicesService.assertVendor, wp_bind]
      refine query_wp rfl (hC.read past cur _ trivial) hR fun vendor cur₁ h₁ _ _ => ?_
      exact require_wp hR fun _ => hcontract cur₁ h₁

end Relations

section Update

variable {auth : AuthContext} {invoiceId : Id} {dto : InvoicesService.UpdateInvoiceDraftDto}

theorem update_lenient : Lenient (updateConduct auth invoiceId dto) :=
  ⟨fun _ _ _ _ => trivial, fun _ _ => trivial, fun _ _ _ => trivial⟩

variable {past cur cur' : Calls Out} {v : Invoice} {R : Failure → Calls Out → Calls Out → Prop}

theorem EditSeen.extend (h : EditSeen auth invoiceId cur v) (hsub : cur ⊆ cur') :
    EditSeen auth invoiceId cur' v :=
  ⟨hsub h.seen, h.editable⟩

theorem Invalidated.extend (h : Invalidated auth invoiceId cur) (hsub : cur ⊆ cur') :
    Invalidated auth invoiceId cur' := by
  obtain ⟨ids, hids, hall⟩ := h
  refine ⟨ids, hsub hids, fun id hid => ?_⟩
  obtain ⟨n, hn⟩ := hall id hid
  exact ⟨n, hsub hn⟩

theorem canEdit_status {status : InvoiceStatus}
    {documents : List (DocumentStorageState × Option DocumentScanResult)}
    (h : InvoicesService.canEditInvoiceDraft status documents = true) :
    status = .needsReview ∨ status = .awaitingApproval ∨ status = .manualReview := by
  cases status <;> simp_all [InvoicesService.canEditInvoiceDraft]

theorem invalidatePending_wp {Q : Unit → Calls Out → Calls Out → Prop} (hclean : Clean cur)
    (hseen : EditSeen auth invoiceId cur v) (hstatus : v.status = .awaitingApproval)
    (hR : ∀ e cur, R e past cur)
    (hQ : ∀ cur', cur ⊆ cur' → Invalidated auth invoiceId cur' → InvoiceUntouched cur' invoiceId →
      Q () past cur') :
    (InvoicesService.invalidatePending auth.organizationId invoiceId).wp
      (updateConduct auth invoiceId dto) Q R past cur := by
  rw [InvoicesService.invalidatePending, wp_bind]
  refine query_wp rfl trivial hR fun ids cur₁ h₁ hids hnodup => ?_
  rw [wp_bind]
  have hclean₁ := hclean.extend h₁
  refine updateEach_wp (f := fun id => .updateRequest id (.invalidated "INVOICE_DATA_CHANGED"))
    hnodup ?_ fun counts cur₂ hsub hdone honly => ?_
  · intro id hid cur₂ done hfresh hsub _ honly
    refine update_wp ⟨rfl, ?_, ⟨v, hseen.extend fun _ h => hsub (h₁.sub h), hstatus⟩, ids,
      hsub hids, hid⟩ hR fun out => ⟨rfl, out, rfl⟩
    intro c n hdid
    rcases honly _ n rfl hdid with h | ⟨j, hj, h⟩
    · exact hclean₁ _ n rfl h
    · cases h
      exact hfresh hj
  · refine hQ cur₂ (fun _ h => hsub (h₁.sub h)) ⟨ids, hsub hids, hdone⟩ ?_
    intro c n hdid
    rcases honly _ n rfl hdid with h | ⟨j, hj, h⟩
    · exact hclean₁ _ n rfl h
    · cases h

theorem replaceLines_wp {edit : InvoiceEdit} {lines : Field (List InvoicesService.InvoiceLineDto)}
    {Q : Unit → Calls Out → Calls Out → Prop}
    (hedited : Did cur (.updateInvoice invoiceId (.edited auth.organizationId dto.version edit)) 1)
    (hR : ∀ e cur, R e past cur) (hQ : ∀ cur', cur ⊆ cur' → Q () past cur') :
    (InvoicesService.replaceLines invoiceId lines).wp (updateConduct auth invoiceId dto)
      Q R past cur := by
  cases lines with
  | absent => exact hQ cur (List.Subset.refl _)
  | null => exact hQ cur (List.Subset.refl _)
  | given lines =>
      rw [InvoicesService.replaceLines, wp_bind]
      refine update_wp ⟨rfl, edit, hedited⟩ hR fun _ => ?_
      have hsub : cur ⊆ (⟨.write (.deleteLines invoiceId), ()⟩ : Sigma Out) :: cur :=
        List.subset_cons_self ..
      rw [wp_ite]
      refine ⟨fun _ => hQ _ hsub, fun _ => ?_⟩
      refine update_wp ⟨rfl, edit, hsub hedited⟩ hR fun _ => hQ _ fun _ h => ?_
      exact List.mem_cons_of_mem _ (hsub h)

theorem invoiceEdit_invalidates {cfg : Config} {invalidates : Bool} {e : InvoiceEdit}
    (h : InvoicesService.invoiceEdit cfg dto invalidates = some e) :
    e.invalidatesApproval = invalidates := by
  unfold InvoicesService.invoiceEdit at h
  simp only [Option.bind_eq_bind, Option.bind_eq_some_iff] at h
  obtain ⟨_, _, _, _, _, _, h⟩ := h
  cases h
  rfl

theorem updateChecked_wp {cfg : Config}
    {Q : InvoicesService.InvoiceView → Calls Out → Calls Out → Prop} (hclean : Clean cur)
    (hseen : EditSeen auth invoiceId cur v) (hR : ∀ e cur, R e past cur)
    (hQ : ∀ view cur', (updateConduct auth invoiceId dto).due past cur' → Q view past cur') :
    (InvoicesService.updateChecked cfg auth invoiceId dto v).wp (updateConduct auth invoiceId dto)
      Q R past cur := by
  rw [InvoicesService.updateChecked, wp_bind, wp_whenever]
  have hrest : ∀ cur₁, EditSeen auth invoiceId cur₁ v → InvoiceUntouched cur₁ invoiceId →
      (v.status = .awaitingApproval → Invalidated auth invoiceId cur₁) →
      ((do
        InvoicesService.assertRelationships auth.organizationId (dto.vendorId.orElse v.vendorId)
          (dto.contractId.orElse v.contractId)
        let edit ← orThrow (InvoicesService.invoiceEdit cfg dto (v.status == .awaitingApproval))
          .typeError
        let count ← BlocTrust.update (.updateInvoice invoiceId
          (.edited auth.organizationId dto.version edit))
        require (count = 1) (.conflict "STALE_INVOICE_VERSION")
        InvoicesService.replaceLines invoiceId dto.lines
        let found ← query (.findInvoice auth.organizationId invoiceId)
        let updated ← orThrow found .recordNotFound
        let lines ← query (.findLines invoiceId)
        let documents ← query (.findDocuments auth.organizationId invoiceId)
        let processings ← query (.findProcessings (documents.map Prod.fst))
        writeAudit auth "INVOICE_DRAFT_UPDATED" "INVOICE" invoiceId none
        whenever ((v.status == .awaitingApproval) = true)
          (writeAudit auth "APPROVAL_REQUEST_INVALIDATED" "INVOICE" invoiceId
            (some "Invoice financial data changed while approval was pending.".toList))
        return InvoicesService.invoiceView invoiceId updated lines documents processings :
          Program InvoicesService.InvoiceView)).wp (updateConduct auth invoiceId dto)
            Q R past cur₁ := by
    intro cur₁ hseen₁ huntouched hfrozen
    rw [wp_bind]
    refine assertRelationships_wp update_lenient hR fun cur₂ h₂ => ?_
    rw [wp_bind]
    refine orThrow_wp hR fun edit hedit => ?_
    rw [wp_bind]
    have hinvalidates := invoiceEdit_invalidates hedit
    refine update_wp ⟨rfl, fun c n hdid => huntouched c n (h₂.back _ _ rfl hdid), edit, v,
      ⟨hseen₁.extend h₂.sub, ?_, fun hs => (hfrozen hs).extend h₂.sub⟩, rfl⟩ hR fun count => ?_
    · rw [hinvalidates]
      simp
    rw [wp_bind]
    refine require_wp hR fun hcount => ?_
    subst hcount
    rw [wp_bind]
    refine replaceLines_wp List.mem_cons_self hR fun cur₃ h₃ => ?_
    have hedited := h₃ (List.mem_cons_self : Did (⟨.write (.updateInvoice invoiceId
      (.edited auth.organizationId dto.version edit)), 1⟩ :: cur₂) _ _)
    rw [wp_bind]
    refine query_wp rfl trivial hR fun found cur₄ h₄ _ _ => ?_
    rw [wp_bind]
    refine orThrow_wp hR fun updated _ => ?_
    rw [wp_bind]
    refine query_wp rfl trivial hR fun lines cur₅ h₅ _ _ => ?_
    rw [wp_bind]
    refine query_wp rfl trivial hR fun documents cur₆ h₆ _ _ => ?_
    rw [wp_bind]
    refine query_wp rfl trivial hR fun processings cur₇ h₇ _ _ => ?_
    rw [wp_bind]
    refine writeAudit_wp update_lenient hR fun cur₈ h₈ => ?_
    rw [wp_bind, wp_whenever]
    have h₃₈ := ((h₄.trans h₅).trans (h₆.trans h₇)).trans h₈
    refine ⟨fun _ => writeAudit_wp update_lenient hR fun cur₉ h₉ => ?_, fun _ => ?_⟩
    · exact hQ _ cur₉ ⟨edit, h₉.sub (h₃₈.sub hedited)⟩
    · exact hQ _ cur₈ ⟨edit, h₃₈.sub hedited⟩
  refine ⟨fun hstatus => ?_, fun hstatus => ?_⟩
  · have hawaiting : v.status = .awaitingApproval := by simpa using hstatus
    refine invalidatePending_wp hclean hseen hawaiting hR fun cur₁ hsub hinvalidated huntouched => ?_
    exact hrest cur₁ (hseen.extend hsub) huntouched fun _ => hinvalidated
  · refine hrest cur hseen (fun c n => hclean _ n rfl) fun hs => ?_
    exact absurd (by simpa using hs) hstatus

theorem update_conforms (cfg : Config) :
    (program cfg (.update auth invoiceId dto)).wp (updateConduct auth invoiceId dto)
      (fun _ _ _ => True) (fun _ _ _ => True) [] [] := by
  rw [program, wp_bind, InvoicesService.update, wp_transaction, wp_bind]
  refine query_wp rfl trivial (fun _ _ => trivial) fun found cur₁ h₁ hseen _ => ?_
  rw [wp_bind]
  refine orThrow_wp (fun _ _ => trivial) fun v hv => ?_
  subst hv
  rw [wp_bind]
  refine query_wp rfl trivial (fun _ _ => trivial) fun documents cur₂ h₂ _ _ => ?_
  rw [wp_bind]
  refine query_wp rfl trivial (fun _ _ => trivial) fun processings cur₃ h₃ _ _ => ?_
  rw [wp_bind]
  refine require_wp (fun _ _ => trivial) fun heditable => ?_
  have h₂₃ := h₂.trans h₃
  exact updateChecked_wp (clean_nil.extend (h₁.trans h₂₃))
    ⟨h₂₃.sub hseen, canEdit_status heditable⟩ (fun _ _ => trivial)
    fun view cur' hdue => ⟨hdue, trivial, fun _ => trivial⟩

end Update

section Upload

variable {organizationId : Id} {past cur : Calls Out} {R : Failure → Calls Out → Calls Out → Prop}

theorem upload_lenient : Lenient (uploadConduct organizationId) :=
  ⟨fun _ _ _ _ => trivial, fun _ _ => trivial, fun _ _ _ => trivial⟩

theorem Clean.uploadDue (h : Clean cur) : (uploadConduct organizationId).due past cur :=
  ⟨fun _ _ hdid => absurd hdid (h _ _ rfl), fun _ _ n hdid => absurd hdid (h _ n rfl)⟩

theorem uploadExternal_wp {c : External} {Q : c.Out → Calls Out → Calls Out → Prop}
    (hR : ∀ e, R e past []) (hQ : ∀ out past', past ⊆ past' → Q out past' []) :
    (external c).wp (uploadConduct organizationId) Q R past [] :=
  auto_wp trivial (fun out => (clean_nil.extend (.cons_call [] c out)).uploadDue) hR
    fun _ => hQ _ _ (List.subset_cons_self _ _)

theorem createInvoice_wp {cfg : Config} {auth : AuthContext} {dto : InvoicesService.UploadInvoiceDto}
    {file : InvoicesService.UploadedFile} {validated : DocumentValidation.ValidatedDocument}
    {documentId invoiceId key : Id}
    {Q : InvoicesService.InvoiceView → Calls Out → Calls Out → Prop} (hR : ∀ e cur, R e past cur)
    (hQ : ∀ view d cur', Did cur' (.insertDocument documentId d) () → d.invoiceId = invoiceId →
      (uploadConduct auth.organizationId).due past cur' → Q view past cur') :
    (InvoicesService.createInvoice cfg auth dto file validated documentId invoiceId key).wp
      (uploadConduct auth.organizationId) Q R past [] := by
  rw [InvoicesService.createInvoice, wp_bind]
  refine assertRelationships_wp upload_lenient hR fun cur₁ h₁ => ?_
  rw [wp_bind]
  refine now_wp upload_lenient hR fun createdAt cur₂ h₂ => ?_
  have hclean := clean_nil.extend (h₁.trans h₂)
  rw [wp_bind]
  refine update_wp ⟨rfl, rfl, rfl, fun i v => hclean _ _ rfl⟩ hR fun _ => ?_
  rw [wp_bind]
  refine update_wp ⟨rfl, rfl, rfl, rfl, rfl, ⟨_, List.mem_cons_self⟩, fun i d hdid => ?_⟩ hR
    fun _ => ?_
  · exact hclean _ _ rfl (by simpa using hdid)
  rw [wp_bind]
  refine update_wp ⟨rfl, rfl, rfl, ⟨_, List.mem_cons_self⟩, fun i p hdid => ?_⟩ hR fun _ => ?_
  · exact hclean _ _ rfl (by simpa using hdid)
  rw [wp_bind]
  refine query_wp rfl trivial hR fun found cur₃ h₃ _ _ => ?_
  rw [wp_bind]
  refine orThrow_wp hR fun created _ => ?_
  rw [wp_bind]
  refine query_wp rfl trivial hR fun documents cur₄ h₄ _ _ => ?_
  rw [wp_bind]
  refine query_wp rfl trivial hR fun processings cur₅ h₅ _ _ => ?_
  rw [wp_bind]
  refine writeAudit_wp upload_lenient hR fun cur₆ h₆ => ?_
  have h₃₆ := (h₃.trans h₄).trans (h₅.trans h₆)
  refine hQ _ _ cur₆ (h₃₆.sub (List.mem_cons_of_mem _ List.mem_cons_self)) rfl ⟨?_, ?_⟩
  · intro id v hdid
    have hold := h₃₆.back _ _ rfl hdid
    simp only [List.mem_cons, Sigma.mk.injEq, Stmt.write.injEq, Update.insertInvoice.injEq,
      reduceCtorEq, false_and, false_or] at hold
    rcases hold with ⟨⟨rfl, -⟩, -⟩ | hold
    · refine ⟨documentId, _, _, h₃₆.sub (List.mem_cons_of_mem _ List.mem_cons_self), rfl,
        h₃₆.sub List.mem_cons_self⟩
    · exact absurd hold (hclean _ _ rfl)
  · intro id code n hdid
    have hold := h₃₆.back _ _ rfl hdid
    exact absurd (by simpa using hold) (hclean _ n rfl)

theorem markManualReview_wp {documentId invoiceId : Id} {code : Text} {d : Document}
    {Q : Unit → Calls Out → Calls Out → Prop} (hdid : Did past (.insertDocument documentId d) ())
    (hinvoice : d.invoiceId = invoiceId) (hR : ∀ e, R e past [])
    (hQ : ∀ cur, Q () (cur ++ past) []) :
    (InvoicesService.markManualReview organizationId documentId invoiceId code).wp
      (uploadConduct organizationId) Q R past [] := by
  rw [InvoicesService.markManualReview, wp_transaction, wp_bind]
  refine update_wp ⟨⟨code, rfl⟩, ⟨d, hdid⟩, by simp, by simp⟩ (fun _ _ => hR _) fun n => ?_
  rw [wp_bind]
  refine update_wp ⟨rfl, fun c m => by simp, by simp, documentId, d, n, code, hdid, hinvoice,
    List.mem_cons_self⟩ (fun _ _ => hR _) fun m => ⟨⟨by simp, ?_⟩, hQ _, hR⟩
  intro id code' k hmem
  simp only [List.mem_cons, Sigma.mk.injEq, Stmt.write.injEq, Update.updateProcessing.injEq,
    reduceCtorEq, false_and, false_or, List.not_mem_nil, or_false] at hmem
  obtain ⟨⟨rfl, -⟩, -⟩ := hmem
  exact ⟨d, m, hdid, by rw [hinvoice]; exact List.mem_cons_self⟩

/-- After a failed transaction the object is deleted and the failure rethrown. -/
theorem discard_wp {key : Id} {e : Failure}
    {Q : InvoicesService.InvoiceView → Calls Out → Calls Out → Prop} :
    ((do
      tryCatch (external (.deleteObject .quarantine key)) fun _ => return ()
      throw e : Program InvoicesService.InvoiceView)).wp (uploadConduct organizationId) Q
        (fun _ _ _ => True) past [] := by
  rw [wp_bind, wp_tryCatch]
  exact uploadExternal_wp (fun _ => trivial) fun _ _ _ => trivial

theorem upload_conforms (cfg : Config) (normalize : Text → Text) (auth : AuthContext)
    (dto : InvoicesService.UploadInvoiceDto) (file : Option InvoicesService.UploadedFile) :
    (program cfg (.upload normalize auth dto file)).wp (uploadConduct auth.organizationId)
      (fun _ _ _ => True) (fun _ _ _ => True) [] [] := by
  rw [program, wp_bind, InvoicesService.upload, wp_bind]
  refine orThrow_wp (fun _ _ => trivial) fun file _ => ?_
  cases InvoicesService.validateDocumentFile cfg normalize file with
  | error failure => trivial
  | ok validated =>
      simp only
      rw [wp_bind]
      refine uploadExternal_wp (fun _ => trivial) fun documentId past₁ _ => ?_
      rw [wp_bind]
      refine uploadExternal_wp (fun _ => trivial) fun invoiceId past₂ _ => ?_
      rw [wp_bind]
      refine uploadExternal_wp (fun _ => trivial) fun key past₃ _ => ?_
      rw [wp_bind]
      refine uploadExternal_wp (fun _ => trivial) fun _ past₄ _ => ?_
      rw [wp_bind, wp_tryCatch, wp_transaction]
      refine createInvoice_wp (fun e cur => discard_wp) fun view d cur hdid hinvoice hdue =>
        ⟨hdue, ?_, fun e => discard_wp⟩
      rw [wp_bind, wp_tryCatch]
      refine uploadExternal_wp (fun e => ?_) fun _ _ _ => trivial
      exact markManualReview_wp (List.mem_append_left _ hdid) hinvoice (fun _ => trivial)
        fun _ => trivial

end Upload

section Bank

variable {auth : AuthContext} {vendorId : Id}

theorem addBankVersion_lenient : Lenient (addBankVersionConduct auth vendorId) :=
  ⟨fun _ _ _ _ => trivial, fun _ _ => trivial, fun _ _ _ => trivial⟩

variable {past cur : Calls Out} {R : Failure → Calls Out → Calls Out → Prop}

theorem assertCanReadVendor_wp {Q : Unit → Calls Out → Calls Out → Prop}
    (hR : ∀ e cur, R e past cur) (hQ : ∀ cur', Extends cur cur' → Q () past cur') :
    (VendorsService.assertCanReadVendor auth vendorId).wp (addBankVersionConduct auth vendorId)
      Q R past cur := by
  have hrest : ∀ scope cur₁, Extends cur cur₁ → ((do
      let vendor ← query (.findVendorInScope auth.organizationId vendorId scope)
      require (vendor.isSome = true) VendorsService.notFound : Program Unit)).wp
        (addBankVersionConduct auth vendorId) Q R past cur₁ := by
    intro scope cur₁ h₁
    rw [wp_bind]
    refine query_wp rfl trivial hR fun vendor cur₂ h₂ _ _ => ?_
    exact require_wp hR fun _ => hQ cur₂ (h₁.trans h₂)
  rw [VendorsService.assertCanReadVendor, wp_bind, VendorsService.vendorScope, wp_ite]
  refine ⟨fun _ => hrest none cur (.refl cur), fun _ => ?_⟩
  rw [wp_bind]
  refine now_wp addBankVersion_lenient hR fun t cur₁ h₁ => ?_
  rw [wp_bind]
  refine query_wp rfl trivial hR fun buildings cur₂ h₂ _ _ => ?_
  exact hrest (some buildings) cur₂ (h₁.trans h₂)

theorem Frozen.extend {cur cur' : Calls Out} (h : Frozen auth vendorId cur) (hsub : cur ⊆ cur') :
    Frozen auth vendorId cur' := by
  obtain ⟨ids, hids, hall⟩ := h
  refine ⟨ids, hsub hids, fun id hid => ?_⟩
  obtain ⟨n, hn⟩ := hall id hid
  exact ⟨n, hsub hn⟩

theorem freeze_wp {b : VendorBankAccountVersion} {bankId : Id}
    {Q : Unit → Calls Out → Calls Out → Prop}
    (honly : ∀ u out, tracked u = true → Did cur u out → u = .insertBank b)
    (hbank : Did cur (.insertBank b) bankId) (hlater : 1 < b.versionNumber)
    (hno : ∀ ids, ¬ Saw cur (.awaitingOfVendor auth.organizationId vendorId) ids)
    (hR : ∀ e cur, R e past cur)
    (hQ : ∀ cur', cur ⊆ cur' → Frozen auth vendorId cur' →
      (∃ ids, Saw cur' (.awaitingOfVendor auth.organizationId vendorId) ids ∧
        ∀ id ∈ ids, ∃ n, Did cur' (.updateInvoice id (.frozen auth.organizationId vendorId)) n) →
      (∀ b' id, Did cur' (.insertBank b') id → b' = b) → Q () past cur') :
    (VendorsService.freeze auth.organizationId vendorId).wp (addBankVersionConduct auth vendorId)
      Q R past cur := by
  rw [VendorsService.freeze, wp_bind]
  refine query_wp rfl trivial hR fun pending cur₁ h₁ hpending hnodup => ?_
  have honly₁ : ∀ u out, tracked u = true → Did cur₁ u out → u = .insertBank b :=
    fun u out hu hdid => honly u out hu (h₁.back u out hu hdid)
  rw [wp_bind]
  refine updateEach_wp
    (f := fun id => .updateRequest id (.invalidated "VENDOR_BANK_ACCOUNT_CHANGED")) hnodup ?_
    fun counts cur₂ hsub₂ hdone honly₂ => ?_
  · intro id hid cur₂ done hfresh hsub hreads honly₂
    refine update_wp ⟨rfl, fun c n hdid => ?_, ⟨b, bankId, hsub (h₁.sub hbank), hlater⟩,
      ⟨pending, hsub hpending, hid⟩, fun ids hs => ?_⟩ hR fun out => ⟨rfl, out, rfl⟩
    case refine_2 => exact hno ids (h₁.scans _ _ rfl (hreads _ _ hs))
    rcases honly₂ _ n rfl hdid with h | ⟨j, hj, h⟩
    · cases honly₁ _ n rfl h
    · cases h
      exact hfresh hj
  rw [wp_bind]
  rw [query, wp_sql]
  refine ⟨trivial, fun awaiting hnodup' => ?_, fun e => hR e _⟩
  have hsub₃ := List.subset_cons_self
    (⟨.read (.awaitingOfVendor auth.organizationId vendorId), awaiting⟩ : Sigma Out) cur₂
  have hback₃ : ∀ u out, Did (⟨.read (.awaitingOfVendor auth.organizationId vendorId), awaiting⟩ ::
      cur₂) u out → Did cur₂ u out := fun u out hdid => by simpa using hdid
  have hfrozen := Frozen.extend ⟨pending, hsub₂ hpending, hdone⟩ hsub₃
  have honly₃ : ∀ u out, tracked u = true → Did cur₂ u out → u = .insertBank b ∨
      ∃ j ∈ pending, u = .updateRequest j (.invalidated "VENDOR_BANK_ACCOUNT_CHANGED") :=
    fun u out hu hdid => (honly₂ u out hu hdid).imp_left fun h => honly₁ u out hu h
  have hbank₃ := hsub₃ (hsub₂ (h₁.sub hbank))
  rw [wp_bind]
  refine updateEach_wp (f := fun id => .updateInvoice id (.frozen auth.organizationId vendorId))
    hnodup' ?_ fun counts' cur₄ hsub₄ hdone' honly₄ => ?_
  · intro id hid cur₄ done hfresh hsub _ honly₄
    refine update_wp ⟨rfl, fun c n hdid => ?_, ⟨b, bankId, hsub hbank₃⟩, hfrozen.extend hsub,
      awaiting, hsub List.mem_cons_self, hid⟩ hR fun out => ⟨rfl, out, rfl⟩
    rcases honly₄ _ n rfl hdid with h | ⟨j, hj, h⟩
    · rcases honly₃ _ n rfl (hback₃ _ _ h) with h | ⟨j, hj, h⟩ <;> cases h
    · cases h
      exact hfresh hj
  · refine hQ cur₄ (fun _ h => hsub₄ (hsub₃ (hsub₂ (h₁.sub h)))) (hfrozen.extend hsub₄)
      ⟨awaiting, hsub₄ List.mem_cons_self, hdone'⟩ fun b' id hdid => ?_
    rcases honly₄ _ id rfl hdid with h | ⟨j, hj, h⟩
    · rcases honly₃ _ id rfl (hback₃ _ _ h) with h | ⟨j, hj, h⟩ <;> cases h
      rfl
    · cases h

theorem addBankVersion_conforms (cfg : Config) (dto : CreateBankAccountVersionDto) :
    (program cfg (.addBankVersion auth vendorId dto)).wp (addBankVersionConduct auth vendorId)
      (fun _ _ _ => True) (fun _ _ _ => True) [] [] := by
  rw [program, wp_bind, VendorsService.addBankVersion, wp_transaction, wp_bind]
  refine assertCanReadVendor_wp (fun _ _ => trivial) fun cur₁ h₁ => ?_
  rw [wp_bind]
  refine query_wp rfl trivial (fun _ _ => trivial) fun latest cur₂ h₂ hlatest _ => ?_
  have hclean := clean_nil.extend (h₁.trans h₂)
  simp only
  rw [wp_tryCatch, wp_bind]
  have hfail : ∀ (e : Failure) (cur : Calls Out), (if e = .uniqueViolation then
      (throw VendorsService.staleWrite : Program (Id × VendorBankAccountVersion))
      else throw e).wp (addBankVersionConduct auth vendorId)
        (fun a past cur => (addBankVersionConduct auth vendorId).due past cur ∧
          (pure (Response.bank a.1 a.2) : Program Response).wp (addBankVersionConduct auth vendorId)
            (fun _ _ _ => True) (fun _ _ _ => True) (cur ++ past) [] ∧ ∀ _ : Failure, True)
        (fun _ _ _ => True) [] cur := by
    intro e cur
    rw [wp_ite]
    exact ⟨fun _ => trivial, fun _ => trivial⟩
  refine update_wp ⟨rfl, rfl, latest, hlatest, rfl⟩ hfail fun bankId => ?_
  rw [wp_bind, wp_whenever]
  have honly : ∀ u out, tracked u = true →
      Did (⟨.write (.insertBank (VendorsService.newBankVersion cfg auth vendorId dto
        ((latest.map (·.2.versionNumber)).getD 0))), bankId⟩ :: cur₂) u out →
      u = .insertBank (VendorsService.newBankVersion cfg auth vendorId dto
        ((latest.map (·.2.versionNumber)).getD 0)) := by
    intro u out hu hdid
    simp only [List.mem_cons, Sigma.mk.injEq, Stmt.write.injEq] at hdid
    rcases hdid with ⟨rfl, -⟩ | hold
    · rfl
    · exact absurd hold (hclean u out hu)
  have hno : ∀ ids, ¬ Saw (⟨.write (.insertBank (VendorsService.newBankVersion cfg auth vendorId dto
      ((latest.map (·.2.versionNumber)).getD 0))), bankId⟩ :: cur₂)
      (.awaitingOfVendor auth.organizationId vendorId) ids := by
    intro ids hs
    have hold : Saw cur₂ (.awaitingOfVendor auth.organizationId vendorId) ids := by simpa using hs
    simpa using (h₁.trans h₂).scans _ _ rfl hold
  refine ⟨fun hsecond => ?_, fun hfirst => ?_⟩
  · refine freeze_wp honly List.mem_cons_self hsecond hno hfail
      fun cur₃ h₃ hfrozen hinvoices hbanks => ?_
    rw [wp_bind]
    refine writeAudit_wp addBankVersion_lenient hfail fun cur₄ h₄ => ?_
    refine ⟨fun b' id hdid _ => ⟨hfrozen.extend h₄.sub, ?_⟩, trivial, fun _ => trivial⟩
    obtain ⟨ids, hids, hall⟩ := hinvoices
    refine ⟨ids, h₄.sub hids, fun id hid => ?_⟩
    obtain ⟨n, hn⟩ := hall id hid
    exact ⟨n, h₄.sub hn⟩
  · rw [wp_bind]
    refine writeAudit_wp addBankVersion_lenient hfail fun cur₄ h₄ => ?_
    refine ⟨fun b' id hdid hlater => ?_, trivial, fun _ => trivial⟩
    cases honly _ id rfl (h₄.back _ _ rfl hdid)
    exact absurd hlater hfirst

end Bank
end BlocTrust
