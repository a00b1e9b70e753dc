import BlocTrust.Conforms.Rules

/-!
The worker keeps its conduct.
Its statements outside a transaction commit one by one, so what an attempt has found out
is in its past; a failure at any point leaves the document loaded and no transaction open.
-/
namespace BlocTrust

open ReadCommitted Prog

variable {cfg : Config} {job : InvoiceIngestJob}

theorem processDue_of (cur : Calls Out)
    (hdocument : ∀ c n, ¬ Did cur (.updateDocument job.documentId c) n)
    (hprocessing : ∀ org ocr n,
      ¬ Did cur (.updateProcessing job.documentId (.suggested org ocr)) n) :
    ProcessDue job cur where
  promoted _ _ _ _ n hdid := absurd hdid (hdocument _ n)
  blocked _ n hdid := absurd hdid (hdocument _ n)
  suggested org ocr n hdid := absurd hdid (hprocessing org ocr n)

variable {past cur : Calls Out} {d : Document} {p : DocumentProcessing}
  {R : Failure → Calls Out → Calls Out → Prop}

theorem Loaded.extend {past' : Calls Out} (h : Loaded job past d p) (hsub : past ⊆ past') :
    Loaded job past' d p := ⟨hsub h.seen, h.unfinished⟩

/-- A failure leaves no transaction open and the document loaded. -/
def Loadable (job : InvoiceIngestJob) (d : Document) (p : DocumentProcessing) (_ : Failure)
    (past cur : Calls Out) : Prop := cur = [] ∧ Loaded job past d p

theorem updateProcessing_wp {change : ProcessingChange} {Q : Unit → Calls Out → Calls Out → Prop}
    (hl : Loaded job past d p) (hready : ProcessingReady job past [] change)
    (hnot : ∀ org ocr, change ≠ .suggested org ocr) (hR : ∀ e, R e past [])
    (hQ : ∀ n past', past' = ⟨.write (.updateProcessing job.documentId change), n⟩ :: past →
      past ⊆ past' → Q () past' []) :
    (InvoicePipeline.updateProcessing job change).wp (processConduct cfg job) Q R past [] := by
  rw [InvoicePipeline.updateProcessing, wp_bind]
  refine auto_wp ⟨rfl, ⟨d, p, hl⟩, by simp, hready⟩ (fun n => ?_) hR
    fun n => hQ n _ rfl (List.subset_cons_self _ _)
  refine processDue_of _ (by simp) fun org ocr n hdid => ?_
  simp only [List.mem_singleton, Sigma.mk.injEq, Stmt.write.injEq,
    Update.updateProcessing.injEq, true_and] at hdid
  exact hnot org ocr hdid.1.symm

theorem external_wp {c : External} {Q : c.Out → Calls Out → Calls Out → Prop}
    (hC : (processConduct cfg job).before past [] (.call c)) (hR : ∀ e, R e past [])
    (hQ : ∀ out past', past' = ⟨.call c, out⟩ :: past → past ⊆ past' → Q out past' []) :
    (external c).wp (processConduct cfg job) Q R past [] :=
  auto_wp hC (fun _ => processDue_of _ (by simp) (by simp)) hR
    fun out => hQ out _ rfl (List.subset_cons_self _ _)

theorem audit_wp {action : String} {Q : Unit → Calls Out → Calls Out → Prop}
    (hR : ∀ e cur, R e past cur) (hQ : ∀ cur', Extends cur cur' → Q () past cur') :
    (InvoicePipeline.audit job action).wp (processConduct cfg job) Q R past cur :=
  update_wp trivial hR fun _ => hQ _ (.cons_write cur _ _ rfl)

theorem block_wp {Q : Unit → Calls Out → Calls Out → Prop} (hl : Loaded job past d p)
    (hR : ∀ e, R e past []) (hQ : ∀ cur, Q () (cur ++ past) []) :
    (InvoicePipeline.block job).wp (processConduct cfg job) Q R past [] := by
  rw [InvoicePipeline.block, wp_transaction, wp_bind]
  refine update_wp ⟨rfl, ⟨d, p, hl⟩, by simp, rfl⟩ (fun _ _ => hR _) fun n => ?_
  rw [wp_bind]
  refine update_wp ⟨rfl, ⟨d, p, hl⟩, by simp, rfl, n, List.mem_cons_self⟩ (fun _ _ => hR _)
    fun m => ?_
  rw [wp_bind]
  refine update_wp ⟨rfl, fun c k hdid => ?_, ⟨d, p, hl⟩, rfl, m, List.mem_cons_self⟩
    (fun _ _ => hR _) fun k => ?_
  · simp at hdid
  refine audit_wp (fun _ _ => hR _) fun cur' h' => ⟨⟨?_, ?_, ?_⟩, hQ cur', hR⟩
  · intro org key sha duplicate n' hdid
    have hold := h'.back _ _ rfl hdid
    simp at hold
  · intro org n' hdid
    have hold := h'.back _ _ rfl hdid
    simp only [List.mem_cons, Sigma.mk.injEq, Stmt.write.injEq, Update.updateDocument.injEq,
      DocumentChange.blocked.injEq, true_and, reduceCtorEq, false_and, List.not_mem_nil, or_false,
      false_or] at hold
    obtain ⟨rfl, -⟩ := hold
    refine ⟨m, k, h'.sub ?_, h'.sub ?_⟩
    · exact List.mem_cons_of_mem _ List.mem_cons_self
    · exact List.mem_cons_self
  · intro org ocr n' hdid
    have hold := h'.back _ _ rfl hdid
    simp at hold

theorem manualReview_wp {errorCode : Text} {Q : Unit → Calls Out → Calls Out → Prop}
    (hl : Loaded job past d p) (hR : ∀ e past', past ⊆ past' → R e past' [])
    (hQ : ∀ past', past ⊆ past' → Q () past' []) :
    (InvoicePipeline.manualReview job errorCode).wp (processConduct cfg job) Q R past [] := by
  rw [InvoicePipeline.manualReview, wp_bind]
  refine updateProcessing_wp hl rfl (by simp) (fun e => hR e past (List.Subset.refl _))
    fun n past₁ hpast h₁ => ?_
  rw [wp_bind]
  refine auto_wp ⟨rfl, fun c k => by simp, ⟨d, p, hl.extend h₁⟩, rfl, errorCode.take 80, n, ?_⟩
    (fun k => processDue_of _ (by simp) (by simp)) (fun e => hR e _ h₁) fun k => hQ _ ?_
  · rw [hpast]
    exact List.mem_cons_self
  · exact fun _ h => List.mem_cons_of_mem _ (h₁ h)

theorem resetForRetry_wp {Q : Unit → Calls Out → Calls Out → Prop} (hl : Loaded job past d p)
    (hR : ∀ e, R e past []) (hQ : ∀ cur, Q () (cur ++ past) []) :
    (InvoicePipeline.resetForRetry job).wp (processConduct cfg job) Q R past [] := by
  rw [InvoicePipeline.resetForRetry, wp_transaction, wp_bind]
  refine query_wp rfl trivial (fun _ _ => hR _) fun storage cur₁ h₁ hseen _ => ?_
  have hclean := clean_nil.extend h₁
  cases storage with
  | none =>
      refine ⟨processDue_of _ (fun c n => hclean _ n rfl) (fun _ _ n => hclean _ n rfl), hQ _, hR⟩
  | some storage =>
      simp only
      rw [wp_bind]
      refine update_wp ⟨rfl, ⟨d, p, hl⟩, fun c n => hclean _ n rfl, rfl, hseen⟩ (fun _ _ => hR _)
        fun n => ⟨processDue_of _ (fun c k hdid => ?_) (fun org ocr k hdid => ?_), hQ _, hR⟩
      · exact hclean _ k rfl (by simpa using hdid)
      · exact hclean _ k rfl (by simpa using hdid)

theorem promote_wp {key : Id} {bytes : Bytes} {Q : Unit → Calls Out → Calls Out → Prop}
    (hl : Loaded job past d p) (hclean : Called past (.scanFile bytes) true)
    (hkey : Called past .randomObjectKey key)
    (honce : ∀ o k s dup n, ¬ Did past (.updateDocument job.documentId (.promoted o k s dup)) n)
    (hR : ∀ e, R e past []) (hQ : ∀ cur, Q () (cur ++ past) []) :
    (InvoicePipeline.promote job key (cfg.sha256 bytes)).wp (processConduct cfg job) Q R past [] := by
  rw [InvoicePipeline.promote, wp_transaction, wp_bind]
  refine update_wp trivial (fun _ _ => hR _) fun _ => ?_
  rw [wp_bind]
  refine query_wp rfl ⟨rfl, rfl, List.mem_cons_self⟩ (fun _ _ => hR _)
    fun duplicate cur₂ h₂ hseen _ => ?_
  have hlocked := h₂.sub (List.mem_cons_self (a := (⟨.write (.advisoryLock job.organizationId
    (cfg.sha256 bytes)), ()⟩ : Sigma Out)) (l := []))
  have honly : ∀ u out, tracked u = true → Did cur₂ u out →
      u = .advisoryLock job.organizationId (cfg.sha256 bytes) := by
    intro u out hu hdid
    have hold := h₂.back u out hu hdid
    simp only [List.mem_singleton, Sigma.mk.injEq, Stmt.write.injEq] at hold
    exact hold.1
  rw [wp_bind]
  refine update_wp ⟨rfl, ⟨d, p, hl⟩, fun c n hdid => ?_, rfl, hlocked, hseen,
    ⟨bytes, hclean, rfl⟩, hkey, honce⟩ (fun _ _ => hR _) fun n => ?_
  · cases honly _ n rfl hdid
  rw [wp_bind]
  refine update_wp ⟨rfl, ⟨d, p, hl⟩, fun c k hdid => ?_, rfl, _, _, _, n, List.mem_cons_self⟩
    (fun _ _ => hR _) fun m => ⟨⟨?_, ?_, ?_⟩, hQ _, hR⟩
  · simp only [List.mem_cons, Sigma.mk.injEq, Stmt.write.injEq, reduceCtorEq, false_and,
      false_or] at hdid
    cases honly _ k rfl hdid
  · intro org k sha dup n' hdid
    simp only [List.mem_cons, Sigma.mk.injEq, Stmt.write.injEq, Update.updateDocument.injEq,
      DocumentChange.promoted.injEq, reduceCtorEq, false_and, false_or, true_and] at hdid
    rcases hdid with ⟨⟨rfl, -⟩, -⟩ | hold
    · exact ⟨m, List.mem_cons_self⟩
    · cases honly _ n' rfl hold
  · intro org n' hdid
    simp only [List.mem_cons, Sigma.mk.injEq, Stmt.write.injEq, Update.updateDocument.injEq,
      reduceCtorEq, false_and, false_or, and_false] at hdid
    cases honly _ n' rfl hdid
  · intro org ocr n' hdid
    simp only [List.mem_cons, Sigma.mk.injEq, Stmt.write.injEq, Update.updateProcessing.injEq,
      reduceCtorEq, false_and, false_or, and_false] at hdid
    cases honly _ n' rfl hdid

theorem finishReview_wp {ocr : OcrResult} {Q : Unit → Calls Out → Calls Out → Prop}
    (hl : Loaded job past d p) (hR : ∀ e, R e past []) (hQ : ∀ cur, Q () (cur ++ past) []) :
    (InvoicePipeline.finishReview job ocr).wp (processConduct cfg job) Q R past [] := by
  rw [InvoicePipeline.finishReview, wp_transaction, wp_bind]
  refine update_wp ⟨rfl, ⟨d, p, hl⟩, by simp, rfl⟩ (fun _ _ => hR _) fun n => ?_
  rw [wp_bind]
  refine update_wp ⟨rfl, fun c k => by simp, ⟨d, p, hl⟩, rfl, ocr, n, List.mem_cons_self⟩
    (fun _ _ => hR _) fun k => ?_
  refine audit_wp (fun _ _ => hR _) fun cur' h' => ⟨⟨?_, ?_, ?_⟩, hQ cur', hR⟩
  · intro org key sha duplicate n' hdid
    have hold := h'.back _ _ rfl hdid
    simp at hold
  · intro org n' hdid
    have hold := h'.back _ _ rfl hdid
    simp at hold
  · intro org ocr' n' hdid
    have hold := h'.back _ _ rfl hdid
    simp only [List.mem_cons, Sigma.mk.injEq, Stmt.write.injEq, Update.updateProcessing.injEq,
      ProcessingChange.suggested.injEq, true_and, reduceCtorEq, false_and, List.not_mem_nil,
      or_false, false_or] at hold
    obtain ⟨⟨rfl, -⟩, -⟩ := hold
    exact ⟨k, h'.sub List.mem_cons_self⟩

/-- Neither an object key nor a promotion so far. -/
def Unpromoted (job : InvoiceIngestJob) (past : Calls Out) : Prop :=
  (∀ key, ¬ Called past .randomObjectKey key) ∧
    ∀ o k s dup n, ¬ Did past (.updateDocument job.documentId (.promoted o k s dup)) n

theorem scanAndPromote_wp {Q : Option Bytes → Calls Out → Calls Out → Prop}
    (hl : Loaded job past d p) (hstorage : d.storageState = .quarantined)
    (hun : Unpromoted job past) (hQ : ∀ file past', past ⊆ past' → Q file past' []) :
    (InvoicePipeline.scanAndPromote job cfg d).wp (processConduct cfg job) Q
      (Loadable job d p) past [] := by
  have hfail : ∀ past' : Calls Out, past ⊆ past' → ∀ e, Loadable job d p e past' [] :=
    fun past' hsub _ => ⟨rfl, hl.extend hsub⟩
  rw [InvoicePipeline.scanAndPromote, wp_bind, InvoicePipeline.progress]
  refine updateProcessing_wp hl ⟨rfl, d, p, hl, .inl ⟨rfl, rfl, hstorage⟩⟩ (by simp)
    (hfail _ (List.Subset.refl _)) fun n past₁ hpast₁ h₁ => ?_
  rw [wp_bind]
  refine external_wp trivial (hfail _ h₁) fun bytes past₂ hpast₂ h₂ => ?_
  have h₁₂ := List.Subset.trans h₁ h₂
  rw [wp_bind]
  refine external_wp trivial (hfail _ h₁₂) fun clean past₃ hpast₃ h₃ => ?_
  have h₁₃ := List.Subset.trans h₁₂ h₃
  rw [wp_ite]
  refine ⟨fun _ => ?_, fun hclean => ?_⟩
  · rw [wp_bind]
    refine block_wp (hl.extend h₁₃) (hfail _ h₁₃) fun cur => ?_
    exact hQ none _ (List.Subset.trans h₁₃ (List.subset_append_right cur _))
  have hscan : clean = true := by simpa using hclean
  have hun₃ : Unpromoted job past₃ := by
    subst hpast₁ hpast₂ hpast₃
    exact ⟨fun key => by simpa using hun.1 key, fun o k s dup m => by simpa using hun.2 o k s dup m⟩
  rw [wp_bind]
  refine external_wp hun₃.1 (hfail _ h₁₃) fun key past₄ hpast₄ h₄ => ?_
  have h₁₄ := List.Subset.trans h₁₃ h₄
  rw [wp_bind]
  refine external_wp trivial (hfail _ h₁₄) fun _ past₅ hpast₅ h₅ => ?_
  have h₁₅ := List.Subset.trans h₁₄ h₅
  rw [wp_bind, wp_tryCatch]
  refine promote_wp (hl.extend h₁₅) ?_ ?_ ?_ ?_ fun cur => ?_
  · have hscanned : Called past₃ (.scanFile bytes) true := by
      rw [hpast₃, hscan]
      exact List.mem_cons_self
    exact h₅ (h₄ hscanned)
  · have hdrawn : Called past₄ .randomObjectKey key := by
      rw [hpast₄]
      exact List.mem_cons_self
    exact h₅ hdrawn
  · intro o k s dup m
    rw [hpast₅, hpast₄]
    simpa using hun₃.2 o k s dup m
  · intro e
    rw [wp_bind, wp_tryCatch]
    refine external_wp trivial (fun e' => ⟨rfl, hl.extend h₁₅⟩) fun _ past₆ _ h₆ => ?_
    exact ⟨rfl, hl.extend (List.Subset.trans h₁₅ h₆)⟩
  · rw [wp_bind]
    have h₁₆ := List.Subset.trans h₁₅ (List.subset_append_right cur past₅)
    refine external_wp trivial (hfail _ h₁₆) fun _ past₇ _ h₇ => ?_
    exact hQ _ _ (List.Subset.trans h₁₆ h₇)

theorem downloadApproved_wp {Q : Option Bytes → Calls Out → Calls Out → Prop}
    (hl : Loaded job past d p) (hstorage : d.storageState ≠ .quarantined)
    (hQ : ∀ file past', past ⊆ past' → Q file past' []) :
    (InvoicePipeline.downloadApproved job d).wp (processConduct cfg job) Q
      (Loadable job d p) past [] := by
  have hfail : ∀ past' : Calls Out, past ⊆ past' → ∀ e, Loadable job d p e past' [] :=
    fun past' hsub _ => ⟨rfl, hl.extend hsub⟩
  rw [InvoicePipeline.downloadApproved, wp_bind, InvoicePipeline.progress]
  refine updateProcessing_wp hl ⟨rfl, d, p, hl, .inr ⟨rfl, rfl, hstorage⟩⟩ (by simp)
    (hfail _ (List.Subset.refl _)) fun n past₁ _ h₁ => ?_
  rw [wp_bind, wp_orThrow]
  refine ⟨fun key _ => ?_, fun _ => hfail _ h₁ _⟩
  rw [wp_bind]
  refine external_wp trivial (hfail _ h₁) fun bytes past₂ _ h₂ => ?_
  exact hQ _ _ (List.Subset.trans h₁ h₂)

theorem ingest_wp {Q : Unit → Calls Out → Calls Out → Prop} (hl : Loaded job past d p)
    (hun : Unpromoted job past) (hQ : ∀ past', Q () past' []) :
    (InvoicePipeline.ingest job cfg d).wp (processConduct cfg job) Q
      (Loadable job d p) past [] := by
  have hrest : ∀ (file : Option Bytes) past', past ⊆ past' →
      (InvoicePipeline.review job d file).wp (processConduct cfg job) Q (Loadable job d p)
        past' [] := by
    intro file past' hsub
    cases file with
    | none => exact hQ past'
    | some bytes =>
        rw [InvoicePipeline.review, wp_bind]
        refine external_wp trivial (fun e => ⟨rfl, hl.extend hsub⟩) fun ocr past'' _ hsub' => ?_
        have hl' := hl.extend (List.Subset.trans hsub hsub')
        exact finishReview_wp hl' (fun e => ⟨rfl, hl'⟩) fun cur => hQ _
  rw [InvoicePipeline.ingest, wp_ite]
  refine ⟨fun hstorage => ?_, fun hstorage => ?_⟩
  · rw [wp_bind]
    exact scanAndPromote_wp hl hstorage hun hrest
  · rw [wp_bind]
    exact downloadApproved_wp hl hstorage hrest

theorem process_conforms (finalAttempt : Bool) :
    (program cfg (.process job finalAttempt)).wp (processConduct cfg job)
      (fun _ _ _ => True) (fun _ _ _ => True) [] [] := by
  rw [program, wp_bind, InvoicePipeline.process, wp_bind, InvoicePipeline.load]
  refine auto_wp trivial (fun _ => processDue_of _ (by simp) (by simp)) (fun _ => trivial)
    fun found => ?_
  cases found with
  | none => trivial
  | some found =>
      obtain ⟨d, p⟩ := found
      simp only
      rw [wp_ite]
      refine ⟨fun _ => trivial, fun hunfinished => ?_⟩
      simp only [not_or] at hunfinished
      have hl : Loaded job [⟨.read (.load job), some (d, p)⟩] d p :=
        ⟨List.mem_cons_self, hunfinished⟩
      rw [wp_tryCatch]
      refine wp_mono (fun _ _ _ h => h) ?_
        (ingest_wp hl ⟨by simp, by simp⟩ fun _ => trivial)
      rintro e past cur ⟨rfl, hl'⟩
      rw [wp_ite]
      refine ⟨fun _ => ?_, fun _ => ?_⟩
      · rw [wp_bind]
        exact manualReview_wp hl' (fun _ _ _ => trivial) fun _ _ => trivial
      · rw [wp_bind]
        exact resetForRetry_wp hl' (fun _ => trivial) fun _ => trivial

end BlocTrust
