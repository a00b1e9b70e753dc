import BlocTrust.InvoicePipeline
import BlocTrust.ReadCommitted.Obligations

/-!
The statements of the worker.
Each part of an attempt issues statements of a property `P` as soon as the few statements
it consists of have it.
-/
namespace BlocTrust

open ReadCommitted Prog

variable {P : Stmt → Prop} {job : InvoiceIngestJob} {cfg : Config} {d : Document}

theorem updateProcessing_issues {change : ProcessingChange}
    (h : P (.write (.updateProcessing job.documentId change))) :
    (InvoicePipeline.updateProcessing job change).Issues P :=
  (issues_auto h).bind fun _ => trivial

theorem block_issues
    (hdocument : P (.write (.updateDocument job.documentId (.blocked job.organizationId))))
    (hprocessing : P (.write (.updateProcessing job.documentId (.blocked job.organizationId))))
    (hinvoice : P (.write (.updateInvoice job.invoiceId (.blocked job.organizationId))))
    (haudit : ∀ a, P (.write (.insertAudit a))) : (InvoicePipeline.block job).Issues P := by
  refine Issues.transaction ?_
  refine (issues_sql hdocument).bind fun _ => ?_
  refine (issues_sql hprocessing).bind fun _ => ?_
  exact (issues_sql hinvoice).bind fun _ => issues_sql (haudit _)

theorem resetForRetry_issues (hread : ∀ q, P (.read q))
    (hreset : ∀ storage, P (.write (.updateProcessing job.documentId
      (.reset job.organizationId storage)))) : (InvoicePipeline.resetForRetry job).Issues P := by
  refine Issues.transaction ?_
  refine (issues_sql (hread _)).bind fun storage => ?_
  cases storage with
  | none => trivial
  | some storage => exact (issues_sql (hreset storage)).bind fun _ => trivial

theorem finishReview_issues {ocr : OcrResult}
    (hprocessing : P (.write (.updateProcessing job.documentId (.suggested job.organizationId ocr))))
    (hinvoice : P (.write (.updateInvoice job.invoiceId (.suggested job.organizationId))))
    (haudit : ∀ a, P (.write (.insertAudit a))) :
    (InvoicePipeline.finishReview job ocr).Issues P := by
  refine Issues.transaction ?_
  refine (issues_sql hprocessing).bind fun _ => ?_
  exact (issues_sql hinvoice).bind fun _ => issues_sql (haudit _)

theorem downloadApproved_issues
    (hprogress : P (.write (.updateProcessing job.documentId
      (.progressed job.organizationId .parsed 75 true (some .clean)))))
    (hget : ∀ key, P (.call (.getObject .approved key))) :
    (InvoicePipeline.downloadApproved job d).Issues P := by
  refine (updateProcessing_issues hprogress).bind fun _ => ?_
  refine (issues_orThrow _ _).bind fun key => ?_
  exact (issues_auto (hget key)).bind fun _ => trivial

theorem manualReview_issues {code : Text}
    (hprocessing : P (.write (.updateProcessing job.documentId
      (.manualReview job.organizationId (code.take 80)))))
    (hinvoice : P (.write (.updateInvoice job.invoiceId (.manualReview job.organizationId)))) :
    (InvoicePipeline.manualReview job code).Issues P :=
  (updateProcessing_issues hprocessing).bind fun _ => (issues_auto hinvoice).bind fun _ => trivial

theorem promote_issues {key : Id} {sha : Digest} (hread : ∀ q, P (.read q))
    (hlock : P (.write (.advisoryLock job.organizationId sha)))
    (hdocument : ∀ duplicate, P (.write (.updateDocument job.documentId
      (.promoted job.organizationId key sha duplicate))))
    (hprocessing : P (.write (.updateProcessing job.documentId (.parsed job.organizationId)))) :
    (InvoicePipeline.promote job key sha).Issues P := by
  refine Issues.transaction ?_
  refine (issues_sql hlock).bind fun _ => ?_
  refine (issues_sql (hread _)).bind fun duplicate => ?_
  refine (issues_sql (hdocument duplicate)).bind fun _ => ?_
  exact (issues_sql hprocessing).bind fun _ => trivial

/-- What puts a clean document into the approved bucket, with a `block` that is given. -/
theorem scanAndPromote_issues (hblock : (InvoicePipeline.block job).Issues P)
    (hpromote : ∀ key sha, (InvoicePipeline.promote job key sha).Issues P)
    (hprogress : P (.write (.updateProcessing job.documentId
      (.progressed job.organizationId .scanning 25 true none))))
    (hcall : ∀ c, P (.call c)) : (InvoicePipeline.scanAndPromote job cfg d).Issues P := by
  refine (updateProcessing_issues hprogress).bind fun _ => ?_
  refine (issues_auto (hcall _)).bind fun bytes => ?_
  refine (issues_auto (hcall _)).bind fun clean => ?_
  split
  · exact hblock.bind fun _ => trivial
  · refine (issues_auto (hcall _)).bind fun key => ?_
    refine (issues_auto (hcall _)).bind fun _ => ?_
    refine Issues.bind ?_ fun _ => (issues_auto (hcall _)).bind fun _ => trivial
    refine (hpromote _ _).tryCatch fun e => ?_
    exact Issues.bind ((issues_auto (hcall _)).tryCatch fun _ => trivial) fun _ => trivial

/-- The second half of an attempt. -/
theorem finish_issues {file : Option Bytes}
    (hreview : ∀ ocr, (InvoicePipeline.finishReview job ocr).Issues P)
    (hcall : ∀ bytes, P (.call (.extractSuggestions bytes d.detectedMimeType))) :
    (match file with
      | none => (pure () : Program Unit)
      | some bytes => do
          let ocr ← external (.extractSuggestions bytes d.detectedMimeType)
          InvoicePipeline.finishReview job ocr).Issues P := by
  cases file with
  | none => trivial
  | some bytes => exact (issues_auto (hcall bytes)).bind fun ocr => hreview ocr

end BlocTrust
