import BlocTrust.Services

/-!
`InvoicePipeline.process`: the worker scans a quarantined document, promotes it under its
fingerprint, stores suggestions and hands the invoice over for review.  Statements outside
`BEGIN`/`COMMIT` commit by themselves.
-/
namespace BlocTrust.InvoicePipeline

open ReadCommitted Prog

variable (job : InvoiceIngestJob)

def audit (action : String) : Program Unit :=
  update (.insertAudit
    { organizationId := job.organizationId
      actorMembershipId := none
      action := action
      entityType := "DOCUMENT"
      entityId := job.documentId
      reason := none })

def load : Program (Option (Document × DocumentProcessing)) := auto (Stmt.read (.load job))

/-- `this.database.query` on the processing row. -/
def updateProcessing (change : ProcessingChange) : Program Unit := do
  let _ ← auto (Stmt.write (.updateProcessing job.documentId change))
  return ()

def progress (state : DocumentProcessingState) (progress : Nat)
    (scanResult : Option DocumentScanResult) : Program Unit :=
  updateProcessing job (.progressed job.organizationId state progress true scanResult)

def block : Program Unit :=
  transaction do
    let _ ← update (.updateDocument job.documentId (.blocked job.organizationId))
    let _ ← update (.updateProcessing job.documentId (.blocked job.organizationId))
    let _ ← update (.updateInvoice job.invoiceId (.blocked job.organizationId))
    audit job "DOCUMENT_BLOCKED"

def manualReview (errorCode : Text) : Program Unit := do
  updateProcessing job (.manualReview job.organizationId (errorCode.take 80))
  let _ ← auto (Stmt.write (.updateInvoice job.invoiceId (.manualReview job.organizationId)))
  return ()

/-- `UPDATE … FROM "Document"`: the document is read in the statement's snapshot, the
processing row is changed in its newest version. -/
def resetForRetry : Program Unit :=
  transaction do
    match ← query (.documentStorage job.organizationId job.documentId) with
    | none => return ()
    | some storage => do
        let _ ← update (.updateProcessing job.documentId (.reset job.organizationId storage))
        return ()

/-- The transaction that records a clean document under its fingerprint. -/
def promote (approvedKey : Id) (sha256 : Digest) : Program Unit :=
  transaction do
    update (.advisoryLock job.organizationId sha256)
    let duplicate ← query (.findDuplicate job.organizationId sha256 job.documentId)
    let _ ← update (.updateDocument job.documentId
      (.promoted job.organizationId approvedKey sha256 duplicate))
    let _ ← update (.updateProcessing job.documentId (.parsed job.organizationId))
    return ()

def scanAndPromote (cfg : Config) (document : Document) : Program (Option Bytes) := do
  progress job .scanning 25 none
  let bytes ← external (.getObject .quarantine document.quarantineObjectKey)
  let clean ← external (.scanFile bytes)
  if clean = false then do
    block job
    return none
  else do
    let approvedKey ← external .randomObjectKey
    external (.putObject .approved approvedKey bytes)
    tryCatch (promote job approvedKey (cfg.sha256 bytes)) fun error => do
      tryCatch (external (.deleteObject .approved approvedKey)) fun _ => return ()
      throw error
    external (.deleteObject .quarantine document.quarantineObjectKey)
    return some bytes

def downloadApproved (document : Document) : Program (Option Bytes) := do
  progress job .parsed 75 (some .clean)
  let key ← orThrow document.approvedObjectKey .typeError
  let bytes ← external (.getObject .approved key)
  return some bytes

/-- The final transaction of an attempt. -/
def finishReview (ocr : OcrResult) : Program Unit :=
  transaction do
    let _ ← update (.updateProcessing job.documentId (.suggested job.organizationId ocr))
    let _ ← update (.updateInvoice job.invoiceId (.suggested job.organizationId))
    audit job "INVOICE_OCR_SUGGESTIONS_CREATED"

/-- What is done with the bytes that have been found clean. -/
def review (document : Document) : Option Bytes → Program Unit
  | none => return ()
  | some bytes => do
      let ocr ← external (.extractSuggestions bytes document.detectedMimeType)
      finishReview job ocr

def ingest (cfg : Config) (document : Document) : Program Unit := do
  let file ← if document.storageState = .quarantined then scanAndPromote job cfg document
    else downloadApproved job document
  review job document file

/-- `error.name`. -/
def errorName : Failure → Text
  | .unavailable name => name.toList
  | .typeError => "TypeError".toList
  | _ => "error".toList

def process (cfg : Config) (finalAttempt : Bool) : Program Unit := do
  match ← load job with
  | none => return ()
  | some (document, processing) =>
      if processing.state = .needsReview ∨ processing.state = .manualReview ∨
          processing.state = .blocked then
        return ()
      else
        tryCatch (ingest job cfg document) fun error => do
          if finalAttempt = true then manualReview job (errorName error)
            else resetForRetry job
          throw error

end BlocTrust.InvoicePipeline
