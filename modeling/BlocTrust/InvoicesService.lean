import BlocTrust.DocumentValidation
import BlocTrust.Services

/-!
`InvoicesService`: validated uploads into quarantine, and edits of invoice drafts.
-/
namespace BlocTrust.InvoicesService

open ReadCommitted Prog
open DocumentValidation (ValidatedDocument)

structure UploadInvoiceDto where
  vendorId : Option Id
  contractId : Option Id
  deriving DecidableEq, Repr

/-- An uploaded file, in the chunks in which a stream from the disk delivers it. -/
structure UploadedFile where
  chunks : List Bytes
  originalname : Text
  mimetype : Text
  size : Nat
  deriving DecidableEq, Repr

def UploadedFile.bytes (file : UploadedFile) : Bytes := file.chunks.flatten

structure InvoiceLineDto where
  description : Text
  quantity : Nat
  unitPrice : Nat
  taxRate : Option Nat
  amount : Cents
  deriving DecidableEq, Repr

structure UpdateInvoiceDraftDto where
  version : Nat
  vendorId : Field Id
  contractId : Field Id
  invoiceNumber : Field Text
  issueDate : Field Time
  dueDate : Field Time
  currency : Field Text
  subtotal : Field Cents
  taxAmount : Field Cents
  totalAmount : Field Cents
  notes : Field Text
  lines : Field (List InvoiceLineDto)
  deriving DecidableEq, Repr

/-- What `sanitizeInvoice` leaves of a document. -/
structure DocumentView where
  id : Id
  originalFilename : Text
  storageState : DocumentStorageState
  processing : Option DocumentProcessing
  deriving DecidableEq, Repr

structure InvoiceView where
  id : Id
  invoice : Invoice
  lines : List InvoiceLine
  documents : List DocumentView
  deriving DecidableEq, Repr

def notFound : Failure := .notFound "INVOICE_RESOURCE_NOT_FOUND"

/-- The file is validated while it is read from the disk. -/
def validateDocumentFile (cfg : Config) (normalize : Text → Text) (file : UploadedFile) :
    Except Failure ValidatedDocument :=
  DocumentValidation.validateDocumentFile cfg.sha256 normalize cfg.toLowerCase file.chunks
    file.originalname file.mimetype (some file.size)

def assertVendor (organizationId : Id) : Option Id → Program Unit
  | none => return ()
  | some vendorId => do
      let vendor ← query (.findVendor organizationId vendorId)
      require (vendor.isSome = true) notFound

def assertContract (organizationId : Id) (vendorId : Option Id) : Option Id → Program Unit
  | none => return ()
  | some contractId => do
      let vendorId ← orThrow vendorId (.badRequest "INVOICE_CONTRACT_REQUIRES_VENDOR")
      let contract ← query (.findContractOf organizationId contractId vendorId)
      require (contract.isSome = true) notFound

def assertRelationships (organizationId : Id) (vendorId contractId : Option Id) :
    Program Unit := do
  assertVendor organizationId vendorId
  assertContract organizationId vendorId contractId

def invoiceView (id : Id) (v : Invoice) (lines : List InvoiceLine)
    (documents : List (Id × Document)) (processings : List (Option DocumentProcessing)) :
    InvoiceView :=
  { id := id
    invoice := v
    lines := lines
    documents := (documents.zip processings).map fun ((id, d), p) =>
      ⟨id, d.originalFilename, d.storageState, p.map fun p => { p with scanDetail := none }⟩ }

section Upload

def newInvoice (auth : AuthContext) (dto : UploadInvoiceDto) (createdAt : Time) : Invoice :=
  { organizationId := auth.organizationId
    vendorId := dto.vendorId
    contractId := dto.contractId
    invoiceNumber := none
    issueDate := none
    dueDate := none
    currency := none
    subtotal := none
    taxAmount := none
    totalAmount := none
    notes := none
    status := .processing
    version := 1
    vendorBankAccountVersionId := none
    createdByMembershipId := auth.membershipId
    createdAt := createdAt }

def newDocument (cfg : Config) (auth : AuthContext) (invoiceId quarantineKey : Id)
    (file : UploadedFile) (validated : ValidatedDocument) (createdAt : Time) : Document :=
  { organizationId := auth.organizationId
    invoiceId := invoiceId
    originalFilename := file.originalname
    declaredMimeType := cfg.toLowerCase file.mimetype
    detectedMimeType := validated.detectedMimeType
    sizeBytes := validated.sizeBytes
    quarantineObjectKey := quarantineKey
    approvedObjectKey := none
    sha256 := none
    duplicateOfDocumentId := none
    storageState := .quarantined
    createdByMembershipId := auth.membershipId
    createdAt := createdAt }

def newProcessing (auth : AuthContext) : DocumentProcessing :=
  { organizationId := auth.organizationId
    state := .quarantined
    progress := 10
    scanResult := .pending
    scanDetail := none
    ocrEngine := none
    suggestions := []
    attempts := 0
    errorCode := none
    errorMessage := none }

def createInvoice (cfg : Config) (auth : AuthContext) (dto : UploadInvoiceDto)
    (file : UploadedFile) (validated : ValidatedDocument)
    (documentId invoiceId quarantineKey : Id) : Program InvoiceView := do
  assertRelationships auth.organizationId dto.vendorId dto.contractId
  let createdAt ← now
  update (.insertInvoice invoiceId (newInvoice auth dto createdAt))
  update (.insertDocument documentId
    (newDocument cfg auth invoiceId quarantineKey file validated createdAt))
  update (.insertProcessing documentId (newProcessing auth))
  let found ← query (.findInvoice auth.organizationId invoiceId)
  let created ← orThrow found .recordNotFound
  let documents ← query (.findDocuments auth.organizationId invoiceId)
  let processings ← query (.findProcessings (documents.map Prod.fst))
  writeAudit auth "INVOICE_UPLOADED" "INVOICE" invoiceId none
  return invoiceView invoiceId created [] documents processings

def markManualReview (organizationId documentId invoiceId : Id) (code : Text) : Program Unit :=
  transaction do
    let _ ← update (.updateProcessing documentId (.queueFailed organizationId code))
    let _ ← update (.updateInvoice invoiceId (.queueFailed organizationId))
    return ()

def upload (cfg : Config) (normalize : Text → Text) (auth : AuthContext)
    (dto : UploadInvoiceDto) (file : Option UploadedFile) : Program InvoiceView := do
  let file ← orThrow file (.badRequest "DOCUMENT_FILE_REQUIRED")
  match validateDocumentFile cfg normalize file with
  | .error failure => throw failure
  | .ok validated => do
      let documentId ← external .randomUUID
      let invoiceId ← external .randomUUID
      let quarantineKey ← external .randomObjectKey
      external (.putObject .quarantine quarantineKey file.bytes)
      let invoice ← tryCatch
        (transaction
          (createInvoice cfg auth dto file validated documentId invoiceId quarantineKey))
        fun error => do
          tryCatch (external (.deleteObject .quarantine quarantineKey)) fun _ => return ()
          throw error
      tryCatch
        (external (.enqueue
          { invoiceId := invoiceId
            documentId := documentId
            organizationId := auth.organizationId }))
        fun _ => markManualReview auth.organizationId documentId invoiceId
          "QUEUE_UNAVAILABLE".toList
      return invoice

end Upload

section Update

def canEditInvoiceDraft (status : InvoiceStatus)
    (documents : List (DocumentStorageState × Option DocumentScanResult)) : Bool :=
  match status with
  | .needsReview | .awaitingApproval => true
  | .manualReview => documents.any fun d => d.1 = .approved ∧ d.2 = some .clean
  | _ => false

/-- `dto.text.trim()` and its like fail on a JSON `null`. -/
def mapText (f : Text → Text) : Field Text → Option (Field Text)
  | .absent => some .absent
  | .null => none
  | .given t => some (.given (f t))

/-- `new Date(null)` is the epoch. -/
def toDate : Field Time → Field Time
  | .null => .given 0
  | f => f

def invoiceEdit (cfg : Config) (dto : UpdateInvoiceDraftDto) (invalidatesApproval : Bool) :
    Option InvoiceEdit := do
  let invoiceNumber ← mapText trim dto.invoiceNumber
  let currency ← mapText cfg.toUpperCase dto.currency
  let notes ← mapText trim dto.notes
  return { vendorId := dto.vendorId
           contractId := dto.contractId
           invoiceNumber := invoiceNumber
           issueDate := toDate dto.issueDate
           dueDate := toDate dto.dueDate
           currency := currency
           subtotal := dto.subtotal
           taxAmount := dto.taxAmount
           totalAmount := dto.totalAmount
           notes := notes
           invalidatesApproval := invalidatesApproval }

def newLines (lines : List InvoiceLineDto) : List InvoiceLine :=
  lines.zipIdx.map fun (line, position) =>
    { description := line.description
      quantity := line.quantity
      unitPrice := line.unitPrice
      taxRate := line.taxRate
      amount := line.amount
      position := position }

def replaceLines (invoiceId : Id) : Field (List InvoiceLineDto) → Program Unit
  | .given lines => do
      update (.deleteLines invoiceId)
      if lines = [] then return ()
      else update (.createLines invoiceId (newLines lines))
  | _ => return ()

/-- `updateMany` on the pending requests of the invoice. -/
def invalidatePending (organizationId invoiceId : Id) : Program Unit := do
  let pending ← query (.pendingOfInvoice organizationId invoiceId)
  let _ ← each (fun id => update (.updateRequest id (.invalidated "INVOICE_DATA_CHANGED")))
    pending
  return ()

def updateChecked (cfg : Config) (auth : AuthContext) (invoiceId : Id)
    (dto : UpdateInvoiceDraftDto) (existing : Invoice) : Program InvoiceView := do
  let invalidatesApproval : Bool := existing.status == .awaitingApproval
  whenever (invalidatesApproval = true) (invalidatePending auth.organizationId invoiceId)
  assertRelationships auth.organizationId (dto.vendorId.orElse existing.vendorId)
    (dto.contractId.orElse existing.contractId)
  let edit ← orThrow (invoiceEdit cfg dto invalidatesApproval) .typeError
  let count ← update (.updateInvoice invoiceId (.edited auth.organizationId dto.version edit))
  require (count = 1) (.conflict "STALE_INVOICE_VERSION")
  replaceLines invoiceId dto.lines
  let found ← query (.findInvoice auth.organizationId invoiceId)
  let updated ← orThrow found .recordNotFound
  let lines ← query (.findLines invoiceId)
  let documents ← query (.findDocuments auth.organizationId invoiceId)
  let processings ← query (.findProcessings (documents.map Prod.fst))
  writeAudit auth "INVOICE_DRAFT_UPDATED" "INVOICE" invoiceId none
  whenever (invalidatesApproval = true)
    (writeAudit auth "APPROVAL_REQUEST_INVALIDATED" "INVOICE" invoiceId
      (some "Invoice financial data changed while approval was pending.".toList))
  return invoiceView invoiceId updated lines documents processings

def update (cfg : Config) (auth : AuthContext) (invoiceId : Id)
    (dto : UpdateInvoiceDraftDto) : Program InvoiceView :=
  transaction do
    let found ← query (.findInvoice auth.organizationId invoiceId)
    let existing ← orThrow found notFound
    let documents ← query (.findDocuments auth.organizationId invoiceId)
    let processings ← query (.findProcessings (documents.map Prod.fst))
    require (canEditInvoiceDraft existing.status ((documents.zip processings).map
      fun (d, p) => (d.2.storageState, p.map (·.scanResult))) = true)
      (.conflict "INVOICE_NOT_EDITABLE")
    updateChecked cfg auth invoiceId dto existing

end Update
end BlocTrust.InvoicesService
