import BlocTrust.Services

/-!
`VendorsService.addBankVersion`: a new version of a vendor's bank account freezes the
approvals that are pending on the vendor's invoices.
-/
namespace BlocTrust.VendorsService

open ReadCommitted Prog

def notFound : Failure := .notFound "VENDOR_NOT_FOUND"
def staleWrite : Failure := .conflict "STALE_WRITE"

/-- The buildings a caller's view of vendors is limited to; `none` for no limit. -/
def vendorScope (auth : AuthContext) : Program (Option (List Id)) :=
  if auth.role = .owner ∨ auth.role = .auditor then return none
  else do
    let current ← now
    let buildings ← query (.findGrants auth.organizationId auth.membershipId current)
    return some buildings

def assertCanReadVendor (auth : AuthContext) (vendorId : Id) : Program Unit := do
  let scope ← vendorScope auth
  let vendor ← query (.findVendorInScope auth.organizationId vendorId scope)
  require (vendor.isSome = true) notFound

def newBankVersion (cfg : Config) (auth : AuthContext) (vendorId : Id)
    (dto : CreateBankAccountVersionDto) (latest : Nat) : VendorBankAccountVersion :=
  { organizationId := auth.organizationId
    vendorId := vendorId
    versionNumber := latest + 1
    countryCode := dto.countryCode
    account := cfg.encrypt auth.organizationId vendorId dto
    createdByMembershipId := auth.membershipId }

/-- `updateMany` on the vendor's pending requests, then on its invoices awaiting approval. -/
def freeze (organizationId vendorId : Id) : Program Unit := do
  let pending ← query (.pendingOfVendor organizationId vendorId)
  let _ ← each
    (fun id => update (.updateRequest id (.invalidated "VENDOR_BANK_ACCOUNT_CHANGED"))) pending
  let awaiting ← query (.awaitingOfVendor organizationId vendorId)
  let _ ← each (fun id => update (.updateInvoice id (.frozen organizationId vendorId))) awaiting
  return ()

def addBankVersion (cfg : Config) (auth : AuthContext) (vendorId : Id)
    (dto : CreateBankAccountVersionDto) : Program (Id × VendorBankAccountVersion) :=
  transaction do
    assertCanReadVendor auth vendorId
    let latest ← query (.latestBank auth.organizationId vendorId)
    let created := newBankVersion cfg auth vendorId dto
      ((latest.map (·.2.versionNumber)).getD 0)
    tryCatch
      (do
        let id ← update (.insertBank created)
        whenever (1 < created.versionNumber) (freeze auth.organizationId vendorId)
        writeAudit auth "BANK_ACCOUNT_VERSION_CREATED" "BANK_ACCOUNT" id none
        return (id, created))
      fun error => if error = .uniqueViolation then throw staleWrite else throw error

end BlocTrust.VendorsService
