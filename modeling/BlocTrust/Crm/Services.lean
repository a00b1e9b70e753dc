import BlocTrust.Crm.Statements

/-!
`BuildingAccessService` and the updates of `VendorsService`, `ContractsService` and
`BuildingsService`, each of them one transaction.
-/
namespace BlocTrust.Crm

open ReadCommitted Prog

abbrev Program := Prog Out Failure

structure AuthContext where
  membershipId : Id
  organizationId : Id
  role : MembershipRole
  deriving DecidableEq, Repr

def query (q : Query) : Program q.Out := sql (Stmt.read q)

def writeAudit (auth : AuthContext) (action entityType : String) (entityId : Id) : Program Unit :=
  sql (Stmt.insertAudit
    { organizationId := auth.organizationId
      actorMembershipId := auth.membershipId
      action := action
      entityType := entityType
      entityId := entityId })

/-- `updateMany` on the expected version, and `staleWrite` unless it changed the row. -/
def updateExpected (auth : AuthContext) (k : Key) (expectedVersion : Nat) (c : Change k) :
    Program Unit := do
  let count ← sql (Stmt.update k auth.organizationId expectedVersion c)
  require (count = 1) (.conflict "STALE_WRITE")

def deleteLinks (auth : AuthContext) (k : Key) (buildingIds : List Id) : Program Unit := do
  let _ ← each (fun b => (sql (Stmt.deleteLink k auth.organizationId b) : Program Nat)) buildingIds
  return ()

def createLinks (auth : AuthContext) (k : Key) (buildingIds : List Id) : Program Unit := do
  let _ ← each (fun b => (sql (Stmt.insertLink k auth.organizationId b) : Program Unit)) buildingIds
  return ()

namespace BuildingAccessService

def assertBuildingExists (auth : AuthContext) (buildingId : Id) : Program Unit := do
  let building ← query (.find (.building buildingId) auth.organizationId)
  let _ ← orThrow building (.notFound "BUILDING_NOT_FOUND")
  return ()

def assertCanManage (auth : AuthContext) (buildingId : Id) : Program Unit :=
  if auth.role = .owner then return ()
  else if auth.role = .administrator then do
    let now ← sql Stmt.clock
    let grant ← query (.findAccess auth.organizationId auth.membershipId buildingId now)
    let _ ← orThrow grant (.forbidden "BUILDING_ACCESS_FORBIDDEN")
    return ()
  else throw (.forbidden "BUILDING_ACCESS_FORBIDDEN")

def assertAllCanManage (auth : AuthContext) (buildingIds : List Id) : Program Unit := do
  let _ ← each (fun buildingId => do
    assertBuildingExists auth buildingId
    assertCanManage auth buildingId) buildingIds.eraseDups
  return ()

end BuildingAccessService

/-- A column that is not nullable; the database client refuses `null`. -/
def required {α : Type} : Field α → Except Failure (Option α)
  | .absent => .ok none
  | .null => .error .validation
  | .given a => .ok (some a)

/-- `if (field)` on a list. -/
def givenList (f : Field (List Id)) : Option (List Id) := f.orElse none

namespace BuildingsService

structure UpdateBuildingDto where
  name : Field Text
  addressLine1 : Field Text
  addressLine2 : Field Text
  city : Field Text
  postalCode : Field Text
  countryCode : Field Text
  deriving DecidableEq, Repr

def buildingEdit (dto : UpdateBuildingDto) : Except Failure BuildingEdit := do
  return { name := ← required dto.name
           addressLine1 := ← required dto.addressLine1
           addressLine2 := dto.addressLine2
           city := ← required dto.city
           postalCode := ← required dto.postalCode
           countryCode := ← required dto.countryCode }

def update (auth : AuthContext) (buildingId : Id) (version : Nat) (dto : UpdateBuildingDto) :
    Program Building :=
  transaction do
    BuildingAccessService.assertCanManage auth buildingId
    match buildingEdit dto with
    | .error failure => throw failure
    | .ok edit => do
        updateExpected auth (.building buildingId) version edit
        let after ← query (.get (.building buildingId))
        orThrow after (.notFound "P2025")

end BuildingsService

namespace VendorsService

structure UpdateVendorDto where
  legalName : Field Text
  tradingName : Field Text
  registrationNumber : Field Text
  taxId : Field Text
  email : Field Text
  phone : Field Text
  status : Field VendorStatus
  tags : Field (List Text)
  internalNotes : Field Text
  buildingIds : Field (List Id)
  deriving DecidableEq, Repr

def tags (cfg : Config) (tags : List Text) : List Text :=
  ((tags.map fun tag => cfg.toLowerCase (trim tag)).filter (· ≠ [])).eraseDups

def vendorEdit (cfg : Config) (dto : UpdateVendorDto) : Except Failure VendorEdit := do
  return { legalName := ← required dto.legalName
           tradingName := dto.tradingName
           registrationNumber := dto.registrationNumber
           taxId := dto.taxId
           email := dto.email
           phone := dto.phone
           status := ← required dto.status
           tags := (← required dto.tags).map (tags cfg)
           internalNotes := dto.internalNotes }

def assertCanManageVendor (auth : AuthContext) (vendorId : Id) : Program (Vendor × List Id) := do
  let found ← query (.find (.vendor vendorId) auth.organizationId)
  let vendor ← orThrow found (.notFound "VENDOR_NOT_FOUND")
  let buildingLinks ← query (.buildingLinks (.vendor vendorId) auth.organizationId)
  require (auth.role = .owner ∨ buildingLinks ≠ []) (.notFound "VENDOR_NOT_FOUND")
  BuildingAccessService.assertAllCanManage auth buildingLinks
  return (vendor, buildingLinks)

/-- The part of `update` after the version check. -/
def relink (auth : AuthContext) (vendorId : Id) (current requested : List Id) : Program Unit := do
  let removed := current.filter (· ∉ requested)
  let added := requested.filter (· ∉ current)
  whenever (removed ≠ []) do
    let referenced ← query (.findReference auth.organizationId vendorId removed)
    require (referenced = none) (.conflict "VENDOR_BUILDING_CONTRACT_CONFLICT")
  deleteLinks auth (.vendor vendorId) removed
  createLinks auth (.vendor vendorId) added

def update (cfg : Config) (auth : AuthContext) (vendorId : Id) (expectedVersion : Nat)
    (dto : UpdateVendorDto) : Program Vendor :=
  transaction do
    let (_, current) ← assertCanManageVendor auth vendorId
    let buildingIds := (givenList dto.buildingIds).map List.eraseDups
    BuildingAccessService.assertAllCanManage auth (buildingIds.getD [])
    require (¬ (auth.role = .administrator ∧ buildingIds = some []))
      (.conflict "AUTHORIZED_BUILDING_REQUIRED")
    match vendorEdit cfg dto with
    | .error failure => throw failure
    | .ok edit => do
        updateExpected auth (.vendor vendorId) expectedVersion edit
        match buildingIds with
        | none => pure ()
        | some requested => relink auth vendorId current requested
        let after ← query (.get (.vendor vendorId))
        let vendor ← orThrow after (.notFound "P2025")
        writeAudit auth "VENDOR_UPDATED" "VENDOR" vendorId
        return vendor

end VendorsService

namespace ContractsService

structure UpdateContractDto where
  vendorId : Field Id
  reference : Field Text
  title : Field Text
  serviceCategory : Field Text
  valueLimit : Field Cents
  currency : Field Text
  startsOn : Field Time
  endsOn : Field Time
  status : Field ContractStatus
  documentReference : Field Text
  buildingIds : Field (List Id)
  deriving DecidableEq, Repr

def valueFields (valueLimit : Option Cents) (currency : Option Text) :
    Except Failure (Option Cents × Option Text) :=
  if valueLimit.isSome ≠ currency.isSome then
    .error (.unprocessable "CONTRACT_VALUE_CURRENCY_REQUIRED")
  else .ok (valueLimit, currency)

/-- The limit and the currency are merged with those of the contract. -/
def contractEdit (dto : UpdateContractDto) (before : Contract) : Except Failure ContractEdit := do
  let value ← if dto.valueLimit.isPresent ∨ dto.currency.isPresent then
      (valueFields (dto.valueLimit.orElse before.valueLimit)
        (dto.currency.orElse before.currency)).map some
    else .ok none
  return { vendorId := ← required dto.vendorId
           reference := ← required dto.reference
           title := ← required dto.title
           serviceCategory := ← required dto.serviceCategory
           value := value
           startsOn := dto.startsOn.orElse none
           endsOn := dto.endsOn.orElse none
           status := ← required dto.status
           documentReference := dto.documentReference }

def assertVendorForBuildings (auth : AuthContext) (vendorId : Id) (buildingIds : List Id) :
    Program Unit := do
  let found ← query (.find (.vendor vendorId) auth.organizationId)
  let _ ← orThrow found (.notFound "VENDOR_NOT_FOUND")
  let vendorBuildings ← query (.buildingLinks (.vendor vendorId) auth.organizationId)
  require (∀ b ∈ buildingIds, b ∈ vendorBuildings) (.unprocessable "VENDOR_BUILDING_LINK_REQUIRED")

/-- `contractBuilding.deleteMany` on all links of the contract. -/
def unlink (auth : AuthContext) (contractId : Id) : Program Unit := do
  let links ← query (.buildingLinks (.contract contractId) auth.organizationId)
  deleteLinks auth (.contract contractId) links

def update (auth : AuthContext) (contractId : Id) (expectedVersion : Nat)
    (dto : UpdateContractDto) : Program Contract :=
  transaction do
    let found ← query (.find (.contract contractId) auth.organizationId)
    let before ← orThrow found (.notFound "CONTRACT_NOT_FOUND")
    let links ← query (.buildingLinks (.contract contractId) auth.organizationId)
    BuildingAccessService.assertAllCanManage auth links
    let buildingIds := (givenList dto.buildingIds).map List.eraseDups
    BuildingAccessService.assertAllCanManage auth (buildingIds.getD [])
    assertVendorForBuildings auth ((dto.vendorId.orElse none).getD before.vendorId)
      (buildingIds.getD links)
    match buildingIds with
    | none => pure ()
    | some _ => unlink auth contractId
    match contractEdit dto before with
    | .error failure => throw failure
    | .ok edit => do
        updateExpected auth (.contract contractId) expectedVersion edit
        createLinks auth (.contract contractId) (buildingIds.getD [])
        let after ← query (.get (.contract contractId))
        let contract ← orThrow after (.notFound "P2025")
        writeAudit auth "CONTRACT_UPDATED" "CONTRACT" contractId
        return contract

end ContractsService
end BlocTrust.Crm
