import BlocTrust.Crm.Guarantees
import BlocTrust.ReadCommitted.Extend

/-!
New buildings, vendors and contracts beside the updates.
A creation inserts its row under an identifier that has not been used, and then the links of the row
one by one; the triggers of the migration run with each of these statements.
-/
namespace BlocTrust.Crm

open ReadCommitted Prog

/-- `create` of one row; the answer is the identifier of the row. -/
inductive Creation
  | building (b : Building)
  | vendor (v : Vendor)
  | contract (c : Contract)

section Statements

def Creation.key (id : Id) : Creation → Key
  | building _ => .building id
  | vendor _ => .vendor id
  | contract _ => .contract id

/-- The row and the entry of a unique index that comes with it. -/
def createRow (db : Db) (id : Id) : Creation → Except Failure Db
  | .building b =>
      if buildingChecks b = false then .error (.check "Building_check")
      else if db.buildings.any fun (_, b') =>
          b'.organizationId = b.organizationId ∧ b'.name = b.name then .error .uniqueViolation
      else .ok [⟨.building id, b⟩, ⟨.buildingName b.organizationId b.name, ()⟩]
  | .vendor v =>
      if vendorChecks v = false then .error (.check "Vendor_version_check")
      else .ok [⟨.vendor id, v⟩]
  | .contract c =>
      if contractChecks c = false then .error (.check "Contract_check")
      else if db.contracts.any fun (_, c') =>
          c'.organizationId = c.organizationId ∧ c'.reference = c.reference then
        .error .uniqueViolation
      else if (db.vendor c.vendorId).all fun v => v.organizationId ≠ c.organizationId then
        .error .foreignKeyViolation
      else .ok [⟨.contract id, c⟩, ⟨.contractReference c.organizationId c.reference, ()⟩]

/-- The identifier of a new row is the choice. -/
def createEngine : Engine Val (fun _ : Creation => Id) Failure
  | x, id, db =>
      if x.key id ∈ db.keys then some (.error .uniqueViolation)
      else some ((createRow db id x).map fun rows => (id, rows))

abbrev RecordOut : Stmt ⊕ Creation → Type := Both Out fun _ => Id

abbrev RecordProgram := Prog RecordOut Failure

def insertRow (x : Creation) : RecordProgram Id := @sql (Stmt ⊕ Creation) RecordOut Failure (.inr x)

end Statements

namespace BuildingsService

structure CreateBuildingDto where
  name : Text
  addressLine1 : Text
  addressLine2 : Option Text
  city : Text
  postalCode : Text
  countryCode : Text
  deriving DecidableEq, Repr

def create (auth : AuthContext) (dto : CreateBuildingDto) : RecordProgram Id :=
  transaction (insertRow (.building
    { organizationId := auth.organizationId
      name := dto.name
      addressLine1 := dto.addressLine1
      addressLine2 := dto.addressLine2
      city := dto.city
      postalCode := dto.postalCode
      countryCode := dto.countryCode
      version := 1 }))

end BuildingsService

namespace VendorsService

/-- `status` is not nullable, and has a default. -/
structure CreateVendorDto where
  legalName : Text
  tradingName : Option Text
  registrationNumber : Option Text
  taxId : Option Text
  email : Option Text
  phone : Option Text
  status : Field VendorStatus
  tags : Option (List Text)
  internalNotes : Option Text
  buildingIds : Option (List Id)
  deriving DecidableEq, Repr

def newVendor (cfg : Config) (auth : AuthContext) (dto : CreateVendorDto) :
    Except Failure Vendor := do
  return { organizationId := auth.organizationId
           legalName := dto.legalName
           tradingName := dto.tradingName
           registrationNumber := dto.registrationNumber
           taxId := dto.taxId
           email := dto.email
           phone := dto.phone
           status := (← required dto.status).getD .draft
           tags := tags cfg (dto.tags.getD [])
           internalNotes := dto.internalNotes
           version := 1 }

def create (cfg : Config) (auth : AuthContext) (dto : CreateVendorDto) : RecordProgram Id :=
  transaction do
    let buildingIds := (dto.buildingIds.getD []).eraseDups
    (BuildingAccessService.assertAllCanManage auth buildingIds).extend _
    require (¬ (auth.role = .administrator ∧ buildingIds = []))
      (.conflict "AUTHORIZED_BUILDING_REQUIRED")
    match newVendor cfg auth dto with
    | .error failure => throw failure
    | .ok vendor => do
        let id ← insertRow (.vendor vendor)
        (createLinks auth (.vendor id) buildingIds).extend _
        (writeAudit auth "VENDOR_CREATED" "VENDOR" id).extend _
        return id

end VendorsService

namespace ContractsService

structure CreateContractDto where
  vendorId : Id
  reference : Text
  title : Text
  serviceCategory : Text
  valueLimit : Option Cents
  currency : Option Text
  startsOn : Time
  endsOn : Option Time
  status : Field ContractStatus
  documentReference : Option Text
  buildingIds : List Id
  deriving DecidableEq, Repr

def newContract (auth : AuthContext) (dto : CreateContractDto) : Except Failure Contract := do
  let (valueLimit, currency) ← valueFields dto.valueLimit dto.currency
  return { organizationId := auth.organizationId
           vendorId := dto.vendorId
           reference := dto.reference
           title := dto.title
           serviceCategory := dto.serviceCategory
           valueLimit := valueLimit
           currency := currency
           startsOn := dto.startsOn
           endsOn := dto.endsOn
           status := (← required dto.status).getD .draft
           documentReference := dto.documentReference
           version := 1 }

def create (auth : AuthContext) (dto : CreateContractDto) : RecordProgram Id :=
  transaction do
    let buildingIds := dto.buildingIds.eraseDups
    (BuildingAccessService.assertAllCanManage auth buildingIds).extend _
    (assertVendorForBuildings auth dto.vendorId buildingIds).extend _
    match newContract auth dto with
    | .error failure => throw failure
    | .ok contract => do
        let id ← insertRow (.contract contract)
        (createLinks auth (.contract id) buildingIds).extend _
        (writeAudit auth "CONTRACT_CREATED" "CONTRACT" id).extend _
        return id

end ContractsService

section System

inductive RecordOp
  | update (op : Op)
  | createBuilding (auth : AuthContext) (dto : BuildingsService.CreateBuildingDto)
  | createVendor (auth : AuthContext) (dto : VendorsService.CreateVendorDto)
  | createContract (auth : AuthContext) (dto : ContractsService.CreateContractDto)

inductive RecordResponse
  | updated (r : Response)
  | created (id : Id)

def recordProgram (cfg : Config) : RecordOp → RecordProgram RecordResponse
  | .update op => (program cfg op).extend _ >>= fun r => pure (.updated r)
  | .createBuilding auth dto => BuildingsService.create auth dto >>= fun id => pure (.created id)
  | .createVendor auth dto => VendorsService.create cfg auth dto >>= fun id => pure (.created id)
  | .createContract auth dto => ContractsService.create auth dto >>= fun id => pure (.created id)

def recordMachine (cfg : Config) : Machine Val RecordOut Failure RecordResponse RecordOp where
  engine := engine.both createEngine
  program := recordProgram cfg
  external _ rows := ∀ s ∈ rows, outside s.1 = true

abbrev RecordProcess := Proc Val RecordOut Failure RecordResponse RecordOp
abbrev RecordSystem := Sys Val RecordOut Failure RecordResponse RecordOp
abbrev RecordAction := Action Val Failure RecordOp

/-- Runs of any kind. -/
def overlapping (_ : RecordSystem) (_ : RecordAction) : Prop := True

def overlaps (_ : RecordSystem) (_ : RecordAction) : Bool := true

end System
end BlocTrust.Crm
