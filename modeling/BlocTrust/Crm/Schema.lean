import BlocTrust.Domain
import BlocTrust.ReadCommitted.Log

/-!
The tables of buildings, vendors and contracts.
A vendor and a contract own links to buildings; a link is keyed by its unique index, and `none`
is a link that has been deleted.  `buildingName` and `contractReference` are entries of unique
indexes, which a transaction that takes one keeps from others until it ends.
-/
namespace BlocTrust.Crm

open ReadCommitted

inductive VendorStatus
  | draft | active | suspended | archived
  deriving DecidableEq, Repr

inductive ContractStatus
  | draft | active | expired | terminated
  deriving DecidableEq, Repr

structure Building where
  organizationId : Id
  name : Text
  addressLine1 : Text
  addressLine2 : Option Text
  city : Text
  postalCode : Text
  countryCode : Text
  version : Nat
  deriving DecidableEq, Repr

structure Vendor where
  organizationId : Id
  legalName : Text
  tradingName : Option Text
  registrationNumber : Option Text
  taxId : Option Text
  email : Option Text
  phone : Option Text
  status : VendorStatus
  tags : List Text
  internalNotes : Option Text
  version : Nat
  deriving DecidableEq, Repr

structure Contract where
  organizationId : Id
  vendorId : Id
  reference : Text
  title : Text
  serviceCategory : Text
  valueLimit : Option Cents
  currency : Option Text
  startsOn : Time
  endsOn : Option Time
  status : ContractStatus
  documentReference : Option Text
  version : Nat
  deriving DecidableEq, Repr

structure MembershipBuildingAccess where
  organizationId : Id
  membershipId : Id
  buildingId : Id
  validFrom : Time
  validUntil : Option Time
  deriving DecidableEq, Repr

structure AuditEvent where
  organizationId : Id
  actorMembershipId : Id
  action : String
  entityType : String
  entityId : Id
  deriving DecidableEq, Repr

inductive Key
  | building (id : Id)
  | vendor (id : Id)
  | contract (id : Id)
  | vendorBuilding (vendorId buildingId : Id)
  | contractBuilding (contractId buildingId : Id)
  | access (id : Id)
  | audit (id : Id)
  | buildingName (organizationId : Id) (name : Text)
  | contractReference (organizationId : Id) (reference : Text)
  deriving DecidableEq, Repr

/-- A link is stored with its organization. -/
@[reducible] def Val : Key → Type
  | .building _ => Building
  | .vendor _ => Vendor
  | .contract _ => Contract
  | .vendorBuilding _ _ => Option Id
  | .contractBuilding _ _ => Option Id
  | .access _ => MembershipBuildingAccess
  | .audit _ => AuditEvent
  | .buildingName _ _ => Unit
  | .contractReference _ _ => Unit

abbrev Db := Log Val

namespace Db

def building (db : Db) (id : Id) : Option Building := Log.row (.building id) db
def vendor (db : Db) (id : Id) : Option Vendor := Log.row (.vendor id) db
def contract (db : Db) (id : Id) : Option Contract := Log.row (.contract id) db

/-- The organization of a link, if there is one. -/
def vendorBuilding (db : Db) (vendorId buildingId : Id) : Option Id :=
  (Log.row (.vendorBuilding vendorId buildingId) db).join
def contractBuilding (db : Db) (contractId buildingId : Id) : Option Id :=
  (Log.row (.contractBuilding contractId buildingId) db).join

def buildings (db : Db) : List (Id × Building) :=
  Log.table Key.building (fun | .building i => some i | _ => none) (fun _ v => v) db
def contracts (db : Db) : List (Id × Contract) :=
  Log.table Key.contract (fun | .contract i => some i | _ => none) (fun _ v => v) db
def accesses (db : Db) : List (Id × MembershipBuildingAccess) :=
  Log.table Key.access (fun | .access i => some i | _ => none) (fun _ v => v) db
def vendorBuildings (db : Db) : List ((Id × Id) × Option Id) :=
  Log.table (fun vb : Id × Id => Key.vendorBuilding vb.1 vb.2)
    (fun | .vendorBuilding v b => some (v, b) | _ => none) (fun _ o => o) db
def contractBuildings (db : Db) : List ((Id × Id) × Option Id) :=
  Log.table (fun cb : Id × Id => Key.contractBuilding cb.1 cb.2)
    (fun | .contractBuilding c b => some (c, b) | _ => none) (fun _ o => o) db

variable {db : Db}

theorem mem_vendorBuildings {v b : Id} {o : Option Id} :
    ((v, b), o) ∈ db.vendorBuildings ↔ Log.row (.vendorBuilding v b) db = some o := by
  simp [vendorBuildings, Log.mem_table]

theorem mem_contractBuildings {c b : Id} {o : Option Id} :
    ((c, b), o) ∈ db.contractBuildings ↔ Log.row (.contractBuilding c b) db = some o := by
  simp [contractBuildings, Log.mem_table]

theorem mem_accesses {id : Id} {a : MembershipBuildingAccess} :
    (id, a) ∈ db.accesses ↔ Log.row (.access id) db = some a := by
  simp [accesses, Log.mem_table]

end Db

/-- The entities that carry a version: buildings, vendors and contracts. -/
def Key.versioned : Key → Bool
  | building _ | vendor _ | contract _ => true
  | _ => false

/-- The column `version` of an entity. -/
def version : (k : Key) → Val k → Nat
  | .building _, b => b.version
  | .vendor _, v => v.version
  | .contract _, c => c.version
  | _, _ => 0

def organizationId : (k : Key) → Val k → Id
  | .building _, b => b.organizationId
  | .vendor _, v => v.organizationId
  | .contract _, c => c.organizationId
  | _, _ => 0

section Changes

/-- The columns that `BuildingsService.update` assigns; `none` keeps a required column. -/
structure BuildingEdit where
  name : Option Text
  addressLine1 : Option Text
  addressLine2 : Field Text
  city : Option Text
  postalCode : Option Text
  countryCode : Option Text
  deriving DecidableEq, Repr

def BuildingEdit.apply (e : BuildingEdit) (b : Building) : Building :=
  { b with
    name := e.name.getD b.name
    addressLine1 := e.addressLine1.getD b.addressLine1
    addressLine2 := e.addressLine2.overwrite b.addressLine2
    city := e.city.getD b.city
    postalCode := e.postalCode.getD b.postalCode
    countryCode := e.countryCode.getD b.countryCode
    version := b.version + 1 }

structure VendorEdit where
  legalName : Option Text
  tradingName : Field Text
  registrationNumber : Field Text
  taxId : Field Text
  email : Field Text
  phone : Field Text
  status : Option VendorStatus
  tags : Option (List Text)
  internalNotes : Field Text
  deriving DecidableEq, Repr

def VendorEdit.apply (e : VendorEdit) (v : Vendor) : Vendor :=
  { v with
    legalName := e.legalName.getD v.legalName
    tradingName := e.tradingName.overwrite v.tradingName
    registrationNumber := e.registrationNumber.overwrite v.registrationNumber
    taxId := e.taxId.overwrite v.taxId
    email := e.email.overwrite v.email
    phone := e.phone.overwrite v.phone
    status := e.status.getD v.status
    tags := e.tags.getD v.tags
    internalNotes := e.internalNotes.overwrite v.internalNotes
    version := v.version + 1 }

/-- `value` assigns `valueLimit` and `currency` together. -/
structure ContractEdit where
  vendorId : Option Id
  reference : Option Text
  title : Option Text
  serviceCategory : Option Text
  value : Option (Option Cents × Option Text)
  startsOn : Option Time
  endsOn : Option Time
  status : Option ContractStatus
  documentReference : Field Text
  deriving DecidableEq, Repr

def ContractEdit.apply (e : ContractEdit) (c : Contract) : Contract :=
  { c with
    vendorId := e.vendorId.getD c.vendorId
    reference := e.reference.getD c.reference
    title := e.title.getD c.title
    serviceCategory := e.serviceCategory.getD c.serviceCategory
    valueLimit := (e.value.map Prod.fst).getD c.valueLimit
    currency := (e.value.map Prod.snd).getD c.currency
    startsOn := e.startsOn.getD c.startsOn
    endsOn := e.endsOn.or c.endsOn
    status := e.status.getD c.status
    documentReference := e.documentReference.overwrite c.documentReference
    version := c.version + 1 }

@[reducible] def Change : Key → Type
  | .building _ => BuildingEdit
  | .vendor _ => VendorEdit
  | .contract _ => ContractEdit
  | _ => Empty

def apply : (k : Key) → Change k → Val k → Val k
  | .building _, e, b => e.apply b
  | .vendor _, e, v => e.apply v
  | .contract _, e, c => e.apply c
  | .vendorBuilding _ _, e, _ => e.elim
  | .contractBuilding _ _, e, _ => e.elim
  | .access _, e, _ => e.elim
  | .audit _, e, _ => e.elim
  | .buildingName _ _, e, _ => e.elim
  | .contractReference _ _, e, _ => e.elim

@[simp] theorem version_apply (k : Key) (c : Change k) (v : Val k) :
    version k (apply k c v) = version k v + 1 := by
  cases k with
  | building id => rfl
  | vendor id => rfl
  | contract id => rfl
  | _ => exact c.elim

end Changes
end BlocTrust.Crm
