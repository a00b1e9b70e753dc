import Mathlib.Data.List.Permutation
import BlocTrust.Crm.Schema
import BlocTrust.ReadCommitted.Machine

/-!
The statements of the CRM services and how the database answers them.
An `updateMany` on a versioned entity looks at the newest version of its row.  A `deleteMany` on
links is a read of the links in its snapshot followed by a delete of each, a `createMany` an
insert of each; the triggers of the migration run with the statement that fires them.
-/
namespace BlocTrust.Crm

open ReadCommitted

/-- What a request ends in: an HTTP error with its code, or an error of the database client. -/
inductive Failure
  | notFound (code : String)
  | forbidden (code : String)
  | conflict (code : String)
  | unprocessable (code : String)
  | validation
  | uniqueViolation
  | foreignKeyViolation
  | check (constraint : String)
  | raised (message : String)
  | unavailable (name : String)
  deriving DecidableEq, Repr

structure Config where
  toLowerCase : Text → Text

/-- `buildings` reads the link table of an entity in the organization; `find` is `findFirst`
with the organization, `get` is `findUnique`. -/
inductive Query
  | find (k : Key) (organizationId : Id)
  | get (k : Key)
  | buildingLinks (k : Key) (organizationId : Id)
  | findAccess (organizationId membershipId buildingId : Id) (now : Time)
  | findReference (organizationId vendorId : Id) (removed : List Id)
  deriving DecidableEq, Repr

@[reducible] def Query.Out : Query → Type
  | find k _ => Option (Val k)
  | get k => Option (Val k)
  | buildingLinks _ _ => List Id
  | findAccess _ _ _ _ => Option Id
  | findReference _ _ _ => Option Id

inductive Stmt
  | read (q : Query)
  | update (k : Key) (organizationId : Id) (version : Nat) (c : Change k)
  | deleteLink (k : Key) (organizationId buildingId : Id)
  | insertLink (k : Key) (organizationId buildingId : Id)
  | insertAudit (a : AuditEvent)
  | clock

/-- Updates and deletes answer with the number of rows that they changed. -/
@[reducible] def Out : Stmt → Type
  | .read q => q.Out
  | .update _ _ _ _ => Nat
  | .deleteLink _ _ _ => Nat
  | .insertLink _ _ _ => Unit
  | .insertAudit _ => Unit
  | .clock => Time

section Answers

/-- The buildings that the entity is linked to in the organization. -/
def buildingLinks (db : Db) (organizationId : Id) : Key → List Id
  | .vendor v => (db.vendorBuildings.filter fun ((v', _), o) =>
      v' = v ∧ o = some organizationId).map fun link => link.1.2
  | .contract c => (db.contractBuildings.filter fun ((c', _), o) =>
      c' = c ∧ o = some organizationId).map fun link => link.1.2
  | _ => []

/-- `findFirst` without an order: any of the candidates, none only when there is none. -/
def anyOf {α : Type} (choice : Nat) (candidates : List α) : Option (Option α) :=
  if candidates.isEmpty then some none else candidates[choice]?.map some

def answer (choice : Nat) (db : Db) : (q : Query) → Option q.Out
  | .find k org => some ((Log.row k db).filter fun row => organizationId k row = org)
  | .get k => some (Log.row k db)
  | .buildingLinks k org => (buildingLinks db org k).permutations[choice]?
  | .findAccess org membershipId buildingId now =>
      anyOf choice ((db.accesses.filter fun (_, a) =>
        a.organizationId = org ∧ a.membershipId = membershipId ∧ a.buildingId = buildingId ∧
          a.validFrom ≤ now ∧ a.validUntil.all (now < ·)).map Prod.fst)
  | .findReference org vendorId removed =>
      anyOf choice ((db.contractBuildings.filter fun ((c, b), o) =>
        o = some org ∧ b ∈ removed ∧
          (db.contract c).any fun contract => contract.vendorId = vendorId).map fun link => link.1.2)

end Answers

section Constraints

def isCode (n : Nat) (t : Text) : Bool :=
  t.length = n && t.all fun x => 65 ≤ x.toNat && x.toNat ≤ 90

def buildingChecks (b : Building) : Bool := isCode 2 b.countryCode && decide (0 < b.version)

def vendorChecks (v : Vendor) : Bool := 0 < v.version

/-- A check fails when its condition is false, and passes when it is `NULL`: as for a value limit
without a currency, or for a currency without a value limit. -/
def contractChecks (c : Contract) : Bool :=
  c.endsOn.all (c.startsOn ≤ ·) && c.currency.all (isCode 3) && decide (0 < c.version)

/-- `bloctrust_validate_contract_vendor_change`. -/
def validateContractVendorChange (db : Db) (id : Id) (old new : Contract) : Bool :=
  new.vendorId = old.vendorId ||
    db.contractBuildings.all fun ((c, b), o) =>
      !(c = id ∧ o = some new.organizationId) ||
        db.vendorBuilding new.vendorId b = some new.organizationId

/-- `bloctrust_validate_contract_vendor_building`. -/
def validateContractVendorBuilding (db : Db) (contractId organizationId buildingId : Id) : Bool :=
  (db.contract contractId).any fun c => c.organizationId = organizationId ∧
    db.vendorBuilding c.vendorId buildingId = some organizationId

/-- `bloctrust_protect_vendor_building_contract`, which refuses when this holds. -/
def vendorBuildingReferenced (db : Db) (vendorId organizationId buildingId : Id) : Bool :=
  db.contractBuildings.any fun ((c, b), o) =>
    o = some organizationId ∧ b = buildingId ∧
      (db.contract c).any fun contract => contract.organizationId = organizationId ∧
        contract.vendorId = vendorId

/-- The entries of unique indexes that the new version takes. -/
def admitUpdate (db : Db) : (k : Key) → Change k → Val k → Val k → Except Failure Db
  | .building id, _, old, new =>
      if buildingChecks new = false then .error (.check "Building_check")
      else if new.name = old.name then .ok []
      else if db.buildings.any fun (i, b) =>
          i ≠ id ∧ b.organizationId = new.organizationId ∧ b.name = new.name then
        .error .uniqueViolation
      else .ok [⟨.buildingName new.organizationId new.name, ()⟩]
  | .vendor _, _, _, new =>
      if vendorChecks new = false then .error (.check "Vendor_version_check") else .ok []
  | .contract id, _, old, new =>
      if validateContractVendorChange db id old new = false then
        .error (.raised "contract vendor is not authorized for every building")
      else if contractChecks new = false then .error (.check "Contract_check")
      else if new.vendorId ≠ old.vendorId ∧ (db.vendor new.vendorId).all fun v =>
          v.organizationId ≠ new.organizationId then
        .error .foreignKeyViolation
      else if new.reference = old.reference then .ok []
      else if db.contracts.any fun (i, c) =>
          i ≠ id ∧ c.organizationId = new.organizationId ∧ c.reference = new.reference then
        .error .uniqueViolation
      else .ok [⟨.contractReference new.organizationId new.reference, ()⟩]
  | _, _, _, _ => .ok []

def updateRow (db : Db) (k : Key) (org expected : Nat) (c : Change k) : Except Failure (Nat × Db) :=
  match Log.row k db with
  | none => .ok (0, [])
  | some old =>
      if organizationId k old = org ∧ version k old = expected then
        (admitUpdate db k c old (apply k c old)).map fun entries =>
          (1, ⟨k, apply k c old⟩ :: entries)
      else .ok (0, [])

def deleteLink (db : Db) (org buildingId : Id) : Key → Except Failure (Nat × Db)
  | .vendor v =>
      if db.vendorBuilding v buildingId = some org then
        if vendorBuildingReferenced db v org buildingId then
          .error (.raised "vendor building link is referenced by a contract")
        else .ok (1, [⟨.vendorBuilding v buildingId, none⟩])
      else .ok (0, [])
  | .contract c =>
      if db.contractBuilding c buildingId = some org then
        .ok (1, [⟨.contractBuilding c buildingId, none⟩])
      else .ok (0, [])
  | _ => .ok (0, [])

def buildingIn (db : Db) (org buildingId : Id) : Bool :=
  (db.building buildingId).any fun b => b.organizationId = org

def insertLink (db : Db) (org buildingId : Id) : Key → Except Failure (Unit × Db)
  | .vendor v =>
      if (db.vendorBuilding v buildingId).isSome then .error .uniqueViolation
      else if buildingIn db org buildingId ∧ (db.vendor v).any fun v => v.organizationId = org then
        .ok ((), [⟨.vendorBuilding v buildingId, some org⟩])
      else .error .foreignKeyViolation
  | .contract c =>
      if validateContractVendorBuilding db c org buildingId = false then
        .error (.raised "contract vendor is not authorized for building")
      else if (db.contractBuilding c buildingId).isSome then .error .uniqueViolation
      else if buildingIn db org buildingId then
        .ok ((), [⟨.contractBuilding c buildingId, some org⟩])
      else .error .foreignKeyViolation
  | _ => .error .foreignKeyViolation

end Constraints

def engine : Engine Val Out Failure
  | .read q, choice, db => (answer choice db q).map fun out => .ok (out, [])
  | .update k org expected c, _, db => some (updateRow db k org expected c)
  | .deleteLink k org buildingId, _, db => some (deleteLink db org buildingId k)
  | .insertLink k org buildingId, _, db => some (insertLink db org buildingId k)
  | .insertAudit a, choice, db =>
      if Key.audit choice ∈ db.keys then some (.error .uniqueViolation)
      else some (.ok ((), [⟨.audit choice, a⟩]))
  | .clock, choice, _ => some (.ok (choice, []))

end BlocTrust.Crm
