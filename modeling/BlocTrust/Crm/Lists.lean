import BlocTrust.Crm.Services
import BlocTrust.Paging

/-!
The lists of vendors, contracts, buildings and audit events.
Each of them is a listing: its scope is what the caller may read, its filter the query, and its
order a column and then the identifier.  `collate` compares texts as the database does and
`containsInsensitive` is `contains` with mode `insensitive`; both are parameters.
-/
namespace BlocTrust.Crm

open Paging

/-- An audit event with the columns by which it is listed. -/
structure ListedEvent where
  organizationId : Id
  entityType : Text
  entityId : Id
  createdAt : Time
  deriving DecidableEq, Repr

structure Occupancy where
  organizationId : Id
  apartmentId : Id
  membershipId : Id
  startsOn : Time
  endsOn : Option Time
  deriving DecidableEq, Repr

/-- The tables that are read, as they stand.  Identifiers are primary keys. -/
structure Tables where
  vendors : List (Id × Vendor)
  contracts : List (Id × Contract)
  buildings : List (Id × Building)
  auditEvents : List (Id × ListedEvent)
  accesses : List MembershipBuildingAccess
  vendorBuildings : List (Id × Id)
  contractBuildings : List (Id × Id)
  apartments : List (Id × Id)
  occupancies : List Occupancy
  vendorIds : (vendors.map Prod.fst).Nodup
  contractIds : (contracts.map Prod.fst).Nodup
  buildingIds : (buildings.map Prod.fst).Nodup
  eventIds : (auditEvents.map Prod.fst).Nodup

structure Database where
  collate : Text → Text → Ordering
  containsInsensitive : Text → Text → Bool

structure PageQueryDto where
  q : Option Text
  cursor : Option Id
  limit : Nat
  deriving DecidableEq, Repr

structure VendorPageQueryDto extends PageQueryDto where
  status : Option VendorStatus
  buildingId : Option Id
  deriving DecidableEq, Repr

structure ContractPageQueryDto extends PageQueryDto where
  status : Option ContractStatus
  buildingId : Option Id
  vendorId : Option Id
  deriving DecidableEq, Repr

structure AuditPageQueryDto extends PageQueryDto where
  entityType : Option Text
  entityId : Option Id
  deriving DecidableEq, Repr

section Scopes

variable (t : Tables) (auth : AuthContext) (now : Time)

def readsAll : Bool := auth.role == .owner || auth.role == .auditor

def MembershipBuildingAccess.isValid (a : MembershipBuildingAccess) (now : Time) : Bool :=
  decide (a.validFrom ≤ now) && a.validUntil.all fun validUntil => decide (now < validUntil)

/-- The buildings that the caller has been granted. -/
def grants : List Id :=
  (t.accesses.filter fun a => decide (a.organizationId = auth.organizationId) &&
    decide (a.membershipId = auth.membershipId) && a.isValid now).map (·.buildingId)

def vendorScope (vendorId : Id) : Bool :=
  readsAll auth || t.vendorBuildings.any fun link =>
    decide (link.1 = vendorId) && (grants t auth now).contains link.2

def contractScope (contractId : Id) : Bool :=
  readsAll auth || t.contractBuildings.any fun link =>
    decide (link.1 = contractId) && (grants t auth now).contains link.2

/-- A grant, or an occupancy of one of the apartments whatever its dates. -/
def accessWhere (buildingId : Id) : Bool :=
  readsAll auth ||
    (t.accesses.any fun a => decide (a.buildingId = buildingId) &&
      decide (a.membershipId = auth.membershipId) && a.isValid now) ||
    t.apartments.any fun apartment => decide (apartment.2 = buildingId) &&
      t.occupancies.any fun o => decide (o.apartmentId = apartment.1) &&
        decide (o.membershipId = auth.membershipId)

end Scopes

section Orders

/-- Ascending, the null last. -/
def compareNullable : Option Time → Option Time → Ordering
  | some a, some b => compare a b
  | some _, none => .lt
  | none, some _ => .gt
  | none, none => .eq

theorem rowOrder_compareNullable : RowOrder compareNullable where
  swap a b := by
    cases a <;> cases b <;> first | rfl | exact rowOrder_compare.swap _ _
  trans a b c hab hbc := by
    cases a with
    | none =>
        cases b with
        | none => exact hbc
        | some b => exact absurd rfl hab
    | some a =>
        cases c with
        | none => exact fun h => by cases h
        | some c =>
            cases b with
            | none => exact absurd rfl hbc
            | some b => exact rowOrder_compare.trans a b c hab hbc

end Orders

variable (d : Database) (t : Tables) (auth : AuthContext)

/-- The search text, when it is given and not empty. -/
def matchesText (q : Option Text) (columns : List (Option Text)) : Bool :=
  match q with
  | none | some [] => true
  | some (c :: cs) => columns.any fun column =>
      column.any fun value => d.containsInsensitive value (c :: cs)

def compareIds (i j : Id) : Ordering := compare i j

namespace VendorsService

def listing (query : VendorPageQueryDto) (now : Time) : Listing (Id × Vendor) Id where
  rows := t.vendors
  id := Prod.fst
  order v w := (d.collate v.2.legalName w.2.legalName).then (compareIds v.1 w.1)
  scope v := decide (v.2.organizationId = auth.organizationId) && vendorScope t auth now v.1
  filter v :=
    (matchesText d query.q [some v.2.legalName, v.2.tradingName, v.2.registrationNumber] ||
      query.q.any v.2.tags.contains) &&
    query.status.all (fun status => decide (v.2.status = status)) &&
    query.buildingId.all fun buildingId => t.vendorBuildings.contains (v.1, buildingId)

/-- `none` is `CURSOR_NOT_FOUND`. -/
def list (query : VendorPageQueryDto) (now : Time) : Option (Page (Id × Vendor) Id) :=
  (listing d t auth query now).list query.limit query.cursor

end VendorsService

namespace ContractsService

def vendorName (vendorId : Id) : Option Text :=
  (t.vendors.find? fun v => decide (v.1 = vendorId)).map (·.2.legalName)

def listing (query : ContractPageQueryDto) (now : Time) : Listing (Id × Contract) Id where
  rows := t.contracts
  id := Prod.fst
  order c e := (compareNullable c.2.endsOn e.2.endsOn).then (compareIds c.1 e.1)
  scope c := decide (c.2.organizationId = auth.organizationId) && contractScope t auth now c.1
  filter c :=
    matchesText d query.q [some c.2.reference, some c.2.title, some c.2.serviceCategory,
      vendorName t c.2.vendorId] &&
    query.status.all (fun status => decide (c.2.status = status)) &&
    query.vendorId.all (fun vendorId => decide (c.2.vendorId = vendorId)) &&
    query.buildingId.all fun buildingId => t.contractBuildings.contains (c.1, buildingId)

def list (query : ContractPageQueryDto) (now : Time) : Option (Page (Id × Contract) Id) :=
  (listing d t auth query now).list query.limit query.cursor

end ContractsService

namespace BuildingsService

def listing (query : PageQueryDto) (now : Time) : Listing (Id × Building) Id where
  rows := t.buildings
  id := Prod.fst
  order b c := (d.collate b.2.name c.2.name).then (compareIds b.1 c.1)
  scope b := decide (b.2.organizationId = auth.organizationId) && accessWhere t auth now b.1
  filter b := matchesText d query.q [some b.2.name, some b.2.addressLine1, some b.2.city]

def list (query : PageQueryDto) (now : Time) : Option (Page (Id × Building) Id) :=
  (listing d t auth query now).list query.limit query.cursor

end BuildingsService

namespace DashboardService

def listing (query : AuditPageQueryDto) : Listing (Id × ListedEvent) Id where
  rows := t.auditEvents
  id := Prod.fst
  order e f := (compareIds f.2.createdAt e.2.createdAt).then (compareIds f.1 e.1)
  scope e := decide (e.2.organizationId = auth.organizationId)
  filter e :=
    query.entityType.all (fun entityType => decide (entityType = []) ||
      decide (e.2.entityType = entityType)) &&
    query.entityId.all fun entityId => decide (e.2.entityId = entityId)

def audit (query : AuditPageQueryDto) : Option (Page (Id × ListedEvent) Id) :=
  (listing t auth query).list query.limit query.cursor

end DashboardService

section Lawful

variable {d t auth}

theorem rowOrder_withId {α : Type} {column : Id × α → Id × α → Ordering} (h : RowOrder column) :
    RowOrder fun a b => (column a b).then (compareIds a.1 b.1) :=
  h.then (rowOrder_compare.comap Prod.fst)

theorem ids_of_eq {o : Ordering} {i j : Id} (h : o.then (compareIds i j) = .eq) : i = j := by
  cases o with
  | lt => cases h
  | eq => exact Nat.compare_eq_eq.mp h
  | gt => cases h

theorem vendors_lawful (hc : RowOrder d.collate) (query : VendorPageQueryDto) (now : Time) :
    (VendorsService.listing d t auth query now).Lawful :=
  ⟨t.vendorIds, rowOrder_withId (hc.comap fun v : Id × Vendor => v.2.legalName),
    fun _ _ h => ids_of_eq h⟩

theorem contracts_lawful (query : ContractPageQueryDto) (now : Time) :
    (ContractsService.listing d t auth query now).Lawful :=
  ⟨t.contractIds, rowOrder_withId (rowOrder_compareNullable.comap fun c : Id × Contract => c.2.endsOn),
    fun _ _ h => ids_of_eq h⟩

theorem buildings_lawful (hc : RowOrder d.collate) (query : PageQueryDto) (now : Time) :
    (BuildingsService.listing d t auth query now).Lawful :=
  ⟨t.buildingIds, rowOrder_withId (hc.comap fun b : Id × Building => b.2.name),
    fun _ _ h => ids_of_eq h⟩

theorem audit_lawful (query : AuditPageQueryDto) :
    (DashboardService.listing t auth query).Lawful :=
  ⟨t.eventIds, ((rowOrder_compare.comap fun e : Id × ListedEvent => e.2.createdAt).then
    (rowOrder_compare.comap Prod.fst)).reverse, fun _ _ h => (ids_of_eq h).symm⟩

end Lawful

section Steady

variable {d t auth}

/-- No grant of the caller begins or ends between two instants. -/
def Steady (t : Tables) (auth : AuthContext) (now now' : Time) : Prop :=
  ∀ a ∈ t.accesses, a.membershipId = auth.membershipId → a.isValid now = a.isValid now'

variable {now now' : Time}

theorem Steady.grants (h : Steady t auth now now') : grants t auth now = grants t auth now' := by
  unfold Crm.grants
  congr 1
  refine List.filter_congr fun a ha => ?_
  by_cases hmember : a.membershipId = auth.membershipId
  · rw [h a ha hmember]
  · simp [hmember]

theorem Steady.accessWhere (h : Steady t auth now now') :
    accessWhere t auth now = accessWhere t auth now' := by
  funext buildingId
  unfold Crm.accessWhere
  congr 2
  rw [Bool.eq_iff_iff, List.any_eq_true, List.any_eq_true]
  refine exists_congr fun a => and_congr_right fun ha => ?_
  by_cases hmember : a.membershipId = auth.membershipId
  · rw [h a ha hmember]
  · simp [hmember]

theorem Steady.vendors (h : Steady t auth now now') (query : VendorPageQueryDto) :
    VendorsService.listing d t auth query now = VendorsService.listing d t auth query now' := by
  unfold VendorsService.listing vendorScope
  rw [h.grants]

theorem Steady.contracts (h : Steady t auth now now') (query : ContractPageQueryDto) :
    ContractsService.listing d t auth query now = ContractsService.listing d t auth query now' := by
  unfold ContractsService.listing contractScope
  rw [h.grants]

theorem Steady.buildings (h : Steady t auth now now') (query : PageQueryDto) :
    BuildingsService.listing d t auth query now = BuildingsService.listing d t auth query now' := by
  unfold BuildingsService.listing
  rw [h.accessWhere]

end Steady

section Pagination

/-- Following the cursors ends without a failure and returns the rows of the listing in their
order, each once, in pages that are full except the last. -/
def ReturnsAll {α ι : Type} (L : Listing α ι) (limit : Nat)
    (call : Nat → Option ι → Option (Page α ι)) : Prop :=
  ∃ pages, traverse call (L.matching.length + 1) 0 none = some pages ∧
    pages.flatMap (·.data) = L.matching ∧ (∀ p ∈ pages.dropLast, p.data.length = limit) ∧
    L.matching.Perm (L.rows.filter fun r => L.scope r && L.filter r) ∧
    L.matching.Pairwise fun a b => L.order a b = .lt

theorem returnsAll {α ι : Type} [DecidableEq ι] {L : Listing α ι} (h : L.Lawful) {limit : Nat}
    (hlimit : 0 < limit) {call : Nat → Option ι → Option (Page α ι)}
    (hcall : ∀ n c, call n c = L.list limit c) : ReturnsAll L limit call := by
  obtain ⟨pages, hpages, hdata, hfull⟩ := traverse_spec h hlimit hcall
  exact ⟨pages, hpages, hdata, hfull, matching_perm, matching_sorted h⟩

/-- Every list returns its rows exactly once; the calls may be made at different instants, as long
as the grants of the caller stay what they are. -/
theorem lists_return_all (hc : RowOrder d.collate) (now : Nat → Time)
    (hsteady : ∀ n, Steady t auth (now n) (now 0)) :
    (∀ query : VendorPageQueryDto, 1 ≤ query.limit → query.limit ≤ 50 →
      ReturnsAll (VendorsService.listing d t auth query (now 0)) query.limit
        fun n cursor => VendorsService.list d t auth { query with cursor := cursor } (now n)) ∧
    (∀ query : ContractPageQueryDto, 1 ≤ query.limit → query.limit ≤ 50 →
      ReturnsAll (ContractsService.listing d t auth query (now 0)) query.limit
        fun n cursor => ContractsService.list d t auth { query with cursor := cursor } (now n)) ∧
    (∀ query : PageQueryDto, 1 ≤ query.limit → query.limit ≤ 50 →
      ReturnsAll (BuildingsService.listing d t auth query (now 0)) query.limit
        fun n cursor => BuildingsService.list d t auth { query with cursor := cursor } (now n)) ∧
    ∀ query : AuditPageQueryDto, 1 ≤ query.limit → query.limit ≤ 50 →
      ReturnsAll (DashboardService.listing t auth query) query.limit
        fun _ cursor => DashboardService.audit t auth { query with cursor := cursor } := by
  refine ⟨?_, ?_, ?_, ?_⟩
  · intro query hlimit _
    refine returnsAll (vendors_lawful hc query (now 0)) hlimit fun n cursor => ?_
    rw [← (hsteady n).vendors query]
    rfl
  · intro query hlimit _
    refine returnsAll (contracts_lawful query (now 0)) hlimit fun n cursor => ?_
    rw [← (hsteady n).contracts query]
    rfl
  · intro query hlimit _
    refine returnsAll (buildings_lawful hc query (now 0)) hlimit fun n cursor => ?_
    rw [← (hsteady n).buildings query]
    rfl
  · intro query hlimit _
    exact returnsAll (audit_lawful query) hlimit fun n cursor => rfl

end Pagination

section Sample

/-- Two events of one organization. -/
def sampleTables : Tables where
  vendors := []
  contracts := []
  buildings := []
  auditEvents := [(1, ⟨1, [], 1, 5⟩), (2, ⟨1, [], 1, 5⟩)]
  accesses := []
  vendorBuildings := []
  contractBuildings := []
  apartments := []
  occupancies := []
  vendorIds := List.nodup_nil
  contractIds := List.nodup_nil
  buildingIds := List.nodup_nil
  eventIds := by decide

def sampleDatabase : Database where
  collate a b := compare a.length b.length
  containsInsensitive _ _ := true

/-- Pages of one event each. -/
theorem lists_return_all_sample :
    ReturnsAll (DashboardService.listing sampleTables ⟨1, 1, .owner⟩ ⟨⟨none, none, 1⟩, none, none⟩) 1
      fun _ cursor => DashboardService.audit sampleTables ⟨1, 1, .owner⟩
        ⟨⟨none, cursor, 1⟩, none, none⟩ :=
  (lists_return_all sampleDatabase sampleTables ⟨1, 1, .owner⟩
    (rowOrder_compare.comap List.length) (fun _ => 0) fun _ _ _ _ => rfl).2.2.2
      ⟨⟨none, none, 1⟩, none, none⟩ (by decide) (by decide)

end Sample

end BlocTrust.Crm
