import BlocTrust.Crm.Lists

/-!
The list of buildings beside the check that admits a reader to one of them.
`assertCanRead` asks for a grant or an occupancy that is valid now, the filter of the list for a
grant that is valid now or for any occupancy.  They agree exactly when nobody is let into the list
by occupancies outside their dates alone.
-/
namespace BlocTrust.Crm

open Paging

/-- `today` is the present as it is compared with a column of dates. -/
def Occupancy.isCurrent (o : Occupancy) (today : Time) : Bool :=
  decide (o.startsOn ≤ today) && o.endsOn.all fun endsOn => decide (today ≤ endsOn)

/-- Tables whose grants and occupancies are those of the organization of the building, as their
foreign keys demand. -/
structure LinkedTables extends Tables where
  accessesLinked : ∀ a ∈ accesses, ∀ b ∈ buildings, b.1 = a.buildingId →
    b.2.organizationId = a.organizationId
  occupanciesLinked : ∀ o ∈ occupancies, ∀ apartment ∈ apartments, apartment.1 = o.apartmentId →
    ∀ b ∈ buildings, b.1 = apartment.2 → b.2.organizationId = o.organizationId

section Access

variable (t : Tables) (auth : AuthContext) (now today : Time) (buildingId : Id)

/-- The caller's occupancy of an apartment in the building. -/
def occupies (o : Occupancy) : Bool :=
  decide (o.membershipId = auth.membershipId) &&
    t.apartments.any fun apartment => decide (apartment.1 = o.apartmentId) &&
      decide (apartment.2 = buildingId)

def findGrant : Option MembershipBuildingAccess :=
  t.accesses.find? fun a => decide (a.organizationId = auth.organizationId) &&
    decide (a.buildingId = buildingId) && decide (a.membershipId = auth.membershipId) &&
    a.isValid now

def findOccupancy : Option Occupancy :=
  t.occupancies.find? fun o => decide (o.organizationId = auth.organizationId) &&
    occupies t auth buildingId o && o.isCurrent today

/-- `BuildingAccessService.assertCanRead` -/
def assertCanRead : Except Failure Unit :=
  if readsAll auth then .ok ()
  else if (findGrant t auth now buildingId).isSome then .ok ()
  else if (findOccupancy t auth today buildingId).isSome then .ok ()
  else .error (.notFound "BUILDING_NOT_FOUND")

end Access

section Agreement

variable (d : Database) (t : LinkedTables) (auth : AuthContext) (now today : Time)

def Granted (buildingId : Id) : Prop :=
  ∃ a ∈ t.accesses, a.buildingId = buildingId ∧ a.membershipId = auth.membershipId ∧
    a.isValid now = true

def Occupied (buildingId : Id) : Prop :=
  ∃ o ∈ t.occupancies, occupies t.toTables auth buildingId o = true

def OccupiedNow (buildingId : Id) : Prop :=
  ∃ o ∈ t.occupancies, occupies t.toTables auth buildingId o = true ∧ o.isCurrent today = true

/-- All pages of the list without a search text contain the buildings that the caller may read. -/
def ListsWhatIsRead (limit : Nat) : Prop :=
  ∃ pages, traverse
      (fun _ cursor => BuildingsService.list d t.toTables auth ⟨none, cursor, limit⟩ now)
      (t.buildings.length + 1) 0 none = some pages ∧
    ∀ b ∈ t.buildings, b.2.organizationId = auth.organizationId →
      (b ∈ pages.flatMap (·.data) ↔ assertCanRead t.toTables auth now today b.1 = .ok ())

variable {d t auth now today}

theorem accessWhere_iff (buildingId : Id) : accessWhere t.toTables auth now buildingId = true ↔
    readsAll auth = true ∨ Granted t auth now buildingId ∨ Occupied t auth buildingId := by
  unfold accessWhere Granted Occupied occupies
  simp only [Bool.or_eq_true, List.any_eq_true, Bool.and_eq_true, decide_eq_true_eq]
  constructor
  · rintro ((hall | ⟨a, ha, ⟨hb, hm⟩, hv⟩) | ⟨apartment, hapartment, hb, o, ho, ha, hm⟩)
    · exact .inl hall
    · exact .inr (.inl ⟨a, ha, hb, hm, hv⟩)
    · exact .inr (.inr ⟨o, ho, hm, apartment, hapartment, ha.symm, hb⟩)
  · rintro (hall | ⟨a, ha, hb, hm, hv⟩ | ⟨o, ho, hm, apartment, hapartment, ha, hb⟩)
    · exact .inl (.inl hall)
    · exact .inl (.inr ⟨a, ha, ⟨hb, hm⟩, hv⟩)
    · exact .inr ⟨apartment, hapartment, hb, o, ho, ha.symm, hm⟩

/-- The organization of a grant or of an occupancy need not be asked for. -/
theorem assertCanRead_iff {b : Id × Building} (hb : b ∈ t.buildings)
    (horg : b.2.organizationId = auth.organizationId) :
    assertCanRead t.toTables auth now today b.1 = .ok () ↔
      readsAll auth = true ∨ Granted t auth now b.1 ∨ OccupiedNow t auth today b.1 := by
  have hgrant : (findGrant t.toTables auth now b.1).isSome = true ↔ Granted t auth now b.1 := by
    unfold findGrant Granted
    rw [List.find?_isSome]
    simp only [Bool.and_eq_true, decide_eq_true_eq]
    constructor
    · rintro ⟨a, ha, ⟨⟨-, hbuilding⟩, hm⟩, hv⟩
      exact ⟨a, ha, hbuilding, hm, hv⟩
    · rintro ⟨a, ha, hbuilding, hm, hv⟩
      have hlinked := t.accessesLinked a ha b hb hbuilding.symm
      exact ⟨a, ha, ⟨⟨hlinked.symm.trans horg, hbuilding⟩, hm⟩, hv⟩
  have hoccupancy : (findOccupancy t.toTables auth today b.1).isSome = true ↔
      OccupiedNow t auth today b.1 := by
    unfold findOccupancy OccupiedNow
    rw [List.find?_isSome]
    simp only [Bool.and_eq_true, decide_eq_true_eq]
    constructor
    · rintro ⟨o, ho, ⟨-, hoccupies⟩, hcurrent⟩
      exact ⟨o, ho, hoccupies, hcurrent⟩
    · rintro ⟨o, ho, hoccupies, hcurrent⟩
      have hlinked : b.2.organizationId = o.organizationId := by
        unfold occupies at hoccupies
        simp only [Bool.and_eq_true, List.any_eq_true, decide_eq_true_eq] at hoccupies
        obtain ⟨-, apartment, hapartment, ha, hbuilding⟩ := hoccupies
        exact t.occupanciesLinked o ho apartment hapartment ha b hb hbuilding.symm
      exact ⟨o, ho, ⟨hlinked.symm.trans horg, hoccupies⟩, hcurrent⟩
  unfold assertCanRead
  rw [← hgrant, ← hoccupancy]
  split_ifs with hall hfound hcurrent
  · simp [hall]
  · simp [hfound]
  · simp [hcurrent]
  · simp [hall, hfound, hcurrent]

theorem mem_listed {limit : Nat} {b : Id × Building} :
    b ∈ (BuildingsService.listing d t.toTables auth ⟨none, none, limit⟩ now).matching ↔
      b ∈ t.buildings ∧ b.2.organizationId = auth.organizationId ∧
        accessWhere t.toTables auth now b.1 = true := by
  rw [matching_perm.mem_iff, List.mem_filter]
  simp [BuildingsService.listing, matchesText]

/-- The pages are read in full. -/
theorem listed_pages (hc : RowOrder d.collate) {limit : Nat} (hlimit : 0 < limit) :
    ∃ pages, traverse
        (fun _ cursor => BuildingsService.list d t.toTables auth ⟨none, cursor, limit⟩ now)
        (t.buildings.length + 1) 0 none = some pages ∧
      pages.flatMap (·.data) =
        (BuildingsService.listing d t.toTables auth ⟨none, none, limit⟩ now).matching := by
  have hlawful := @buildings_lawful d t.toTables auth hc ⟨none, none, limit⟩ now
  have hfew : (BuildingsService.listing d t.toTables auth ⟨none, none, limit⟩ now).matching.length <
      t.buildings.length + 1 := by
    rw [matching_perm.length_eq]
    exact Nat.lt_succ_of_le (List.length_filter_le _ _)
  obtain ⟨pages, hpages, hdata, -⟩ := @traverse_from _ _ _ _ hlawful limit hlimit
    (fun _ cursor => BuildingsService.list d t.toTables auth ⟨none, cursor, limit⟩ now)
    (fun _ _ => rfl) (t.buildings.length + 1) 0 [] _ rfl hfew
  exact ⟨pages, hpages, hdata⟩

theorem listsWhatIsRead_iff (hc : RowOrder d.collate) {limit : Nat} (hlimit : 0 < limit) :
    ListsWhatIsRead d t auth now today limit ↔
      ∀ b ∈ t.buildings, b.2.organizationId = auth.organizationId →
        (accessWhere t.toTables auth now b.1 = true ↔
          assertCanRead t.toTables auth now today b.1 = .ok ()) := by
  obtain ⟨pages, hpages, hdata⟩ := @listed_pages d t auth now hc limit hlimit
  have hlisted : ∀ b ∈ t.buildings, b.2.organizationId = auth.organizationId →
      (b ∈ pages.flatMap (·.data) ↔ accessWhere t.toTables auth now b.1 = true) := by
    intro b hb horg
    rw [hdata, mem_listed]
    simp [hb, horg]
  constructor
  · rintro ⟨pages', hpages', hreads⟩ b hb horg
    have hsame := Option.some.inj (hpages.symm.trans hpages')
    rw [← hlisted b hb horg, hsame]
    exact hreads b hb horg
  · intro h
    refine ⟨pages, hpages, fun b hb horg => ?_⟩
    rw [hlisted b hb horg]
    exact h b hb horg

/-- The list and the check agree when every building in which the caller has an occupancy that
is over or has not begun is one that the caller has been granted or occupies now. -/
theorem list_agrees_with_read_iff (hc : RowOrder d.collate) (limit : Nat) (hlimit : 1 ≤ limit)
    (_ : limit ≤ 50) :
    ListsWhatIsRead d t auth now today limit ↔
      readsAll auth = true ∨ ∀ b ∈ t.buildings, b.2.organizationId = auth.organizationId →
        Occupied t auth b.1 → Granted t auth now b.1 ∨ OccupiedNow t auth today b.1 := by
  rw [listsWhatIsRead_iff hc hlimit]
  constructor
  · intro h
    by_cases hall : readsAll auth = true
    · exact .inl hall
    right
    intro b hb horg hoccupied
    have hread := (h b hb horg).mp ((accessWhere_iff b.1).mpr (.inr (.inr hoccupied)))
    exact ((assertCanRead_iff hb horg).mp hread).resolve_left hall
  · intro h b hb horg
    rw [accessWhere_iff, assertCanRead_iff hb horg]
    constructor
    · rintro (hall | hgranted | hoccupied)
      · exact .inl hall
      · exact .inr (.inl hgranted)
      · exact h.imp_right fun h => h b hb horg hoccupied
    · rintro (hall | hgranted | ⟨o, ho, hoccupies, -⟩)
      · exact .inl hall
      · exact .inr (.inl hgranted)
      · exact .inr (.inr ⟨o, ho, hoccupies⟩)

end Agreement

section Sample

/-- A resident who has moved out of the one apartment of a building. -/
def movedOut : LinkedTables where
  vendors := []
  contracts := []
  buildings := [(1, ⟨1, ['A'], ['B'], none, ['C'], ['D'], ['R', 'O'], 1⟩)]
  auditEvents := []
  accesses := []
  vendorBuildings := []
  contractBuildings := []
  apartments := [(5, 1)]
  occupancies := [⟨1, 5, 9, 10, some 20⟩]
  vendorIds := List.nodup_nil
  contractIds := List.nodup_nil
  buildingIds := by decide
  eventIds := List.nodup_nil
  accessesLinked := by decide
  occupanciesLinked := by decide

/-- During the occupancy the building is listed and read. -/
theorem list_agrees_while_occupied :
    ListsWhatIsRead sampleDatabase movedOut ⟨9, 1, .resident⟩ 15 15 25 ↔
      readsAll ⟨9, 1, .resident⟩ = true ∨ ∀ b ∈ movedOut.buildings, b.2.organizationId = 1 →
        Occupied movedOut ⟨9, 1, .resident⟩ b.1 →
          Granted movedOut ⟨9, 1, .resident⟩ 15 b.1 ∨
            OccupiedNow movedOut ⟨9, 1, .resident⟩ 15 b.1 :=
  list_agrees_with_read_iff (rowOrder_compare.comap List.length) 25 (by decide) (by decide)

/-- Afterwards it is still listed, and no longer read. -/
theorem moved_out_still_listed :
    ¬ ListsWhatIsRead sampleDatabase movedOut ⟨9, 1, .resident⟩ 30 30 25 := by
  rw [listsWhatIsRead_iff (rowOrder_compare.comap List.length) (by decide)]
  intro h
  have hread := (h _ (.head _) rfl).mp (by decide)
  cases hread

end Sample

end BlocTrust.Crm
