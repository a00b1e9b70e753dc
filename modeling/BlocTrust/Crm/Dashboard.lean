import BlocTrust.Crm.Lists

/-!
`DashboardService.get`: contracts that end soon and vendors that lack something.
The vendors are read in the order of their names, at most a hundred of them, and only then
filtered.  The queue is what it should be exactly when the first hundred hold twenty-five
incomplete vendors, or no incomplete vendor stands behind them.
-/
namespace BlocTrust.Crm.DashboardService

open Paging

structure VendorContact where
  vendorId : Id
  isVerified : Bool
  deriving DecidableEq, Repr

structure BankAccountVersion where
  id : Id
  vendorId : Id
  versionNumber : Nat
  deriving DecidableEq, Repr

inductive VerificationStatus
  | pending | verified | rejected
  deriving DecidableEq, Repr

structure BankAccountVerification where
  bankAccountVersionId : Id
  status : VerificationStatus
  createdAt : Time
  deriving DecidableEq, Repr

/-- The tables of the dashboard. -/
structure DashboardTables extends Tables where
  contacts : List VendorContact
  bankAccountVersions : List BankAccountVersion
  verifications : List BankAccountVerification

structure ExpiringContract where
  id : Id
  reference : Text
  title : Text
  endsOn : Option Time
  vendorName : Option Text
  deriving DecidableEq, Repr

structure IncompleteVendor where
  id : Id
  legalName : Text
  missing : List Text
  deriving DecidableEq, Repr

structure Dashboard where
  generatedAt : Time
  expiringContracts : List ExpiringContract
  incompleteVendors : List IncompleteVendor
  deriving DecidableEq, Repr

section Completeness

variable (t : DashboardTables)

/-- `orderBy: { column: 'desc' }, take: 1` -/
def latest {α : Type} (column : α → Nat) (rows : List α) : Option α :=
  (greatest column rows).head?

def latestVersion (vendorId : Id) : Option BankAccountVersion :=
  latest (·.versionNumber) (t.bankAccountVersions.filter fun v => v.vendorId = vendorId)

def latestStatus (versionId : Id) : Option VerificationStatus :=
  (latest (·.createdAt) (t.verifications.filter fun v => v.bankAccountVersionId = versionId)).map
    (·.status)

/-- `!column` of a text. -/
def isBlank (column : Option Text) : Bool := column.all (· = [])

/-- The items that a vendor lacks, in the order in which they are named. -/
def missing (v : Id × Vendor) : List Text :=
  (if isBlank v.2.registrationNumber then ["registration number".toList] else []) ++
  (if isBlank v.2.taxId then ["tax identifier".toList] else []) ++
  (if isBlank v.2.email || isBlank v.2.phone then ["contact details".toList] else []) ++
  (if (t.contacts.any fun c => c.vendorId = v.1 ∧ c.isVerified = true) then []
    else ["verified contact".toList]) ++
  match latestVersion t v.1 with
  | none => ["bank-account version".toList]
  | some version =>
      if latestStatus t version.id = some .verified then [] else ["verified bank account".toList]

def describe (v : Id × Vendor) : IncompleteVendor := ⟨v.1, v.2.legalName, missing t v⟩

end Completeness

section Get

variable (d : Database) (t : DashboardTables) (auth : AuthContext) (now today : Time)

/-- Sixty days in milliseconds. -/
def sixtyDays : Time := 60 * 24 * 60 * 60 * 1000

def isCandidate (v : Id × Vendor) : Bool :=
  decide (v.2.organizationId = auth.organizationId) && decide (v.2.status ≠ .archived) &&
    vendorScope t.toTables auth now v.1

/-- All candidates in the order of their names. -/
def orderedCandidates : List (Id × Vendor) :=
  (t.vendors.filter (isCandidate t auth now)).mergeSort fun v w =>
    d.collate v.2.legalName w.2.legalName != .gt

/-- `take: 100` -/
def vendorCandidates : List (Id × Vendor) := (orderedCandidates d t auth now).take 100

def incompleteVendors : List IncompleteVendor :=
  (((vendorCandidates d t auth now).map (describe t)).filter fun v => 0 < v.missing.length).take 25

/-- `today` is the present as it is compared with a column of dates. -/
def expiringContracts : List ExpiringContract :=
  (((t.contracts.filter fun c => decide (c.2.organizationId = auth.organizationId) &&
      decide (c.2.status = .active) &&
      c.2.endsOn.any (fun endsOn => today ≤ endsOn ∧ endsOn ≤ today + sixtyDays) &&
      contractScope t.toTables auth now c.1).mergeSort fun c e =>
        compareNullable c.2.endsOn e.2.endsOn != .gt).take 25).map fun c =>
    ⟨c.1, c.2.reference, c.2.title, c.2.endsOn, ContractsService.vendorName t.toTables c.2.vendorId⟩

def get : Dashboard :=
  ⟨now, expiringContracts t auth now today, incompleteVendors d t auth now⟩

/-- The first twenty-five, by name, of the candidates that lack something. -/
structure IsQueue (queue : List IncompleteVendor) : Prop where
  first : ∃ all : List IncompleteVendor,
    (all.Pairwise fun e f => d.collate e.legalName f.legalName = .lt) ∧
    (∀ e, e ∈ all ↔ ∃ v ∈ t.vendors, isCandidate t auth now v = true ∧ missing t v ≠ [] ∧
      e = describe t v) ∧
    queue = all.take 25
  nonempty : (∃ v ∈ t.vendors, isCandidate t auth now v = true ∧ missing t v ≠ []) → queue ≠ []

/-- The names of the vendors of the organization are told apart. -/
def DistinctNames : Prop :=
  ∀ v ∈ t.vendors, ∀ w ∈ t.vendors, v.2.organizationId = auth.organizationId →
    w.2.organizationId = auth.organizationId → d.collate v.2.legalName w.2.legalName = .eq → v = w

end Get

section Limits

variable {α : Type} (p : α → Bool)

/-- Taking rows before they are filtered loses nothing when there are enough among them, or none
behind them. -/
theorem take_filter_take (rows : List α) (n m : Nat) :
    ((rows.take n).filter p).take m = (rows.filter p).take m ↔
      m ≤ ((rows.take n).filter p).length ∨ ∀ r ∈ rows.drop n, p r = false := by
  have hsplit : rows.filter p = (rows.take n).filter p ++ (rows.drop n).filter p := by
    rw [← List.filter_append, List.take_append_drop]
  have hnone : (∀ r ∈ rows.drop n, p r = false) ↔ (rows.drop n).filter p = [] := by
    simp [List.filter_eq_nil_iff]
  rw [hsplit, List.take_append, hnone]
  constructor
  · intro h
    have hrest := List.self_eq_append_right.mp h
    rcases List.take_eq_nil_iff.mp hrest with hlength | hnil
    · left
      omega
    · exact .inr hnil
  · rintro (hlength | hnil)
    · rw [Nat.sub_eq_zero_of_le hlength, List.take_zero, List.append_nil]
    · rw [hnil, List.take_nil, List.append_nil]

end Limits

section Queue

variable {d : Database} {t : DashboardTables} {auth : AuthContext} {now : Time}

theorem mem_orderedCandidates {v : Id × Vendor} : v ∈ orderedCandidates d t auth now ↔
    v ∈ t.vendors ∧ isCandidate t auth now v = true := by
  unfold orderedCandidates
  rw [(List.mergeSort_perm _ _).mem_iff, List.mem_filter]

/-- The candidates stand in the strict order of their names. -/
theorem orderedCandidates_sorted (hc : RowOrder d.collate) (hnames : DistinctNames d t auth) :
    (orderedCandidates d t auth now).Pairwise fun v w =>
      d.collate v.2.legalName w.2.legalName = .lt := by
  have hle : (orderedCandidates d t auth now).Pairwise fun v w =>
      (d.collate v.2.legalName w.2.legalName != .gt) = true := by
    refine List.pairwise_mergeSort ?_ ?_ _
    · intro u v w huv hvw
      simp only [bne_iff_ne] at *
      exact hc.trans _ _ _ huv hvw
    · intro v w
      rw [hc.swap v.2.legalName w.2.legalName]
      cases d.collate v.2.legalName w.2.legalName <;> rfl
  have hdistinct : (orderedCandidates d t auth now).Pairwise (· ≠ ·) := by
    have hrows : (t.vendors.filter (isCandidate t auth now)).Nodup :=
      (List.Nodup.of_map Prod.fst t.vendorIds).sublist List.filter_sublist
    exact (List.mergeSort_perm _ _).nodup_iff.mpr hrows
  refine (hle.and hdistinct).imp_of_mem ?_
  rintro v w hv hw ⟨hvw, hne⟩
  obtain ⟨hvendor, hcandidate⟩ := mem_orderedCandidates.mp hv
  obtain ⟨hvendor', hcandidate'⟩ := mem_orderedCandidates.mp hw
  unfold isCandidate at hcandidate hcandidate'
  simp only [Bool.and_eq_true, decide_eq_true_eq] at hcandidate hcandidate'
  simp only [bne_iff_ne] at hvw
  cases hcompare : d.collate v.2.legalName w.2.legalName with
  | lt => rfl
  | eq => exact absurd (hnames v hvendor w hvendor' hcandidate.1.1 hcandidate'.1.1 hcompare) hne
  | gt => exact absurd hcompare hvw

/-- All that belongs into the queue. -/
def wholeQueue (d : Database) (t : DashboardTables) (auth : AuthContext) (now : Time) :
    List IncompleteVendor :=
  ((orderedCandidates d t auth now).map (describe t)).filter fun v => 0 < v.missing.length

theorem mem_wholeQueue {e : IncompleteVendor} : e ∈ wholeQueue d t auth now ↔
    ∃ v ∈ t.vendors, isCandidate t auth now v = true ∧ missing t v ≠ [] ∧ e = describe t v := by
  unfold wholeQueue
  rw [List.mem_filter, List.mem_map, decide_eq_true_eq]
  constructor
  · rintro ⟨⟨v, hv, rfl⟩, hmissing⟩
    obtain ⟨hvendor, hcandidate⟩ := mem_orderedCandidates.mp hv
    exact ⟨v, hvendor, hcandidate, List.ne_nil_of_length_pos hmissing, rfl⟩
  · rintro ⟨v, hvendor, hcandidate, hmissing, rfl⟩
    exact ⟨⟨v, mem_orderedCandidates.mpr ⟨hvendor, hcandidate⟩, rfl⟩,
      List.length_pos_iff.mpr hmissing⟩

theorem wholeQueue_sorted (hc : RowOrder d.collate) (hnames : DistinctNames d t auth) :
    (wholeQueue d t auth now).Pairwise fun e f => d.collate e.legalName f.legalName = .lt :=
  List.Pairwise.filter _ (List.pairwise_map.mpr (orderedCandidates_sorted hc hnames))

/-- Lists in a strict order are determined by their elements. -/
theorem eq_of_sorted (hc : RowOrder d.collate) {es fs : List IncompleteVendor}
    (hes : es.Pairwise fun e f => d.collate e.legalName f.legalName = .lt)
    (hfs : fs.Pairwise fun e f => d.collate e.legalName f.legalName = .lt)
    (h : ∀ e, e ∈ es ↔ e ∈ fs) : es = fs := by
  have hself : ∀ {e f : IncompleteVendor}, d.collate e.legalName f.legalName = .lt → e ≠ f := by
    rintro e f hlt rfl
    have hswap := hc.swap e.legalName e.legalName
    rw [hlt] at hswap
    cases hswap
  have hperm := (List.perm_ext_iff_of_nodup (hes.imp hself) (hfs.imp hself)).mpr h
  refine hperm.eq_of_pairwise ?_ hes hfs
  intro e f _ _ hef hfe
  have hswap := hc.swap e.legalName f.legalName
  rw [hef, hfe] at hswap
  cases hswap

theorem isQueue_iff (hc : RowOrder d.collate) (hnames : DistinctNames d t auth)
    (queue : List IncompleteVendor) :
    IsQueue d t auth now queue ↔ queue = (wholeQueue d t auth now).take 25 := by
  constructor
  · rintro ⟨⟨all, hsorted, hmem, rfl⟩, -⟩
    rw [eq_of_sorted hc hsorted (wholeQueue_sorted hc hnames) fun e =>
      (hmem e).trans mem_wholeQueue.symm]
  · rintro rfl
    refine ⟨⟨_, wholeQueue_sorted hc hnames, fun e => mem_wholeQueue, rfl⟩, ?_⟩
    rintro ⟨v, hvendor, hcandidate, hmissing⟩ hnil
    have hmem : describe t v ∈ wholeQueue d t auth now :=
      mem_wholeQueue.mpr ⟨v, hvendor, hcandidate, hmissing, rfl⟩
    rcases List.take_eq_nil_iff.mp hnil with hzero | hempty
    · cases hzero
    · rw [hempty] at hmem
      cases hmem

/-- Among the first hundred candidates are twenty-five incomplete ones, or behind them is none. -/
def HundredSuffice (d : Database) (t : DashboardTables) (auth : AuthContext) (now : Time) : Prop :=
  25 ≤ ((vendorCandidates d t auth now).filter fun v => missing t v ≠ []).length ∨
    ∀ v ∈ (orderedCandidates d t auth now).drop 100, missing t v = []

theorem incompleteVendors_eq_iff :
    incompleteVendors d t auth now = (wholeQueue d t auth now).take 25 ↔
      HundredSuffice d t auth now := by
  unfold incompleteVendors wholeQueue vendorCandidates HundredSuffice
  rw [List.map_take, take_filter_take, ← List.map_take, ← List.map_drop, List.filter_map,
    List.length_map]
  have hsame : ((fun v : IncompleteVendor => decide (0 < v.missing.length)) ∘ describe t) =
      fun v => decide (missing t v ≠ []) := by
    funext v
    exact decide_eq_decide.mpr List.length_pos_iff
  have hbehind : (∀ e ∈ ((orderedCandidates d t auth now).drop 100).map (describe t),
      decide (0 < e.missing.length) = false) ↔
      ∀ v ∈ (orderedCandidates d t auth now).drop 100, missing t v = [] := by
    rw [List.forall_mem_map]
    refine forall_congr' fun v => imp_congr_right fun _ => ?_
    rw [decide_eq_false_iff_not, Nat.not_lt, Nat.le_zero, List.length_eq_zero_iff]
    rfl
  rw [hsame, hbehind]
  rfl

/-- The queue of the dashboard misses nobody when the first hundred candidates suffice. -/
theorem queue_misses_nobody_iff (hc : RowOrder d.collate) (hnames : DistinctNames d t auth)
    (today : Time) :
    IsQueue d t auth now (get d t auth now today).incompleteVendors ↔
      HundredSuffice d t auth now := by
  rw [isQueue_iff hc hnames]
  exact incompleteVendors_eq_iff

end Queue

section Sample

/-- A vendor whose name has two letters more than its identifier says. -/
def namedVendor (i : Id) (registrationNumber : Option Text) : Id × Vendor :=
  (i, ⟨1, List.replicate (i + 2) 'a', none, registrationNumber, some ['1'],
    some "a@b.ro".toList, some ['0'], .active, [], none, 1⟩)

/-- A hundred complete vendors, and behind them one without a registration number. -/
def crowdedTables : DashboardTables where
  vendors := ((List.range 101).map fun i => namedVendor i (if i < 100 then some ['1'] else none))
  contracts := []
  buildings := []
  auditEvents := []
  accesses := []
  vendorBuildings := []
  contractBuildings := []
  apartments := []
  occupancies := []
  vendorIds := by
    rw [List.map_map]
    exact (List.map_id (List.range 101)).symm ▸ List.nodup_range
  contractIds := List.nodup_nil
  buildingIds := List.nodup_nil
  eventIds := List.nodup_nil
  contacts := (List.range 101).map fun i => ⟨i, true⟩
  bankAccountVersions := (List.range 101).map fun i => ⟨i, i, 1⟩
  verifications := (List.range 101).map fun i => ⟨i, .verified, 0⟩

def sampleOwner : AuthContext := ⟨1, 1, .owner⟩

theorem crowded_mem {v : Id × Vendor} (h : v ∈ crowdedTables.vendors) :
    ∃ i < 101, v = namedVendor i (if i < 100 then some ['1'] else none) := by
  obtain ⟨i, hi, rfl⟩ := List.mem_map.mp h
  exact ⟨i, List.mem_range.mp hi, rfl⟩

theorem crowded_names : DistinctNames sampleDatabase crowdedTables sampleOwner := by
  intro v hv w hw _ _ hcompare
  obtain ⟨i, -, rfl⟩ := crowded_mem hv
  obtain ⟨j, -, rfl⟩ := crowded_mem hw
  have hlength := Nat.compare_eq_eq.mp hcompare
  have hsame : i = j := by simpa [namedVendor] using hlength
  rw [hsame]

theorem crowded_ordered :
    orderedCandidates sampleDatabase crowdedTables sampleOwner 0 = crowdedTables.vendors := by
  have hall : crowdedTables.vendors.filter (isCandidate crowdedTables sampleOwner 0) =
      crowdedTables.vendors := by
    rw [List.filter_eq_self]
    intro v hv
    obtain ⟨i, -, rfl⟩ := crowded_mem hv
    rfl
  unfold orderedCandidates
  rw [hall]
  refine List.mergeSort_of_pairwise (List.pairwise_map.mpr ?_)
  refine List.pairwise_lt_range.imp fun {i j} hij => ?_
  show (compare (List.replicate (i + 2) 'a').length (List.replicate (j + 2) 'a').length != .gt) =
    true
  rw [List.length_replicate, List.length_replicate,
    Nat.compare_eq_lt.mpr (Nat.add_lt_add_right hij 2)]
  rfl

theorem latest_single {α : Type} (column : α → Nat) (row : α) : latest column [row] = some row := by
  simp [latest, greatest]

/-- Each owner has one of the rows. -/
theorem filter_owned {α : Type} (row : Id → α) (owner : α → Id) (howner : ∀ i, owner (row i) = i)
    {i n : Id} (hi : i < n) :
    ((List.range n).map row).filter (fun a => owner a = i) = [row i] := by
  have hrow : ((fun a => decide (owner a = i)) ∘ row) = fun j => decide (j = i) := by
    funext j
    rw [Function.comp_apply, howner]
  rw [List.filter_map, hrow, List.filter_eq,
    List.count_eq_one_of_mem List.nodup_range (List.mem_range.mpr hi)]
  rfl

/-- The vendors of the sample lack a registration number at most. -/
theorem crowded_missing {i : Id} (hi : i < 101) (registrationNumber : Option Text) :
    missing crowdedTables (namedVendor i registrationNumber) =
      if isBlank registrationNumber then ["registration number".toList] else [] := by
  have hcontact : (crowdedTables.contacts.any fun c => c.vendorId = i ∧ c.isVerified = true) =
      true :=
    List.any_eq_true.mpr ⟨⟨i, true⟩, List.mem_map.mpr ⟨i, List.mem_range.mpr hi, rfl⟩,
      decide_eq_true ⟨rfl, rfl⟩⟩
  have hversion : latestVersion crowdedTables i = some ⟨i, i, 1⟩ := by
    have hrows := filter_owned (fun i => BankAccountVersion.mk i i 1) (·.vendorId) (fun _ => rfl) hi
    exact (congrArg (latest _) hrows).trans (latest_single _ _)
  have hstatus : latestStatus crowdedTables i = some .verified := by
    have hrows := filter_owned (fun i => BankAccountVerification.mk i .verified 0)
      (·.bankAccountVersionId) (fun _ => rfl) hi
    have hlatest := (congrArg (latest (·.createdAt)) hrows).trans (latest_single _ _)
    exact congrArg (Option.map (·.status)) hlatest
  unfold missing
  rw [show (namedVendor i registrationNumber).1 = i from rfl, hcontact, hversion]
  show _ ++ [] ++ [] ++ [] ++ (if latestStatus crowdedTables i = _ then _ else _) = _
  rw [if_pos hstatus]
  simp only [List.append_nil]
  rfl

theorem crowded_insufficient : ¬ HundredSuffice sampleDatabase crowdedTables sampleOwner 0 := by
  unfold HundredSuffice vendorCandidates
  rw [crowded_ordered]
  rintro (henough | hnone)
  · have hcomplete : (crowdedTables.vendors.take 100).filter
        (fun v => missing crowdedTables v ≠ []) = [] := by
      rw [List.filter_eq_nil_iff]
      intro v hv
      have htake : crowdedTables.vendors.take 100 = (List.range 100).map fun i =>
          namedVendor i (if i < 100 then some ['1'] else none) := by
        show (List.map _ _).take 100 = _
        rw [← List.map_take, List.take_range]
        rfl
      rw [htake] at hv
      obtain ⟨i, hi, rfl⟩ := List.mem_map.mp hv
      have hlt := List.mem_range.mp hi
      rw [if_pos hlt]
      have hmissing := crowded_missing (Nat.lt_succ_of_lt hlt) (some ['1'])
      exact fun h => of_decide_eq_true h hmissing
    rw [hcomplete] at henough
    cases henough
  · have hlast : namedVendor 100 none ∈ crowdedTables.vendors.drop 100 := by
      show _ ∈ (List.map _ _).drop 100
      rw [← List.map_drop]
      exact List.mem_map.mpr ⟨100, List.mem_singleton.mpr rfl, rfl⟩
    have hmissing := crowded_missing (i := 100) (by decide) none
    exact List.cons_ne_nil _ _ (hmissing.symm.trans (hnone _ hlast))

theorem crowded_queue_iff :
    IsQueue sampleDatabase crowdedTables sampleOwner 0
        (get sampleDatabase crowdedTables sampleOwner 0 0).incompleteVendors ↔
      HundredSuffice sampleDatabase crowdedTables sampleOwner 0 :=
  queue_misses_nobody_iff (rowOrder_compare.comap List.length) crowded_names 0

/-- The hundred and first vendor is the only one that lacks something, and is missed. -/
theorem crowded_queue_misses : ¬ IsQueue sampleDatabase crowdedTables sampleOwner 0
    (get sampleDatabase crowdedTables sampleOwner 0 0).incompleteVendors := by
  rw [isQueue_iff (rowOrder_compare.comap List.length) crowded_names]
  exact fun h => crowded_insufficient (incompleteVendors_eq_iff.mp h)

end Sample

end BlocTrust.Crm.DashboardService
