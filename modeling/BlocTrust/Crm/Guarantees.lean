import BlocTrust.Crm.Updates

/-!
The updates give their guarantees.
Each program is followed over its open writes: what it has read of its entity waits for the
version check, and the deletes and inserts of links are replayed on the links it has found.
-/
namespace BlocTrust.Crm

open ReadCommitted Prog

/-- Statements that write nothing. -/
def reading : Stmt → Prop
  | .read _ | .clock => True
  | _ => False

theorem reading_silent (s : Stmt) (hs : reading s) (c : Nat) (view : Db) (out : Out s) (rows : Db)
    (h : engine s c view = some (.ok (out, rows))) : rows = [] := by
  cases s with
  | read q =>
      obtain ⟨o, -, heq⟩ := Option.map_eq_some_iff.mp h
      cases heq
      rfl
  | clock =>
      cases h
      rfl
  | _ => exact hs.elim

theorem read_ok {q : Query} {c : Nat} {view rows : Db} {out : q.Out}
    (h : engine (.read q) c view = some (.ok (out, rows))) :
    answer c view q = some out ∧ rows = [] := by
  obtain ⟨o, ho, heq⟩ := Option.map_eq_some_iff.mp h
  cases heq
  exact ⟨ho, rfl⟩

section Statements

variable {cfg : Config} {op : Op} {b w : Db} {before : Val op.entity}
  {found links : Id → Option Id} {buildings : List Id}

/-- The access checks only read. -/
theorem assertCanManage_plain (auth : AuthContext) (buildingId : Id) :
    (BuildingAccessService.assertCanManage auth buildingId).Plain reading := by
  unfold BuildingAccessService.assertCanManage
  split
  · trivial
  · split
    · exact Plain.bind ((plain_sql _).mpr trivial) fun now =>
        Plain.bind ((plain_sql _).mpr trivial) fun grant =>
          Plain.bind (plain_orThrow _ _) fun _ => trivial
    · trivial

theorem assertAllCanManage_plain (auth : AuthContext) (buildingIds : List Id) :
    (BuildingAccessService.assertAllCanManage auth buildingIds).Plain reading := by
  refine Plain.bind (plain_each (fun buildingId => ?_) _) fun _ => trivial
  refine Plain.bind (Plain.bind ((plain_sql _).mpr trivial) fun building =>
    Plain.bind (plain_orThrow _ _) fun _ => trivial) fun _ => ?_
  exact assertCanManage_plain auth buildingId

/-- The links of the organization that a list of buildings drops, and that it adds. -/
def dropAll (org : Id) (buildings : List Id) (links : Id → Option Id) : Id → Option Id :=
  fun x => if x ∈ buildings ∧ links x = some org then none else links x

def addAll (org : Id) (buildings : List Id) (links : Id → Option Id) : Id → Option Id :=
  fun x => if x ∈ buildings then some org else links x

theorem dropLink_dropAll (org x : Id) (buildings : List Id) (links : Id → Option Id) :
    dropLink org x (dropAll org buildings links) = dropAll org (buildings ++ [x]) links := by
  funext y
  simp only [dropLink, dropAll, List.mem_append, List.mem_singleton]
  grind

theorem addLink_addAll (org x : Id) (buildings : List Id) (links : Id → Option Id) :
    addLink org x (addAll org buildings links) = addAll org (buildings ++ [x]) links := by
  funext y
  simp only [addLink, addAll, List.mem_append, List.mem_singleton]
  by_cases hy : y ∈ buildings <;> by_cases hx : y = x <;> simp [hy, hx]

/-- A loop of deletes or inserts replays its changes on the links, whatever else is known. -/
theorem linkEach_serves {K : (Id → Option Id) → Db → Db → Prop} {α : Type} {p : Id → Program α}
    (change : List Id → (Id → Option Id) → Id → Option Id) {owed : Db → Db → Prop}
    (hnil : change [] links = links)
    (hstep : ∀ x done w b, K (change done links) w b →
      (p x).serves engine Evolves owed (fun _ => K (change (done ++ [x]) links)) w b)
    (h : K links w b) {Q : List α → Db → Db → Prop}
    (hQ : ∀ as w b, K (change buildings links) w b → Q as w b) :
    (each p buildings).serves engine Evolves owed Q w b := by
  refine serves_each (I := fun done w b => K (change done links) w b) buildings
    (fun c done rest w b _ hdone => hstep c done w b hdone) ?_ hQ
  rw [hnil]
  exact h

/-- The writes of a transaction on the links of its entity can be replayed on what is known. -/
structure Replays (op : Op) (K : (Id → Option Id) → Db → Db → Prop) : Prop where
  forth : ∀ links w b b', K links w b → Onward Evolves w b b' → K links w b'
  write : ∀ links w b rows (f : (Id → Option Id) → Id → Option Id), K links w b →
    WritesLink op.entity rows →
      (∀ x, link (rows ++ (w ++ b)) op.entity x = f (link (w ++ b) op.entity) x) →
        K (f links) (rows ++ w) b

theorem changed_replays (cfg : Config) (op : Op) (before : Val op.entity) (found : Id → Option Id) :
    Replays op (Changed cfg op before found) where
  forth _ _ _ _ h hb := h.forth hb
  write _ _ _ _ _ h hrows hf := h.write hrows hf

variable {K : (Id → Option Id) → Db → Db → Prop} {owed : Db → Db → Prop} {auth : AuthContext}

theorem deleteLinks_serves (hK : Replays op K) (h : K links w b) {Q : Unit → Db → Db → Prop}
    (hQ : ∀ w b, K (dropAll auth.organizationId buildings links) w b → Q () w b) :
    (deleteLinks auth op.entity buildings).serves engine Evolves owed Q w b := by
  refine serves_bind (linkEach_serves (dropAll auth.organizationId) ?_ ?_ h
    fun _ w b hend => hQ w b hend)
  · funext x
    simp [dropAll]
  · intro x done w b hdone
    refine serves_sql fun b' hb c n rows hrun => ?_
    obtain ⟨hrows, hlinks⟩ := deleteLink_ok (Option.some.inj hrun)
    rw [← dropLink_dropAll]
    exact hK.write _ _ _ _ _ (hK.forth _ _ _ _ hdone hb) hrows hlinks

theorem createLinks_serves (hK : Replays op K) (h : K links w b) {Q : Unit → Db → Db → Prop}
    (hQ : ∀ w b, K (addAll auth.organizationId buildings links) w b → Q () w b) :
    (createLinks auth op.entity buildings).serves engine Evolves owed Q w b := by
  refine serves_bind (linkEach_serves (addAll auth.organizationId) ?_ ?_ h
    fun _ w b hend => hQ w b hend)
  · funext x
    simp [addAll]
  · intro x done w b hdone
    refine serves_sql fun b' hb c u rows hrun => ?_
    obtain ⟨hrows, hlinks⟩ := insertLink_ok (Option.some.inj hrun)
    rw [← addLink_addAll]
    exact hK.write _ _ _ _ _ (hK.forth _ _ _ _ hdone hb) hrows hlinks

/-- The version check, on a row that the transaction has not written. -/
theorem updateExpected_serves {c : Change op.entity} (h : Tracks op before found links w b)
    (hfree : op.entity ∉ w.keys) (hedit : op.edit cfg before = .ok c) {Q : Unit → Db → Db → Prop}
    (hQ : ∀ w b', Evolves b b' → Changed cfg op before found links w b' → Q () w b') :
    (updateExpected auth op.entity op.expected c).serves engine Evolves owed Q w b := by
  refine serves_bind (serves_sql fun b' hb choice count rows hrun => ?_)
  refine serves_require fun hcount => ?_
  subst hcount
  obtain ⟨old, entries, hold, hversion, rfl, hentries⟩ := updateRow_ok (Option.some.inj hrun)
  have hlater := h.forth hb
  have hrow : Log.row op.entity b' = some old := by
    rwa [Log.row_append_of_not_mem _ hfree] at hold
  obtain ⟨hbefore, hfound, hview⟩ := hlater.known old hrow hversion
  have hsame : old = before := Option.some.inj (hrow.symm.trans hbefore)
  subst hsame
  refine hQ _ _ hb.rely ⟨⟨hlater.expected, ?_, fun _ _ _ => ⟨hbefore, hfound, fun x => ?_⟩⟩, hbefore,
    hversion, c, hedit, Log.row_cons_self ..⟩
  · intro key hkey k hk
    rw [Log.keys_append] at hkey
    rcases List.mem_append.mp hkey with hkey | hkey
    · rcases List.mem_cons.mp hkey with rfl | hkey
      · exact Option.some.inj (hk.symm.trans (owner_versioned op.entity_versioned))
      · rw [hentries key hkey] at hk
        cases hk
    · exact h.focused key hkey k hk
  · rw [List.append_assoc, link_append]
    · exact hview x
    · intro key hkey hk
      rcases List.mem_cons.mp hkey with rfl | hkey
      · rfl
      · rw [hentries key hkey] at hk
        cases hk

/-- The rest of an update reads its row and writes an audit event. -/
theorem neutral_serves {s : Stmt} (h : Changed cfg op before found links w b)
    (hneutral : ∀ c view out rows, engine s c view = some (.ok (out, rows)) →
      ∀ key ∈ rows.keys, owner key = none) {Q : Out s → Db → Db → Prop}
    (hQ : ∀ out w b, Changed cfg op before found links w b → Q out w b) :
    (sql s : Program (Out s)).serves engine Evolves owed Q w b :=
  serves_sql fun _ hb c out rows hrun =>
    hQ out _ _ ((h.forth hb).neutral (hneutral c _ out rows hrun))

theorem reading_neutral {s : Stmt} (hs : reading s) (c : Nat) (view : Db) (out : Out s) (rows : Db)
    (h : engine s c view = some (.ok (out, rows))) : ∀ key ∈ rows.keys, owner key = none := by
  rw [reading_silent s hs c view out rows h]
  simp

theorem audit_neutral (a : AuditEvent) (c : Nat) (view : Db) (out : Out (.insertAudit a))
    (rows : Db) (h : engine (.insertAudit a) c view = some (.ok (out, rows))) :
    ∀ key ∈ rows.keys, owner key = none := by
  simp only [engine] at h
  split at h
  · cases h
  · cases h
    simp [List.keys, owner]

/-- The row of an entity, read where its expected version has been committed. -/
theorem find_serves (hexpected : Expected op b) {org : Id}
    {Q : Option (Val op.entity) → Db → Db → Prop}
    (hQ : ∀ out found b', (∀ before, out = some before → Tracks op before found found [] b') →
      Q out [] b') :
    (query (.find op.entity org)).serves engine Evolves owed Q [] b := by
  refine serves_sql fun b' hb c out rows hrun => ?_
  obtain ⟨ho, rfl⟩ := read_ok hrun
  refine hQ out (link b' op.entity) b' fun before hout => .start (hexpected.forth hb.rely) ?_
  have hfilter : (Log.row op.entity b').filter (fun row => organizationId op.entity row = org) =
      out := Option.some.inj ho
  rw [hout] at hfilter
  exact (Option.filter_eq_some_iff.mp hfilter).1

/-- The links of an entity, as they are at the expected version. -/
theorem buildingLinks_serves (h : Tracks op before found links [] b) {org : Id}
    {Q : List Id → Db → Db → Prop} (hQ : ∀ current b', Tracks op before found links [] b' →
      AtVersion op b' (∀ x, x ∈ current ↔ found x = some org) → Q current [] b') :
    (query (.buildingLinks op.entity org)).serves engine Evolves owed Q [] b := by
  refine serves_sql fun b' hb c out rows hrun => ?_
  obtain ⟨ho, rfl⟩ := read_ok hrun
  have hlater := h.forth hb
  refine hQ out b' hlater fun row hrow hversion x => ?_
  rw [mem_buildingLinks ho, List.nil_append, (hlater.known row hrow hversion).2.1]

theorem plain_serves {α : Type} {p : Program α} (hp : p.Plain reading) {Q : α → Db → Db → Prop}
    (hQ : ∀ a b', Onward Evolves w b b' → Q a w b') : p.serves engine Evolves owed Q w b :=
  serves_plain evolves_relied reading_silent hp hQ

end Statements

section Programs

variable {cfg : Config} {op : Op} {b w : Db} {before : Val op.entity}
  {found links : Id → Option Id} {owed : Db → Db → Prop}

/-- A committed update has its effect, however the log has moved on until then. -/
theorem Changed.owes (h : Changed cfg op before found links w b)
    (hlinks : ∀ x, links x = op.relinked found x) (b' : Db) (hb : Onward Evolves w b b') :
    Effects cfg op b' (w ++ b') := (h.forth hb).effects hlinks

theorem updateBuilding_serves (auth : AuthContext) (id : Id) (expected : Nat)
    (dto : BuildingsService.UpdateBuildingDto)
    (hexpected : Expected (.updateBuilding auth id expected dto) b) :
    (BuildingsService.update auth id expected dto).serves engine Evolves
      (Effects cfg (.updateBuilding auth id expected dto)) (fun _ _ _ => True) [] b := by
  refine serves_transaction (fun _ _ => trivial) (serves_bind ?_)
  refine plain_serves (assertCanManage_plain _ _) fun _ b' hb => ?_
  obtain ⟨before, hrow, -⟩ := hexpected.forth hb.rely
  have hstart := Tracks.start (hexpected.forth hb.rely) hrow
  cases hedit : BuildingsService.buildingEdit dto with
  | error failure => trivial
  | ok edit =>
      have hedit : Op.edit cfg (.updateBuilding auth id expected dto) before = .ok edit := hedit
      refine serves_bind (updateExpected_serves hstart (by simp) hedit fun w b _ hchanged =>
        serves_bind ?_)
      refine neutral_serves hchanged (reading_neutral (s := .read (.get (.building id))) trivial)
        fun out w b hchanged => ?_
      exact serves_orThrow fun after _ => hchanged.owes fun _ => rfl

/-- The difference between the requested buildings and those that were read is replayed on the
links at that version. -/
theorem relink_serves {auth : AuthContext} {id : Id} {expected : Nat}
    {dto : VendorsService.UpdateVendorDto} {before : Val (.vendor id)} {current requested : List Id}
    (h : Changed cfg (.updateVendor auth id expected dto) before found found w b)
    {Q : Unit → Db → Db → Prop} (hQ : ∀ w b, Changed cfg (.updateVendor auth id expected dto) before
      found (addAll auth.organizationId (requested.filter (· ∉ current))
        (dropAll auth.organizationId (current.filter (· ∉ requested)) found)) w b → Q () w b) :
    (VendorsService.relink auth id current requested).serves engine Evolves owed Q w b := by
  have hreplays := changed_replays cfg (.updateVendor auth id expected dto) before found
  have hchecked : (whenever (current.filter (· ∉ requested) ≠ []) do
      let referenced ← query (.findReference auth.organizationId id (current.filter (· ∉ requested)))
      require (referenced = none) (.conflict "VENDOR_BUILDING_CONTRACT_CONFLICT") :
        Program Unit).Plain reading := by
    unfold whenever
    split
    · exact Plain.bind ((plain_sql _).mpr trivial) fun _ => plain_require _ _
    · trivial
  refine serves_bind (plain_serves hchecked fun _ b' hb => ?_)
  refine serves_bind (deleteLinks_serves hreplays (h.forth hb) fun w b hdropped => ?_)
  exact createLinks_serves hreplays hdropped hQ

/-- Both orders of replacing the links end in the requested ones. -/
theorem relinked_of_requested {requested current : List Id}
    (hrequested : op.requested = some requested)
    (hcurrent : ∀ x, x ∈ current ↔ found x = some op.auth.organizationId) (x : Id) :
    addAll op.auth.organizationId (requested.filter (· ∉ current))
        (dropAll op.auth.organizationId (current.filter (· ∉ requested)) found) x =
      op.relinked found x ∧
    addAll op.auth.organizationId requested (dropAll op.auth.organizationId current found) x =
      op.relinked found x := by
  have hx := hcurrent x
  simp only [addAll, dropAll, Op.relinked, hrequested, List.mem_filter, decide_eq_true_eq]
  constructor <;> grind

theorem updateVendor_serves (auth : AuthContext) (id : Id) (expected : Nat)
    (dto : VendorsService.UpdateVendorDto)
    (hexpected : Expected (.updateVendor auth id expected dto) b) :
    (VendorsService.update cfg auth id expected dto).serves engine Evolves
      (Effects cfg (.updateVendor auth id expected dto)) (fun _ _ _ => True) [] b := by
  refine serves_transaction (fun _ _ => trivial) (serves_bind (serves_bind ?_))
  refine find_serves hexpected fun out found b hstart => ?_
  refine serves_bind (serves_orThrow fun before hout => ?_)
  refine serves_bind (buildingLinks_serves (hstart before hout) fun current b htracks hcurrent => ?_)
  refine serves_bind (serves_require fun _ => serves_bind ?_)
  refine plain_serves (assertAllCanManage_plain _ _) fun _ b' hb => ?_
  have hcurrent := hcurrent.forth htracks.expected hb.rely
  have htracks := htracks.forth hb
  refine serves_bind (plain_serves (assertAllCanManage_plain _ _) fun _ b' hb => ?_)
  have hcurrent := hcurrent.forth htracks.expected hb.rely
  have htracks := htracks.forth hb
  refine serves_bind (serves_require fun _ => ?_)
  cases hedit : VendorsService.vendorEdit cfg dto with
  | error failure => trivial
  | ok edit =>
      have hedit : Op.edit cfg (.updateVendor auth id expected dto) before = .ok edit := hedit
      refine serves_bind (updateExpected_serves htracks (by simp) hedit fun w b hb hchanged => ?_)
      have hcurrent := hcurrent.forth htracks.expected hb before hchanged.base hchanged.versions
      -- what is left once the links are as requested
      have hrest : ∀ (links : Id → Option Id) (w b : Db),
          Changed cfg (.updateVendor auth id expected dto) before found links w b →
          (∀ x, links x = (Op.updateVendor auth id expected dto).relinked found x) →
          (do
            let after ← query (.get (.vendor id))
            let vendor ← orThrow after (.notFound "P2025")
            writeAudit auth "VENDOR_UPDATED" "VENDOR" id
            return vendor : Program Vendor).serves engine Evolves
              (Effects cfg (.updateVendor auth id expected dto)) (fun _ w b => ∀ b',
                Onward Evolves w b b' → Effects cfg (.updateVendor auth id expected dto) b' (w ++ b'))
              w b := by
        intro links w b hchanged hlinks
        refine serves_bind (neutral_serves hchanged
          (reading_neutral (s := .read (.get (.vendor id))) trivial) fun out w b hchanged => ?_)
        refine serves_bind (serves_orThrow fun after _ => serves_bind ?_)
        exact neutral_serves hchanged (audit_neutral _) fun _ w b hchanged => hchanged.owes hlinks
      cases hrequested : (givenList dto.buildingIds).map List.eraseDups with
      | none =>
          refine serves_bind (hrest found w b hchanged fun x => ?_)
          simp only [Op.relinked, Op.requested, hrequested]
      | some requested =>
          refine serves_bind (relink_serves hchanged fun w b hchanged => ?_)
          have hrequested : (Op.updateVendor auth id expected dto).requested = some requested :=
            hrequested
          exact hrest _ w b hchanged fun x => (relinked_of_requested hrequested hcurrent x).1

/-- A contract loses the links that it has when they are deleted. -/
theorem unlink_serves {auth : AuthContext} {id : Id} {expected : Nat}
    {dto : ContractsService.UpdateContractDto} {before : Val (.contract id)}
    (h : Tracks (.updateContract auth id expected dto) before found found [] b)
    {Q : Unit → Db → Db → Prop} (hQ : ∀ (current : List Id) (w b : Db),
      AtVersion (.updateContract auth id expected dto) b
        (∀ x, x ∈ current ↔ found x = some auth.organizationId) →
      Tracks (.updateContract auth id expected dto) before found
        (dropAll auth.organizationId current found) w b → Key.contract id ∉ w.keys → Q () w b) :
    (ContractsService.unlink auth id).serves engine Evolves owed Q [] b := by
  refine serves_bind (buildingLinks_serves h fun current b htracks hcurrent => ?_)
  have hreplays : Replays (.updateContract auth id expected dto) (fun links w b =>
      AtVersion (.updateContract auth id expected dto) b
        (∀ x, x ∈ current ↔ found x = some auth.organizationId) ∧
      Tracks (.updateContract auth id expected dto) before found links w b ∧
        Key.contract id ∉ w.keys) := by
    refine ⟨fun links w b b' h hb => ⟨h.1.forth h.2.1.expected hb.rely, h.2.1.forth hb, h.2.2⟩,
      fun links w b rows f h hrows hf => ⟨h.1, h.2.1.write hrows hf, fun hmem => ?_⟩⟩
    rw [Log.keys_append] at hmem
    rcases List.mem_append.mp hmem with hmem | hmem
    · exact hrows.row hmem
    · exact h.2.2 hmem
  exact deleteLinks_serves hreplays ⟨hcurrent, htracks, by simp⟩ fun w b hend =>
    hQ current w b hend.1 hend.2.1 hend.2.2

theorem assertVendorForBuildings_plain (auth : AuthContext) (vendorId : Id) (buildings : List Id) :
    (ContractsService.assertVendorForBuildings auth vendorId buildings).Plain reading :=
  Plain.bind ((plain_sql _).mpr trivial) fun _ => Plain.bind (plain_orThrow _ _) fun _ =>
    Plain.bind ((plain_sql _).mpr trivial) fun _ => plain_require _ _

/-- What `ContractsService.update` does with the columns to assign. -/
def saveContract (auth : AuthContext) (id : Id) (expected : Nat) (buildings : List Id) :
    Except Failure ContractEdit → Program Contract
  | .error failure => throw failure
  | .ok edit => do
      updateExpected auth (.contract id) expected edit
      createLinks auth (.contract id) buildings
      let after ← query (.get (.contract id))
      let contract ← orThrow after (.notFound "P2025")
      writeAudit auth "CONTRACT_UPDATED" "CONTRACT" id
      return contract

theorem updateContract_serves (auth : AuthContext) (id : Id) (expected : Nat)
    (dto : ContractsService.UpdateContractDto)
    (hexpected : Expected (.updateContract auth id expected dto) b) :
    (ContractsService.update auth id expected dto).serves engine Evolves
      (Effects cfg (.updateContract auth id expected dto)) (fun _ _ _ => True) [] b := by
  refine serves_transaction (fun _ _ => trivial) (serves_bind ?_)
  refine find_serves hexpected fun out found b hstart => ?_
  refine serves_bind (serves_orThrow fun before hout => ?_)
  refine serves_bind (buildingLinks_serves (hstart before hout) fun current b htracks _ => ?_)
  refine serves_bind (plain_serves (assertAllCanManage_plain _ _) fun _ b' hb => ?_)
  have htracks := htracks.forth hb
  refine serves_bind (plain_serves (assertAllCanManage_plain _ _) fun _ b' hb => ?_)
  have htracks := htracks.forth hb
  refine serves_bind (plain_serves (assertVendorForBuildings_plain _ _ _) fun _ b' hb => ?_)
  have htracks := htracks.forth hb
  -- the version check and what follows it
  have hrest : ∀ (links : Id → Option Id) (w b : Db),
      Tracks (.updateContract auth id expected dto) before found links w b →
      Key.contract id ∉ w.keys →
      (∀ b', Evolves b b' → AtVersion (.updateContract auth id expected dto) b' (∀ x,
        addAll auth.organizationId ((Op.updateContract auth id expected dto).requested.getD [])
          links x = (Op.updateContract auth id expected dto).relinked found x)) →
      (saveContract auth id expected ((Op.updateContract auth id expected dto).requested.getD [])
        (ContractsService.contractEdit dto before)).serves engine Evolves
            (Effects cfg (.updateContract auth id expected dto)) (fun _ w b => ∀ b',
              Onward Evolves w b b' → Effects cfg (.updateContract auth id expected dto) b' (w ++ b'))
            w b := by
    intro links w b htracks hfree hlinks
    cases hedit : ContractsService.contractEdit dto before with
    | error failure => trivial
    | ok edit =>
        have hedit : Op.edit cfg (.updateContract auth id expected dto) before = .ok edit := hedit
        rw [saveContract]
        refine serves_bind (updateExpected_serves htracks hfree hedit fun w b' hb hchanged => ?_)
        have hlinks := hlinks b' hb before hchanged.base hchanged.versions
        have hreplays := changed_replays cfg (.updateContract auth id expected dto) before found
        refine serves_bind (createLinks_serves hreplays hchanged fun w b hchanged => ?_)
        refine serves_bind (neutral_serves hchanged
          (reading_neutral (s := .read (.get (.contract id))) trivial) fun out w b hchanged => ?_)
        refine serves_bind (serves_orThrow fun after _ => serves_bind ?_)
        exact neutral_serves hchanged (audit_neutral _) fun _ w b hchanged => hchanged.owes hlinks
  cases hrequested : (givenList dto.buildingIds).map List.eraseDups with
  | none =>
      have hnone : (Op.updateContract auth id expected dto).requested = none := hrequested
      rw [hnone] at hrest
      refine hrest found [] _ htracks (by simp) fun b' _ _ _ _ x => ?_
      simp [addAll, Op.relinked, hnone]
  | some requested =>
      have hsome : (Op.updateContract auth id expected dto).requested = some requested := hrequested
      rw [hsome] at hrest
      refine serves_bind (unlink_serves htracks fun current w b hcurrent htracks hfree => ?_)
      refine hrest _ w b htracks hfree fun b' hb row hrow hversion x => ?_
      have hcurrent := hcurrent.forth htracks.expected hb row hrow hversion
      exact (relinked_of_requested hsome hcurrent x).2

/-- Every update gives its guarantee when its expected version has been committed. -/
theorem program_serves (op : Op) (hexpected : Expected op b) :
    (program cfg op).serves engine Evolves (Effects cfg op) (fun _ _ _ => True) [] b := by
  cases op with
  | updateBuilding auth id expected dto =>
      exact serves_bind (serves_mono (fun _ _ _ _ => trivial)
        (updateBuilding_serves auth id expected dto hexpected))
  | updateVendor auth id expected dto =>
      exact serves_bind (serves_mono (fun _ _ _ _ => trivial)
        (updateVendor_serves auth id expected dto hexpected))
  | updateContract auth id expected dto =>
      exact serves_bind (serves_mono (fun _ _ _ _ => trivial)
        (updateContract_serves auth id expected dto hexpected))

end Programs
end BlocTrust.Crm
