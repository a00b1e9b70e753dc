import BlocTrust.Crm.LostUpdates
import BlocTrust.Crm.RecordConduct

/-!
A contract covers only buildings that its vendor is authorized for.
The triggers look at the view of their own statement, so each statement keeps this of the view of its
transaction.  A commit keeps it of the view of another open transaction unless one of the two has
unlinked a vendor from a building while the other linked a contract to the building or moved a
contract to the vendor; that a contract is moved while another transaction links it is excluded by its
version check, which comes before its links.
-/
namespace BlocTrust.Crm

open ReadCommitted Prog Log

/-- Every link of a contract has a link of its vendor beside it. -/
def Covered (db : Db) : Prop :=
  ∀ c b org, db.contractBuilding c b = some org → ∃ k, db.contract c = some k ∧
    k.organizationId = org ∧ db.vendorBuilding k.vendorId b = some org

/-- The tables that coverage is about. -/
def Key.covering : Key → Bool
  | contract _ | vendorBuilding _ _ | contractBuilding _ _ => true
  | _ => false

section Statements

variable {view rows : Db} {q : Stmt ⊕ Creation} {choice : Nat}

theorem uncovering (h : ∀ k ∈ rows.keys, k.incidental = true) :
    ∀ k ∈ rows.keys, k.covering = false := by
  intro k hk
  have hincidental := h k hk
  cases k with
  | building id | vendor id | audit id | buildingName o t | contractReference o t => rfl
  | _ => cases hincidental

/-- Coverage is about the rows of three tables. -/
theorem Covered.congr {db db' : Db} (h : Covered db)
    (hrows : ∀ k, k.covering = true → row k db' = row k db) : Covered db' := by
  intro c b org hlink
  have hcontract : ∀ c, db'.contract c = db.contract c := fun c => hrows (.contract c) rfl
  have hvendor : ∀ v b, db'.vendorBuilding v b = db.vendorBuilding v b := fun v b =>
    congrArg Option.join (hrows (.vendorBuilding v b) rfl)
  have hsame : db'.contractBuilding c b = db.contractBuilding c b :=
    congrArg Option.join (hrows (.contractBuilding c b) rfl)
  rw [hsame] at hlink
  simp only [hcontract, hvendor]
  exact h c b org hlink

theorem row_other {rows db : Db} (h : ∀ k ∈ rows.keys, k.covering = false) {k : Key}
    (hk : k.covering = true) : row k (rows ++ db) = row k db := by
  refine row_append_of_not_mem _ fun hmem => ?_
  rw [h k hmem] at hk
  cases hk

theorem contract_cons {db entries : Db} (hentries : ∀ k ∈ entries.keys, k.covering = false)
    (c c' : Id) (k : Contract) : Db.contract (⟨.contract c, k⟩ :: entries ++ db) c' =
      if c' = c then some k else db.contract c' := by
  rw [Db.contract, List.cons_append]
  by_cases hsame : c' = c
  · subst hsame
    rw [row_cons_self, if_pos rfl]
  · rw [row_cons_ne _ _ (by simpa using hsame), if_neg hsame]
    exact row_other hentries rfl

theorem vendorBuilding_cons (db : Db) (v b v' b' : Id) (o : Option Id) :
    Db.vendorBuilding (⟨.vendorBuilding v b, o⟩ :: db) v' b' =
      if v' = v ∧ b' = b then o else db.vendorBuilding v' b' := by
  rw [Db.vendorBuilding]
  by_cases hsame : v' = v ∧ b' = b
  · obtain ⟨rfl, rfl⟩ := hsame
    rw [row_cons_self, if_pos ⟨rfl, rfl⟩]
    rfl
  · rw [row_cons_ne _ _ (by simpa using hsame), if_neg hsame]
    rfl

theorem contractBuilding_cons (db : Db) (c b c' b' : Id) (o : Option Id) :
    Db.contractBuilding (⟨.contractBuilding c b, o⟩ :: db) c' b' =
      if c' = c ∧ b' = b then o else db.contractBuilding c' b' := by
  rw [Db.contractBuilding]
  by_cases hsame : c' = c ∧ b' = b
  · obtain ⟨rfl, rfl⟩ := hsame
    rw [row_cons_self, if_pos ⟨rfl, rfl⟩]
    rfl
  · rw [row_cons_ne _ _ (by simpa using hsame), if_neg hsame]
    rfl

/-- A contract version that the trigger passes, or that is new, leaves its links covered. -/
theorem covered_contract {c : Id} {k : Contract} {entries : Db} (h : Covered view)
    (hentries : ∀ k ∈ entries.keys, k.covering = false)
    (hk : ∀ b org, view.contractBuilding c b = some org →
      k.organizationId = org ∧ view.vendorBuilding k.vendorId b = some org) :
    Covered (⟨.contract c, k⟩ :: entries ++ view) := by
  have hvendor : ∀ v b, Db.vendorBuilding (⟨.contract c, k⟩ :: entries ++ view) v b =
      view.vendorBuilding v b := fun v b => by
    rw [Db.vendorBuilding, List.cons_append, row_cons_ne _ _ (by simp), row_other hentries rfl]
    rfl
  have hlinks : ∀ c' b, Db.contractBuilding (⟨.contract c, k⟩ :: entries ++ view) c' b =
      view.contractBuilding c' b := fun c' b => by
    rw [Db.contractBuilding, List.cons_append, row_cons_ne _ _ (by simp), row_other hentries rfl]
    rfl
  intro c' b org hlink
  rw [hlinks] at hlink
  by_cases hsame : c' = c
  · subst hsame
    obtain ⟨horg, hcovers⟩ := hk b org hlink
    exact ⟨k, by rw [contract_cons hentries, if_pos rfl], horg, by rw [hvendor, hcovers]⟩
  · obtain ⟨k', hk', horg, hcovers⟩ := h c' b org hlink
    refine ⟨k', ?_, horg, by rw [hvendor, hcovers]⟩
    rw [contract_cons hentries, if_neg hsame, hk']

/-- The new version keeps the vendor, or the trigger has found a link of the new one. -/
theorem covers_moved {c : Id} {old k : Contract} (h : Covered view) (hold : view.contract c = some old)
    (horg : k.organizationId = old.organizationId)
    (hvalid : validateContractVendorChange view c old k = true) {b org : Id}
    (hlink : view.contractBuilding c b = some org) :
    k.organizationId = org ∧ view.vendorBuilding k.vendorId b = some org := by
  obtain ⟨old', hold', horg', hcovers⟩ := h c b org hlink
  cases hold.symm.trans hold'
  have horg := horg.trans horg'
  refine ⟨horg, ?_⟩
  rcases Bool.or_eq_true_iff.mp hvalid with hsame | hall
  · rw [of_decide_eq_true hsame]
    exact hcovers
  · have hmem : ((c, b), some org) ∈ view.contractBuildings :=
      Db.mem_contractBuildings.mpr (Option.join_eq_some_iff.mp hlink)
    have hfound := List.all_eq_true.mp hall _ hmem
    simpa [horg] using hfound

/-- Each statement keeps coverage of its view. -/
theorem Writes.covered (hw : Writes view q rows) (h : Covered view) : Covered (rows ++ view) := by
  cases hw with
  | other hrows => exact h.congr fun k hk => row_other (uncovering hrows) hk
  | @created c k entries hfresh hentries =>
      refine covered_contract h (uncovering hentries) fun b org hlink => ?_
      obtain ⟨k', hk', -⟩ := h _ b org hlink
      exact absurd (mem_keys_of_row hk') hfresh
  | moved hold horg hvalid hentries =>
      refine covered_contract h (uncovering hentries) fun b org hlink => ?_
      exact covers_moved h hold horg hvalid hlink
  | @unlinkedVendor v b org hlink hfree =>
      intro c b' org' hcovered
      have hcovered : view.contractBuilding c b' = some org' := hcovered
      obtain ⟨k, hk, horg, hvendor⟩ := h c b' org' hcovered
      refine ⟨k, hk, horg, ?_⟩
      rw [List.singleton_append, vendorBuilding_cons]
      split
      · rename_i hsame
        obtain ⟨rfl, rfl⟩ := hsame
        cases hlink.symm.trans hvendor
        have hmem : ((c, b'), some org) ∈ view.contractBuildings :=
          Db.mem_contractBuildings.mpr (Option.join_eq_some_iff.mp hcovered)
        have href : vendorBuildingReferenced view k.vendorId org b' = true := by
          refine List.any_eq_true.mpr ⟨_, hmem, ?_⟩
          simp [hk, horg]
        rw [hfree] at href
        cases href
      · exact hvendor
  | @linkedVendor v b org hnone =>
      intro c b' org' hcovered
      obtain ⟨k, hk, horg, hvendor⟩ := h c b' org' hcovered
      refine ⟨k, hk, horg, ?_⟩
      rw [List.singleton_append, vendorBuilding_cons]
      split
      · rename_i hsame
        obtain ⟨rfl, rfl⟩ := hsame
        cases hnone.symm.trans hvendor
      · exact hvendor
  | @unlinkedContract c b =>
      intro c' b' org' hcovered
      rw [List.singleton_append, contractBuilding_cons] at hcovered
      split at hcovered
      · cases hcovered
      · exact h c' b' org' hcovered
  | @linkedContract c b org hq hvalid =>
      intro c' b' org' hcovered
      rw [List.singleton_append, contractBuilding_cons] at hcovered
      split at hcovered
      · rename_i hsame
        obtain ⟨rfl, rfl⟩ := hsame
        cases hcovered
        obtain ⟨k, hk, hchecked⟩ := (Option.any_eq_true _ _).mp hvalid
        obtain ⟨horg, hvendor⟩ := of_decide_eq_true hchecked
        exact ⟨k, hk, horg, hvendor⟩
      · exact h c' b' org' hcovered

end Statements

section Merge

/-- The first transaction has unlinked a vendor from a building, while the second one has linked a
contract to the building, or moved a contract to the vendor. -/
def Crosses (w w' : Db) : Prop :=
  ∃ v b, ⟨.vendorBuilding v b, none⟩ ∈ w ∧ ((∃ c org, ⟨.contractBuilding c b, some org⟩ ∈ w') ∨
    ∃ (c : Id) (k : Contract), ⟨.contract c, k⟩ ∈ w' ∧ k.vendorId = v)

/-- A transaction that links a contract has written the contract. -/
def OwnsLinks (w : Db) : Prop :=
  ∀ c b org, row (.contractBuilding c b) w = some (some org) → Key.contract c ∈ w.keys

variable {w w' db : Db}

/-- A link of a vendor stays while nobody unlinks it. -/
theorem vendorBuilding_stays (hchain : Chain linking (w ++ db)) {v b org : Id}
    (hlink : db.vendorBuilding v b = some org) (hkept : ⟨.vendorBuilding v b, none⟩ ∉ w) :
    Db.vendorBuilding (w ++ db) v b = some org := by
  induction w with
  | nil => exact hlink
  | cons s w ih =>
      have hrest := ih hchain.2 fun hmem => hkept (List.mem_cons_of_mem _ hmem)
      by_cases hkey : Key.vendorBuilding v b = s.1
      · obtain ⟨k, o⟩ := s
        subst hkey
        have hlegal : o = none ∨ Db.vendorBuilding (w ++ db) v b = none := hchain.1
        rcases hlegal with rfl | hnone
        · exact absurd List.mem_cons_self hkept
        · rw [hrest] at hnone
          cases hnone
      · rw [Db.vendorBuilding, List.cons_append, row_cons_ne _ _ hkey]
        exact hrest

/-- A vendor that the transaction has unlinked and linked again. -/
theorem covered_unlinked (hw : Covered (w ++ db)) {c b org : Id} {k : Contract}
    (hlinkFree : Key.contractBuilding c b ∉ w.keys) (hfree : Key.contract c ∉ w.keys)
    (hdeleted : ⟨.vendorBuilding k.vendorId b, none⟩ ∈ w) (hcross : ¬ Crosses w w')
    (hlink : Db.contractBuilding (w' ++ db) c b = some org)
    (hk : Db.contract (w' ++ db) c = some k) :
    Db.vendorBuilding (w ++ (w' ++ db)) k.vendorId b = some org := by
  have hlinkFree' : Key.contractBuilding c b ∉ w'.keys := by
    intro hmem
    obtain ⟨o, ho⟩ := exists_row_of_mem_keys hmem
    rw [Db.contractBuilding, row_append_of_row _ ho] at hlink
    have hlink : o = some org := hlink
    subst hlink
    exact hcross ⟨k.vendorId, b, hdeleted, .inl ⟨c, org, mem_of_row ho⟩⟩
  have hfree' : Key.contract c ∉ w'.keys := by
    intro hmem
    obtain ⟨k', hk'⟩ := exists_row_of_mem_keys hmem
    rw [Db.contract, row_append_of_row _ hk'] at hk
    cases hk
    exact hcross ⟨k.vendorId, b, hdeleted, .inr ⟨c, k, mem_of_row hk', rfl⟩⟩
  -- the contract and its link were there before both transactions
  rw [Db.contractBuilding, row_append_of_not_mem _ hlinkFree'] at hlink
  rw [Db.contract, row_append_of_not_mem _ hfree'] at hk
  obtain ⟨k', hk', -, hvendor⟩ := hw c b org (by
    rwa [Db.contractBuilding, row_append_of_not_mem _ hlinkFree])
  rw [Db.contract, row_append_of_not_mem _ hfree] at hk'
  cases hk.symm.trans hk'
  have hmem : Key.vendorBuilding k.vendorId b ∈ w.keys := List.mem_map_of_mem hdeleted
  obtain ⟨o, ho⟩ := exists_row_of_mem_keys hmem
  rw [Db.vendorBuilding, row_append_of_row _ ho] at hvendor ⊢
  exact hvendor

/-- Views that are covered stay so when the other transaction commits and the two do not cross. -/
theorem covered_merge (hchain : Chain linking (w ++ (w' ++ db)))
    (hlocks : ∀ k ∈ w.keys, k ∉ w'.keys) (hw : Covered (w ++ db)) (hw' : Covered (w' ++ db))
    (howns : OwnsLinks w) (howns' : OwnsLinks w') (hcross : ¬ Crosses w w')
    (hcross' : ¬ Crosses w' w) : Covered (w ++ (w' ++ db)) := by
  intro c b org hlink
  -- a link that the view has is there, unless the other transaction removed it
  have hstays : ∀ v, Db.vendorBuilding (w ++ db) v b = some org →
      ⟨.vendorBuilding v b, none⟩ ∉ w' → Db.vendorBuilding (w ++ (w' ++ db)) v b = some org := by
    intro v hvendor hkept
    by_cases hmem : Key.vendorBuilding v b ∈ w.keys
    · obtain ⟨o, ho⟩ := exists_row_of_mem_keys hmem
      rw [Db.vendorBuilding, row_append_of_row _ ho] at hvendor ⊢
      exact hvendor
    · rw [Db.vendorBuilding, row_append_of_not_mem _ hmem] at hvendor ⊢
      exact vendorBuilding_stays hchain.of_append hvendor hkept
  by_cases hown : Key.contract c ∈ w.keys
  · obtain ⟨k, hk⟩ := exists_row_of_mem_keys hown
    -- the contract and its link are as in the view of the first transaction
    have hview : Db.contractBuilding (w ++ db) c b = some org := by
      by_cases hmem : Key.contractBuilding c b ∈ w.keys
      · obtain ⟨o, ho⟩ := exists_row_of_mem_keys hmem
        rw [Db.contractBuilding, row_append_of_row _ ho] at hlink ⊢
        exact hlink
      · rw [Db.contractBuilding, row_append_of_not_mem _ hmem] at hlink ⊢
        by_cases hmem' : Key.contractBuilding c b ∈ w'.keys
        · obtain ⟨o, ho⟩ := exists_row_of_mem_keys hmem'
          rw [row_append_of_row _ ho] at hlink
          have hlink : o = some org := hlink
          subst hlink
          exact absurd (howns' c b org ho) (hlocks _ hown)
        · rwa [row_append_of_not_mem _ hmem'] at hlink
    obtain ⟨k', hk', horg, hvendor⟩ := hw c b org hview
    rw [Db.contract, row_append_of_row _ hk] at hk'
    cases hk'
    refine ⟨k, row_append_of_row _ hk, horg, hstays _ hvendor fun hmem => hcross' ?_⟩
    exact ⟨k.vendorId, b, hmem, .inr ⟨c, k, mem_of_row hk, rfl⟩⟩
  · by_cases hmem : Key.contractBuilding c b ∈ w.keys
    · obtain ⟨o, ho⟩ := exists_row_of_mem_keys hmem
      rw [Db.contractBuilding, row_append_of_row _ ho] at hlink
      have hlink : o = some org := hlink
      subst hlink
      exact absurd (howns c b org ho) hown
    · have hbelow : Db.contractBuilding (w' ++ db) c b = some org := by
        rwa [Db.contractBuilding, row_append_of_not_mem _ hmem] at hlink
      obtain ⟨k, hk, horg, hvendor⟩ := hw' c b org hbelow
      refine ⟨k, ?_, horg, ?_⟩
      · rw [Db.contract, row_append_of_not_mem _ hown]
        exact hk
      · by_cases hkept : ⟨.vendorBuilding k.vendorId b, none⟩ ∈ w
        · exact covered_unlinked hw hmem hown hkept hcross hbelow hk
        · exact vendorBuilding_stays hchain hvendor hkept

end Merge

section Runs

variable {cfg : Config} {view rows db : Db} {q : Stmt ⊕ Creation}

/-- The statement that inserts a link of a contract. -/
theorem Writes.inserts_link (hw : Writes view q rows) {c b org : Id}
    (hrow : row (.contractBuilding c b) rows = some (some org)) :
    ∃ org', q = .inl (.insertLink (.contract c) org' b) := by
  have hkey := mem_keys_of_row hrow
  have hentries : ∀ {c' : Id} {k : Contract} {entries : Db},
      (∀ k ∈ entries.keys, k.covering = false) →
      Key.contractBuilding c b ∉ List.keys (⟨.contract c', k⟩ :: entries : Db) := by
    intro c' k entries hfree hmem
    rcases List.mem_cons.mp hmem with heq | hmem
    · cases heq
    · cases hfree _ hmem
  cases hw with
  | other hrows => cases hrows _ hkey
  | created hfresh hfree => exact absurd hkey (hentries (uncovering hfree))
  | moved hold horg hvalid hfree => exact absurd hkey (hentries (uncovering hfree))
  | unlinkedVendor hlink hfree => cases List.mem_singleton.mp hkey
  | linkedVendor hnone => cases List.mem_singleton.mp hkey
  | unlinkedContract =>
      cases List.mem_singleton.mp hkey
      rw [row_cons_self] at hrow
      cases hrow
  | linkedContract hq hvalid =>
      cases List.mem_singleton.mp hkey
      exact ⟨_, hq⟩

/-- What counts as a write of a contract has written its row. -/
theorem wrote_row {choice : Nat} {out : RecordOut q} {c : Id}
    (h : (recordMachine cfg).engine q choice view = some (.ok (out, rows)))
    (hwrote : Wrote [⟨q, out⟩] c) : Key.contract c ∈ rows.keys := by
  rcases hwrote with ⟨org, version, e, hmem⟩ | ⟨k, hmem⟩
  · cases List.mem_singleton.mp hmem
    have h : updateRow view (.contract c) org version e = .ok (1, rows) := Option.some.inj h
    obtain ⟨old, entries, -, -, rfl, -⟩ := updateRow_ok h
    exact List.mem_cons_self
  · cases List.mem_singleton.mp hmem
    have h : createEngine (.contract k) choice view = some (.ok (c, rows)) := h
    simp only [createEngine] at h
    split at h
    · cases h
    · cases hrow : createRow view choice (.contract k) with
      | error e =>
          rw [hrow] at h
          cases h
      | ok rows' =>
          rw [hrow] at h
          cases h
          simp only [createRow] at hrow
          split at hrow
          · cases hrow
          · split at hrow
            · cases hrow
            · split at hrow
              · cases hrow
              · cases hrow
                exact List.mem_cons_self

/-- A link that a transaction inserts is one of a contract that it has written. -/
theorem ownsLinks {p : RecordProcess}
    (h : ProcOk (recordMachine cfg) recordConduct linking db p) : OwnsLinks p.writes := by
  intro c b org hrow
  obtain ⟨new, e, older, hcur, hwritten, -⟩ := exists_writer hrow
  have htrace := h.trace
  rw [hcur] at htrace
  obtain ⟨⟨choice, hran⟩, hbefore, -⟩ := htrace.executed
  obtain ⟨org', hq⟩ := (engine_writes hran).inserts_link hwritten
  have hwrote : Wrote (older.map Event.call) c := by
    have hbefore : authorized p.op.auth (older.map Event.call) e.stmt := hbefore
    rw [hq] at hbefore
    exact hbefore.2.2 c rfl
  obtain ⟨call, hcall, hone⟩ : ∃ call ∈ older.map Event.call, Wrote [call] c := by
    rcases hwrote with ⟨o, version, e', hmem⟩ | ⟨k, hmem⟩
    · exact ⟨_, hmem, .inl ⟨o, version, e', List.mem_singleton_self _⟩⟩
    · exact ⟨_, hmem, .inr ⟨k, List.mem_singleton_self _⟩⟩
  obtain ⟨e', he', rfl⟩ := List.mem_map.mp hcall
  have hmem : e' ∈ p.current := by
    rw [hcur]
    exact List.mem_append_right _ (List.mem_cons_of_mem _ he')
  obtain ⟨new', older', hsplit, hexecuted⟩ := h.trace.split hmem
  obtain ⟨choice', hran'⟩ := hexecuted.ran
  exact mem_keys_writes.mpr ⟨e', hmem, wrote_row hran' hone⟩

/-- Transactions commit while none that is open crosses them. -/
def uncrossed (s : RecordSystem) : RecordAction → Prop
  | .exec i _ => ∀ p next, s.procs[i]? = some p → p.prog = .commit next →
      ∀ (j : Nat) q, j ≠ i → s.procs[j]? = some q →
        ¬ Crosses p.writes q.writes ∧ ¬ Crosses q.writes p.writes
  | _ => True

/-- The committed log and the view of every transaction are covered. -/
structure Covers (s : RecordSystem) : Prop where
  db : Covered s.db
  views : ∀ (i : Nat) p, s.procs[i]? = some p → Covered (p.writes ++ s.db)

theorem Covers.set {s : RecordSystem} (h : Covers s) {i : Nat} {p : RecordProcess}
    (hp : Covered (p.writes ++ s.db)) : Covers (s.set i p) := by
  refine ⟨h.db, fun j q hq => ?_⟩
  rcases getElem?_set_cases hq with ⟨rfl, rfl⟩ | ⟨-, hold⟩
  · exact hp
  · exact h.views j q hold

theorem Covers.step {s s' : RecordSystem} {a : RecordAction} (h : Covers s)
    (hcons : Consistent (recordMachine cfg) recordConduct linking s) (ha : uncrossed s a)
    (hs : Step (recordMachine cfg) s a s') : Covers s' := by
  cases hs with
  | start op =>
      refine ⟨h.db, fun j q hq => ?_⟩
      rcases getElem?_concat_cases hq with rfl | hold
      · exact h.db
      · exact h.views j q hold
  | answer i c p q next out rows hp hq hrun hfree =>
      refine h.set ?_
      have hview := (engine_writes hrun).covered (h.views i p hp)
      rwa [← List.append_assoc] at hview
  | refuse i c p q next e hp hq hrun => exact h.set h.db
  | rollback i c p next hp hq => exact h.set h.db
  | fault i p q next e hp hq => exact h.set h.db
  | faultCommit i p next e hp hq => exact h.set h.db
  | kill i p e hp => exact h.set h.db
  | commit i c p next hp hq =>
      refine ⟨h.views i p hp, fun j q hj => ?_⟩
      rcases getElem?_set_cases hj with ⟨rfl, rfl⟩ | ⟨hne, hold⟩
      · exact h.views j p hp
      · obtain ⟨hcross, hcross'⟩ := ha p next hp hq j q hne hold
        have hok := (hcons.step recordDiscipline (.commit i c p next hp hq)).proc j q hj
        exact covered_merge hok.view (hcons.locks j i q p hne hold hp) (h.views j q hold)
          (h.views i p hp) (ownsLinks (hcons.proc j q hold)) (ownsLinks (hcons.proc i p hp))
          hcross' hcross
  | env rows hext hfree =>
      have hother : ∀ k ∈ List.keys rows, k.covering = false := fun k hk => by
        have hout := outside_of_mem hext hk
        cases k with
        | access id | audit id => rfl
        | _ => cases hout
      refine ⟨h.db.congr fun k hk => row_other hother hk, fun j q hq => ?_⟩
      exact (h.views j q hq).congr fun k hk => row_append_congr _ (row_other hother hk)

/-- In every run in which no transaction commits while another one crosses it, every building of a
contract is one of its vendor, in the organization of both. -/
theorem contracts_covered {s₀ s : RecordSystem} (h₀ : Idle linking s₀) (hcovered : Covered s₀.db)
    (hrun : Run (recordMachine cfg) uncrossed s₀ s) : Covered s.db := by
  have hinit : Covers s₀ := ⟨hcovered, by simp [h₀.procs]⟩
  have hcovers : Covers s := by
    refine hrun.invariant hinit fun u a v hu hcovers ha hs => ?_
    exact hcovers.step (Run.consistent recordDiscipline h₀.consistent hu) ha hs
  exact hcovers.db

end Runs

section Sample

/-- Vendor 4 works in building 2. -/
def coverageStart : RecordSystem :=
  ⟨[⟨.vendorBuilding 4 2, some 1⟩, ⟨.vendor 4, sampleVendor⟩, ⟨.building 2, sampleBuilding 'a'⟩], []⟩

theorem coverageStart_idle : Idle linking coverageStart :=
  ⟨⟨.inr rfl, trivial, trivial, trivial⟩, rfl⟩

theorem coverageStart_covered : Covered coverageStart.db := by
  intro c b org hlink
  cases hlink

/-- A contract of the vendor for building 2. -/
def createSample : RecordOp :=
  .createContract ⟨7, 1, .owner⟩
    { vendorId := 4
      reference := ['R']
      title := ['T']
      serviceCategory := ['S']
      valueLimit := none
      currency := none
      startsOn := 0
      endsOn := none
      status := .absent
      documentReference := none
      buildingIds := [2] }

/-- An update of the vendor that asks for no building. -/
def unlinkSample : RecordOp :=
  .update (.updateVendor ⟨7, 1, .owner⟩ 4 1
    { legalName := .absent
      tradingName := .absent
      registrationNumber := .absent
      taxId := .absent
      email := .absent
      phone := .absent
      status := .absent
      tags := .absent
      internalNotes := .absent
      buildingIds := .given [] })

/-- Commits while nobody else has written anything. -/
def unshared (s : RecordSystem) : RecordAction → Bool
  | .start _ => true
  | .exec i _ =>
      match (s.procs[i]?).map Proc.prog with
      | some (.commit _) => (s.procs.eraseIdx i).all fun q => q.writes.isEmpty
      | _ => true
  | _ => false

theorem uncrossed_of_unshared (s : RecordSystem) (a : RecordAction) (h : unshared s a = true) :
    uncrossed s a := by
  cases a with
  | exec i c =>
      intro p next hp hprog j q hne hq
      simp only [unshared, hp, Option.map_some, hprog] at h
      have hmem : q ∈ s.procs.eraseIdx i := List.mem_eraseIdx_iff_getElem?.mpr ⟨j, hne, hq⟩
      have hempty : q.writes = [] := List.isEmpty_iff.mp (List.all_eq_true.mp h q hmem)
      rw [hempty]
      constructor
      · rintro ⟨v, b, -, ⟨c, org, hlink⟩ | ⟨c, k, hk, -⟩⟩
        · exact List.not_mem_nil hlink
        · exact List.not_mem_nil hk
      · rintro ⟨v, b, hdeleted, -⟩
        exact List.not_mem_nil hdeleted
  | _ => trivial

/-- The vendor is being unlinked when the contract is committed, and is kept by the reference. -/
theorem contracts_covered_sample : ∃ s : RecordSystem, Covered s.db ∧
    Db.contractBuilding s.db 9 2 = some 1 ∧ Db.vendorBuilding s.db 4 2 = some 1 := by
  obtain ⟨s, hrun, hcheck⟩ := exists_run (M := recordMachine sampleConfig) (s := coverageStart)
    (.start createSample :: .start unlinkSample ::
      [(0, 0), (0, 0), (0, 0), (0, 9), (1, 0), (0, 0), (1, 0), (0, 1), (1, 0), (0, 0), (1, 0),
        (1, 0)].map fun e => .exec e.1 e.2)
    (fun s => Db.contractBuilding s.db 9 2 = some 1 ∧ Db.vendorBuilding s.db 4 2 = some 1)
    uncrossed_of_unshared (by decide +kernel)
  exact ⟨s, contracts_covered coverageStart_idle coverageStart_covered hrun,
    of_decide_eq_true hcheck⟩

/-- The triggers of two transactions that cross do not see each other's links. -/
theorem crossing_uncovers : Covered coverageStart.db ∧ ∃ s : RecordSystem,
    Run (recordMachine sampleConfig) overlapping coverageStart s ∧ ¬ Covered s.db := by
  obtain ⟨s, hrun, hcheck⟩ := exists_run (M := recordMachine sampleConfig) (s := coverageStart)
    (.start createSample :: .start unlinkSample ::
      [(0, 0), (0, 0), (0, 0), (0, 9), (0, 0), (1, 0), (1, 0), (1, 0), (1, 0), (1, 0), (1, 0),
        (1, 0), (0, 1), (1, 2), (0, 0), (1, 0)].map fun e => .exec e.1 e.2)
    (fun s => Db.contractBuilding s.db 9 2 = some 1 ∧ Db.vendorBuilding s.db 4 2 = none ∧
      (Db.contract s.db 9).any fun k => k.vendorId = 4)
    (fun s a (_ : overlaps s a = true) => trivial) (by decide +kernel)
  obtain ⟨hlink, hvendor, hcontract⟩ := of_decide_eq_true hcheck
  obtain ⟨k, hk, hsame⟩ := (Option.any_eq_true _ _).mp hcontract
  refine ⟨coverageStart_covered, s, hrun, fun hcovered => ?_⟩
  obtain ⟨k', hk', -, hlinked⟩ := hcovered 9 2 1 hlink
  cases hk.symm.trans hk'
  rw [of_decide_eq_true hsame, hvendor] at hlinked
  cases hlinked

end Sample
end BlocTrust.Crm
