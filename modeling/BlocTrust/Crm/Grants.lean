import BlocTrust.Crm.LostUpdates
import BlocTrust.Crm.RecordConduct
import BlocTrust.ReadCommitted.Accounts

/-!
Changes are made by owners, and by administrators under their grants.
A process looks for a grant before it changes a building or a link, and before it changes an entity
for each building that the entity is linked to; the row that it finds is one of the committed log at
that time.
-/
namespace BlocTrust.Crm

open ReadCommitted Prog Log

/-- A grant of the membership for the building, valid at the time. -/
def GrantIn (db : Db) (auth : AuthContext) (b : Id) (now : Time) : Prop :=
  ∃ id a, row (.access id) db = some a ∧ a.organizationId = auth.organizationId ∧
    a.membershipId = auth.membershipId ∧ a.buildingId = b ∧ a.validFrom ≤ now ∧
      ∀ t ∈ a.validUntil, now < t

/-- The caller is an owner, or an administrator with a grant at a reading of the clock. -/
def MayManage (db : Db) (auth : AuthContext) (calls : Calls RecordOut) (b : Id) : Prop :=
  auth.role = .owner ∨ auth.role = .administrator ∧ ∃ now : Time, ⟨.inl .clock, now⟩ ∈ calls ∧
    ∃ base, base <:+ db ∧ GrantIn base auth b now

/-- The calls inserted the row. -/
def Inserted (calls : Calls RecordOut) (k : Key) : Prop :=
  ∃ x id, ⟨.inr x, id⟩ ∈ calls ∧ x.key id = k

/-- The caller may manage every building that the entity was found linked to. -/
def ManagesAll (db : Db) (auth : AuthContext) (calls : Calls RecordOut) (k : Key)
    (links : List Id) : Prop :=
  ⟨.inl (.read (.buildingLinks k auth.organizationId)), links⟩ ∈ calls ∧
    ∀ b ∈ links, MayManage db auth calls b

/-- Why the caller may write the version. -/
def Answerable (db : Db) (auth : AuthContext) (calls : Calls RecordOut) : (k : Key) → Val k → Prop
  | .building id, _ => Inserted calls (.building id) ∨ MayManage db auth calls id
  | .vendor v, _ => Inserted calls (.vendor v) ∨ ∃ links,
      ManagesAll db auth calls (.vendor v) links ∧ (auth.role = .owner ∨ links ≠ [])
  | .contract c, _ => Inserted calls (.contract c) ∨ ∃ links,
      ManagesAll db auth calls (.contract c) links
  | .vendorBuilding _ b, o => (∀ org ∈ o, org = auth.organizationId) ∧ MayManage db auth calls b
  | .contractBuilding _ b, some org => org = auth.organizationId ∧ MayManage db auth calls b
  | _, _ => True

section Statements

variable {cfg : Config} {db db' view rows : Db} {auth : AuthContext}
  {calls calls' cur : Calls RecordOut} {q : Stmt ⊕ Creation} {choice : Nat} {out : RecordOut q}

/-- Entries of unique indexes and audit events. -/
theorem answerable_unowned {k : Key} (hk : owner k = none) (v : Val k) :
    Answerable db auth calls k v := by
  cases k with
  | access id | audit id | buildingName org name | contractReference org reference => trivial
  | _ => cases hk

theorem answerable_entries {entries : Db} (hentries : ∀ k ∈ entries.keys, owner k = none) :
    ∀ r ∈ entries, Answerable db auth calls r.1 r.2 :=
  fun r hr => answerable_unowned (hentries r.1 (List.mem_map_of_mem hr)) r.2

theorem createRow_entries {x : Creation} {id : Id} (h : createRow view id x = .ok rows) :
    ∃ v entries, rows = ⟨x.key id, v⟩ :: entries ∧ ∀ k ∈ entries.keys, owner k = none := by
  cases x with
  | building b =>
      simp only [createRow] at h
      split at h
      · cases h
      · split at h
        · cases h
        · cases h
          exact ⟨b, _, rfl, by simp [List.keys, owner]⟩
  | vendor v =>
      simp only [createRow] at h
      split at h
      · cases h
      · cases h
        exact ⟨v, [], rfl, by simp⟩
  | contract c =>
      simp only [createRow] at h
      split at h
      · cases h
      · split at h
        · cases h
        · split at h
          · cases h
          · cases h
            exact ⟨c, _, rfl, by simp [List.keys, owner]⟩

theorem updateRow_entries {k : Key} {org expected n : Nat} {c : Change k}
    (h : updateRow view k org expected c = .ok (n, rows)) : rows = [] ∨ ∃ v entries,
      rows = ⟨k, v⟩ :: entries ∧ ∀ k ∈ entries.keys, owner k = none := by
  by_cases hn : n = 1
  · subst hn
    obtain ⟨old, entries, -, -, hrows, hentries⟩ := updateRow_ok h
    exact .inr ⟨_, entries, hrows, hentries⟩
  · unfold updateRow at h
    split at h
    · cases h
      exact .inl rfl
    · split at h
      · cases hcheck : admitUpdate view k c _ _ with
        | error e =>
            rw [hcheck] at h
            cases h
        | ok entries =>
            rw [hcheck] at h
            cases h
            exact absurd rfl hn
      · cases h
        exact .inl rfl

theorem answerable_insert {x : Creation} {id : Id}
    (hcall : ⟨.inr x, id⟩ ∈ calls) (w : Val (x.key id)) :
    Answerable db auth calls (x.key id) w := by
  have hinserted : Inserted calls (x.key id) := ⟨x, id, hcall, rfl⟩
  cases x with
  | building b => exact .inl hinserted
  | vendor v => exact .inl hinserted
  | contract c => exact .inl hinserted

theorem answerable_single {k : Key} {v : Val k} (hv : Answerable db auth calls k v) :
    ∀ r ∈ ([⟨k, v⟩] : Db), Answerable db auth calls r.1 r.2 := by
  intro r hr
  cases List.mem_singleton.mp hr
  exact hv

theorem answerable_head {k : Key} {v : Val k} {entries : Db} (hv : Answerable db auth calls k v)
    (hentries : ∀ k ∈ entries.keys, owner k = none) :
    ∀ r ∈ (⟨k, v⟩ :: entries : Db), Answerable db auth calls r.1 r.2 := by
  intro r hr
  rcases List.mem_cons.mp hr with rfl | hr
  · exact hv
  · exact answerable_entries hentries r hr

theorem Managed.all {k : Key} {links : List Id} (hm : Managed auth cur k links)
    (hsub : cur ⊆ calls) (hgrants : ∀ b, GrantFound auth cur b → MayManage db auth calls b) :
    ManagesAll db auth calls k links :=
  ⟨hsub hm.1, fun b hb => hgrants b (hm.2 b hb)⟩

theorem updateRow_answerable {k : Key} {org expected n : Nat} {c : Change k}
    (h : updateRow view k org expected c = .ok (n, rows))
    (hauth : authorized auth cur (.inl (.update k org expected c))) (hsub : cur ⊆ calls)
    (hgrants : ∀ b, GrantFound auth cur b → MayManage db auth calls b) :
    ∀ r ∈ rows, Answerable db auth calls r.1 r.2 := by
  rcases updateRow_entries h with rfl | ⟨v, entries, rfl, hentries⟩
  · simp
  · refine answerable_head ?_ hentries
    cases k with
    | building id => exact .inr (hgrants _ hauth)
    | vendor v =>
        obtain ⟨links, hlinks, hrole⟩ := hauth
        exact .inr ⟨links, hlinks.all hsub hgrants, hrole⟩
    | contract c =>
        obtain ⟨links, hlinks⟩ := hauth
        exact .inr ⟨links, hlinks.all hsub hgrants⟩
    | _ => exact c.elim

theorem deleteLink_answerable {k : Key} {org b n : Nat}
    (h : deleteLink view org b k = .ok (n, rows))
    (hauth : authorized auth cur (.inl (.deleteLink k org b)))
    (hgrants : ∀ b, GrantFound auth cur b → MayManage db auth calls b) :
    ∀ r ∈ rows, Answerable db auth calls r.1 r.2 := by
  cases k with
  | vendor v =>
      simp only [deleteLink] at h
      split at h
      · split at h
        · cases h
        · cases h
          exact answerable_single ⟨by simp, hgrants b hauth⟩
      · cases h
        simp
  | contract c =>
      simp only [deleteLink] at h
      split at h
      · cases h
        exact answerable_single trivial
      · cases h
        simp
  | _ =>
      cases h
      simp

theorem insertLink_answerable {k : Key} {b : Id} {o : Unit}
    (h : insertLink view auth.organizationId b k = .ok (o, rows))
    (hgranted : MayManage db auth calls b) :
    ∀ r ∈ rows, Answerable db auth calls r.1 r.2 := by
  cases k with
  | vendor v =>
      simp only [insertLink] at h
      split at h
      · cases h
      · split at h
        · cases h
          exact answerable_single ⟨by simp, hgranted⟩
        · cases h
  | contract c =>
      simp only [insertLink] at h
      split at h
      · cases h
      · split at h
        · cases h
        · split at h
          · cases h
            exact answerable_single ⟨rfl, hgranted⟩
          · cases h
  | _ => cases h

theorem create_answerable {x : Creation} {id : Id}
    (h : createEngine x choice view = some (.ok (id, rows))) (hcall : ⟨.inr x, id⟩ ∈ calls) :
    ∀ r ∈ rows, Answerable db auth calls r.1 r.2 := by
  simp only [createEngine] at h
  split at h
  · cases h
  · cases hrow : createRow view choice x with
    | error e =>
        rw [hrow] at h
        cases h
    | ok rows' =>
        rw [hrow] at h
        cases h
        obtain ⟨v, entries, rfl, hentries⟩ := createRow_entries hrow
        exact answerable_head (answerable_insert hcall v) hentries

/-- A statement that was authorized writes versions that the caller answers for. -/
theorem engine_answerable
    (h : (recordMachine cfg).engine q choice view = some (.ok (out, rows)))
    (hauth : authorized auth cur q) (hcall : ⟨q, out⟩ ∈ calls) (hsub : cur ⊆ calls)
    (hgrants : ∀ b, GrantFound auth cur b → MayManage db auth calls b) :
    ∀ r ∈ rows, Answerable db auth calls r.1 r.2 := by
  cases q with
  | inl s =>
      have h : engine s choice view = some (.ok (out, rows)) := h
      cases s with
      | read q => simp [(read_ok h).2]
      | clock =>
          cases h
          simp
      | update k org expected c =>
          exact updateRow_answerable (Option.some.inj h) hauth hsub hgrants
      | deleteLink k org b => exact deleteLink_answerable (Option.some.inj h) hauth hgrants
      | insertLink k org b =>
          obtain ⟨rfl, hgranted, -⟩ := hauth
          exact insertLink_answerable (Option.some.inj h) (hgrants b hgranted)
      | insertAudit a =>
          simp only [engine] at h
          split at h
          · cases h
          · cases h
            exact answerable_single trivial
  | inr x => exact create_answerable h hcall

/-- No statement writes grants. -/
theorem Writes.no_access (hw : Writes view q rows) (id : Id) : Key.access id ∉ rows.keys := by
  have hentries : ∀ {c : Id} {k : Contract} {entries : Db},
      (∀ k ∈ entries.keys, k.incidental = true) →
      Key.access id ∉ List.keys (⟨.contract c, k⟩ :: entries : Db) := by
    intro c k entries hfree hmem
    rcases List.mem_cons.mp hmem with heq | hmem
    · cases heq
    · cases hfree _ hmem
  intro hmem
  cases hw with
  | other hrows => cases hrows _ hmem
  | created hfresh hfree => exact hentries hfree hmem
  | moved hold horg hvalid hfree => exact hentries hfree hmem
  | unlinkedVendor hlink hfree => cases List.mem_singleton.mp hmem
  | linkedVendor hnone => cases List.mem_singleton.mp hmem
  | unlinkedContract => cases List.mem_singleton.mp hmem
  | linkedContract hq hvalid => cases List.mem_singleton.mp hmem

end Statements

section Runs

variable {cfg : Config} {db view : Db} {choice : Nat} {cur : Calls RecordOut}

/-- The grant that a query has found. -/
theorem findAccess_ok {org membershipId b now id : Id}
    (h : answer choice view (.findAccess org membershipId b now) = some (some id)) :
    ∃ a, row (.access id) view = some a ∧ a.organizationId = org ∧
      a.membershipId = membershipId ∧ a.buildingId = b ∧ a.validFrom ≤ now ∧
        ∀ t ∈ a.validUntil, now < t := by
  simp only [answer, anyOf] at h
  split at h
  · cases h
  · obtain ⟨id', hget, heq⟩ := Option.map_eq_some_iff.mp h
    cases heq
    obtain ⟨⟨id', a⟩, hmem, rfl⟩ := List.mem_map.mp (List.mem_of_getElem? hget)
    obtain ⟨hrow, hvalid⟩ := List.mem_filter.mp hmem
    obtain ⟨horg, hmember, hbuilding, hfrom, huntil⟩ := of_decide_eq_true hvalid
    refine ⟨a, Db.mem_accesses.mp hrow, horg, hmember, hbuilding, hfrom, fun t ht => ?_⟩
    rw [Option.mem_def.mp ht] at huntil
    exact of_decide_eq_true huntil

variable {p : RecordProcess}

/-- A grant that the transaction has found is one of the committed log. -/
theorem granted_mayManage (h : ProcOk (recordMachine cfg) recordConduct linking db p)
    (hcur : cur ⊆ p.calls) {b : Id} (hg : GrantFound p.op.auth cur b) :
    MayManage db p.op.auth p.calls b := by
  refine hg.imp_right ?_
  rintro ⟨hrole, now, id, hclock, hfound⟩
  refine ⟨hrole, now, hcur hclock, ?_⟩
  obtain ⟨⟨q, out, rows, base⟩, he, hcall⟩ := List.mem_map.mp (hcur hfound)
  cases hcall
  obtain ⟨new, older, hsplit, hexecuted⟩ := h.trace.split he
  obtain ⟨choice, hran⟩ := hexecuted.ran
  obtain ⟨hanswer, -⟩ := read_ok hran
  obtain ⟨a, hrow, hvalid⟩ := findAccess_ok hanswer
  have hfree : Key.access id ∉ (writes older).keys := by
    intro hmem
    obtain ⟨e', he', hkey⟩ := mem_keys_writes.mp hmem
    have hmem' : e' ∈ p.current := by
      rw [hsplit]
      exact List.mem_append_right _ (List.mem_cons_of_mem _ he')
    obtain ⟨_, _, -, hexecuted'⟩ := h.trace.split hmem'
    obtain ⟨choice', hran'⟩ := hexecuted'.ran
    exact (engine_writes hran').no_access id hkey
  rw [row_append_of_not_mem _ hfree] at hrow
  exact ⟨base, h.bases he, id, a, hrow, hvalid⟩

/-- What an open transaction has written. -/
theorem writes_answerable (h : ProcOk (recordMachine cfg) recordConduct linking db p) :
    ∀ r ∈ p.writes, Answerable db p.op.auth p.calls r.1 r.2 := by
  intro r hr
  obtain ⟨e, he, hrow⟩ := List.mem_flatMap.mp hr
  obtain ⟨new, older, hsplit, hexecuted⟩ := h.trace.split he
  obtain ⟨choice, hran⟩ := hexecuted.ran
  have hsub : older.map Event.call ⊆ p.calls := by
    rw [Proc.calls, hsplit, List.map_append]
    exact fun c hc => List.mem_append_right _ (List.mem_cons_of_mem _ hc)
  have hcall : e.call ∈ p.calls := List.mem_map_of_mem he
  exact engine_answerable hran hexecuted.allowed hcall hsub
    (fun b hb => granted_mayManage h hsub hb) r hrow

/-- The version `r` above `older` was committed by a process that answers for it by the calls of
that transaction. -/
def Answers (cfg : Config) (s₀ s : RecordSystem) (r : Sigma Val) (older : Db) : Prop :=
  ∃ (t t' : RecordSystem) (i c : Nat) (p : RecordProcess),
    Run (recordMachine cfg) overlapping s₀ t ∧ Step (recordMachine cfg) t (.exec i c) t' ∧
    Run (recordMachine cfg) overlapping t' s ∧ t.procs[i]? = some p ∧
    t'.db = p.writes ++ t.db ∧ t.db <:+ older ∧ (r :: older) <:+ t'.db ∧
    Answerable t.db p.op.auth p.calls r.1 r.2

variable {s s' t s₀ : RecordSystem} {a : RecordAction} {r : Sigma Val} {older : Db}

theorem Answers.step (h : Answers cfg s₀ s r older) (ha : overlapping s a)
    (hs : Step (recordMachine cfg) s a s') : Answers cfg s₀ s' r older := by
  obtain ⟨t, t', i, c, p, ht, hcommit, hrun, hwrote⟩ := h
  exact ⟨t, t', i, c, p, ht, hcommit, .step hrun ha hs, hwrote⟩

/-- A version that a step has added is one that a process commits in it. -/
theorem answers_added (hcons : Consistent (recordMachine cfg) recordConduct linking t)
    (hrun : Run (recordMachine cfg) overlapping s₀ t) (hs : Step (recordMachine cfg) t a s')
    (hinside : outside r.1 = false) (hnew : t.db <:+ older) (hr : (r :: older) <:+ s'.db) :
    Answers cfg s₀ s' r older := by
  have hmem : ∀ {rows : Db}, s'.db = rows ++ t.db → r ∈ rows := by
    intro rows hdb
    obtain ⟨newer, hnewer⟩ := hr
    obtain ⟨mid, rfl⟩ := hnew
    have hrows : newer ++ r :: mid = rows := by
      have hold : newer ++ r :: mid ++ t.db = rows ++ t.db := by
        rw [← hdb, ← hnewer, List.append_assoc, List.cons_append]
      exact List.append_cancel_right hold
    rw [← hrows]
    exact List.mem_append_right _ List.mem_cons_self
  have hsame : s'.db ≠ t.db := fun hdb => absurd (@hmem [] hdb) List.not_mem_nil
  cases hs with
  | commit i c p next hp hq =>
      exact ⟨t, _, i, c, p, hrun, .commit i c p next hp hq, .refl, hp, rfl, hnew, hr,
        writes_answerable (hcons.proc i p hp) r (hmem rfl)⟩
  | env rows hext hfree =>
      rw [hext r (hmem rfl)] at hinside
      cases hinside
  | start op => exact absurd rfl hsame
  | answer i c p q next out rows hp hq hrun hfree => exact absurd rfl hsame
  | refuse i c p q next e hp hq hrun => exact absurd rfl hsame
  | rollback i c p next hp hq => exact absurd rfl hsame
  | fault i p q next e hp hq => exact absurd rfl hsame
  | faultCommit i p next e hp hq => exact absurd rfl hsame
  | kill i p e hp => exact absurd rfl hsame

end Runs

section Sample

/-- Membership 7 has a grant for building 2. -/
def grantStart : RecordSystem :=
  ⟨[⟨.access 5, ⟨1, 7, 2, 0, some 9⟩⟩, ⟨.building 2, sampleBuilding 'a'⟩], []⟩

/-- A new vendor for building 2. -/
def grantSample : RecordOp :=
  .createVendor ⟨7, 1, .administrator⟩
    { legalName := ['N']
      tradingName := none
      registrationNumber := none
      taxId := none
      email := none
      phone := none
      status := .absent
      tags := none
      internalNotes := none
      buildingIds := some [2] }

end Sample
end BlocTrust.Crm
