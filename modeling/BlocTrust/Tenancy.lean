import BlocTrust.Ingestion
import BlocTrust.Lockstep
import BlocTrust.ObjectStore
import BlocTrust.TenantPrograms

/-!
Tenants do not write each other's rows.
The slice of an organization holds the rows that name it, and the lines of its invoices.  A commit
changes the slice of the organization for which its call was made and no other; this follows from
the conditions of the statements and from what the call has read, without the row-level security of
the database.  So the slice of an organization stays as it is while only others are served.
-/
namespace BlocTrust

open ReadCommitted

section Slices

/-- The organization of a row; index entries, locks, stored objects and the tables that are only
written elsewhere are left out. -/
def owner (db : Db) : (k : Key) → Val k → Option Id
  | .invoice _, v => some v.organizationId
  | .lines i, _ => (db.invoice i).map (·.organizationId)
  | .document _, d => some d.organizationId
  | .processing _, r => some r.organizationId
  | .policy o, _ => some o
  | .risk _, a => some a.organizationId
  | .request _, r => some r.organizationId
  | .decision _ _, d => some d.organizationId
  | .bank _, b => some b.organizationId
  | .audit _, a => some a.organizationId
  | _, _ => none

def slice (o : Id) (db : Db) (k : Key) : Option (Val k) :=
  (Log.row k db).filter fun v => owner db k v = some o

end Slices

section Changes

variable {cfg : Config} {db : Db} {p : Process} {id i : Id}

theorem InvoiceChange.apply_organizationId (c : InvoiceChange) (v : Invoice) :
    (c.apply v).organizationId = v.organizationId := by
  cases c <;> rfl

theorem ProcessingChange.apply_organizationId (c : ProcessingChange) (r : DocumentProcessing) :
    (c.apply r).organizationId = r.organizationId := by
  cases c <;> rfl

theorem RequestChange.apply_organizationId (c : RequestChange) (r : ApprovalRequest) :
    (c.apply r).organizationId = r.organizationId := by
  cases c <;> rfl

theorem DocumentChange.apply_organizationId (c : DocumentChange) (d : Document) :
    (c.apply d).organizationId = d.organizationId := by
  cases c <;> rfl

/-- The invoice that a decision has looked at. -/
theorem DecideSeen.owned {auth : AuthContext} {r : ApprovalRequest} {v : Invoice}
    (h : ProcOk (machine cfg) (conduct cfg) Legal db p) (hseen : DecideSeen auth id p.calls r v) :
    (∃ r', Db.request (p.writes ++ db) id = some r' ∧ r'.organizationId = auth.organizationId) ∧
      ∃ w, Db.invoice (p.writes ++ db) r.invoiceId = some w ∧
        w.organizationId = auth.organizationId := by
  obtain ⟨horg, r', hr', hlater⟩ := saw_request h hseen.request
  obtain ⟨hvorg, w, hw, hwlater⟩ := saw_invoice h hseen.invoice
  exact ⟨⟨r', hr', hlater.organizationId.trans horg⟩, w, hw,
    hwlater.organizationId.trans (hvorg.trans horg)⟩

/-- The invoice that a call updates belongs to the organization of the call: by the condition of the
statement, or because the call has read it. -/
theorem InvoiceCause.owned {c : InvoiceChange} {v w : Invoice}
    (h : ProcOk (machine cfg) (conduct cfg) Legal db p)
    (hcause : InvoiceCause p.op p.past p.calls i c) (happlies : c.applies v = true)
    (hw : Db.invoice (p.writes ++ db) i = some w) (hsame : w.organizationId = v.organizationId) :
    v.organizationId = p.op.organizationId := by
  have hseen : ∀ {auth : AuthContext} {requestId : Id} {r : ApprovalRequest} {u : Invoice},
      DecideSeen auth requestId p.calls r u → i = r.invoiceId →
      v.organizationId = auth.organizationId := by
    intro auth requestId r u hseen hi
    subst hi
    obtain ⟨-, w', hw', horg⟩ := DecideSeen.owned h hseen
    have heq : w' = w := Option.some.inj (hw'.symm.trans hw)
    rw [← hsame, ← heq, horg]
  cases c with
  | submitted org version bank =>
      obtain ⟨auth, dto, key, r, requestId, hop, horg, -⟩ := hcause
      simp only [InvoiceChange.applies, decide_eq_true_eq] at happlies
      rw [hop, happlies.1, horg]
      rfl
  | returned version =>
      obtain ⟨auth, rid, dto, key, r, u, reason, n, hop, hdecide, hi, -⟩ := hcause
      rw [hop]
      exact hseen hdecide hi
  | frozen org vendor =>
      obtain ⟨auth, dto, hop, horg, -⟩ := hcause
      simp only [InvoiceChange.applies, decide_eq_true_eq] at happlies
      rw [hop, happlies.1, horg]
      rfl
  | edited org version e =>
      obtain ⟨auth, dto, u, hop, horg, -⟩ := hcause
      simp only [InvoiceChange.applies, decide_eq_true_eq] at happlies
      rw [hop, happlies.1, horg]
      rfl
  | decided outcome =>
      obtain ⟨auth, rid, dto, key, r, u, t, n, hop, hready, hi, -⟩ := hcause
      rw [hop]
      exact hseen hready.ready.toDecideSeen hi
  | suggested org =>
      obtain ⟨job, final, d, r, ocr, n, hop, -, -, horg, -⟩ := hcause
      simp only [InvoiceChange.applies, decide_eq_true_eq] at happlies
      rw [hop, happlies, horg]
      rfl
  | blocked org =>
      obtain ⟨job, final, d, r, n, hop, -, -, horg, -⟩ := hcause
      simp only [InvoiceChange.applies, decide_eq_true_eq] at happlies
      rw [hop, happlies, horg]
      rfl
  | manualReview org =>
      obtain ⟨job, final, d, r, code, n, hop, -, -, horg, -⟩ := hcause
      simp only [InvoiceChange.applies, decide_eq_true_eq] at happlies
      rw [hop, happlies.1, horg]
      rfl
  | queueFailed org =>
      obtain ⟨normalize, auth, dto, file, documentId, d, n, code, hop, horg, -⟩ := hcause
      simp only [InvoiceChange.applies, decide_eq_true_eq] at happlies
      rw [hop, happlies, horg]
      rfl

theorem ChangesInvoice.owned {c : InvoiceChange} {old new : Invoice}
    (h : ProcOk (machine cfg) (conduct cfg) Legal db p)
    (hch : ChangesInvoice cfg db p i c old new) (hnew : Db.invoice (p.writes ++ db) i = some new) :
    new.organizationId = p.op.organizationId := by
  have hsame : new.organizationId = old.organizationId := by
    rw [hch.result, c.apply_organizationId]
  rw [hsame]
  exact hch.cause.owned h hch.applies hnew hsame

/-- A request that was found pending for an invoice. -/
theorem pendingOfInvoice_owned (h : ProcOk (machine cfg) (conduct cfg) Legal db p) {org : Id}
    {ids : List Id} (hs : Saw p.calls (.pendingOfInvoice org i) ids) (hid : id ∈ ids) :
    ∃ r, Db.request (p.writes ++ db) id = some r ∧ r.organizationId = org := by
  obtain ⟨newer, older, base, choice, hcur, hanswer⟩ := saw_event h hs
  cases hanswer
  obtain ⟨⟨j, r⟩, hmem, rfl⟩ := List.mem_map.mp hid
  obtain ⟨hrow, hfound⟩ := List.mem_filter.mp hmem
  have hcond : r.organizationId = org ∧ r.invoiceId = i ∧ r.status = .pending :=
    of_decide_eq_true hfound
  obtain ⟨r', hr', hlater⟩ := view_later h hcur (k := .request j) (Db.mem_requests.mp hrow)
  have hlater : RequestLater r r' := hlater
  exact ⟨r', hr', hlater.organizationId.trans hcond.1⟩

theorem pendingOfVendor_owned (h : ProcOk (machine cfg) (conduct cfg) Legal db p)
    {org vendorId : Id} {ids : List Id} (hs : Saw p.calls (.pendingOfVendor org vendorId) ids)
    (hid : id ∈ ids) :
    ∃ r, Db.request (p.writes ++ db) id = some r ∧ r.organizationId = org := by
  obtain ⟨newer, older, base, choice, hcur, hanswer⟩ := saw_event h hs
  obtain ⟨r, v, hr, horg, -⟩ := pendingOfVendor_answer hanswer hid
  obtain ⟨r', hr', hlater⟩ := view_later h hcur (k := .request id) hr
  have hlater : RequestLater r r' := hlater
  exact ⟨r', hr', hlater.organizationId.trans horg⟩

theorem RequestCause.owned {c : RequestChange} {r : ApprovalRequest}
    (h : ProcOk (machine cfg) (conduct cfg) Legal db p) (hcause : RequestCause p.op p.calls id c)
    (hr : Db.request (p.writes ++ db) id = some r) : r.organizationId = p.op.organizationId := by
  have hfound : ∀ {org : Id}, (∃ r', Db.request (p.writes ++ db) id = some r' ∧
      r'.organizationId = org) → r.organizationId = org := by
    intro org hfound
    obtain ⟨r', hr', horg⟩ := hfound
    have heq : r' = r := Option.some.inj (hr'.symm.trans hr)
    rw [← heq, horg]
  cases c with
  | completed outcome t =>
      obtain ⟨auth, dto, key, q, v, hop, hready⟩ := hcause
      rw [hop]
      exact hfound (DecideSeen.owned h hready.ready.toDecideSeen).1
  | invalidated reason =>
      rcases hcause with ⟨auth, dto, key, q, v, hop, hseen⟩ |
        ⟨auth, i, dto, v, ids, hop, -, -, -, hs, hid⟩ | ⟨auth, vendorId, dto, ids, hop, -, hs, hid⟩
      · rw [hop]
        exact hfound (DecideSeen.owned h hseen).1
      · rw [hop]
        exact hfound (pendingOfInvoice_owned h hs hid)
      · rw [hop]
        exact hfound (pendingOfVendor_owned h hs hid)

theorem ChangesDocument.owned {c : DocumentChange} {old new : Document}
    (hch : ChangesDocument cfg db p id c old new) : new.organizationId = p.op.organizationId := by
  have happlies := hch.applies
  obtain ⟨job, final, hop, -⟩ := hch.op
  obtain ⟨newer, older, rows, base, -, -, hbefore⟩ := hch.event
  rw [hop] at hbefore
  obtain ⟨-, -, -, hready⟩ := hbefore
  rw [hch.result, c.apply_organizationId, hop]
  cases c with
  | promoted org key sha duplicate => exact (of_decide_eq_true happlies).trans hready.1
  | blocked org => exact (of_decide_eq_true happlies).trans hready

theorem ProcessingReady.owned {job : InvoiceIngestJob} {past cur : Calls Out}
    {c : ProcessingChange} {r : DocumentProcessing} (h : ProcessingReady job past cur c)
    (happlies : c.applies r = true) : r.organizationId = job.organizationId := by
  cases c with
  | progressed org state n inc scan => exact (of_decide_eq_true happlies).trans h.1
  | parsed org => exact (of_decide_eq_true happlies).trans h.1
  | suggested org ocr => exact (of_decide_eq_true happlies).trans h
  | blocked org => exact (of_decide_eq_true happlies).trans h.1
  | manualReview org code =>
      have hcond := of_decide_eq_true happlies
      exact hcond.1.trans h
  | reset org storage => exact (of_decide_eq_true happlies).trans h.1
  | queueFailed org code => exact h.elim

theorem ChangesProcessing.owned {c : ProcessingChange} {old new : DocumentProcessing}
    (hch : ChangesProcessing cfg db p id c old new) :
    new.organizationId = p.op.organizationId := by
  have happlies := hch.applies
  obtain ⟨newer, older, rows, base, -, -, hbefore⟩ := hch.event
  rw [hch.result, c.apply_organizationId]
  rcases conduct_processingCause hbefore with ⟨job, final, d, r, hop, -, -, hready⟩ |
    ⟨normalize, auth, dto, file, code, d, hop, rfl, -⟩
  · rw [hop]
    exact hready.owned happlies
  · rw [hop]
    exact of_decide_eq_true happlies

end Changes
section Commits

variable {cfg : Config} {db view rows : Db} {p : Process} {o id i : Id}

/-- Audit rows are inserted. -/
theorem Wrote.audit {u : Update} {out : u.Out} {a : AuditEvent} (h : Wrote view u out rows)
    (hrow : Log.row (.audit id) rows = some a) :
    u = .insertAudit a ∧ Inserted view (.audit id) a [] rows := by
  have hmem := Log.mem_keys_of_row hrow
  have hother : ∀ {k : Key} {v : Val k} {indexes : List UniqueIndex},
      Inserted view k v indexes rows → Key.audit id = k := by
    intro k v indexes hinserted
    obtain ⟨s, hs, hkey⟩ := List.mem_map.mp hmem
    rw [hinserted.rows_eq] at hs
    rcases List.mem_cons.mp hs with rfl | hs
    · exact hkey.symm
    · obtain ⟨u, -, rfl⟩ := List.mem_map.mp hs
      cases hkey
  cases h with
  | insertAudit aid hinserted =>
      have hkey := hother hinserted
      cases hkey
      have hsame := hinserted.row.symm.trans hrow
      cases hsame
      exact ⟨rfl, hinserted⟩
  | insertInvoice h => cases hother h
  | insertDocument h => cases hother h
  | insertProcessing h => cases hother h
  | insertPolicy h => cases hother h
  | insertRisk _ h => cases hother h
  | insertRequest _ h => cases hother h
  | insertDecision h => cases hother h
  | insertBank _ h => cases hother h
  | updateInvoice h =>
      obtain ⟨s, hs, hkey⟩ := List.mem_map.mp hmem
      cases (h.mem hs).symm.trans hkey
  | updateRequest h =>
      obtain ⟨s, hs, hkey⟩ := List.mem_map.mp hmem
      cases (h.mem hs).symm.trans hkey
  | updateDocument h =>
      obtain ⟨s, hs, hkey⟩ := List.mem_map.mp hmem
      cases (h.mem hs).symm.trans hkey
  | updateProcessing h =>
      obtain ⟨s, hs, hkey⟩ := List.mem_map.mp hmem
      cases (h.mem hs).symm.trans hkey
  | updatePolicy h => cases List.mem_singleton.mp hmem
  | deleteLines => cases List.mem_singleton.mp hmem
  | createLines => cases List.mem_singleton.mp hmem
  | advisoryLock => cases List.mem_singleton.mp hmem

theorem reply_not_audit {c : External} {choice : Nat} {out : c.Out}
    (h : reply cfg choice view c = some (.ok (out, rows))) : Key.audit id ∉ rows.keys := by
  cases c with
  | randomObjectKey =>
      simp only [reply] at h
      split at h <;> cases h
      simp [List.keys]
  | putObject bucket key bytes =>
      cases h
      simp [List.keys]
  | deleteObject bucket key =>
      cases h
      simp [List.keys]
  | getObject bucket key =>
      simp only [reply] at h
      split at h <;> cases h
      simp [List.keys]
  | _ =>
      cases h
      simp [List.keys]

/-- A committed audit row names the organization of the call, and is new. -/
theorem audit_owned (h : ProcOk (machine cfg) tenantConduct Legal db p) {a : AuditEvent}
    (ha : Log.row (.audit id) p.writes = some a) :
    a.organizationId = p.op.organizationId ∧ Key.audit id ∉ db.keys := by
  obtain ⟨newer, older, ⟨s, out, rows, base⟩, hcur, hrow, -, hbefore, hran⟩ := written_event h ha
  cases hran with
  | read choice hanswer => simp at hrow
  | write hwrote =>
      obtain ⟨rfl, hinserted⟩ := hwrote.audit hrow
      exact ⟨ofTenant_of_before hbefore, inserted_fresh h hcur hinserted⟩
  | call choice hreply => exact absurd (Log.mem_keys_of_row hrow) (reply_not_audit hreply)

/-- A written row belongs to the organization of the call, or to nobody. -/
theorem written_owned (h : ProcOk (machine cfg) (conduct cfg) Legal db p)
    (ht : ProcOk (machine cfg) tenantConduct Legal db p) {k : Key} {v : Val k}
    (hv : Log.row k p.writes = some v) :
    owner (p.writes ++ db) k v = none ∨ owner (p.writes ++ db) k v = some p.op.organizationId := by
  have hmem := Log.mem_keys_of_row hv
  have hfinal : Log.row k (p.writes ++ db) = some v := Log.row_append_of_row _ hv
  cases k with
  | invoice i =>
      refine .inr (congrArg some ?_)
      rcases commit_invoice h hfinal with ⟨hnot, -⟩ | hinserts | ⟨c, old, hch⟩
      · exact absurd hmem hnot
      · obtain ⟨normalize, auth, dto, file, hop, horg⟩ := hinserts.op
        rw [hop]
        exact horg
      · exact hch.owned h hfinal
  | lines i =>
      have hupdate : ∀ auth dto e, p.op = .update auth i dto →
          Did p.calls (.updateInvoice i (.edited auth.organizationId dto.version e)) 1 →
          owner (p.writes ++ db) (.lines i) v = some p.op.organizationId := by
        intro auth dto e hop hdid
        obtain ⟨old, new, hch, hnew⟩ := did_updateInvoice h hdid Nat.one_ne_zero
        rw [owner, hnew]
        exact congrArg some (hch.owned h hnew)
      obtain ⟨newer, older, u, out, rows, base, hcur, hrow, htarget, -, hbefore, -⟩ :=
        written_update h hv rfl
      cases u with
      | deleteLines id =>
          cases htarget
          obtain ⟨auth, dto, e, hop, he⟩ := conduct_lines (.inl hbefore)
          exact .inr (hupdate auth dto e hop (calls_subset_of_event hcur he))
      | createLines id lines =>
          cases htarget
          obtain ⟨auth, dto, e, hop, he⟩ := conduct_lines (.inr ⟨lines, hbefore⟩)
          exact .inr (hupdate auth dto e hop (calls_subset_of_event hcur he))
      | _ => cases htarget
  | document i =>
      refine .inr (congrArg some ?_)
      rcases commit_document h hfinal with ⟨hnot, -⟩ | hinserts | ⟨c, old, hch⟩
      · exact absurd hmem hnot
      · obtain ⟨normalize, auth, dto, file, hop, horg, -⟩ := hinserts.op
        rw [hop]
        exact horg
      · exact hch.owned
  | processing i =>
      refine .inr (congrArg some ?_)
      rcases commit_processing h hfinal with ⟨hnot, -⟩ | hinserts | ⟨c, old, hch⟩
      · exact absurd hmem hnot
      · obtain ⟨normalize, auth, dto, file, hop, horg, -⟩ := hinserts.op
        rw [hop]
        exact horg
      · exact hch.owned
  | policy org =>
      refine .inr (congrArg some ?_)
      obtain ⟨newer, older, u, out, rows, base, -, -, htarget, -, hbefore, -⟩ :=
        written_update ht hv rfl
      cases u with
      | insertPolicy org' =>
          cases htarget
          exact ofTenant_of_before hbefore
      | updatePolicy org' c =>
          cases htarget
          exact ofTenant_of_before hbefore
      | _ => cases htarget
  | risk i =>
      refine .inr (congrArg some ?_)
      obtain ⟨newer, older, u, out, rows, base, -, hrow, htarget, -, hbefore, hwrote⟩ :=
        written_update h hv rfl
      cases hwrote with
      | insertRisk rid hinserted =>
          cases htarget
          cases hinserted.row.symm.trans hrow
          cases hop : p.op with
          | submit auth id dto key =>
              rw [hop] at hbefore
              obtain ⟨v', -, hassesses⟩ := hbefore
              exact hassesses.organization
          | decide auth r dto key => rw [hop] at hbefore; exact hbefore.elim
          | _ => rw [hop] at hbefore; exact hbefore.elim
      | _ => cases htarget
  | request i =>
      refine .inr (congrArg some ?_)
      rcases commit_request h hfinal with ⟨hnot, -⟩ | hinserts | ⟨c, old, hch⟩
      · exact absurd hmem hnot
      · obtain ⟨auth, id, dto, key, hop, cur, -, hready⟩ := hinserts.op
        obtain ⟨v', vendorId, bank, a, riskId, version, keyHash, -, -, -, -, -, hr⟩ := hready.basis
        rw [hr, hop]
        rfl
      · exact hch.cause.owned h hfinal
  | decision r m =>
      refine .inr (congrArg some ?_)
      obtain ⟨newer, older, u, out, rows, base, -, hrow, htarget, -, hbefore, hwrote⟩ :=
        written_update h hv rfl
      cases hwrote with
      | insertDecision hinserted =>
          cases htarget
          cases hinserted.row.symm.trans hrow
          obtain ⟨auth, dto, key, hop, ⟨q, w, hready⟩, -⟩ := conduct_insertDecision hbefore
          rw [hop]
          exact hready.organization
      | _ => cases htarget
  | bank i =>
      refine .inr (congrArg some ?_)
      obtain ⟨newer, older, u, out, rows, base, -, hrow, htarget, -, hbefore, hwrote⟩ :=
        written_update h hv rfl
      cases hwrote with
      | insertBank bid hinserted =>
          cases htarget
          cases hinserted.row.symm.trans hrow
          obtain ⟨auth, dto, hop, horg⟩ := conduct_insertBank hbefore
          rw [hop]
          exact horg
      | _ => cases htarget
  | audit i => exact .inr (congrArg some (audit_owned ht hv).1)
  | _ => exact .inl rfl

/-- A row that is replaced belonged to the organization that the new version belongs to. -/
theorem replaced_owned (h : ProcOk (machine cfg) (conduct cfg) Legal db p)
    (ht : ProcOk (machine cfg) tenantConduct Legal db p) {k : Key} {v w : Val k}
    (hv : Log.row k p.writes = some v) (hw : Log.row k db = some w)
    (ho : owner db k w = some o) : owner (p.writes ++ db) k v = some o := by
  obtain ⟨v', hv', hlater⟩ := commit_later h hw
  have hsame : v' = v := Option.some.inj (hv'.symm.trans (Log.row_append_of_row _ hv))
  subst hsame
  cases k with
  | invoice i =>
      have hlater : InvoiceLater w v' := hlater
      exact (congrArg some hlater.organizationId).trans ho
  | lines i =>
      obtain ⟨inv, hinv, horg⟩ := Option.map_eq_some_iff.mp ho
      obtain ⟨inv', hinv', hinvlater⟩ := invoice_later h.view (List.suffix_append p.writes db) hinv
      rw [owner, hinv', ← horg]
      exact congrArg some hinvlater.organizationId
  | document i =>
      have hlater : DocumentLater w v' := hlater
      exact (congrArg some hlater.organizationId).trans ho
  | processing i =>
      have hlater : ProcessingLater w v' := hlater
      exact (congrArg some hlater.organizationId).trans ho
  | policy org => exact ho
  | risk i =>
      have hlater : v' = w := hlater
      rw [hlater]
      exact ho
  | request i =>
      have hlater : RequestLater w v' := hlater
      exact (congrArg some hlater.organizationId).trans ho
  | decision r m =>
      have hlater : v' = w := hlater
      rw [hlater]
      exact ho
  | bank i =>
      have hlater : v' = w := hlater
      rw [hlater]
      exact ho
  | audit i => exact absurd (Log.mem_keys_of_row hw) (audit_owned ht hv).2
  | _ => cases ho

/-- The rows that a commit does not write keep their organization. -/
theorem unwritten_owned (h : ProcOk (machine cfg) (conduct cfg) Legal db p)
    (ho : p.op.organizationId ≠ o) {k : Key} (v : Val k) :
    owner (p.writes ++ db) k v = some o ↔ owner db k v = some o := by
  cases k with
  | lines i =>
      refine ⟨fun hnew => ?_, fun hold => ?_⟩
      · obtain ⟨inv, hinv, horg⟩ := Option.map_eq_some_iff.mp hnew
        rcases commit_invoice h hinv with ⟨-, hold⟩ | hinserts | ⟨c, old, hch⟩
        · rw [owner, hold]
          exact congrArg some horg
        · obtain ⟨normalize, auth, dto, file, hop, horg'⟩ := hinserts.op
          rw [hop] at ho
          exact absurd (horg'.symm.trans horg) ho
        · exact absurd ((hch.owned h hinv).symm.trans horg) ho
      · obtain ⟨inv, hinv, horg⟩ := Option.map_eq_some_iff.mp hold
        obtain ⟨inv', hinv', hlater⟩ := invoice_later h.view (List.suffix_append p.writes db) hinv
        rw [owner, hinv', ← horg]
        exact congrArg some hlater.organizationId
  | _ => exact Iff.rfl

/-- A commit leaves the slices of the other organizations as they are. -/
theorem slice_kept (h : ProcOk (machine cfg) (conduct cfg) Legal db p)
    (ht : ProcOk (machine cfg) tenantConduct Legal db p) (ho : p.op.organizationId ≠ o) (k : Key) :
    slice o (p.writes ++ db) k = slice o db k := by
  by_cases hk : k ∈ p.writes.keys
  · obtain ⟨v, hv⟩ := Log.exists_row_of_mem_keys hk
    have hforeign : owner (p.writes ++ db) k v ≠ some o := by
      intro hsome
      rcases written_owned h ht hv with hnone | howned
      · rw [hnone] at hsome
        cases hsome
      · exact ho (Option.some.inj (howned.symm.trans hsome))
    have hnew : slice o (p.writes ++ db) k = none := by
      rw [slice, Log.row_append_of_row _ hv]
      simp [hforeign]
    have hold : slice o db k = none := by
      rw [slice, Option.filter_eq_none_iff]
      intro w hw hcond
      exact hforeign (replaced_owned h ht hv hw (of_decide_eq_true hcond))
    rw [hnew, hold]
  · rw [slice, slice, Log.row_append_of_not_mem _ hk]
    refine congrArg (fun f => (Log.row k db).filter f) (funext fun v => ?_)
    exact decide_eq_decide.mpr (unwritten_owned h ho v)

end Commits
section Runs

variable {cfg : Config} {ok : System → SystemAction → Prop} {s₀ s t : System} {o : Id}

/-- Steps in which no call of the organization is served. -/
def elsewhere (o : Id) (s : System) : SystemAction → Prop
  | .exec i _ => (s.procs[i]?.all fun p => p.op.organizationId ≠ o) = true
  | _ => True

instance (o : Id) (s : System) (a : SystemAction) : Decidable (elsewhere o s a) :=
  match a with
  | .exec i _ =>
      inferInstanceAs (Decidable ((s.procs[i]?.all fun p => p.op.organizationId ≠ o) = true))
  | .start _ | .fault _ _ | .kill _ _ | .env _ => inferInstanceAs (Decidable True)

theorem slice_external {db rows : Db} (hext : (machine cfg).external db rows) (k : Key) :
    slice o (rows ++ db) k = slice o db k := by
  by_cases hk : outside k = true
  · have hnone : ∀ (db : Db) (v : Val k), owner db k v = none := by
      intro db v
      cases k <;> first | rfl | cases hk
    have hslice : ∀ db : Db, slice o db k = none := by
      intro db
      rw [slice, Option.filter_eq_none_iff]
      intro v _ hcond
      rw [hnone] at hcond
      simp at hcond
    rw [hslice, hslice]
  · have howner : ∀ v : Val k, owner (rows ++ db) k v = owner db k v := by
      intro v
      cases k with
      | lines i =>
          have hrow : Db.invoice (rows ++ db) i = Db.invoice db i := external_row hext rfl
          rw [owner, owner, hrow]
      | _ => rfl
    rw [slice, slice, external_row hext (Bool.eq_false_of_not_eq_true hk)]
    simp only [howner]

/-- Whatever is done for others, interleaved in any way and failing anywhere, the rows of an
organization stay as they are. -/
theorem tenants_apart (cfg : Config) (h₀ : Idle Legal s₀) (hs : Run (machine cfg) ok s₀ s)
    (ht : Run (machine cfg) (elsewhere o) s t) (k : Key) : slice o t.db k = slice o s.db k := by
  have hall : Run (machine cfg) (fun _ _ => True) s₀ s := hs.mono fun _ _ _ => trivial
  induction ht with
  | refl => rfl
  | @step u a v hu ha hstep ih =>
      rw [← ih]
      have hreached := hall.trans (hu.mono fun _ _ _ => trivial)
      cases hstep.effect with
      | quiet hdb hprocs => rw [hdb]
      | answered i c p q next out rows hp hq hrun => rfl
      | committed i c p next hp hq =>
          have hforeign : p.op.organizationId ≠ o := by
            rw [elsewhere, hp] at ha
            exact of_decide_eq_true ha
          exact slice_kept ((Run.consistent (discipline cfg) h₀.consistent hreached).proc i p hp)
            ((Run.consistent (tenancy cfg) h₀.consistent hreached).proc i p hp) hforeign k
      | outside rows hext => exact slice_external hext k

end Runs
section Sample

def otherAuth : AuthContext := { sampleAuth 1 with organizationId := 2 }

/-- Another organization uploads an invoice. -/
theorem tenants_apart_sample : ∃ t : System,
    (∃ v, slice 2 t.db (.invoice 6) = some v ∧ slice 2 sampleStart.db (.invoice 6) = none) ∧
      slice 1 t.db (.invoice 1) = some sampleInvoice := by
  have hok : ∀ (s : System) (a : SystemAction),
      decide (elsewhere 1 s a) = true → elsewhere 1 s a := fun _ _ h => of_decide_eq_true h
  obtain ⟨t, hrun, hcheck⟩ := exists_run (M := machine sampleConfig) (s := sampleStart)
    (.start (.upload id otherAuth ⟨none, none⟩ (some sampleFile)) :: uploadSteps 0 7)
    (fun t => (slice 2 t.db (.invoice 6)).isSome) hok (by decide +kernel)
  obtain ⟨v, hv⟩ := Option.isSome_iff_exists.mp hcheck
  refine ⟨t, ⟨v, hv, by decide⟩, ?_⟩
  have hstart : Run (machine sampleConfig) (elsewhere 1) sampleStart sampleStart := .refl
  rw [tenants_apart sampleConfig sampleStart_idle hstart hrun]
  decide

end Sample
end BlocTrust
