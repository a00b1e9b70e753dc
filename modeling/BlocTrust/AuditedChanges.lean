import BlocTrust.AuditTrail

/-!
Which changes of a status are on record.
A transaction that changes the status of an invoice or of a request commits an audit row
about it in the same transaction, unless the change comes from one of the statements that
nobody audits.
-/
namespace BlocTrust

open ReadCommitted

/-- The step commits an audit row about the entity. -/
def Recorded (older newer : Db) (entity : Id) : Prop :=
  ∃ (rows : Db) (id : Id) (a : AuditEvent), newer = rows ++ older ∧
    (⟨.audit id, a⟩ : Sigma Val) ∈ rows ∧ a.entityId = entity

/-- The entity is the invoice, or a request or a document of it. -/
def About (db : Db) (i entity : Id) : Prop :=
  entity = i ∨ (∃ r, Db.request db entity = some r ∧ r.invoiceId = i) ∨
    ∃ d, Db.document db entity = some d ∧ d.invoiceId = i

/-- Every change of a status from one committed log to the next is on record. -/
structure Traced (older newer : Db) : Prop where
  invoice : ∀ i w, Db.invoice newer i = some w →
    (Db.invoice older i).map (·.status) ≠ some w.status →
      ∃ entity, Recorded older newer entity ∧ About newer i entity
  request : ∀ id r, Db.request newer id = some r →
    (Db.request older id).map (·.status) ≠ some r.status →
      ∃ entity, Recorded older newer entity ∧ (entity = id ∨ entity = r.invoiceId ∨
        ∃ d, Db.document newer entity = some d ∧ d.invoiceId = r.invoiceId)

/-- The changes of an invoice that no code path audits. -/
def InvoiceChange.unaudited : InvoiceChange → Bool
  | .returned _ | .frozen _ _ | .manualReview _ | .queueFailed _ => true
  | _ => false

def Op.edits : Op → Bool
  | .update .. => true
  | _ => false

/-- The unaudited statements change no status, and only an edit invalidates requests. -/
def traced (op : Op) (_ : Calls Out) (_ : List (Event Val Out)) (db : Db) : Stmt → Prop
  | .write (.updateRequest id (.invalidated _)) =>
      op.edits = true ∨ ∀ r, Db.request db id = some r → r.status ≠ .pending
  | .write (.updateInvoice i c) => c.unaudited = true →
      ∀ v, Db.invoice db i = some v → c.applies v = true → (c.apply v).status = v.status
  | _ => True

/-- The document that an attempt has loaded belongs to the invoice of its job. -/
def Fetched (_ : Op) (call : Sigma Out) (db : Db) : Prop :=
  match call with
  | ⟨.read (.load job), some (_, _)⟩ =>
      ∃ d, Db.document db job.documentId = some d ∧ d.invoiceId = job.invoiceId
  | _ => True

def tracing : Account Val Out Op where
  guard := traced
  fact := Fetched

section Commit

variable {cfg : Config} {db : Db} {p : Process} {i id : Id} {ok : System → SystemAction → Prop}
  {s₀ : System}

theorem Fetched.keep {older newer : Db} (hs : older <:+ newer) (hc : Log.Chain Legal newer) {op : Op}
    {call : Sigma Out} (h : Fetched op call older) : Fetched op call newer := by
  unfold Fetched at h ⊢
  split at h
  · obtain ⟨d, hd, hi⟩ := h
    obtain ⟨d', hd', hlater⟩ := document_later hc hs hd
    exact ⟨d', hd', hlater.invoiceId.trans hi⟩
  · trivial

theorem Fetched.commit (h : ProcOk (machine cfg) (conduct cfg) Legal db p) {e : Event Val Out}
    (he : e ∈ p.current) : Fetched p.op e.call (p.writes ++ db) := by
  have hcall : e.call ∈ p.calls := List.mem_map_of_mem he
  unfold Fetched
  split
  · rename_i job d r heq
    rw [heq] at hcall
    obtain ⟨newer, older, base, choice, hcur, hanswer⟩ := saw_event h hcall
    obtain ⟨d₁, hd₁, -⟩ := Option.bind_eq_some_iff.mp (Option.some.inj hanswer)
    obtain ⟨hd₁, hjob⟩ := rowWhere_eq_some.mp hd₁
    simp only [decide_eq_true_eq] at hjob
    obtain ⟨d', hd', hlater⟩ := view_later h hcur (k := .document job.documentId) hd₁
    exact ⟨d', hd', hlater.invoiceId.trans hjob.1⟩
  · trivial

theorem tracing_sound : tracing.Sound (machine cfg) (conduct cfg) Legal ok s₀ where
  refl _ := trivial
  trans _ _ _ _ _ := trivial
  keep op _ _ _ hs hc _ h := @Fetched.keep _ _ hs hc op _ h
  commit _ _ _ _ _ _ _ hok _ _ := ⟨trivial, trivial, fun _ he => Fetched.commit hok he⟩
  external _ _ _ _ _ := ⟨trivial, trivial⟩

/-- An audit among the calls of a transaction is among the rows that it commits. -/
theorem Audited.recorded (h : ProcOk (machine cfg) (conduct cfg) Legal db p) {entity : Id}
    (haudited : Audited entity p.calls) : Recorded db (p.writes ++ db) entity := by
  obtain ⟨a, hdid, hentity⟩ := haudited
  obtain ⟨newer, older, rows, base, hcur, hwrote, -⟩ := did_event h hdid
  cases hwrote with
  | insertAudit aid hinserted =>
      refine ⟨p.writes, aid, a, rfl, ?_, hentity⟩
      refine List.mem_flatMap.mpr ⟨_, mem_of_event hcur, ?_⟩
      rw [hinserted.rows_eq]
      exact List.mem_cons_self

/-- A request that was found pending on an invoice belongs to it. -/
theorem saw_pendingOfInvoice (h : ProcOk (machine cfg) (conduct cfg) Legal db p) {org : Id}
    {ids : List Id} (hsaw : Saw p.calls (.pendingOfInvoice org i) ids) (hid : id ∈ ids) :
    ∃ r, Db.request (p.writes ++ db) id = some r ∧ r.invoiceId = i := by
  obtain ⟨newer, older, base, choice, hcur, hanswer⟩ := saw_event h hsaw
  cases hanswer
  obtain ⟨⟨j, r⟩, hmem, rfl⟩ := List.mem_map.mp hid
  obtain ⟨hrow, hfound⟩ := List.mem_filter.mp hmem
  simp only [decide_eq_true_eq] at hfound
  obtain ⟨r', hr', hlater⟩ := view_later h hcur (k := .request j) (Db.mem_requests.mp hrow)
  have hlater : RequestLater r r' := hlater
  exact ⟨r', hr', hlater.invoiceId.trans hfound.2.1⟩

/-- The document of an attempt at its commit. -/
theorem loaded_about (h : ProcOk (machine cfg) (conduct cfg) Legal db p)
    (hobs : tracing.Observed db p) {job : InvoiceIngestJob} {d : Document} {r : DocumentProcessing}
    (hloaded : Loaded job p.past d r) : About (p.writes ++ db) job.invoiceId job.documentId := by
  obtain ⟨d', hd', hi⟩ := hobs.fact _ hloaded.seen
  obtain ⟨w, hw, hlater⟩ := document_later h.view (List.suffix_append p.writes db) hd'
  exact .inr (.inr ⟨w, hw, hlater.invoiceId.trans hi⟩)

theorem invoice_traced (h : ProcOk (machine cfg) (conduct cfg) Legal db p)
    (haudit : (auditConduct p.op).due p.past p.calls) (hobs : tracing.Observed db p) {w : Invoice}
    (hw : Db.invoice (p.writes ++ db) i = some w)
    (hchanged : (Db.invoice db i).map (·.status) ≠ some w.status) :
    ∃ entity, Recorded db (p.writes ++ db) entity ∧ About (p.writes ++ db) i entity := by
  rcases commit_invoice h hw with ⟨-, hold⟩ | hinserts | ⟨c, old, hch⟩
  · rw [hold] at hchanged
    exact absurd rfl hchanged
  · obtain ⟨normalize, auth, dto, file, hop, -⟩ := hinserts.op
    rw [hop] at haudit
    exact ⟨i, Audited.recorded h (haudit i w hinserts.did), .inl rfl⟩
  have hstatus : w.status ≠ old.status := by
    intro heq
    rw [hch.committed, heq] at hchanged
    exact hchanged rfl
  obtain ⟨newer, older, rows, base, hcur, hbase, -⟩ := hch.event
  have hguard := hobs.guard newer _ older hcur
  have hcause := hch.cause
  have hresult := hch.result
  have happlies := hch.applies
  cases c with
  | returned version => exact absurd (hresult ▸ hguard rfl old hbase happlies) hstatus
  | frozen org vendor => exact absurd (hresult ▸ hguard rfl old hbase happlies) hstatus
  | manualReview org => exact absurd (hresult ▸ hguard rfl old hbase happlies) hstatus
  | queueFailed org => exact absurd (hresult ▸ hguard rfl old hbase happlies) hstatus
  | submitted org version bank =>
      obtain ⟨auth, dto, key, r, requestId, hop, -, -, hdid, -⟩ := hcause
      rw [hop] at haudit
      exact ⟨i, Audited.recorded h (haudit r requestId hdid), .inl rfl⟩
  | edited org version e =>
      obtain ⟨auth, dto, v, hop, -⟩ := hcause
      rw [hop] at haudit
      exact ⟨i, Audited.recorded h haudit, .inl rfl⟩
  | decided outcome =>
      obtain ⟨auth, id, dto, key, r, v, t, n, hop, hready, hi, -⟩ := hcause
      obtain ⟨d, hdid, -⟩ := hready.decision
      rw [hop] at haudit
      obtain ⟨-, r', hr', hlater⟩ := saw_request h hready.ready.request
      exact ⟨id, Audited.recorded h (haudit d hdid),
        .inr (.inl ⟨r', hr', hlater.invoiceId.trans hi.symm⟩)⟩
  | suggested org =>
      obtain ⟨job, final, d, r, ocr, n, hop, rfl, hloaded, -, hdid⟩ := hcause
      rw [hop] at haudit
      exact ⟨_, Audited.recorded h (haudit.1 org ocr n hdid), loaded_about h hobs hloaded⟩
  | blocked org =>
      obtain ⟨job, final, d, r, n, hop, rfl, hloaded, -, hdid⟩ := hcause
      rw [hop] at haudit
      exact ⟨_, Audited.recorded h (haudit.2 org n hdid), loaded_about h hobs hloaded⟩

theorem request_traced (h : ProcOk (machine cfg) (conduct cfg) Legal db p)
    (haudit : (auditConduct p.op).due p.past p.calls) (hobs : tracing.Observed db p)
    {w : ApprovalRequest} (hw : Db.request (p.writes ++ db) id = some w)
    (hchanged : (Db.request db id).map (·.status) ≠ some w.status) :
    ∃ entity, Recorded db (p.writes ++ db) entity ∧ (entity = id ∨ entity = w.invoiceId ∨
      ∃ d, Db.document (p.writes ++ db) entity = some d ∧ d.invoiceId = w.invoiceId) := by
  rcases commit_request h hw with ⟨-, hold⟩ | hinserts | ⟨c, old, hch⟩
  · rw [hold] at hchanged
    exact absurd rfl hchanged
  · obtain ⟨auth, i, dto, key, hop, cur, -, hready⟩ := hinserts.op
    rw [hop] at haudit
    obtain ⟨v, vendorId, bank, a, riskId, requestVersion, hash, -, -, -, -, -, hnew⟩ := hready.basis
    refine ⟨i, Audited.recorded h (haudit w id hinserts.did), .inr (.inl ?_)⟩
    rw [hnew]
    rfl
  obtain ⟨newer, older, rows, base, hcur, hbase, -⟩ := hch.event
  have hguard := hobs.guard newer _ older hcur
  have hcause := hch.cause
  have happlies := hch.applies
  cases c with
  | completed outcome t =>
      obtain ⟨auth, dto, key, r, v, hop, hready⟩ := hcause
      obtain ⟨d, hdid, -⟩ := hready.decision
      rw [hop] at haudit
      exact ⟨id, Audited.recorded h (haudit d hdid), .inl rfl⟩
  | invalidated reason =>
      rcases hguard with hedits | hleft
      · rcases hcause with ⟨_, _, _, _, _, hop, -⟩ |
          ⟨auth, i, dto, v, ids, hop, -, -, -, hsaw, hid⟩ | ⟨_, _, _, _, hop, -⟩
        · rw [hop] at hedits
          cases hedits
        · rw [hop] at haudit
          obtain ⟨r, hr, hi⟩ := saw_pendingOfInvoice h hsaw hid
          have hsame : r = w := Option.some.inj (hr.symm.trans hw)
          exact ⟨i, Audited.recorded h haudit, .inr (.inl (hsame ▸ hi.symm))⟩
        · rw [hop] at hedits
          cases hedits
      · exact absurd (of_decide_eq_true happlies) (hleft old hbase)

end Commit

/-- In the runs in which the unaudited statements change no status, every step that changes the
status of an invoice or of a request leaves an audit. -/
theorem audit_trail (cfg : Config) {s₀ s s' : System} (h₀ : Idle Legal s₀)
    (h : Run (machine cfg) (Account.permitted (fun _ => True) traced) s₀ s) {a : SystemAction}
    (hs : Step (machine cfg) s a s') : Traced s.db s'.db := by
  have hkept : ∀ {newer : Db}, (∀ i, Db.invoice newer i = Db.invoice s.db i) →
      (∀ id, Db.request newer id = Db.request s.db id) → Traced s.db newer := by
    intro newer hinvoice hrequest
    refine ⟨fun i w hw hchanged => ?_, fun id r hr hchanged => ?_⟩
    · rw [← hinvoice, hw] at hchanged
      exact absurd rfl hchanged
    · rw [← hrequest, hr] at hchanged
      exact absurd rfl hchanged
  cases hs.effect with
  | quiet hdb hprocs => exact hkept (fun _ => by rw [hdb]) fun _ => by rw [hdb]
  | answered i c p q next out rows hp hq hrun => exact hkept (fun _ => rfl) fun _ => rfl
  | committed i c p next hp hq =>
      have hok := (Run.consistent (discipline cfg) h₀.consistent h).proc i p hp
      have haudit := ((Run.consistent (auditing cfg) h₀.consistent h).proc i p hp).conforms
      rw [hq] at haudit
      have hobs := (tracing_sound.run (Account.respects_permitted tracing) (discipline cfg) h₀
        trivial h).2 i p hp
      exact ⟨fun _ _ hw hchanged => invoice_traced hok haudit.1 hobs hw hchanged,
        fun _ _ hr hchanged => request_traced hok haudit.1 hobs hr hchanged⟩
  | outside rows hext =>
      exact hkept (fun _ => external_row hext rfl) fun _ => external_row hext rfl

section Sample

/-- The statement invalidates no pending request, and changes a status only if it is audited. -/
def tracedScreen (db : Db) : Stmt → Bool
  | .write (.updateRequest id (.invalidated _)) =>
      (Db.request db id).all fun r => r.status ≠ .pending
  | .write (.updateInvoice i c) => !c.unaudited ||
      (Db.invoice db i).all fun v => !c.applies v || decide ((c.apply v).status = v.status)
  | _ => true

theorem traced_of_screen (op : Op) (past : Calls Out) (es : List (Event Val Out)) (db : Db)
    (q : Stmt) (h : tracedScreen db q = true) : traced op past es db q := by
  unfold traced
  split
  · refine .inr fun r hr => ?_
    simpa [tracedScreen, hr] using h
  · intro hunaudited v hv happlies
    simpa [tracedScreen, hv, hunaudited, happlies] using h
  · trivial

/-- The last commit of an attempt hands the invoice over. -/
theorem audit_trail_sample : ∃ (s s' : System) (v w : Invoice),
    Db.invoice s.db 1 = some v ∧ Db.invoice s'.db 1 = some w ∧ w.status ≠ v.status ∧
      Traced s.db s'.db := by
  have hok := Account.permitted_of_screened (E := Failure) (R := Response) (fun _ => true)
    tracedScreen (fun _ _ => trivial) traced_of_screen
  obtain ⟨s, s', hrun, -, hstep, hcheck⟩ := exists_step (M := machine sampleConfig)
    (s := uploadedStart) (.start (.process sampleJob true) :: promotion 0 7 ++
      execs 0 (List.replicate 4 0) ++ execs 0 [0, 0, 20]) (.exec 0 0)
    (fun s s' => (Db.invoice s.db 1).any fun v => (Db.invoice s'.db 1).any fun w =>
      w.status ≠ v.status)
    hok (by decide +kernel)
  obtain ⟨v, hv, hcheck⟩ := (Option.any_eq_true _ _).mp hcheck
  obtain ⟨w, hw, hcheck⟩ := (Option.any_eq_true _ _).mp hcheck
  exact ⟨s, s', v, w, hv, hw, of_decide_eq_true hcheck,
    audit_trail sampleConfig uploadedStart_idle hrun hstep⟩

def Key.isAudit : Key → Bool
  | .audit _ => true
  | _ => false

/-- An attempt that gives up sets the invoice to manual review without a trace. -/
theorem untraced_manualReview : ∃ s s' : System,
    Run (machine sampleConfig) (Account.permitted (fun _ => True) always) uploadedStart s ∧
      Step (machine sampleConfig) s (.exec 0 0) s' ∧ ¬ Traced s.db s'.db := by
  obtain ⟨s, s', hrun, -, hstep, hcheck⟩ := exists_step (M := machine sampleConfig)
    (s := uploadedStart) (.start (.process sampleJob true) :: execs 0 [0, 0, 0, 0] ++
      [.fault 0 (.unavailable "StorageError")] ++ execs 0 [0, 0, 0]) (.exec 0 0)
    (fun s s' => (Db.invoice s.db 1).any fun (v : Invoice) =>
      (Db.invoice s'.db 1).any fun (w : Invoice) =>
        decide (w.status ≠ v.status) && s'.db.all fun row => !row.1.isAudit)
    permitted_always (by decide +kernel)
  obtain ⟨v, hv, hcheck⟩ := (Option.any_eq_true _ _).mp hcheck
  obtain ⟨w, hw, hcheck⟩ := (Option.any_eq_true _ _).mp hcheck
  obtain ⟨hchanged, hnone⟩ := Bool.and_eq_true_iff.mp hcheck
  refine ⟨s, s', hrun, hstep, fun htraced => ?_⟩
  have hchanged := of_decide_eq_true hchanged
  obtain ⟨entity, ⟨rows, id, a, hrows, hmem, -⟩, -⟩ := htraced.invoice 1 w hw (by
    rw [hv]
    exact fun heq => hchanged (Option.some.inj heq).symm)
  have hall := List.all_eq_true.mp hnone ⟨.audit id, a⟩ (hrows ▸ List.mem_append_left _ hmem)
  cases hall

end Sample
end BlocTrust
