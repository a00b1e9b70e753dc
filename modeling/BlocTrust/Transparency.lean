import BlocTrust.InvoiceContracts
import BlocTrust.JobDelivery
import BlocTrust.RowSecurity

/-!
The row-level security hides nothing from the services.
The rows that the services write refer to rows of their own organization, as the foreign keys of
the migrations say.  So a call of the API, which names its organization or the rows that it has
read, asks for rows of its organization only, and every statement of it is answered under the
policies as it is without them.
-/
namespace BlocTrust

open ReadCommitted

section Keys

/-- The foreign keys of the rows that the services write, each within one organization. -/
structure Keyed (db : Db) : Prop where
  contract : ∀ i v, (⟨.invoice i, v⟩ : Sigma Val) ∈ db → Contracted db v
  document : ∀ id r, Db.processing db id = some r →
    ∃ d, Db.document db id = some d ∧ d.organizationId = r.organizationId
  invoice : ∀ id r, Db.request db id = some r →
    ∃ v, Db.invoice db r.invoiceId = some v ∧ v.organizationId = r.organizationId
  risk : ∀ id r, Db.request db id = some r →
    ∃ a, Db.risk db r.riskAssessmentId = some a ∧ a.organizationId = r.organizationId
  request : ∀ r m d, Db.decision db r m = some d →
    ∃ q, Db.request db r = some q ∧ q.organizationId = d.organizationId

/-- The services outside this development keep a contract with its organization, and link a vendor
to buildings of its organization. -/
structure Outer (db : Db) : Prop where
  contract : ∀ (id : Id) (c c' : Contract), (⟨.contract id, c⟩ : Sigma Val) ∈ db →
    (⟨.contract id, c'⟩ : Sigma Val) ∈ db → c'.organizationId = c.organizationId
  link : ∀ (v b : Id) (w : Vendor) (o : Id), Db.vendor db v = some w →
    Log.row (.vendorBuilding v b) db = some o → o = w.organizationId

variable {cfg : Config} {db view rows : Db} {p : Process} {v : Invoice} {i id : Id}

/-- A document that an upload has inserted is its organization's. -/
theorem did_insertDocument (h : ProcOk (machine cfg) (conduct cfg) Legal db p) {d : Document}
    (hd : Did p.calls (.insertDocument id d) ()) : ∃ d', Db.document (p.writes ++ db) id = some d' ∧
      d'.organizationId = p.op.organizationId := by
  obtain ⟨newer, older, rows, base, hcur, hwrote, hbefore⟩ := did_event h hd
  obtain ⟨-, normalize, auth, dto, file, hop, horg, -⟩ := conduct_insertDocument hbefore
  cases hwrote with
  | insertDocument hinserted =>
      obtain ⟨d', hd', hlater⟩ := written_later h hcur hinserted.row
      have hlater : DocumentLater d d' := hlater
      rw [hop]
      exact ⟨d', hd', hlater.organizationId.trans horg⟩

theorem document_key (h : ProcOk (machine cfg) (conduct cfg) Legal db p) (hk : Keyed db)
    {r : DocumentProcessing} (hr : Db.processing (p.writes ++ db) id = some r) :
    ∃ d, Db.document (p.writes ++ db) id = some d ∧ d.organizationId = r.organizationId := by
  have hcommitted : ∀ old, Db.processing db id = some old →
      old.organizationId = r.organizationId →
      ∃ d, Db.document (p.writes ++ db) id = some d ∧ d.organizationId = r.organizationId := by
    intro old hold horg
    obtain ⟨d, hd, hdorg⟩ := hk.document id old hold
    obtain ⟨d', hd', hlater⟩ := commit_later h (k := .document id) hd
    have hlater : DocumentLater d d' := hlater
    exact ⟨d', hd', (hlater.organizationId.trans hdorg).trans horg⟩
  rcases commit_processing h hr with ⟨-, hold⟩ | hinserts | ⟨c, old, hch⟩
  · exact hcommitted r hold rfl
  · obtain ⟨normalize, auth, dto, file, hop, horg, d, hd⟩ := hinserts.op
    obtain ⟨d', hd', hdorg⟩ := did_insertDocument h hd
    rw [hop] at hdorg
    exact ⟨d', hd', hdorg.trans horg.symm⟩
  · refine hcommitted old hch.committed ?_
    rw [hch.result, c.apply_organizationId]

/-- The invoice and the assessment of a request. -/
theorem request_keys (h : ProcOk (machine cfg) (conduct cfg) Legal db p) (hk : Keyed db)
    {r : ApprovalRequest} (hr : Db.request (p.writes ++ db) id = some r) :
    (∃ v, Db.invoice (p.writes ++ db) r.invoiceId = some v ∧
      v.organizationId = r.organizationId) ∧
    ∃ a, Db.risk (p.writes ++ db) r.riskAssessmentId = some a ∧
      a.organizationId = r.organizationId := by
  rcases commit_request_later h hr with hinserts | ⟨q, hq, hlater⟩
  · obtain ⟨auth, i, dto, key, -, cur, hsub, hready⟩ := hinserts.op
    obtain ⟨v, vendorId, bank, a, riskId, version, keyHash, hv, -, -, hrisk, hassesses, rfl⟩ :=
      hready.basis
    obtain ⟨horg, w, hw, hlater⟩ := saw_invoice h (hsub hv.seen)
    exact ⟨⟨w, hw, hlater.organizationId.trans horg⟩, a, did_insertRisk h (hsub hrisk),
      hassesses.organization⟩
  · rw [hlater.invoiceId, hlater.riskAssessmentId, hlater.organizationId]
    obtain ⟨v, hv, hvorg⟩ := hk.invoice id q hq
    obtain ⟨a, ha, haorg⟩ := hk.risk id q hq
    obtain ⟨w, hw, hvlater⟩ := commit_later h (k := .invoice q.invoiceId) hv
    obtain ⟨b, hb, hsame⟩ := commit_later h (k := .risk q.riskAssessmentId) ha
    have hvlater : InvoiceLater v w := hvlater
    have hsame : b = a := hsame
    subst hsame
    exact ⟨⟨w, hw, hvlater.organizationId.trans hvorg⟩, b, hb, haorg⟩

theorem decision_key (h : ProcOk (machine cfg) (conduct cfg) Legal db p) (hk : Keyed db)
    {r m : Id} {d : ApprovalDecision} (hd : Db.decision (p.writes ++ db) r m = some d) :
    ∃ q, Db.request (p.writes ++ db) r = some q ∧ q.organizationId = d.organizationId := by
  rcases commit_decision h hd with hold | hinserts
  · obtain ⟨q, hq, horg⟩ := hk.request r m d hold
    obtain ⟨q', hq', hlater⟩ := commit_later h (k := .request r) hq
    have hlater : RequestLater q q' := hlater
    exact ⟨q', hq', hlater.organizationId.trans horg⟩
  · obtain ⟨auth, dto, key, -, cur, q, v, hsub, hready⟩ := hinserts.op
    obtain ⟨horg, q', hq', hlater⟩ := saw_request h (hsub hready.ready.request)
    exact ⟨q', hq', (hlater.organizationId.trans horg).trans hready.organization.symm⟩

/-- What an open transaction sees, and what it commits, keeps the foreign keys. -/
theorem Keyed.during (h : ProcOk (machine cfg) (conduct cfg) Legal db p) (hk : Keyed db) :
    Keyed (p.writes ++ db) where
  contract i v hv := by
    rcases List.mem_append.mp hv with hv | hv
    · exact contracted_writes h hk.contract [] rfl i v hv
    · exact (hk.contract i v hv).mono (List.subset_append_right _ _)
  document id r hr := document_key h hk hr
  invoice id r hr := (request_keys h hk hr).1
  risk id r hr := (request_keys h hk hr).2
  request r m d hd := decision_key h hk hd

theorem Keyed.external (hk : Keyed db) (hext : (machine cfg).external db rows) :
    Keyed (rows ++ db) where
  contract i v hv := by
    rcases List.mem_append.mp hv with hv | hv
    · have houtside := hext.1 _ hv
      cases houtside
    · exact (hk.contract i v hv).mono (List.subset_append_right _ _)
  document id r hr := by
    have hrow : Db.processing db id = some r := (external_row hext rfl).symm.trans hr
    obtain ⟨d, hd, horg⟩ := hk.document id r hrow
    exact ⟨d, (external_row hext rfl).trans hd, horg⟩
  invoice id r hr := by
    have hrow : Db.request db id = some r := (external_row hext rfl).symm.trans hr
    obtain ⟨v, hv, horg⟩ := hk.invoice id r hrow
    exact ⟨v, (external_row hext rfl).trans hv, horg⟩
  risk id r hr := by
    have hrow : Db.request db id = some r := (external_row hext rfl).symm.trans hr
    obtain ⟨a, ha, horg⟩ := hk.risk id r hrow
    exact ⟨a, (external_row hext rfl).trans ha, horg⟩
  request r m d hd := by
    have hrow : Db.decision db r m = some d := (external_row hext rfl).symm.trans hd
    obtain ⟨q, hq, horg⟩ := hk.request r m d hrow
    exact ⟨q, (external_row hext rfl).trans hq, horg⟩

theorem Outer.during {C : Op → Conduct Out} (h : ProcOk (machine cfg) C Legal db p)
    (ho : Outer db) : Outer (p.writes ++ db) where
  contract id c c' hc hc' := by
    have hold : ∀ c : Contract, (⟨.contract id, c⟩ : Sigma Val) ∈ p.writes ++ db →
        (⟨.contract id, c⟩ : Sigma Val) ∈ db := by
      intro c hc
      rcases List.mem_append.mp hc with hc | hc
      · cases written_inner h hc
      · exact hc
    exact ho.contract id c c' (hold c hc) (hold c' hc')
  link v b w o hw hlink := by
    have hold : ∀ k, outside k = true → Log.row k (p.writes ++ db) = Log.row k db := by
      intro k hk
      refine Log.row_append_of_not_mem _ fun hmem => ?_
      obtain ⟨s, hs, rfl⟩ := List.mem_map.mp hmem
      rw [written_inner h hs] at hk
      cases hk
    exact ho.link v b w o ((hold _ rfl).symm.trans hw) ((hold _ rfl).symm.trans hlink)

end Keys

@[simp] theorem Db.mem_vendorBuildings {db : Db} {v b o : Id} :
    ((v, b), o) ∈ db.vendorBuildings ↔ Log.row (.vendorBuilding v b) db = some o := by
  simp [Db.vendorBuildings, Log.mem_table]

section Calls

variable {cfg : Config} {db : Db} {p : Process} {id i o : Id}

/-- A request in hand is there, and is the organization's. -/
theorem InHand.found (h : ProcOk (machine cfg) (conduct cfg) Legal db p) {r : ApprovalRequest}
    (hhand : InHand o p.calls id r) : r.organizationId = o ∧
      ∃ r', Db.request (p.writes ++ db) id = some r' ∧ RequestLater r r' := by
  obtain ⟨horg, hseen | ⟨key, hseen⟩ | hdid⟩ := hhand
  · exact ⟨horg, (saw_request h hseen).2⟩
  · obtain ⟨newer, older, base, choice, hcur, hanswer⟩ := saw_event h hseen
    have hrow := Db.mem_requests.mp (List.mem_of_mem_filter (mem_of_anyOf hanswer))
    exact ⟨horg, view_later h hcur (k := .request id) hrow⟩
  · exact ⟨horg, r, (did_insertRequest h hdid).2, ⟨rfl, fun _ => rfl⟩⟩

/-- What a call knows when it reads makes the read one of its organization's rows. -/
theorem known_asks (h : ProcOk (machine cfg) (conduct cfg) Legal db p)
    (hk : Keyed (p.writes ++ db)) (ho : Outer (p.writes ++ db)) {q : Query}
    (hq : known o p.calls q) : q.Asks o (p.writes ++ db) := by
  cases q with
  | findProcessings ids =>
      obtain ⟨i, documents, hseen, rfl⟩ := hq
      obtain ⟨newer, older, base, choice, hcur, hanswer⟩ := saw_event h hseen
      cases hanswer
      intro id hid r hr
      obtain ⟨⟨j, d⟩, hmem, rfl⟩ := List.mem_map.mp hid
      obtain ⟨hrow, hcond⟩ := List.mem_filter.mp hmem
      have hcond := of_decide_eq_true hcond
      obtain ⟨d', hd', hlater⟩ := view_later h hcur (k := .document j) (Db.mem_documents.mp hrow)
      have hlater : DocumentLater d d' := hlater
      obtain ⟨d'', hd'', horg⟩ := hk.document j r hr
      have hsame : d'' = d' := Option.some.inj (hd''.symm.trans hd')
      rw [← horg, hsame, hlater.organizationId]
      exact hcond.1
  | findContract id =>
      obtain ⟨i, v, hseen, hcontract⟩ := hq
      obtain ⟨newer, older, base, choice, hcur, hanswer⟩ := saw_event h hseen
      obtain ⟨hrow, horg⟩ := rowWhere_eq_some.mp (Option.some.inj hanswer)
      intro c hc
      obtain ⟨c', hc', hcorg, -⟩ :=
        hk.contract i v (h.view_subset hcur (Log.mem_of_row hrow)) id hcontract
      have hsame := ho.contract id c' c hc' (Log.mem_of_row hc)
      rw [hsame, hcorg]
      exact of_decide_eq_true horg
  | findRisk id =>
      obtain ⟨requestId, r, hhand, rfl⟩ := hq
      obtain ⟨horg, r', hr', hlater⟩ := hhand.found h
      intro a ha
      obtain ⟨a', ha', haorg⟩ := hk.risk requestId r' hr'
      rw [hlater.riskAssessmentId] at ha'
      have hsame : a' = a := Option.some.inj (ha'.symm.trans ha)
      rw [← hsame, haorg, hlater.organizationId, horg]
  | findDecisions requestId =>
      obtain ⟨r, hhand⟩ := hq
      obtain ⟨horg, r', hr', hlater⟩ := hhand.found h
      intro m d hd
      obtain ⟨q, hq, hdorg⟩ := hk.request requestId m d hd
      have hsame : q = r' := Option.some.inj (hq.symm.trans hr')
      rw [← hdorg, hsame, hlater.organizationId, horg]
  | findLines i =>
      obtain ⟨v, hseen⟩ := hq
      obtain ⟨horg, w, hw, hlater⟩ := saw_invoice h hseen
      intro v' hv'
      have hsame : w = v' := Option.some.inj (hw.symm.trans hv')
      rw [← hsame, hlater.organizationId, horg]
  | pendingOfVendor org vendorId =>
      refine ⟨hq, fun id r v hr horg hv => ?_⟩
      obtain ⟨w, hw, hworg⟩ := hk.invoice id r hr
      have hsame : w = v := Option.some.inj (hw.symm.trans hv)
      rw [← hsame, hworg, horg]
  | findVendorInScope org id buildings =>
      refine ⟨hq, fun v link hv horg hlink hid => ?_⟩
      obtain ⟨⟨vendorId, buildingId⟩, owner⟩ := link
      have hid : vendorId = id := hid
      subst hid
      rw [ho.link vendorId buildingId v owner hv (Db.mem_vendorBuildings.mp hlink), horg]
  | _ => exact hq

theorem edited_asks (h : ProcOk (machine cfg) (conduct cfg) Legal db p) {c : InvoiceChange}
    (hdid : Did p.calls (.updateInvoice i c) 1) {v : Invoice}
    (hv : Db.invoice (p.writes ++ db) i = some v) : v.organizationId = p.op.organizationId := by
  obtain ⟨old, new, hch, hnew⟩ := did_updateInvoice h hdid Nat.one_ne_zero
  have hsame : new = v := Option.some.inj (hnew.symm.trans hv)
  rw [← hsame]
  exact hch.owned h hnew

/-- What a call has seen before it writes makes the write one of its organization's rows. -/
theorem write_asks (h : ProcOk (machine cfg) (conduct cfg) Legal db p)
    (hapi : p.op.isWorker = false) {u : Update}
    (hbefore : (conduct cfg p.op).before p.past p.calls (.write u))
    (htenant : ofTenant p.op.organizationId (.write u)) :
    u.Asks p.op.organizationId (p.writes ++ db) := by
  cases u with
  | insertInvoice id v =>
      obtain ⟨-, -, normalize, auth, dto, file, hop, horg⟩ := conduct_insertInvoice hbefore
      rw [hop]
      exact horg
  | insertDocument id d =>
      obtain ⟨-, normalize, auth, dto, file, hop, horg, -⟩ := conduct_insertDocument hbefore
      rw [hop]
      exact horg
  | insertProcessing id r =>
      obtain ⟨-, normalize, auth, dto, file, hop, horg, -⟩ := conduct_insertProcessing hbefore
      rw [hop]
      exact horg
  | insertPolicy org => exact htenant
  | insertRisk a =>
      cases hop : p.op with
      | submit auth i dto key =>
          rw [hop] at hbefore
          obtain ⟨v, -, hassesses⟩ := hbefore
          exact hassesses.organization
      | decide auth r dto key => rw [hop] at hbefore; exact hbefore.elim
      | _ => rw [hop] at hbefore; exact hbefore.elim
  | insertRequest r =>
      obtain ⟨auth, i, dto, key, hop, hready⟩ := conduct_insertRequest hbefore
      obtain ⟨v, vendorId, bank, a, riskId, version, keyHash, -, -, -, -, -, hr⟩ := hready.basis
      rw [hop, hr]
      rfl
  | insertDecision d =>
      obtain ⟨auth, dto, key, hop, ⟨q, v, hready⟩, -⟩ := conduct_insertDecision hbefore
      rw [hop]
      exact hready.organization
  | insertBank b =>
      obtain ⟨auth, dto, hop, horg⟩ := conduct_insertBank hbefore
      rw [hop]
      exact horg
  | insertAudit a => exact htenant
  | updateInvoice id c =>
      intro v hv happlies
      exact (conduct_invoiceCause hbefore (List.Subset.refl _)).owned h happlies hv rfl
  | updateRequest id c =>
      intro r hr _
      exact (conduct_requestCause hbefore (List.Subset.refl _)).owned h hr
  | updateDocument id c =>
      obtain ⟨⟨job, final, hop, -⟩, -⟩ := conduct_updateDocument hbefore
      rw [hop] at hapi
      cases hapi
  | updateProcessing id c =>
      intro r hr happlies
      rcases conduct_processingCause hbefore with ⟨job, final, d, q, hop, -⟩ |
        ⟨normalize, auth, dto, file, code, d, hop, rfl, -⟩
      · rw [hop] at hapi
        cases hapi
      · rw [hop]
        exact of_decide_eq_true happlies
  | updatePolicy org c => exact htenant
  | deleteLines i =>
      obtain ⟨auth, dto, e, hop, hdid⟩ := conduct_lines (.inl hbefore)
      exact fun v hv => edited_asks h hdid hv
  | createLines i lines =>
      obtain ⟨auth, dto, e, hop, hdid⟩ := conduct_lines (.inr ⟨lines, hbefore⟩)
      exact fun v hv => edited_asks h hdid hv
  | advisoryLock org sha => trivial

/-- The next statement of a call of the API asks for rows of its organization. -/
theorem statement_asks (h : ProcOk (machine cfg) (conduct cfg) Legal db p)
    (ht : ProcOk (machine cfg) tenantConduct Legal db p) (hk : Keyed db) (ho : Outer db)
    (hapi : p.op.isWorker = false) {s : Stmt}
    {next : Except Failure (Out s) → Prog Out Failure Response} (hs : p.prog = .stmt s next) :
    s.Asks p.op.organizationId (p.writes ++ db) := by
  have hbefore := h.conforms
  have htenant := ht.conforms
  rw [hs] at hbefore htenant
  cases s with
  | read q =>
      have hknown : known p.op.organizationId p.calls q := by
        cases hop : p.op with
        | process job final => rw [hop] at hapi; cases hapi
        | _ => rw [hop] at htenant; exact htenant.1
      exact known_asks h (hk.during h) (ho.during h) hknown
  | write u => exact write_asks h hapi hbefore.1 (ofTenant_of_before htenant.1)
  | call c => trivial

end Calls
section Runs

variable {cfg : Config} {ok : System → SystemAction → Prop} {s₀ s : System}

theorem keyed (cfg : Config) (h₀ : Idle Legal s₀) (hk : Keyed s₀.db)
    (hs : Run (machine cfg) ok s₀ s) : Keyed s.db := by
  refine hs.invariant (I := fun s : System => Keyed s.db) hk fun u a v hu hk _ hstep => ?_
  cases hstep.effect with
  | quiet hdb hprocs => exact hdb ▸ hk
  | answered i c p q next out rows hp hq hrun => exact hk
  | committed i c p next hp hq =>
      exact hk.during ((Run.consistent (discipline cfg) h₀.consistent hu).proc i p hp)
  | outside rows hext => exact hk.external hext

/-- The services outside keep to what the development relies on. -/
def foreseen (s : System) : SystemAction → Prop
  | .env rows => Outer (rows ++ s.db)
  | _ => True

theorem outer (cfg : Config) (h₀ : Idle Legal s₀) (ho : Outer s₀.db)
    (hs : Run (machine cfg) foreseen s₀ s) : Outer s.db := by
  refine hs.invariant (I := fun s : System => Outer s.db) ho fun u a v hu ho ha hstep => ?_
  cases hstep.effect with
  | quiet hdb hprocs => exact hdb ▸ ho
  | answered i c p q next out rows hp hq hrun => exact ho
  | committed i c p next hp hq =>
      exact ho.during ((Run.consistent (discipline cfg) h₀.consistent hu).proc i p hp)
  | outside rows hext => exact ha

/-- In every run, whatever calls are interleaved, the foreign keys hold, and the next statement of a
call of the API is answered under the policies for its organization as it is without them. -/
theorem policies_hide_nothing (cfg : Config) (h₀ : Idle Legal s₀) (hk : Keyed s₀.db)
    (ho : Outer s₀.db) (hs : Run (machine cfg) foreseen s₀ s) {i : Nat} {p : Process}
    (hp : s.procs[i]? = some p) (hapi : p.op.isWorker = false) {q : Stmt}
    {next : Except Failure (Out q) → Prog Out Failure Response} (hq : p.prog = .stmt q next)
    (choice : Nat) : Keyed s.db ∧ policed cfg p.op.organizationId q choice (p.writes ++ s.db) =
      engine cfg q choice (p.writes ++ s.db) := by
  have hkeyed := keyed cfg h₀ hk hs
  exact ⟨hkeyed, policed_eq cfg choice (statement_asks
    ((Run.consistent (discipline cfg) h₀.consistent hs).proc i p hp)
    ((Run.consistent (tenancy cfg) h₀.consistent hs).proc i p hp) hkeyed (outer cfg h₀ ho hs)
    hapi hq)⟩

end Runs
section Sample

theorem sampleDb_keyed : Keyed sampleDb where
  contract i v hv := by
    refine contracted_of_none ?_
    simp only [sampleDb, List.mem_cons, List.not_mem_nil, or_false] at hv
    simp_all [sampleInvoice]
  document id r hr := by
    have hid : id = 1 := by
      have hkey := Log.mem_keys_of_row hr
      simpa [sampleDb, List.keys] using hkey
    subst hid
    cases hr
    exact ⟨sampleDocument, rfl, rfl⟩
  invoice id r hr := by
    have hkey := Log.mem_keys_of_row hr
    simp [sampleDb, List.keys] at hkey
  risk id r hr := by
    have hkey := Log.mem_keys_of_row hr
    simp [sampleDb, List.keys] at hkey
  request r m d hd := by
    have hkey := Log.mem_keys_of_row hd
    simp [sampleDb, List.keys] at hkey

theorem sampleDb_outer : Outer sampleDb where
  contract id c c' hc := by simp [sampleDb] at hc
  link v b w o _ hlink := by
    have hkey := Log.mem_keys_of_row hlink
    simp [sampleDb, List.keys] at hkey

/-- An edit of the invoice of another organization, which the policies hide. -/
theorem policies_hide_nothing_sample : ∃ t : System, ∃ dto, ∃ p ∈ t.procs,
    p.op = .update (sampleAuth 1) 6 dto ∧ Db.invoice (visible 1 t.db) 6 ≠ Db.invoice t.db 6 ∧
      policed sampleConfig 1 (.read (.findInvoice 1 6)) 0 (p.writes ++ t.db) =
        engine sampleConfig (.read (.findInvoice 1 6)) 0 (p.writes ++ t.db) := by
  have hok : ∀ (s : System) (a : SystemAction), servicesOnly s a = true → foreseen s a := by
    intro s a h
    cases a with
    | env rows => cases h
    | _ => trivial
  obtain ⟨t, hrun, hcheck⟩ := exists_run (M := machine sampleConfig) (s := sampleStart)
    (.start (.upload id otherAuth ⟨none, none⟩ (some sampleFile)) :: uploadSteps 0 7)
    (fun t => decide (Db.invoice (visible 1 t.db) 6 ≠ Db.invoice t.db 6)) hok
    (by decide +kernel)
  have hstarted := Run.step (a := .start (.update (sampleAuth 1) 6 (sampleEdit 1 5))) hrun trivial
    (.start _)
  exact ⟨⟨t.db, t.procs ++ [_]⟩, sampleEdit 1 5, _, List.mem_append_right _ List.mem_cons_self,
    rfl, of_decide_eq_true hcheck, (policies_hide_nothing sampleConfig sampleStart_idle
      sampleDb_keyed sampleDb_outer hstarted List.getElem?_concat_length rfl rfl 0).2⟩

end Sample
end BlocTrust
