import BlocTrust.Causes
import BlocTrust.History

/-!
What the answers of an open transaction say about the log it commits to.
A row that was read, and a row that was written, is there at the commit in a later version;
a transaction that reaches its commit has done what its conduct makes due.
-/
namespace BlocTrust

open ReadCommitted

variable {cfg : Config} {db : Db} {p : Process}

theorem commit_due (h : ProcOk (machine cfg) (conduct cfg) Legal db p) {next}
    (hq : p.prog = .commit next) : (conduct cfg p.op).due p.past p.calls := by
  have hconf := h.conforms
  rw [hq] at hconf
  exact hconf.1

theorem rowWhere_eq_some {α : Type} {condition : α → Bool} {row : Option α} {a : α} :
    rowWhere condition row = some a ↔ row = some a ∧ condition a = true := by
  simp [rowWhere, Option.filter_eq_some_iff]

section Rows

variable {new older : List (Event Val Out)} {k : Key} {v : Val k}

/-- A row of the view of a statement is there at the commit, in a later version. -/
theorem view_later (h : ProcOk (machine cfg) (conduct cfg) Legal db p) {e : Event Val Out}
    (hcur : p.current = new ++ e :: older) (hv : Log.row k (writes older ++ e.base) = some v) :
    ∃ w, Log.row k (p.writes ++ db) = some w ∧ Later k v w :=
  h.carried later_persists hcur hv

/-- A row that a statement wrote is there at the commit, in a later version. -/
theorem written_later (h : ProcOk (machine cfg) (conduct cfg) Legal db p) {e : Event Val Out}
    (hcur : p.current = new ++ e :: older) (hv : Log.row k e.rows = some v) :
    ∃ w, Log.row k (p.writes ++ db) = some w ∧ Later k v w := by
  have hsuffix : e.rows ++ writes older ++ db <:+ p.writes ++ db :=
    ⟨writes new, by simp [Proc.writes, hcur, writes_append, writes_cons]⟩
  refine h.view.related later_persists hsuffix ?_
  rw [List.append_assoc]
  exact Log.row_append_of_row _ hv

/-- The versions of the committed log before and after the commit. -/
theorem commit_later (h : ProcOk (machine cfg) (conduct cfg) Legal db p)
    (hv : Log.row k db = some v) : ∃ w, Log.row k (p.writes ++ db) = some w ∧ Later k v w :=
  row_later h.view (List.suffix_append _ _) hv

theorem commit_request_later (h : ProcOk (machine cfg) (conduct cfg) Legal db p) {id : Id}
    {r : ApprovalRequest} (hr : Db.request (p.writes ++ db) id = some r) :
    InsertsRequest db p id r ∨ ∃ q, Db.request db id = some q ∧ RequestLater q r := by
  rcases commit_request h hr with ⟨-, hold⟩ | hinserted | ⟨c, old, hchanges⟩
  · exact .inr ⟨r, hold, ⟨rfl, fun _ => rfl⟩⟩
  · exact .inl hinserted
  · obtain ⟨w, hw, hlater⟩ := commit_later h (k := .request id) hchanges.committed
    rw [show Log.row (Key.request id) (p.writes ++ db) = some r from hr] at hw
    cases hw
    exact .inr ⟨old, hchanges.committed, hlater⟩

end Rows

section Reads

variable {org id : Id}

/-- A request that was read, with its version at the commit. -/
theorem saw_request (h : ProcOk (machine cfg) (conduct cfg) Legal db p) {r : ApprovalRequest}
    (hs : Saw p.calls (.findRequest org id) (some r)) : r.organizationId = org ∧
      ∃ r', Db.request (p.writes ++ db) id = some r' ∧ RequestLater r r' := by
  obtain ⟨new, older, base, choice, hcur, hanswer⟩ := saw_event h hs
  obtain ⟨hrow, horg⟩ := rowWhere_eq_some.mp (Option.some.inj hanswer)
  exact ⟨of_decide_eq_true horg, view_later h hcur hrow⟩

/-- An invoice that was read, with its version at the commit. -/
theorem saw_invoice (h : ProcOk (machine cfg) (conduct cfg) Legal db p) {v : Invoice}
    (hs : Saw p.calls (.findInvoice org id) (some v)) : v.organizationId = org ∧
      ∃ w, Db.invoice (p.writes ++ db) id = some w ∧ InvoiceLater v w := by
  obtain ⟨new, older, base, choice, hcur, hanswer⟩ := saw_event h hs
  obtain ⟨hrow, horg⟩ := rowWhere_eq_some.mp (Option.some.inj hanswer)
  exact ⟨of_decide_eq_true horg, view_later h hcur hrow⟩

/-- A read before a statement of the transaction ran on an earlier log. -/
theorem saw_before (h : ProcOk (machine cfg) (conduct cfg) Legal db p)
    {new older : List (Event Val Out)} {e : Event Val Out} (hcur : p.current = new ++ e :: older)
    {q : Query} {out : q.Out} (hs : Saw (older.map Event.call) q out) :
    ∃ between rest base choice, older = between ++ ⟨.read q, out, [], base⟩ :: rest ∧
      answer cfg choice (writes rest ++ base) q = some out ∧ base <:+ e.base := by
  obtain ⟨e', he, hcall⟩ := List.mem_map.mp hs
  have htrace := h.trace
  rw [hcur] at htrace
  have hsuffix := htrace.executed.later e' he
  obtain ⟨between, rest, rfl⟩ := List.append_of_mem he
  have hcur' : p.current = (new ++ e :: between) ++ e' :: rest := by simp [hcur]
  have htrace' := h.trace
  rw [hcur'] at htrace'
  have hran := executed_ran htrace'.executed
  obtain ⟨s, out, rows, base⟩ := e'
  cases hcall
  cases hran with
  | read choice hanswer => exact ⟨between, rest, base, choice, rfl, hanswer, hsuffix⟩

theorem did_before (h : ProcOk (machine cfg) (conduct cfg) Legal db p)
    {new older : List (Event Val Out)} {e : Event Val Out} (hcur : p.current = new ++ e :: older)
    {u : Update} {out : u.Out} (hd : Did (older.map Event.call) u out) :
    ∃ cur, cur ⊆ older.map Event.call ∧ (conduct cfg p.op).before p.past cur (.write u) := by
  obtain ⟨e', he, hcall⟩ := List.mem_map.mp hd
  obtain ⟨between, rest, rfl⟩ := List.append_of_mem he
  have hcur' : p.current = (new ++ e :: between) ++ e' :: rest := by simp [hcur]
  have htrace := h.trace
  rw [hcur'] at htrace
  have hallowed := htrace.executed.allowed
  obtain ⟨s, out', rows, base⟩ := e'
  cases hcall
  refine ⟨rest.map Event.call, ?_, hallowed⟩
  rw [List.map_append, List.map_cons]
  exact fun c hc => List.mem_append_right _ (List.mem_cons_of_mem _ hc)

/-- A row that the transaction has not written is read from the committed log. -/
theorem committed_row {k : Key} {between rest : List (Event Val Out)} {e : Event Val Out}
    (hfirst : k ∉ (writes (between ++ e :: rest)).keys) (base : Db) :
    Log.row k (writes rest ++ base) = Log.row k base := by
  refine Log.row_append_of_not_mem _ fun hk => hfirst ?_
  obtain ⟨e', he', hke⟩ := mem_keys_writes.mp hk
  exact mem_keys_writes.mpr ⟨e', by simp [he'], hke⟩

/-- The invoice as a transaction read it before it changed it, in the log of that time. -/
theorem read_before (h : ProcOk (machine cfg) (conduct cfg) Legal db p)
    {new older : List (Event Val Out)} {e : Event Val Out} (hcur : p.current = new ++ e :: older)
    (hfirst : Key.invoice id ∉ (writes older).keys) {v : Invoice}
    (hs : Saw (older.map Event.call) (.findInvoice org id) (some v)) :
    v.organizationId = org ∧ ∃ e' ∈ p.current, Db.invoice e'.base id = some v ∧
      e'.base <:+ e.base := by
  obtain ⟨between, rest, base, choice, rfl, hanswer, hsuffix⟩ := saw_before h hcur hs
  obtain ⟨hrow, horg⟩ := rowWhere_eq_some.mp (Option.some.inj hanswer)
  have hbase : Db.invoice base id = some v := (committed_row hfirst base).symm.trans hrow
  refine ⟨of_decide_eq_true horg, ⟨.read (.findInvoice org id), some v, [], base⟩, ?_, hbase, hsuffix⟩
  simp [hcur]

/-- A transaction that tells a request that it is invalid leaves it closed. -/
theorem invalidated_closed (h : ProcOk (machine cfg) (conduct cfg) Legal db p) {reason : String}
    {n : Nat} (hd : Did p.calls (.updateRequest id (.invalidated reason)) n) :
    ∃ r, Db.request (p.writes ++ db) id = some r ∧ r.status ≠ .pending := by
  by_cases hn : n = 0
  · obtain ⟨newer, older, rows, base, hcur, hwrote, hbefore⟩ := did_event h hd
    have hfirst := request_first h hcur hbefore
    -- the request was there when the transaction found it
    have hfound : ∃ r, Db.request base id = some r := by
      have hlater : ∀ {early : Db} {r : ApprovalRequest}, early <:+ base →
          Db.request early id = some r → ∃ r, Db.request base id = some r := by
        intro early r hs hr
        have hchain : Log.Chain Legal base :=
          (h.view_chain hcur).of_append
        obtain ⟨r', hr', -⟩ := request_later hchain hs hr
        exact ⟨r', hr'⟩
      rcases conduct_requestCause hbefore (List.Subset.refl _) with
        ⟨auth, dto, key, r, v, -, hseen⟩ | ⟨auth, i, dto, v, ids, -, -, -, -, hs, hid⟩ |
        ⟨auth, vendorId, dto, ids, -, -, hs, hid⟩
      · obtain ⟨between, rest, early, choice, rfl, hanswer, hsuffix⟩ :=
          saw_before h hcur hseen.request
        obtain ⟨hrow, -⟩ := rowWhere_eq_some.mp (Option.some.inj hanswer)
        exact hlater hsuffix ((committed_row hfirst early).symm.trans hrow)
      · obtain ⟨between, rest, early, choice, rfl, hanswer, hsuffix⟩ := saw_before h hcur hs
        cases hanswer
        obtain ⟨⟨j, r⟩, hmem, rfl⟩ := List.mem_map.mp hid
        have hrow := Db.mem_requests.mp (List.mem_of_mem_filter hmem)
        exact hlater hsuffix ((committed_row hfirst early).symm.trans hrow)
      · obtain ⟨between, rest, early, choice, rfl, hanswer, hsuffix⟩ := saw_before h hcur hs
        cases hanswer
        obtain ⟨⟨j, r⟩, hmem, rfl⟩ := List.mem_map.mp hid
        have hrow := Db.mem_requests.mp (List.mem_of_mem_filter hmem)
        exact hlater hsuffix ((committed_row hfirst early).symm.trans hrow)
    obtain ⟨r, hr⟩ := hfound
    have hview : Log.row (.request id) (writes older ++ base) = some r :=
      (Log.row_append_of_not_mem _ hfirst).trans hr
    subst hn
    cases hwrote with
    | updateRequest hupdated =>
        cases hupdated with
        | missed hmissed =>
            have hclosed : r.status ≠ .pending := by
              simpa [RequestChange.applies] using hmissed r hview
            obtain ⟨r', hr', hlater⟩ := view_later h hcur hview
            exact ⟨r', hr', by rw [hlater.closed hclosed]; exact hclosed⟩
  · obtain ⟨old, new, hch, hnew⟩ := did_updateRequest h hd hn
    refine ⟨new, hnew, ?_⟩
    rw [hch.result]
    simp [RequestChange.apply]

theorem did_insertRisk (h : ProcOk (machine cfg) (conduct cfg) Legal db p) {a : RiskAssessment}
    (hd : Did p.calls (.insertRisk a) id) : Db.risk (p.writes ++ db) id = some a := by
  obtain ⟨new, older, rows, base, hcur, hwrote, -⟩ := did_event h hd
  cases hwrote with
  | insertRisk _ hinserted =>
      obtain ⟨w, hw, rfl⟩ := written_later h hcur hinserted.row
      exact hw

/-- A decision that the transaction has inserted is among its writes. -/
theorem did_insertDecision (h : ProcOk (machine cfg) (conduct cfg) Legal db p)
    {d : ApprovalDecision} (hd : Did p.calls (.insertDecision d) ()) :
    Log.row (.decision d.approvalRequestId d.decidedByMembershipId) p.writes = some d := by
  obtain ⟨new, older, rows, base, hcur, hwrote, -⟩ := did_event h hd
  cases hwrote with
  | insertDecision hinserted =>
      have hkey := written_key hcur (Log.mem_keys_of_row hinserted.row)
      obtain ⟨d', hd'⟩ := Log.exists_row_of_mem_keys hkey
      obtain ⟨w, hw, hlater⟩ := written_later h hcur hinserted.row
      have hsame : w = d := hlater
      rw [Log.row_append_of_row _ hd', hsame] at hw
      rw [hd', hw]

/-- The statements after the insertion of a decision see it. -/
theorem inserted_before (h : ProcOk (machine cfg) (conduct cfg) Legal db p)
    {new older : List (Event Val Out)} {e : Event Val Out} (hcur : p.current = new ++ e :: older)
    {d : ApprovalDecision} (hd : Did (older.map Event.call) (.insertDecision d) ()) :
    Db.decision (writes older ++ e.base) d.approvalRequestId d.decidedByMembershipId = some d := by
  obtain ⟨e', he, hcall⟩ := List.mem_map.mp hd
  obtain ⟨between, rest, rfl⟩ := List.append_of_mem he
  have hcur' : p.current = (new ++ e :: between) ++ e' :: rest := by simp [hcur]
  have htrace := h.trace
  rw [hcur'] at htrace
  have hran := executed_ran htrace.executed
  obtain ⟨s, out, rows, base⟩ := e'
  cases hcall
  cases hran with
  | write hwrote =>
      cases hwrote with
      | insertDecision hinserted =>
          have hkey := mem_keys_writes.mpr
            ⟨_, he, Log.mem_keys_of_row hinserted.row⟩
          obtain ⟨w, hw⟩ := Log.exists_row_of_mem_keys hkey
          have hview := Log.row_append_of_row e.base hw
          obtain ⟨u, hu, hlater⟩ := written_later h hcur' hinserted.row
          obtain ⟨u', hu', hlater'⟩ := view_later h hcur hview
          have hsame : u = d := hlater
          have hsame' : u' = w := hlater'
          have hboth : u' = u := Option.some.inj (hu'.symm.trans hu)
          have hw' : w = d := (hsame'.symm.trans hboth).trans hsame
          exact hview.trans (congrArg some hw')

/-- The trigger on invoices lets an approval pass for the sake of an approved request. -/
theorem ChangesInvoice.approved {i : Id} (h : ProcOk (machine cfg) (conduct cfg) Legal db p)
    {c : InvoiceChange} {old new : Invoice} (hch : ChangesInvoice cfg db p i c old new)
    (hold : old.status ≠ .approved) (hnew : new.status = .approved) :
    ∃ id r, Db.request (p.writes ++ db) id = some r ∧ r.invoiceId = i ∧ r.status = .approved ∧
      r.invoiceVersion = new.version := by
  obtain ⟨newer, older, rows, base, hcur, -, hguard, -⟩ := hch.event
  simp only [guardInvoiceApproval, Bool.or_eq_true, Bool.not_eq_true', decide_eq_false_iff_not,
    not_and, not_not, List.any_eq_true, decide_eq_true_eq] at hguard
  rcases hguard with hsame | ⟨⟨id, r⟩, hmem, -, hi, hversion, hstatus⟩
  · exact absurd ((hsame hnew).trans hnew) hold
  · obtain ⟨r', hr', hlater⟩ := view_later h hcur (Db.mem_requests.mp hmem)
    have happroved : r.status = .approved := hstatus
    have hclosed : r'.status = r.status := hlater.closed (by simp [happroved])
    exact ⟨id, r', hr', hlater.invoiceId.trans hi, hclosed.trans happroved,
      hlater.invoiceVersion.trans hversion⟩

/-- A submission leaves its invoice at the version of its request, awaiting approval. -/
theorem InsertsRequest.submitted (h : ProcOk (machine cfg) (conduct cfg) Legal db p) {next}
    (hq : p.prog = .commit next) {r : ApprovalRequest} (hi : InsertsRequest db p id r) :
    ∃ v bankId, ChangesInvoice cfg db p r.invoiceId
        (.submitted r.organizationId v.version bankId) v
        (InvoiceChange.apply (.submitted r.organizationId v.version bankId) v) ∧
      r.invoiceVersion = v.version + 1 ∧ r.vendorBankAccountVersionId = some bankId ∧
      Db.invoice (p.writes ++ db) r.invoiceId =
        some (InvoiceChange.apply (.submitted r.organizationId v.version bankId) v) := by
  obtain ⟨auth, i, dto, key, hop, cur, hsub, hready⟩ := hi.op
  have hdue := commit_due h hq
  rw [hop] at hdue
  obtain ⟨bankId, hbank, hdid⟩ := hdue r id hi.did
  obtain ⟨old, new, hch, hnew⟩ := did_updateInvoice h hdid Nat.one_ne_zero
  obtain ⟨w, vendorId, bank, a, riskId, version, keyHash, hw, -, -, -, -, rfl⟩ := hready.basis
  have happlies := hch.applies
  simp only [InvoiceChange.applies, decide_eq_true_eq] at happlies
  have hversion : dto.version = old.version := happlies.2.1.symm
  have hresult := hch.result
  subst hresult
  rw [hversion] at hch hnew
  refine ⟨old, bankId, hch, ?_, hbank, hnew⟩
  show w.version + 1 = old.version + 1
  rw [hw.version, hversion]

/-- What a submission read of its invoice is the content it submits. -/
theorem InsertsRequest.read (h : ProcOk (machine cfg) (conduct cfg) Legal db p) {next}
    (hq : p.prog = .commit next) {r : ApprovalRequest} (hi : InsertsRequest db p id r) :
    ∃ auth dto w v vendorId bank a riskId version keyHash,
      Saw p.calls (.latestBank auth.organizationId vendorId) (some bank) ∧
      Did p.calls (.insertRisk a) riskId ∧ Assesses auth r.invoiceId dto w a ∧
      r = ApprovalsService.newRequest auth r.invoiceId w a.evaluation riskId bank.1 version keyHash ∧
      w.vendorId = some vendorId ∧ Db.invoice db r.invoiceId = some v ∧ SameContent w v := by
  obtain ⟨v, bankId, hch, hversion, -, -⟩ := hi.submitted h hq
  obtain ⟨newer, older, rows, base, hcur, hbase, -, hbefore⟩ := hch.event
  have hfirst := invoice_first h hcur hbefore
  obtain ⟨auth, i, dto, key, hop, -⟩ := hi.op
  rw [hop] at hbefore
  obtain ⟨hi', -, r', reqId, bank', hdid, -, -⟩ := hbefore
  obtain ⟨cur, hsub, hready⟩ := did_before h hcur hdid
  have hsame := same_update h hi.did (calls_subset_of_event hcur hdid)
    (fun past cur hb => by rw [hop] at hb; exact hb.once r' reqId)
    (fun past cur hb => by rw [hop] at hb; exact hb.once r id)
  cases hsame
  rw [hop] at hready
  obtain ⟨w, vendorId, bank, a, riskId, version, keyHash, hw, hvendor, hbank, hrisk, hassess, hr⟩ :=
    hready.basis
  subst hi'
  obtain ⟨-, e', he', hrow, hsuffix⟩ := read_before h hcur hfirst (hsub hw.seen)
  have hchain : Log.Chain Legal base := (h.view_chain hcur).of_append
  obtain ⟨v', hv', hlater⟩ := invoice_later hchain hsuffix hrow
  have hv : v' = v := Option.some.inj (hv'.symm.trans hbase)
  subst hv
  have hcalls := List.Subset.trans hsub (calls_subset_of_event hcur)
  refine ⟨auth, dto, w, v', vendorId, bank, a, riskId, version, keyHash, hcalls hbank,
    hcalls hrisk, hassess, hr, hvendor, hch.committed, hlater.content ?_⟩
  have hstep : w.version + 1 = v'.version + 1 := by
    rw [← hversion, hr]
    rfl
  exact (Nat.succ.inj hstep).symm

end Reads

section Reviews

/-- The statuses of an invoice that has reached a reviewer. -/
def InvoiceStatus.reviewed : InvoiceStatus → Bool
  | processing | blocked => false
  | _ => true

/-- Invoices that have reached a reviewer stay with the reviewers. -/
def ReviewedStays (older newer : Db) : Prop :=
  ∀ i v, Db.invoice older i = some v → v.status.reviewed = true →
    ∃ w, Db.invoice newer i = some w ∧ w.status.reviewed = true

variable {i : Id} {c : InvoiceChange} {old new : Invoice}

theorem reviewed_since (h : ProcOk (machine cfg) (conduct cfg) Legal db p)
    (hstays : ∀ e ∈ p.current, ReviewedStays e.base db) (hold : Db.invoice db i = some old)
    {newer older : List (Event Val Out)} {e : Event Val Out} (hcur : p.current = newer ++ e :: older)
    (hfirst : Key.invoice i ∉ (writes older).keys) {org : Id} {v : Invoice}
    (hs : Saw (older.map Event.call) (.findInvoice org i) (some v)) (hv : v.status.reviewed = true) :
    old.status.reviewed = true := by
  obtain ⟨-, e', he, hbase, -⟩ := read_before h hcur hfirst hs
  obtain ⟨w, hw, hreviewed⟩ := hstays e' he i v hbase hv
  have hsame : w = old := Option.some.inj (hw.symm.trans hold)
  exact hsame ▸ hreviewed

/-- The services change invoices that have reached a reviewer, and keep them there. -/
theorem ChangesInvoice.reviewed (h : ProcOk (machine cfg) (conduct cfg) Legal db p)
    (hstays : ∀ e ∈ p.current, ReviewedStays e.base db)
    (hch : ChangesInvoice cfg db p i c old new) (hapi : c.isApi = true) :
    old.status.reviewed = true ∧ new.status.reviewed = true := by
  have happlies := hch.applies
  have hresult := hch.result
  have hcause := hch.cause
  obtain ⟨newer, older, rows, base, hcur, hbase, -, hbefore⟩ := hch.event
  have hfirst := invoice_first h hcur hbefore
  cases c with
  | submitted org version bank =>
      simp only [InvoiceChange.applies, decide_eq_true_eq] at happlies
      exact ⟨by rw [happlies.2.2]; rfl, by rw [hresult]; rfl⟩
  | returned version =>
      simp only [InvoiceChange.applies, decide_eq_true_eq] at happlies
      exact ⟨by rw [happlies.2]; rfl, by rw [hresult]; rfl⟩
  | frozen org vendor =>
      simp only [InvoiceChange.applies, decide_eq_true_eq] at happlies
      exact ⟨by rw [happlies.2.2]; rfl, by rw [hresult]; rfl⟩
  | decided outcome =>
      obtain ⟨auth, id, dto, key, -, -, -, -, hop, -⟩ := hcause
      rw [hop] at hbefore
      obtain ⟨-, r, w, t, n, hready, rfl, -⟩ := hbefore
      have hold := reviewed_since h hstays hch.committed hcur hfirst hready.ready.invoice
        (by rw [hready.ready.status]; rfl)
      exact ⟨hold, by rw [hresult]; cases outcome <;> rfl⟩
  | edited org version e =>
      obtain ⟨auth, dto, -, hop, -⟩ := hcause
      rw [hop] at hbefore
      obtain ⟨-, -, e', w, hready, -⟩ := hbefore
      have hold : old.status.reviewed = true := by
        refine reviewed_since h hstays hch.committed hcur hfirst hready.seen ?_
        rcases hready.editable with hs | hs | hs <;> rw [hs] <;> rfl
      refine ⟨hold, ?_⟩
      rw [hresult]
      simp only [InvoiceChange.apply, InvoiceEdit.apply]
      split
      · rfl
      · exact hold
  | _ => cases hapi

end Reviews

section Banks

/-- The bank account of the vendor with the highest version number. -/
def LatestBank (db : Db) (org vendorId bankId : Id) : Prop :=
  ∃ b, Db.bank db bankId = some b ∧ b.organizationId = org ∧ b.vendorId = vendorId ∧
    ∀ id c, Db.bank db id = some c → c.organizationId = org → c.vendorId = vendorId →
      c.versionNumber ≤ b.versionNumber

theorem mem_of_anyOf {α : Type} {choice : Nat} {candidates : List α} {a : α}
    (h : anyOf choice candidates = some (some a)) : a ∈ candidates := by
  unfold anyOf at h
  split at h
  · cases h
  · obtain ⟨b, hb, heq⟩ := Option.map_eq_some_iff.mp h
    cases heq
    exact List.mem_of_getElem? hb

theorem latestBank_of_answer {choice : Nat} {org vendorId : Id}
    {bank : Id × VendorBankAccountVersion}
    (h : answer cfg choice db (.latestBank org vendorId) = some (some bank)) :
    LatestBank db org vendorId bank.1 := by
  obtain ⟨hmem, hgreatest⟩ := List.mem_filter.mp (mem_of_anyOf h)
  obtain ⟨hmem, hcond⟩ := List.mem_filter.mp hmem
  obtain ⟨horg, hvendor⟩ := of_decide_eq_true hcond
  refine ⟨bank.2, Db.mem_banks.mp hmem, horg, hvendor, fun id c hc hcorg hcvendor => ?_⟩
  have hmem : (id, c) ∈ db.banks.filter fun e =>
      e.2.organizationId = org ∧ e.2.vendorId = vendorId :=
    List.mem_filter.mpr ⟨Db.mem_banks.mpr hc, decide_eq_true ⟨hcorg, hcvendor⟩⟩
  exact of_decide_eq_true (List.all_eq_true.mp hgreatest _ hmem)

end Banks
end BlocTrust
