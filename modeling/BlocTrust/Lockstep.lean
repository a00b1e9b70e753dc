import BlocTrust.Knowledge
import BlocTrust.Tenant

/-!
Requests and invoices in step.
An invoice awaits approval exactly as long as one pending request is bound to its version.
Edits and bank changes close the requests first and write the invoice after; where such a
write finds no pending request of the invoice left, every commit moves both together.
-/
namespace BlocTrust

open ReadCommitted

def NoPending (db : Db) (i : Id) : Prop :=
  ∀ id r, Db.request db id = some r → r.invoiceId = i → r.status ≠ .pending

/-- An edit or a freeze that matches its invoice leaves no pending request of it behind, an edit
that matches an invoice awaiting approval or rejected has read it as awaiting approval, and a
decider finds the invoice at the version of its request. -/
def leavesNoPending (_ : Op) (_ : Calls Out) (es : List (Event Val Out)) (db : Db) : Stmt → Prop
  | .write (.updateInvoice i (.frozen org vendorId)) => ∀ v, Db.invoice db i = some v →
      (InvoiceChange.frozen org vendorId).applies v = true → NoPending (writes es ++ db) i
  | .write (.updateInvoice i (.edited org version e)) => ∀ v, Db.invoice db i = some v →
      (InvoiceChange.edited org version e).applies v = true → NoPending (writes es ++ db) i ∧
        (v.status = .awaitingApproval ∨ v.status = .rejected →
          ∀ w, Saw (es.map Event.call) (.findInvoice org i) (some w) → w.status = .awaitingApproval)
  | .write (.updateInvoice i (.decided _)) => ∀ v, Db.invoice db i = some v → ∀ org id r,
      Saw (es.map Event.call) (.findRequest org id) (some r) → r.invoiceId = i →
        v.version = r.invoiceVersion
  | _ => True

structure Lockstep (db : Db) : Prop where
  billed : ∀ id r, Db.request db id = some r → ∃ v, Db.invoice db r.invoiceId = some v ∧
    v.organizationId = r.organizationId ∧ r.invoiceVersion ≤ v.version
  single : ∀ id id' r r', Db.request db id = some r → Db.request db id' = some r' →
    r.invoiceId = r'.invoiceId → r.invoiceVersion = r'.invoiceVersion → id = id'
  pending : ∀ id r v, Db.request db id = some r → r.status = .pending →
    Db.invoice db r.invoiceId = some v → v.status = .awaitingApproval ∧
      v.version = r.invoiceVersion ∧ v.vendorBankAccountVersionId = r.vendorBankAccountVersionId
  awaiting : ∀ i v, Db.invoice db i = some v → v.status = .awaitingApproval →
    ∃ id r, Db.request db id = some r ∧ r.invoiceId = i ∧ r.status = .pending
  rejected : ∀ i v, Db.invoice db i = some v → v.status = .rejected →
    ∃ id r, Db.request db id = some r ∧ r.invoiceId = i ∧ r.status = .rejected ∧
      r.invoiceVersion = v.version

def lockstep : Account Val Out Op where
  allowed op := op.isApi = true
  guard := leavesNoPending
  inv := Lockstep

section Commit

variable {cfg : Config} {db : Db} {p : Process} {i id : Id} {q r : ApprovalRequest}
  {v w : Invoice}

/-- The pending request that the invoice of a pending request belongs to. -/
theorem Lockstep.bound (h : Lockstep db) (hq : Db.request db id = some q)
    (hpending : q.status = .pending) : ∃ v, Db.invoice db q.invoiceId = some v ∧
      v.status = .awaitingApproval ∧ v.version = q.invoiceVersion ∧
      v.organizationId = q.organizationId := by
  obtain ⟨v, hv, horg, -⟩ := h.billed id q hq
  obtain ⟨hstatus, hversion, -⟩ := h.pending id q v hq hpending hv
  exact ⟨v, hv, hstatus, hversion, horg⟩

theorem invoice_key (h : ProcOk (machine cfg) (conduct cfg) Legal db p) {c : InvoiceChange}
    {n : Nat} (hd : Did p.calls (.updateInvoice i c) n) (hn : n ≠ 0) :
    Key.invoice i ∈ p.writes.keys := by
  obtain ⟨view, rows, hwrote, hkeys⟩ := did_rows h (List.nil_append _).symm hd
  cases hwrote with
  | updateInvoice hu => exact hkeys _ (hu.wrote_key hn)

theorem request_key (h : ProcOk (machine cfg) (conduct cfg) Legal db p)
    {new older : List (Event Val Out)} (hcur : p.current = new ++ older) {c : RequestChange}
    {n : Nat} (hd : Did (older.map Event.call) (.updateRequest id c) n) (hn : n ≠ 0) :
    Key.request id ∈ (writes older).keys := by
  obtain ⟨view, rows, hwrote, hkeys⟩ := did_rows h hcur hd
  cases hwrote with
  | updateRequest hu => exact hkeys _ (hu.wrote_key hn)

/-- An invoice that a transaction does not write is seen as it was committed. -/
theorem unwritten_view (hk : Key.invoice i ∉ p.writes.keys) {new older : List (Event Val Out)}
    {e : Event Val Out} (hcur : p.current = new ++ e :: older) :
    Db.invoice (writes older ++ e.base) i = Db.invoice e.base i := by
  refine Log.row_append_of_not_mem _ fun hmem => hk ?_
  rw [Proc.writes, hcur, writes_append, writes_cons, Log.keys_append, Log.keys_append]
  exact List.mem_append_right _ (List.mem_append_right _ hmem)

/-- An invoice update that its row meets is a write. -/
theorem update_hits {c : InvoiceChange} {n : Nat} {new older : List (Event Val Out)} {rows base : Db}
    (hcur : p.current = new ++ ⟨.write (.updateInvoice i c), n, rows, base⟩ :: older)
    (hwrote : Wrote (writes older ++ base) (.updateInvoice i c) n rows)
    (hv : Db.invoice base i = some v) (happlies : c.applies v = true) :
    Key.invoice i ∈ p.writes.keys := by
  by_contra hk
  have hview := (unwritten_view hk hcur).trans hv
  cases hwrote with
  | updateInvoice hu => exact hk (written_key hcur (hu.wrote_key (hu.hit hview happlies)))

/-- A request in the view of a statement is the committed one in an earlier or later version. -/
theorem seen_request (h : ProcOk (machine cfg) (conduct cfg) Legal db p)
    {new older : List (Event Val Out)} {e : Event Val Out} (hcur : p.current = new ++ e :: older)
    (hr : Db.request (writes older ++ e.base) id = some r) (hq : Db.request db id = some q) :
    r.invoiceId = q.invoiceId ∧ r.invoiceVersion = q.invoiceVersion := by
  obtain ⟨f, hf, hlater⟩ := view_later h hcur (k := .request id) hr
  obtain ⟨f', hf', hlater'⟩ := commit_later h (k := .request id) hq
  have hsame : f = f' := Option.some.inj (hf.symm.trans hf')
  have hboth : RequestLater r f := hlater
  have hboth' : RequestLater q f := hsame ▸ hlater'
  exact ⟨hboth.invoiceId.symm.trans hboth'.invoiceId,
    hboth.invoiceVersion.symm.trans hboth'.invoiceVersion⟩

theorem saw_request_committed (h : ProcOk (machine cfg) (conduct cfg) Legal db p) {org : Id}
    (hs : Saw p.calls (.findRequest org id) (some r)) (hq : Db.request db id = some q) :
    r.invoiceId = q.invoiceId ∧ r.invoiceVersion = q.invoiceVersion := by
  obtain ⟨new, older, base, choice, hcur, hanswer⟩ := saw_event h hs
  obtain ⟨hrow, -⟩ := rowWhere_eq_some.mp (Option.some.inj hanswer)
  exact seen_request h hcur hrow hq

/-- A statement after the transaction closed a request ran while it was pending and bound. -/
theorem closed_bound (h : ProcOk (machine cfg) (conduct cfg) Legal db p)
    (hobs : lockstep.Observed db p) {new older : List (Event Val Out)} {e : Event Val Out}
    (hcur : p.current = new ++ e :: older) (hk : Key.request id ∈ (writes older).keys)
    (hq : Db.request db id = some q) (hpending : q.status = .pending) :
    ∃ v, Db.invoice e.base q.invoiceId = some v ∧ v.status = .awaitingApproval ∧
      v.version = q.invoiceVersion ∧ v.organizationId = q.organizationId := by
  have hrow : Db.request e.base id = some q := (h.locked_row hcur hk).trans hq
  exact (hobs.inv e (mem_of_event hcur)).bound hrow hpending

/-- A bank change closes its requests before it looks for invoices awaiting approval. -/
theorem freeze_after (h : ProcOk (machine cfg) (conduct cfg) Legal db p) {auth : AuthContext}
    {vendorId : Id} {dto : CreateBankAccountVersionDto}
    (hop : p.op = .addBankVersion auth vendorId dto) {reason : String}
    (hd : Did p.calls (.updateRequest id (.invalidated reason)) 1)
    {new older : List (Event Val Out)} {e : Event Val Out} (hcur : p.current = new ++ e :: older)
    {ids : List Id}
    (hs : Saw ((e :: older).map Event.call) (.awaitingOfVendor auth.organizationId vendorId) ids) :
    Key.request id ∈ (writes older).keys := by
  obtain ⟨newer, rest, rows, base, hcur', hwrote, hbefore⟩ := did_event h hd
  rw [hop] at hbefore
  obtain ⟨-, -, -, -, hnone⟩ := hbefore
  have hkey : Key.request id ∈ rows.keys := by
    cases hwrote with
    | updateRequest hu => exact hu.wrote_key Nat.one_ne_zero
  have hread : ∀ {es : List (Event Val Out)}, Saw ((⟨.write (.updateRequest id
      (.invalidated reason)), (1 : Nat), rows, base⟩ :: es).map Event.call)
      (.awaitingOfVendor auth.organizationId vendorId) ids →
      Saw (es.map Event.call) (.awaitingOfVendor auth.organizationId vendorId) ids := by
    intro es hs
    rcases List.mem_cons.mp hs with heq | hs
    · simp [Event.call] at heq
    · exact hs
  -- one of the two events comes before the other
  rw [hcur] at hcur'
  rcases List.append_eq_append_iff.mp hcur' with ⟨mid, -, hrest⟩ | ⟨mid, -, hrest⟩
  · cases mid with
    | nil =>
        rw [List.nil_append] at hrest
        obtain ⟨rfl, rfl⟩ := List.cons.inj hrest
        exact absurd (hread hs) (hnone ids)
    | cons e' mid =>
        have holder := (List.cons.inj hrest).2
        refine mem_keys_writes.mpr ⟨⟨.write (.updateRequest id (.invalidated reason)), (1 : Nat),
          rows, base⟩, ?_, hkey⟩
        rw [holder]
        exact List.mem_append_right _ List.mem_cons_self
  · refine absurd ?_ (hnone ids)
    cases mid with
    | nil =>
        rw [List.nil_append] at hrest
        obtain ⟨rfl, rfl⟩ := List.cons.inj hrest
        exact hread hs
    | cons e' mid =>
        have hrest' : rest = mid ++ e :: older := (List.cons.inj hrest).2
        rw [hrest', List.map_append]
        exact List.mem_append_right _ hs

theorem pendingOfVendor_answer {choice : Nat} {view : Db} {org vendorId : Id} {ids : List Id}
    (h : answer cfg choice view (.pendingOfVendor org vendorId) = some ids) (hid : id ∈ ids) :
    ∃ r v, Db.request view id = some r ∧ r.organizationId = org ∧ r.status = .pending ∧
      Db.invoice view r.invoiceId = some v ∧ v.vendorId = some vendorId := by
  cases h
  obtain ⟨⟨id', r⟩, hmem, rfl⟩ := List.mem_map.mp hid
  obtain ⟨hmem, hcond⟩ := List.mem_filter.mp hmem
  obtain ⟨horg, hpending, hvendor⟩ := of_decide_eq_true hcond
  obtain ⟨v, hv, hvendor⟩ := (Option.any_eq_true _ _).mp hvendor
  exact ⟨r, v, Db.mem_requests.mp hmem, horg, hpending, hv, of_decide_eq_true hvendor⟩

/-- A bank change that closes a request freezes the request's invoice. -/
theorem bank_freezes (h : ProcOk (machine cfg) (conduct cfg) Legal db p) {next}
    (hq : p.prog = .commit next) (hobs : lockstep.Observed db p) (hinv : Lockstep db)
    {auth : AuthContext} {vendorId : Id} {dto : CreateBankAccountVersionDto}
    (hop : p.op = .addBankVersion auth vendorId dto) {reason : String}
    (hch : ChangesRequest cfg db p id (.invalidated reason) q r) :
    Key.invoice q.invoiceId ∈ p.writes.keys := by
  by_contra hk
  have hpending : q.status = .pending := of_decide_eq_true hch.applies
  obtain ⟨newer, older, rows, base, hcur, -, hbefore⟩ := hch.event
  have hfirst := request_first h hcur hbefore
  rw [hop] at hbefore
  obtain ⟨-, -, ⟨b, bankId, hbank, hlater⟩, ⟨ids, hscan, hid⟩, -⟩ := hbefore
  have hinserted := calls_subset_of_event hcur hbank
  -- the invoice was the vendor's when its request was scanned
  obtain ⟨between, rest, early, choice, rfl, hanswer, -⟩ := saw_before h hcur hscan
  obtain ⟨r₁, v₁, hr₁, horg, hopen, hv₁, hvendor⟩ := pendingOfVendor_answer hanswer hid
  have hcur₁ : p.current = (newer ++ ⟨.write (.updateRequest id (.invalidated reason)), (1 : Nat),
      rows, base⟩ :: between) ++ ⟨.read (.pendingOfVendor auth.organizationId vendorId), ids, [],
        early⟩ :: rest := by simp [hcur]
  obtain ⟨hinvoice, hsame⟩ := seen_request h hcur₁ hr₁ hch.committed
  have hr₁' : Db.request early id = some r₁ := (committed_row hfirst early).symm.trans hr₁
  rw [hinvoice] at hv₁
  have hv₁' : Db.invoice early q.invoiceId = some v₁ := (unwritten_view hk hcur₁).symm.trans hv₁
  obtain ⟨u, hu, -, hversion₁, horg₁⟩ := (hobs.inv _ (mem_of_event hcur₁)).bound hr₁' hopen
  rw [hinvoice] at hu
  have heq : u = v₁ := Option.some.inj (hu.symm.trans hv₁')
  subst heq
  -- its content is the same as long as the request is bound to its version
  have hdb : Log.Chain Legal db := h.view.of_append
  obtain ⟨w, hw, -, hversion, -⟩ := hinv.bound hch.committed hpending
  have hcontent : ∀ {v : Invoice} {e : Event Val Out}, e ∈ p.current →
      Db.invoice e.base q.invoiceId = some v → v.version = q.invoiceVersion → SameContent v w := by
    intro v e he hv hbound
    obtain ⟨w', hw', hlater⟩ := invoice_later hdb (h.bases he) hv
    have hsame : w' = w := Option.some.inj (hw'.symm.trans hw)
    subst hsame
    exact hlater.content (hversion.trans hbound.symm)
  have hfrozen : ∀ {new older : List (Event Val Out)} {e : Event Val Out} {seen : List Id},
      p.current = new ++ e :: older → Saw ((e :: older).map Event.call)
        (.awaitingOfVendor auth.organizationId vendorId) seen →
      ∃ v, Db.invoice e.base q.invoiceId = some v ∧
        (InvoiceChange.frozen auth.organizationId vendorId).applies v = true := by
    intro new older e seen hcur' hs
    have hkey := freeze_after h hop hch.did hcur' hs
    obtain ⟨v, hv, hstatus, hbound, horg'⟩ :=
      closed_bound h hobs hcur' hkey hch.committed hpending
    obtain ⟨r₂, hr₂, hlater₂⟩ := request_later hdb (h.bases (mem_of_event hcur₁)) hr₁'
    have hsame₂ : r₂ = q := Option.some.inj (hr₂.symm.trans hch.committed)
    have hvendor' : v.vendorId = some vendorId := by
      rw [← hvendor, ← (hcontent (mem_of_event hcur₁) hu (hversion₁.trans hsame)).vendorId,
        (hcontent (mem_of_event hcur') hv hbound).vendorId]
    refine ⟨v, hv, decide_eq_true ⟨?_, hvendor', hstatus⟩⟩
    rw [horg', ← horg, ← hlater₂.organizationId, hsame₂]
  have hdue := commit_due h hq
  rw [hop] at hdue
  obtain ⟨-, ids₂, hawaiting, hall⟩ := hdue b bankId hinserted hlater
  obtain ⟨new₂, older₂, base₂, choice₂, hcur₂, hanswer₂⟩ := saw_event h hawaiting
  obtain ⟨v₂, hv₂, happlies₂⟩ := hfrozen hcur₂ List.mem_cons_self
  have hmem : q.invoiceId ∈ ids₂ := by
    cases hanswer₂
    have hview := (unwritten_view hk hcur₂).trans hv₂
    exact List.mem_map.mpr ⟨(q.invoiceId, v₂), List.mem_filter.mpr
      ⟨Db.mem_invoices.mpr hview, happlies₂⟩, rfl⟩
  obtain ⟨n, hn⟩ := hall q.invoiceId hmem
  obtain ⟨new₃, older₃, rows₃, base₃, hcur₃, hwrote₃, hbefore₃⟩ := did_event h hn
  rw [hop] at hbefore₃
  obtain ⟨-, -, -, -, seen, hseen, -⟩ := hbefore₃
  obtain ⟨v₃, hv₃, happlies₃⟩ := hfrozen hcur₃ (List.mem_cons_of_mem _ hseen)
  exact hk (update_hits hcur₃ hwrote₃ hv₃ happlies₃)

/-- A decider that invalidates its request takes the invoice back. -/
theorem decide_returns (h : ProcOk (machine cfg) (conduct cfg) Legal db p) {next}
    (hq : p.prog = .commit next) (hobs : lockstep.Observed db p) {auth : AuthContext}
    {dto : ApprovalsService.ApprovalDecisionDto} {key : Option Text}
    (hop : p.op = .decide auth id dto key) {reason : String}
    (hch : ChangesRequest cfg db p id (.invalidated reason) q r) :
    Key.invoice q.invoiceId ∈ p.writes.keys := by
  by_contra hk
  have hpending : q.status = .pending := of_decide_eq_true hch.applies
  have hdue := commit_due h hq
  rw [hop] at hdue
  obtain ⟨r₁, v₁, m, hseen, hdid⟩ := hdue.invalidated reason 1 hch.did
  obtain ⟨hinvoice, hversion⟩ := saw_request_committed h hseen.request hch.committed
  obtain ⟨newer, older, rows, base, hcur, hwrote, hbefore⟩ := did_event h hdid
  rw [hop] at hbefore
  obtain ⟨-, r₂, v₂, reason₂, n₂, -, -, -, hdid₂⟩ := hbefore
  have hsame := same_update h hch.did (calls_subset_of_event hcur hdid₂)
    (fun _ _ hb => (conduct_updateRequest hb).1 _ _) (fun _ _ hb => (conduct_updateRequest hb).1 _ _)
  cases hsame
  have hcur' : p.current = (newer ++ [⟨.write (.updateInvoice r₁.invoiceId
      (.returned r₁.invoiceVersion)), m, rows, base⟩]) ++ older := by simp [hcur]
  have hkey := request_key h hcur' hdid₂ Nat.one_ne_zero
  obtain ⟨v, hv, hstatus, hbound, -⟩ := closed_bound h hobs hcur hkey hch.committed hpending
  rw [← hinvoice] at hv hk
  refine hk (update_hits hcur hwrote hv (decide_eq_true ⟨?_, hstatus⟩))
  rw [hbound, hversion]

/-- A transaction that closes a pending request writes its invoice. -/
theorem closing_writes (h : ProcOk (machine cfg) (conduct cfg) Legal db p) {next}
    (hq : p.prog = .commit next) (hobs : lockstep.Observed db p) (hinv : Lockstep db)
    {c : RequestChange} (hch : ChangesRequest cfg db p id c q r) :
    Key.invoice q.invoiceId ∈ p.writes.keys := by
  have hcause := hch.cause
  have hdue := commit_due h hq
  cases c with
  | completed outcome t =>
      obtain ⟨auth, dto, key, -, -, hop, -⟩ := hcause
      rw [hop] at hdue
      obtain ⟨r₁, v₁, m, hready, hm, hdid⟩ := hdue.completed outcome t 1 hch.did
      obtain ⟨hinvoice, -⟩ := saw_request_committed h hready.request hch.committed
      exact hinvoice ▸ invoice_key h hdid hm
  | invalidated reason =>
      rcases hcause with ⟨auth, dto, key, r₁, v₁, hop, -⟩ |
        ⟨auth, i, dto, v, ids, hop, -, -, -, hscan, hid⟩ | ⟨auth, vendorId, dto, ids, hop, -⟩
      · exact decide_returns h hq hobs hop hch
      · rw [hop] at hdue
        obtain ⟨e, hdid⟩ := hdue
        obtain ⟨new, older, base, choice, hcur, hanswer⟩ := saw_event h hscan
        cases hanswer
        obtain ⟨⟨id', r₁⟩, hmem, rfl⟩ := List.mem_map.mp hid
        obtain ⟨hmem, hcond⟩ := List.mem_filter.mp hmem
        obtain ⟨-, hinvoice, -⟩ := of_decide_eq_true hcond
        obtain ⟨hsame, -⟩ := seen_request h hcur (Db.mem_requests.mp hmem) hch.committed
        rw [← hsame, hinvoice]
        exact invoice_key h hdid Nat.one_ne_zero
      · exact bank_freezes h hq hobs hinv hop hch

/-- The request that a decider closes, when it changes the invoice at the request's version. -/
theorem decided_request (h : ProcOk (machine cfg) (conduct cfg) Legal db p) (hinv : Lockstep db)
    {auth : AuthContext} {id' : Id} {dto : ApprovalsService.ApprovalDecisionDto}
    {key : Option Text} (hop : p.op = .decide auth id' dto key) {r₁ r' : ApprovalRequest}
    (hseen : Saw p.calls (.findRequest auth.organizationId id') (some r₁))
    (hr' : Db.request (p.writes ++ db) id' = some r') (hrow : Db.request db id = some q)
    (hinvoice : r₁.invoiceId = q.invoiceId) (hversion : r₁.invoiceVersion = q.invoiceVersion) :
    id' = id := by
  rcases commit_request_later h hr' with hinserts | ⟨q', hq', -⟩
  · obtain ⟨_, _, _, _, hop', -⟩ := hinserts.op
    rw [hop] at hop'
    cases hop'
  · obtain ⟨hinvoice', hversion'⟩ := saw_request_committed h hseen hq'
    exact hinv.single id' id q' q hq' hrow (hinvoice'.symm.trans hinvoice)
      (hversion'.symm.trans hversion)

/-- A write that leaves no pending request of the invoice in view leaves none at all. -/
theorem noPending_closes (h : ProcOk (machine cfg) (conduct cfg) Legal db p)
    (hobs : lockstep.Observed db p) (hinv : Lockstep db) {new older : List (Event Val Out)}
    {e : Event Val Out} (hcur : p.current = new ++ e :: older)
    (hnone : NoPending (writes older ++ e.base) q.invoiceId)
    (hbase : Db.invoice e.base q.invoiceId = some v) (hv : Db.invoice db q.invoiceId = some v)
    (hrow : Db.request db id = some q) (hpending : q.status = .pending)
    (hr : Db.request (p.writes ++ db) id = some r) : r.status ≠ .pending := by
  have hdb : Log.Chain Legal db := h.view.of_append
  obtain ⟨hstatus, hversion, -⟩ := hinv.pending id q v hrow hpending hv
  have hlock := hobs.inv e (mem_of_event hcur)
  obtain ⟨id₀, r₀, hr₀, hi₀, hopen⟩ := hlock.awaiting q.invoiceId v hbase hstatus
  have hversion₀ := (hlock.pending id₀ r₀ v hr₀ hopen (by rw [hi₀]; exact hbase)).2.1
  obtain ⟨q₀, hq₀, hlater⟩ := request_later hdb (h.bases (mem_of_event hcur)) hr₀
  have hid : id₀ = id := by
    refine hinv.single id₀ id q₀ q hq₀ hrow (hlater.invoiceId.trans hi₀) ?_
    rw [hlater.invoiceVersion, ← hversion₀, hversion]
  subst hid
  obtain ⟨rv, hrv⟩ : ∃ rv, Db.request (writes older ++ e.base) id₀ = some rv := by
    by_cases hk : Key.request id₀ ∈ (writes older).keys
    · obtain ⟨rv, hrv⟩ := Log.exists_row_of_mem_keys hk
      exact ⟨rv, Log.row_append_of_row _ hrv⟩
    · exact ⟨r₀, (Log.row_append_of_not_mem _ hk).trans hr₀⟩
  have hclosed := hnone id₀ rv hrv (seen_request h hcur hrv hrow).1
  obtain ⟨f, hf, hlater'⟩ := view_later h hcur (k := .request id₀) hrv
  have hsame : f = r := Option.some.inj (hf.symm.trans hr)
  have hkept : f.status = rv.status := hlater'.closed hclosed
  rw [← hsame, hkept]
  exact hclosed

/-- The pending request of an invoice that a transaction changes is closed by it. -/
theorem changed_closes (h : ProcOk (machine cfg) (conduct cfg) Legal db p)
    (hobs : lockstep.Observed db p) (hinv : Lockstep db) {c : InvoiceChange}
    (hch : ChangesInvoice cfg db p q.invoiceId c v w) (hrow : Db.request db id = some q)
    (hpending : q.status = .pending) (hr : Db.request (p.writes ++ db) id = some r) :
    r.status ≠ .pending := by
  obtain ⟨hstatus, hversion, -⟩ := hinv.pending id q v hrow hpending hch.committed
  have hcause := hch.cause
  have happlies := hch.applies
  obtain ⟨newer, older, rows, base, hcur, hbase, -, hbefore⟩ := hch.event
  have hguard := hobs.guard newer _ older hcur
  cases c with
  | submitted org version bank =>
      simp only [InvoiceChange.applies, decide_eq_true_eq] at happlies
      rw [hstatus] at happlies
      cases happlies.2.2
  | returned version =>
      obtain ⟨auth, id', dto, key, r₁, v₁, reason, n, hop, hseen, hinvoice, rfl, hdid⟩ := hcause
      obtain ⟨r', hr', hclosed⟩ := invalidated_closed h hdid
      simp only [InvoiceChange.applies, decide_eq_true_eq] at happlies
      have hid := decided_request h hinv hop hseen.request hr' hrow hinvoice.symm
        (happlies.1.symm.trans hversion)
      subst hid
      rw [Option.some.inj (hr.symm.trans hr')]
      exact hclosed
  | frozen org vendor =>
      exact noPending_closes h hobs hinv hcur (hguard v hbase happlies) hbase hch.committed hrow
        hpending hr
  | edited org version e =>
      exact noPending_closes h hobs hinv hcur (hguard v hbase happlies).1 hbase hch.committed hrow
        hpending hr
  | decided outcome =>
      obtain ⟨auth, id', dto, key, -, -, -, -, hop, -⟩ := hcause
      rw [hop] at hbefore
      obtain ⟨-, r₁, v₁, t, n, hready, hinvoice, hdid, hn⟩ := hbefore
      have hseen := hready.ready.request
      have hversion₁ := hguard v hbase auth.organizationId id' r₁ hseen hinvoice.symm
      obtain ⟨r₀, r', hch', hr'⟩ := did_updateRequest h (calls_subset_of_event hcur hdid) hn
      have hid := decided_request h hinv hop (calls_subset_of_event hcur hseen) hr' hrow
        hinvoice.symm (hversion₁.symm.trans hversion)
      subst hid
      rw [Option.some.inj (hr.symm.trans hr'), hch'.result]
      cases outcome with
      | approve =>
          intro h
          cases h
      | reject =>
          intro h
          cases h
  | _ => cases hch.api hobs.allowed

/-- A request that a submission inserts is for a version the invoice did not have before. -/
theorem inserted_version (h : ProcOk (machine cfg) (conduct cfg) Legal db p) {next}
    (hq : p.prog = .commit next) (hinv : Lockstep db) (hins : InsertsRequest db p id r)
    {id' : Id} (hold : Db.request db id' = some q) (hinvoice : r.invoiceId = q.invoiceId) :
    r.invoiceVersion ≠ q.invoiceVersion := by
  obtain ⟨v, bankId, hch, hversion, -, -⟩ := hins.submitted h hq
  obtain ⟨v', hv', -, hle⟩ := hinv.billed id' q hold
  rw [← hinvoice] at hv'
  have hsame : v' = v := Option.some.inj (hv'.symm.trans hch.committed)
  subst hsame
  omega

theorem inserted_once (h : ProcOk (machine cfg) (conduct cfg) Legal db p)
    (hins : InsertsRequest db p id r) {id' : Id} {r' : ApprovalRequest}
    (hins' : InsertsRequest db p id' r') : id = id' := by
  have honce : ∀ past cur r id', (conduct cfg p.op).before past cur (.write (.insertRequest r)) →
      ∀ r', ¬ Did cur (.insertRequest r') id' := by
    intro past cur r id' hb r'
    obtain ⟨auth, i, dto, key, -, hready⟩ := conduct_insertRequest hb
    exact hready.once r' id'
  have hsame := same_update h hins.did hins'.did (fun _ _ hb => honce _ _ _ _ hb _)
    (fun _ _ hb => honce _ _ _ _ hb _)
  cases hsame
  rfl

theorem single_commit (h : ProcOk (machine cfg) (conduct cfg) Legal db p) {next}
    (hq : p.prog = .commit next) (hinv : Lockstep db) {id' : Id} {r' : ApprovalRequest}
    (hr : Db.request (p.writes ++ db) id = some r) (hr' : Db.request (p.writes ++ db) id' = some r')
    (hinvoice : r.invoiceId = r'.invoiceId) (hversion : r.invoiceVersion = r'.invoiceVersion) :
    id = id' := by
  rcases commit_request_later h hr with hins | ⟨q, hold, hlater⟩ <;>
    rcases commit_request_later h hr' with hins' | ⟨q', hold', hlater'⟩
  · exact inserted_once h hins hins'
  · rw [hlater'.invoiceId] at hinvoice
    rw [hlater'.invoiceVersion] at hversion
    exact absurd hversion (inserted_version h hq hinv hins hold' hinvoice)
  · rw [hlater.invoiceId] at hinvoice
    rw [hlater.invoiceVersion] at hversion
    exact absurd hversion.symm (inserted_version h hq hinv hins' hold hinvoice.symm)
  · rw [hlater.invoiceId, hlater'.invoiceId] at hinvoice
    rw [hlater.invoiceVersion, hlater'.invoiceVersion] at hversion
    exact hinv.single id id' q q' hold hold' hinvoice hversion

theorem billed_commit (h : ProcOk (machine cfg) (conduct cfg) Legal db p) {next}
    (hq : p.prog = .commit next) (hinv : Lockstep db)
    (hr : Db.request (p.writes ++ db) id = some r) :
    ∃ v, Db.invoice (p.writes ++ db) r.invoiceId = some v ∧
      v.organizationId = r.organizationId ∧ r.invoiceVersion ≤ v.version := by
  rcases commit_request_later h hr with hins | ⟨q, hold, hlater⟩
  · obtain ⟨v, bankId, hch, hversion, -, hnew⟩ := hins.submitted h hq
    have happlies := hch.applies
    simp only [InvoiceChange.applies, decide_eq_true_eq] at happlies
    exact ⟨_, hnew, happlies.1, hversion.le⟩
  · obtain ⟨v, hv, horg, hle⟩ := hinv.billed id q hold
    obtain ⟨w, hw, hlater'⟩ := commit_later h (k := .invoice q.invoiceId) hv
    have hlater' : InvoiceLater v w := hlater'
    refine ⟨w, hlater.invoiceId ▸ hw, ?_, ?_⟩
    · rw [hlater'.organizationId, horg, hlater.organizationId]
    · rw [hlater.invoiceVersion]
      exact hle.trans hlater'.version

theorem pending_commit (h : ProcOk (machine cfg) (conduct cfg) Legal db p) {next}
    (hq : p.prog = .commit next) (hobs : lockstep.Observed db p) (hinv : Lockstep db)
    (hr : Db.request (p.writes ++ db) id = some r) (hpending : r.status = .pending)
    (hv : Db.invoice (p.writes ++ db) r.invoiceId = some v) : v.status = .awaitingApproval ∧
      v.version = r.invoiceVersion ∧
      v.vendorBankAccountVersionId = r.vendorBankAccountVersionId := by
  rcases commit_request_later h hr with hins | ⟨q, hold, hlater⟩
  · obtain ⟨u, bankId, hch, hversion, hbank, hnew⟩ := hins.submitted h hq
    have hsame := Option.some.inj (hv.symm.trans hnew)
    subst hsame
    exact ⟨rfl, hversion.symm, hbank.symm⟩
  · have hopen := hlater.pending hpending
    rw [hlater.invoiceId] at hv
    rw [hlater.invoiceVersion, hlater.bankAccount]
    rcases commit_invoice h hv with ⟨-, hsame⟩ | hins | ⟨c, u, hch⟩
    · exact hinv.pending id q v hold hopen hsame
    · obtain ⟨u, hu, -⟩ := hinv.billed id q hold
      exact absurd (Log.mem_keys_of_row hu) hins.fresh
    · exact absurd hpending (changed_closes h hobs hinv hch hold hopen hr)

/-- An edit that matches an invoice awaiting approval or rejected sends it back to review. -/
theorem edited_reviewed (hobs : lockstep.Observed db p) {org : Id} {version : Nat} {e : InvoiceEdit}
    (hch : ChangesInvoice cfg db p i (.edited org version e) v w)
    (hv : v.status = .awaitingApproval ∨ v.status = .rejected) : w.status = .needsReview := by
  obtain ⟨newer, older, rows, base, hcur, hbase, -, hbefore⟩ := hch.event
  have hguard := (hobs.guard newer _ older hcur v hbase hch.applies).2 hv
  obtain ⟨auth, dto, u, -, rfl, -, hready⟩ := conduct_invoiceCause hbefore (List.Subset.refl _)
  have hinvalidates := hready.invalidates.mpr (hguard u hready.seen)
  rw [hch.result]
  simp [InvoiceChange.apply, InvoiceEdit.apply, hinvalidates]

theorem awaiting_commit (h : ProcOk (machine cfg) (conduct cfg) Legal db p) {next}
    (hq : p.prog = .commit next) (hobs : lockstep.Observed db p) (hinv : Lockstep db)
    (hw : Db.invoice (p.writes ++ db) i = some w) (hstatus : w.status = .awaitingApproval) :
    ∃ id r, Db.request (p.writes ++ db) id = some r ∧ r.invoiceId = i ∧ r.status = .pending := by
  rcases commit_invoice h hw with ⟨hkey, hold⟩ | hins | ⟨c, v, hch⟩
  · obtain ⟨id, q, hrow, rfl, hpending⟩ := hinv.awaiting i w hold hstatus
    obtain ⟨r, hr, hlater⟩ := commit_later h (k := .request id) hrow
    have hlater : RequestLater q r := hlater
    rcases commit_request h hr with ⟨-, hsame⟩ | hins | ⟨c, q', hch⟩
    · have heq := Option.some.inj (hsame.symm.trans hrow)
      exact ⟨id, r, hr, hlater.invoiceId, heq ▸ hpending⟩
    · exact absurd (Log.mem_keys_of_row hrow) hins.fresh
    · have heq := Option.some.inj (hch.committed.symm.trans hrow)
      exact absurd (closing_writes h hq hobs hinv hch) (heq ▸ hkey)
  · rw [hins.status] at hstatus
    cases hstatus
  · have hcause := hch.cause
    have hresult := hch.result
    cases c with
    | submitted org version bank =>
        obtain ⟨auth, dto, key, r, id, hop, -, -, hdid, -⟩ := hcause
        obtain ⟨hins, hr⟩ := did_insertRequest h hdid
        obtain ⟨auth', i', dto', key', hop', cur, -, hready⟩ := hins.op
        obtain ⟨v', vendorId, bank', a, riskId, version', hash, -, -, -, -, -, hnew⟩ := hready.basis
        rw [hop] at hop'
        cases hop'
        exact ⟨id, r, hr, by rw [hnew]; rfl, by rw [hnew]; rfl⟩
    | returned version =>
        rw [hresult] at hstatus
        cases hstatus
    | frozen org vendor =>
        rw [hresult] at hstatus
        cases hstatus
    | edited org version e =>
        by_cases hold : v.status = .awaitingApproval
        · rw [edited_reviewed hobs hch (.inl hold)] at hstatus
          cases hstatus
        · rw [hresult] at hstatus
          simp only [InvoiceChange.apply, InvoiceEdit.apply] at hstatus
          split at hstatus
          · cases hstatus
          · exact absurd hstatus hold
    | decided outcome =>
        rw [hresult] at hstatus
        cases outcome <;> cases hstatus
    | _ => cases hch.api hobs.allowed

theorem rejected_commit (h : ProcOk (machine cfg) (conduct cfg) Legal db p)
    (hobs : lockstep.Observed db p) (hinv : Lockstep db)
    (hw : Db.invoice (p.writes ++ db) i = some w) (hstatus : w.status = .rejected) :
    ∃ id r, Db.request (p.writes ++ db) id = some r ∧ r.invoiceId = i ∧ r.status = .rejected ∧
      r.invoiceVersion = w.version := by
  rcases commit_invoice h hw with ⟨-, hold⟩ | hins | ⟨c, v, hch⟩
  · obtain ⟨id, q, hrow, hinvoice, hrejected, hversion⟩ := hinv.rejected i w hold hstatus
    obtain ⟨r, hr, hlater⟩ := commit_later h (k := .request id) hrow
    have hlater : RequestLater q r := hlater
    refine ⟨id, r, hr, hlater.invoiceId.trans hinvoice, ?_, hlater.invoiceVersion.trans hversion⟩
    rw [hlater.closed (by rw [hrejected]; exact nofun), hrejected]
  · rw [hins.status] at hstatus
    cases hstatus
  · have hresult := hch.result
    cases c with
    | submitted org version bank =>
        rw [hresult] at hstatus
        cases hstatus
    | returned version =>
        rw [hresult] at hstatus
        cases hstatus
    | frozen org vendor =>
        rw [hresult] at hstatus
        cases hstatus
    | edited org version e =>
        by_cases hold : v.status = .rejected
        · rw [edited_reviewed hobs hch (.inr hold)] at hstatus
          cases hstatus
        · rw [hresult] at hstatus
          simp only [InvoiceChange.apply, InvoiceEdit.apply] at hstatus
          split at hstatus
          · cases hstatus
          · exact absurd hstatus hold
    | decided outcome =>
        obtain ⟨newer, older, rows, base, hcur, hbase, -, hbefore⟩ := hch.event
        have hguard := hobs.guard newer _ older hcur
        obtain ⟨auth, id, dto, key, r₁, v₁, t, n, hop, hready, rfl, hdid, hn⟩ :=
          conduct_invoiceCause hbefore (List.Subset.refl _)
        have hseen := hready.ready.request
        have hversion := hguard v hbase auth.organizationId id r₁ hseen rfl
        obtain ⟨q, r, hch', hr⟩ := did_updateRequest h (calls_subset_of_event hcur hdid) hn
        obtain ⟨hinvoice, hsame⟩ :=
          saw_request_committed h (calls_subset_of_event hcur hseen) hch'.committed
        refine ⟨id, r, hr, ?_, ?_, ?_⟩
        · rw [hch'.result, hinvoice]
          rfl
        · rw [hresult] at hstatus
          rw [hch'.result]
          cases outcome with
          | approve => cases hstatus
          | reject => rfl
        · rw [hresult, hch'.result]
          exact hsame.symm.trans hversion.symm
    | _ => cases hch.api hobs.allowed

theorem Lockstep.commit (h : ProcOk (machine cfg) (conduct cfg) Legal db p) {next}
    (hq : p.prog = .commit next) (hobs : lockstep.Observed db p) (hinv : Lockstep db) :
    Lockstep (p.writes ++ db) where
  billed _ _ hr := billed_commit h hq hinv hr
  single _ _ _ _ hr hr' := single_commit h hq hinv hr hr'
  pending _ _ _ hr hpending hv := pending_commit h hq hobs hinv hr hpending hv
  awaiting _ _ hw hstatus := awaiting_commit h hq hobs hinv hw hstatus
  rejected _ _ hw hstatus := rejected_commit h hobs hinv hw hstatus

theorem Lockstep.outside {rows : Db} (hext : (machine cfg).external db rows) (hinv : Lockstep db) :
    Lockstep (rows ++ db) := by
  have hinvoice : ∀ i, Db.invoice (rows ++ db) i = Db.invoice db i :=
    fun i => external_row hext rfl
  have hrequest : ∀ id, Db.request (rows ++ db) id = Db.request db id :=
    fun id => external_row hext rfl
  constructor
  · simpa only [hinvoice, hrequest] using hinv.billed
  · simpa only [hrequest] using hinv.single
  · simpa only [hinvoice, hrequest] using hinv.pending
  · simpa only [hinvoice, hrequest] using hinv.awaiting
  · simpa only [hinvoice, hrequest] using hinv.rejected

theorem lockstep_sound {ok : System → SystemAction → Prop} {s₀ : System} :
    lockstep.Sound (machine cfg) (conduct cfg) Legal ok s₀ where
  refl _ := trivial
  trans _ _ _ _ _ := trivial
  keep _ _ _ _ _ _ _ _ := trivial
  commit _ _ _ _ _ _ hq hok hobs hinv := ⟨hinv.commit hok hq hobs, trivial, fun _ _ => trivial⟩
  external _ _ _ hext hinv := ⟨hinv.outside hext, trivial⟩

end Commit

/-- A pending request for the version and the bank account of the invoice. -/
def AwaitedBy (db : Db) (i : Id) (v : Invoice) : Prop :=
  ∃ id r, Db.request db id = some r ∧ r.invoiceId = i ∧ r.status = .pending ∧
    r.invoiceVersion = v.version ∧ r.vendorBankAccountVersionId = v.vendorBankAccountVersionId

/-- What a reader of the committed rows may rely on. -/
structure InStep (db : Db) : Prop where
  single : ∀ id id' r r', Db.request db id = some r → Db.request db id' = some r' →
    r.status = .pending → r'.status = .pending → r.invoiceId = r'.invoiceId → id = id'
  awaiting : ∀ i v, Db.invoice db i = some v → (v.status = .awaitingApproval ↔ AwaitedBy db i v)
  rejected : ∀ i v, Db.invoice db i = some v → v.status = .rejected →
    ∃ id r, Db.request db id = some r ∧ r.invoiceId = i ∧ r.status = .rejected ∧
      r.invoiceVersion = v.version

theorem Lockstep.inStep {db : Db} (h : Lockstep db) : InStep db where
  single id id' r r' hr hr' hpending hpending' hinvoice := by
    obtain ⟨v, hv, -, hversion, -⟩ := h.bound hr hpending
    obtain ⟨v', hv', -, hversion', -⟩ := h.bound hr' hpending'
    have hsame : v = v' := Option.some.inj (hv.symm.trans (hinvoice ▸ hv'))
    subst hsame
    exact h.single id id' r r' hr hr' hinvoice (hversion.symm.trans hversion')
  awaiting i v hv := by
    constructor
    · intro hstatus
      obtain ⟨id, r, hr, rfl, hpending⟩ := h.awaiting i v hv hstatus
      obtain ⟨-, hversion, hbank⟩ := h.pending id r v hr hpending hv
      exact ⟨id, r, hr, rfl, hpending, hversion.symm, hbank.symm⟩
    · rintro ⟨id, r, hr, rfl, hpending, -⟩
      exact (h.pending id r v hr hpending hv).1
  rejected := h.rejected

theorem Lockstep.of_clear {db : Db} (h : Clear db) : Lockstep db where
  billed id r hr := by simp [h.requests] at hr
  single id id' r r' hr := by simp [h.requests] at hr
  pending id r v hr := by simp [h.requests] at hr
  awaiting i v hv hstatus := absurd hstatus (h.invoices i v hv).1
  rejected i v hv hstatus := absurd hstatus (h.invoices i v hv).2.2

/-- From a tenant without approvals, requests and invoices stay in step in every run of the
approval services whose edits and freezes leave no pending request behind. -/
theorem requests_in_step (cfg : Config) {s₀ s : System} (h₀ : Idle Legal s₀)
    (hclear : Clear s₀.db)
    (h : Run (machine cfg) (Account.permitted (·.isApi = true) leavesNoPending) s₀ s) :
    InStep s.db := by
  have hrespects : lockstep.Respects (E := Failure) (R := Response)
      (Account.permitted (·.isApi = true) leavesNoPending) := lockstep.respects_permitted
  exact (lockstep_sound.run hrespects (discipline cfg) h₀ (.of_clear hclear) h).1.inStep

section Sample

/-- No request of the invoice is pending. -/
def settled (db : Db) (i : Id) : Bool :=
  (Db.requests db).all fun r => r.2.invoiceId ≠ i || r.2.status ≠ .pending

/-- The invoices that were read are awaiting approval, the requests at this version. -/
def readAwaiting : Event Val Out → Bool
  | ⟨.read (.findInvoice _ _), some w, _, _⟩ => w.status = .awaitingApproval
  | _ => true

def readAt (version : Nat) : Event Val Out → Bool
  | ⟨.read (.findRequest _ _), some r, _, _⟩ => r.invoiceVersion = version
  | _ => true

def orderlyStmt (es : List (Event Val Out)) (db : Db) : Stmt → Bool
  | .write (.updateInvoice i (.frozen _ _)) => settled (writes es ++ db) i
  | .write (.updateInvoice i (.edited _ _ _)) =>
      settled (writes es ++ db) i && es.all readAwaiting
  | .write (.updateInvoice i (.decided _)) =>
      (Db.invoice db i).all fun v => es.all (readAt v.version)
  | _ => true

/-- Calls of the services whose edits, freezes and decisions find all in order. -/
def orderly (s : System) : SystemAction → Bool
  | .start op => op.isApi
  | .exec i _ => (s.procs[i]?).all fun p => match p.prog with
      | .stmt q _ => orderlyStmt p.current s.db q
      | _ => true
  | _ => true

theorem noPending_of_settled {db : Db} {i : Id} (h : settled db i = true) : NoPending db i := by
  intro id r hr hinvoice hpending
  have hone := List.all_eq_true.mp h _ (Db.mem_requests.mpr hr)
  simp [hinvoice, hpending] at hone

theorem leavesNoPending_of_orderly (op : Op) (past : Calls Out) (es : List (Event Val Out))
    (db : Db) (q : Stmt) (h : orderlyStmt es db q = true) : leavesNoPending op past es db q := by
  unfold leavesNoPending
  split
  · exact fun _ _ _ => noPending_of_settled h
  · obtain ⟨hsettled, hread⟩ := Bool.and_eq_true_iff.mp h
    refine fun _ _ _ => ⟨noPending_of_settled hsettled, fun _ w hw => ?_⟩
    obtain ⟨e, he, hcall⟩ := List.mem_map.mp hw
    obtain ⟨q, out, rows, base⟩ := e
    cases hcall
    exact of_decide_eq_true (List.all_eq_true.mp hread _ he)
  · intro v hv org id r hr _
    obtain ⟨e, he, hcall⟩ := List.mem_map.mp hr
    obtain ⟨q, out, rows, base⟩ := e
    cases hcall
    rw [orderlyStmt, hv, Option.all_some] at h
    exact (of_decide_eq_true (List.all_eq_true.mp h _ he)).symm
  · trivial

theorem permitted_of_orderly (s : System) (a : SystemAction) (h : orderly s a = true) :
    Account.permitted (·.isApi = true) leavesNoPending s a := by
  cases a with
  | start op => exact h
  | exec i c =>
      intro p q next hp hq
      rw [orderly, hp, Option.all_some, hq] at h
      exact leavesNoPending_of_orderly _ _ _ _ _ h
  | fault i e => trivial
  | kill i e => trivial
  | env rows => trivial

/-- An edit of the pending invoice sends it back to review; the next request is rejected. -/
def editedThenRejected : List SystemAction :=
  .start (.submit (sampleAuth 1) 1 ⟨1⟩ (sampleKey 'a')) :: submission 0 ++
    .start (.update (sampleAuth 1) 1 (sampleEdit 2 200)) ::
    execs 1 (List.replicate 11 0 ++ [11, 12, 0]) ++
    .start (.submit (sampleAuth 1) 1 ⟨3⟩ (sampleKey 'b')) :: submission 2 ++
    .start (.decide (sampleAuth 2) 2 { sampleDecision .reject with approvalVersion := 2 }
      (sampleKey 'c')) :: execs 3 (List.replicate 16 0 ++ [7] ++ List.replicate 7 0)

theorem requests_in_step_sample : ∃ s r r' v,
    Run (machine sampleConfig) (Account.permitted (·.isApi = true) leavesNoPending) sampleStart s ∧
      Db.request s.db 0 = some r ∧ r.status = .invalidated ∧ Db.request s.db 2 = some r' ∧
      r'.status = .rejected ∧ Db.invoice s.db 1 = some v ∧ v.status = .rejected ∧ InStep s.db := by
  obtain ⟨s, hrun, hcheck⟩ := exists_run (M := machine sampleConfig) (s := sampleStart)
    editedThenRejected
    (fun s => (Db.request s.db 0).any fun r => (Db.request s.db 2).any fun r' =>
      (Db.invoice s.db 1).any fun v => r.status = .invalidated ∧ r'.status = .rejected ∧
        v.status = .rejected) permitted_of_orderly (by decide +kernel)
  obtain ⟨r, hr, hcheck⟩ := (Option.any_eq_true _ _).mp hcheck
  obtain ⟨r', hr', hcheck⟩ := (Option.any_eq_true _ _).mp hcheck
  obtain ⟨v, hv, hcheck⟩ := (Option.any_eq_true _ _).mp hcheck
  obtain ⟨hinvalidated, hrejected, hstatus⟩ := of_decide_eq_true hcheck
  exact ⟨s, r, r', v, hrun, hr, hinvalidated, hr', hrejected, hv, hstatus,
    requests_in_step sampleConfig sampleStart_idle sampleStart_clear hrun⟩

/-- A bank change scans the pending requests before the submission, and the invoices awaiting
approval after it; the invoice goes back to review without its request and is submitted again. -/
def orphaningChange : List SystemAction :=
  .start (.addBankVersion (sampleAuth 3) 1 ⟨[], none, [], []⟩) :: execs 0 [0, 0, 2, 0] ++
    .start (.submit (sampleAuth 1) 1 ⟨1⟩ (sampleKey 'a')) :: submission 1 ++
    execs 0 [0, 0, 50, 0] ++
    .start (.submit (sampleAuth 1) 1 ⟨3⟩ (sampleKey 'b')) :: submission 2

theorem orphaned_request : ∃ s,
    Run (machine sampleConfig) (Account.permitted (·.isApi = true) always) sampleStart s ∧
      ¬ InStep s.db := by
  obtain ⟨s, hrun, hcheck⟩ := exists_run (M := machine sampleConfig) (s := sampleStart)
    orphaningChange (fun s => (Db.request s.db 1).any fun r => (Db.request s.db 2).any fun r' =>
      r.status = .pending ∧ r'.status = .pending ∧ r.invoiceId = r'.invoiceId)
    (permitted_starts Op.isApi) (by decide +kernel)
  obtain ⟨r, hr, hcheck⟩ := (Option.any_eq_true _ _).mp hcheck
  obtain ⟨r', hr', hcheck⟩ := (Option.any_eq_true _ _).mp hcheck
  obtain ⟨hpending, hpending', hinvoice⟩ := of_decide_eq_true hcheck
  refine ⟨s, hrun, fun hstep => ?_⟩
  have hsame : (1 : Nat) = 2 := hstep.single 1 2 r r' hr hr' hpending hpending' hinvoice
  omega

end Sample
end BlocTrust
