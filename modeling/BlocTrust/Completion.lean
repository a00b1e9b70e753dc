import BlocTrust.Ledger
import BlocTrust.Tenant

/-!
Completion of requests.
Any number of deciders work on one pending request.  As long as none of them counts the
approvals while another holds one that is not yet committed, the decider who commits the
last approval that is required has counted it and has completed the request.
-/
namespace BlocTrust

open ReadCommitted

/-- The request is bound to the present version of its invoice and of the bank account. -/
structure Bound (db : Db) (r : ApprovalRequest) (v : Invoice) : Prop where
  version : v.version = r.invoiceVersion
  bank : ∀ vendorId, v.vendorId = some vendorId → ∃ b, r.vendorBankAccountVersionId = some b ∧
    LatestBank db r.organizationId vendorId b

/-- With enough approvals and no rejection, a bound request and its invoice are approved. -/
def NoLostCompletion (db : Db) (id : Id) : Prop :=
  ∀ r v, Db.request db id = some r → Db.invoice db r.invoiceId = some v → Bound db r v →
    r.requiredDecisions ≤ (approvers db id).length →
    (∀ m d, Db.decision db id m = some d → d.outcome ≠ .reject) →
    r.status = .approved ∧ v.status = .approved

section Deciders

variable (id : Id)

def Decides (op : Op) : Prop := ∃ auth dto key, op = .decide auth id dto key

/-- The open transaction of `p` has an approval of the request that is not committed. -/
def HoldsApproval (p : Process) : Prop :=
  ∃ m d, Log.row (.decision id m) p.writes = some d ∧ d.outcome = .approve

/-- The open transaction of `p` has counted the approvals. -/
def Counted (p : Process) : Prop :=
  ∃ e ∈ p.current, ∃ org version, e.stmt = .read (.countApprovals org id version)

/-- Deciders of the request alone run, and count while nobody else holds an approval. -/
def countsAlone (s : System) : SystemAction → Prop
  | .start op => Decides id op
  | .exec i _ => ∀ p org version next, s.procs[i]? = some p →
      p.prog = .stmt (.read (.countApprovals org id version)) next →
      ∀ (j : Nat) q, j ≠ i → s.procs[j]? = some q → ¬ HoldsApproval id q
  | _ => True

structure Alone (s : System) : Prop where
  ops : ∀ (i : Nat) p, s.procs[i]? = some p → Decides id p.op
  single : ∀ (i j : Nat) p q, i ≠ j → s.procs[i]? = some p → s.procs[j]? = some q →
    Counted id p → ¬ Counted id q
  fresh : ∀ (i : Nat) p e org version, s.procs[i]? = some p → e ∈ p.current →
    e.stmt = .read (.countApprovals org id version) →
    ∀ m d, Db.decision s.db id m = some d → d.outcome = .approve → Db.decision e.base id m = some d

variable {id} {cfg : Config} {db : Db} {p : Process}

theorem Counted.ne_nil (hc : Counted id p) : p.current ≠ [] := by
  obtain ⟨e, he, -⟩ := hc
  exact List.ne_nil_of_mem he

theorem Counted.holds (h : ProcOk (machine cfg) (conduct cfg) Legal db p) (hop : Decides id p.op)
    (hc : Counted id p) : HoldsApproval id p := by
  obtain ⟨e, he, org, version, hstmt⟩ := hc
  obtain ⟨cur, hsub, hbefore⟩ := event_before h he
  obtain ⟨auth, dto, key, hop⟩ := hop
  rw [hstmt, hop] at hbefore
  obtain ⟨-, -, r, v, d, -, -, hd, houtcome⟩ := hbefore
  have hdid : Did p.calls (.insertDecision d) () := hsub hd
  obtain ⟨new, older, rows, base, -, -, hallowed⟩ := did_event h hdid
  rw [hop] at hallowed
  obtain ⟨⟨r', v', hready⟩, -⟩ := hallowed
  have hrow := did_insertDecision h hdid
  rw [hready.request] at hrow
  exact ⟨_, d, hrow, houtcome⟩

/-- A decider who commits an approval has counted. -/
theorem counted_of_insert (h : ProcOk (machine cfg) (conduct cfg) Legal db p) {next}
    (hq : p.prog = .commit next) (hop : Decides id p.op) {m : Id} {d : ApprovalDecision}
    (hi : InsertsDecision cfg db p id m d) (houtcome : d.outcome = .approve) : Counted id p := by
  obtain ⟨auth, dto, key, hop⟩ := hop
  have hdue := commit_due h hq
  rw [hop] at hdue
  obtain ⟨r, v, -, -, happroves⟩ := hdue.settled d hi.did
  obtain ⟨n, hn, -⟩ := happroves houtcome
  obtain ⟨e, he, hcall⟩ := List.mem_map.mp hn
  exact ⟨e, he, _, _, congrArg Sigma.fst hcall⟩

variable {s s' : System}

/-- A process of the next state that has counted had counted before, or counts now. -/
theorem Alone.step (hcons : Consistent (machine cfg) (conduct cfg) Legal s) (h : Alone id s)
    {a : SystemAction} (ha : countsAlone id s a) (hs : Step (machine cfg) s a s') :
    Alone id s' := by
  cases hs.effect with
  | quiet hdb hprocs =>
      have hold : ∀ (j : Nat) q, s'.procs[j]? = some q → q.current ≠ [] →
          s.procs[j]? = some q := by
        intro j q hj hne
        rcases hprocs j q hj with hold | ⟨hnil, -⟩
        · exact hold
        · exact absurd hnil hne
      refine ⟨fun j q hj => ?_, fun j k q r hjk hj hk hq hr => ?_, fun j q e org version hj he => ?_⟩
      · rcases hprocs j q hj with hold | ⟨-, ⟨op, rfl, rfl⟩ | ⟨q', hq', hop, -⟩⟩
        · exact h.ops j q hold
        · exact ha
        · rw [hop]
          exact h.ops j q' hq'
      · exact h.single j k q r hjk (hold j q hj hq.ne_nil) (hold k r hk hr.ne_nil) hq hr
      · rw [hdb]
        exact h.fresh j q e org version (hold j q hj (List.ne_nil_of_mem he)) he
  | answered i c p q next out rows hp hq hrun =>
      have hcounts : ∀ org version, q = .read (.countApprovals org id version) →
          ∀ (j : Nat) r, j ≠ i → s.procs[j]? = some r → ¬ Counted id r := by
        rintro org version rfl j r hj hr hc
        exact ha p org version next hp hq j r hj hr (hc.holds (hcons.proc j r hr) (h.ops j r hr))
      have hpushed : ∀ (j : Nat) r, j ≠ i → s.procs[j]? = some r → Counted id r →
          ¬ Counted id (p.push (next (.ok out)) ⟨q, out, rows, s.db⟩) := by
        rintro j r hj hr hc ⟨e, he, org, version, hstmt⟩
        rcases List.mem_cons.mp he with rfl | he
        · exact hcounts org version hstmt j r hj hr hc
        · exact h.single j i r p hj hr hp hc ⟨e, he, org, version, hstmt⟩
      refine ⟨fun j r hj => ?_, fun j k r r' hjk hj hk hr hr' => ?_,
        fun j r e org version hj he hstmt => ?_⟩
      · rcases getElem?_set_cases hj with ⟨rfl, rfl⟩ | ⟨-, hj⟩
        · exact h.ops j p hp
        · exact h.ops j r hj
      · rcases getElem?_set_cases hj with ⟨rfl, rfl⟩ | ⟨hji, hrest⟩
        · rcases getElem?_set_cases hk with ⟨rfl, -⟩ | ⟨hki, hk⟩
          · exact hjk rfl
          · exact hpushed k r' hki hk hr' hr
        · rcases getElem?_set_cases hk with ⟨rfl, rfl⟩ | ⟨-, hk⟩
          · exact hpushed j r hji hrest hr hr'
          · exact h.single j k r r' hjk hrest hk hr hr'
      · rcases getElem?_set_cases hj with ⟨rfl, rfl⟩ | ⟨-, hj⟩
        · rcases List.mem_cons.mp he with rfl | he
          · exact fun m d hd _ => hd
          · exact h.fresh j p e org version hp he hstmt
        · exact h.fresh j r e org version hj he hstmt
  | committed i c p next hp hq =>
      have hold : ∀ (j : Nat) r, (s.procs.set i (p.close (next (.ok ()))))[j]? = some r →
          r.current ≠ [] → j ≠ i ∧ s.procs[j]? = some r := by
        intro j r hj hne
        rcases getElem?_set_cases hj with ⟨-, rfl⟩ | hold
        · exact absurd rfl hne
        · exact hold
      refine ⟨fun j r hj => ?_, fun j k r r' hjk hj hk hr hr' => ?_,
        fun j r e org version hj he hstmt m d hd houtcome => ?_⟩
      · rcases getElem?_set_cases hj with ⟨rfl, rfl⟩ | ⟨-, hj⟩
        · exact h.ops j p hp
        · exact h.ops j r hj
      · exact h.single j k r r' hjk (hold j r hj hr.ne_nil).2
          (hold k r' hk hr'.ne_nil).2 hr hr'
      · obtain ⟨hji, hj⟩ := hold j r hj (List.ne_nil_of_mem he)
        -- had the commit added an approval, its process would have counted beside `r`
        rcases commit_decision (hcons.proc i p hp) hd with hdb | hinserts
        · exact h.fresh j r e org version hj he hstmt m d hdb houtcome
        · have hc := counted_of_insert (hcons.proc i p hp) hq (h.ops i p hp) hinserts houtcome
          exact absurd hc (h.single j i r p hji hj hp ⟨e, he, org, version, hstmt⟩)
  | outside rows hext =>
      refine ⟨h.ops, h.single, fun j r e org version hj he hstmt m d hd => ?_⟩
      have hsame : Db.decision (rows ++ s.db) id m = Db.decision s.db id m := external_row hext rfl
      have hdb : Db.decision s.db id m = some d := hsame.symm.trans hd
      exact h.fresh j r e org version hj he hstmt m d hdb

theorem alone_run {s₀ : System} (h₀ : Idle Legal s₀)
    (h : Run (machine cfg) (countsAlone id) s₀ s) : Alone id s := by
  refine h.invariant ⟨by simp [h₀.procs], by simp [h₀.procs], by simp [h₀.procs]⟩ ?_
  intro t a t' hrun halone ha hs
  exact halone.step (Run.consistent (discipline cfg) h₀.consistent hrun) ha hs

end Deciders

section Progress

/-- How far the deciders of the request `r` have come, by the status of the request. -/
def Stage (db : Db) (id : Id) (r : ApprovalRequest) (v : Invoice) : ApprovalRequestStatus → Prop
  | .pending => v.status = .awaitingApproval ∧ v.version = r.invoiceVersion ∧
      (approvers db id).length < r.requiredDecisions
  | .approved => v.status = .approved
  | .rejected => ∃ m d, Db.decision db id m = some d ∧ d.outcome = .reject
  | .invalidated => r.invoiceVersion < v.version

def Deciding (id : Id) (db : Db) : Prop :=
  ∃ r v, Db.request db id = some r ∧ Db.invoice db r.invoiceId = some v ∧ Stage db id r v r.status

theorem Deciding.noLostCompletion {id : Id} {db : Db} (h : Deciding id db) :
    NoLostCompletion db id := by
  obtain ⟨r, v, hr, hv, hstage⟩ := h
  intro r' v' hr' hv' hbound henough hnone
  have hsame : r' = r := Option.some.inj (hr'.symm.trans hr)
  subst hsame
  have hsame : v' = v := Option.some.inj (hv'.symm.trans hv)
  subst hsame
  have hversion := hbound.version
  cases hs : r'.status with
  | pending =>
      rw [hs] at hstage
      have hfew := hstage.2.2
      omega
  | approved =>
      rw [hs] at hstage
      exact ⟨rfl, hstage⟩
  | rejected =>
      rw [hs] at hstage
      obtain ⟨m, d, hd, hreject⟩ := hstage
      exact absurd hreject (hnone m d hd)
  | invalidated =>
      rw [hs] at hstage
      have hless : r'.invoiceVersion < v'.version := hstage
      omega

variable {cfg : Config} {db : Db} {p : Process} {id : Id} {r r' : ApprovalRequest}
  {v v' : Invoice}

/-- What a decider does to an invoice it does on account of the request. -/
theorem decider_invoice {i : Id} {c : InvoiceChange} {old new : Invoice} (hop : Decides id p.op)
    (hch : ChangesInvoice cfg db p i c old new) :
    (∃ outcome t n, c = .decided outcome ∧ n ≠ 0 ∧
      Did p.calls (.updateRequest id (.completed outcome t)) n) ∨
    ∃ version reason n, c = .returned version ∧
      Did p.calls (.updateRequest id (.invalidated reason)) n := by
  obtain ⟨auth, dto, key, hop⟩ := hop
  have hcause := hch.cause
  rw [hop] at hcause
  cases c with
  | decided outcome =>
      obtain ⟨auth', id', dto', key', q, w, t, n, heq, -, -, hdid, hn⟩ := hcause
      cases heq
      exact .inl ⟨outcome, t, n, rfl, hn, hdid⟩
  | returned version =>
      obtain ⟨auth', id', dto', key', q, w, reason, n, heq, -, -, -, hdid⟩ := hcause
      cases heq
      exact .inr ⟨version, reason, n, rfl, hdid⟩
  | submitted org version bank =>
      obtain ⟨_, _, _, _, _, heq, -⟩ := hcause
      cases heq
  | frozen org vendor =>
      obtain ⟨_, _, heq, -⟩ := hcause
      cases heq
  | edited org version e =>
      obtain ⟨_, _, _, heq, -⟩ := hcause
      cases heq
  | suggested org =>
      obtain ⟨_, _, _, _, _, _, heq, -⟩ := hcause
      cases heq
  | blocked org =>
      obtain ⟨_, _, _, _, _, heq, -⟩ := hcause
      cases heq
  | manualReview org =>
      obtain ⟨_, _, _, _, _, _, heq, -⟩ := hcause
      cases heq
  | queueFailed org =>
      obtain ⟨_, _, _, _, _, _, _, _, heq, -⟩ := hcause
      cases heq

theorem written_of_did (h : ProcOk (machine cfg) (conduct cfg) Legal db p) {c : RequestChange}
    {n : Nat} (hd : Did p.calls (.updateRequest id c) n) (hn : n ≠ 0) :
    Key.request id ∈ p.writes.keys := by
  obtain ⟨old, new, hch, -⟩ := did_updateRequest h hd hn
  obtain ⟨newer, older, rows, base, hcur, hwrote, -⟩ := did_event h hch.did
  cases hwrote with
  | updateRequest hupdated =>
      cases hupdated with
      | wrote old new hrow happlies hchange =>
          exact written_key hcur List.mem_cons_self

/-- An invalidation that missed its request met it closed. -/
theorem closed_of_missed (h : ProcOk (machine cfg) (conduct cfg) Legal db p) {reason : String}
    (hd : Did p.calls (.updateRequest id (.invalidated reason)) 0)
    (hseen : ∀ e ∈ p.current, Deciding id e.base) (hr : Db.request db id = some r)
    (hk : Key.request id ∉ p.writes.keys) : r.status ≠ .pending := by
  obtain ⟨newer, older, rows, base, hcur, hwrote, -⟩ := did_event h hd
  have hmem := mem_of_event hcur
  obtain ⟨q, -, hq, -⟩ := hseen _ hmem
  have hfree : Key.request id ∉ (writes older).keys := by
    intro hkey
    obtain ⟨e, he, hke⟩ := mem_keys_writes.mp hkey
    exact hk (mem_keys_writes.mpr ⟨e, by simp [hcur, he], hke⟩)
  have hview : Log.row (Key.request id) (writes older ++ base) = some q := by
    rw [Log.row_append_of_not_mem _ hfree]
    exact hq
  obtain ⟨r', hr', hlater⟩ := request_later h.view.of_append (h.bases hmem) hq
  have hsame : r' = r := Option.some.inj (hr'.symm.trans hr)
  subst hsame
  cases hwrote with
  | updateRequest hupdated =>
      cases hupdated with
      | missed hmissed =>
          have hclosed : q.status ≠ .pending := by
            simpa [RequestChange.applies] using hmissed q hview
          rw [hlater.closed hclosed]
          exact hclosed

/-- A decider who leaves the request alone leaves its invoice alone. -/
theorem decider_keeps (h : ProcOk (machine cfg) (conduct cfg) Legal db p) (hop : Decides id p.op)
    (hseen : ∀ e ∈ p.current, Deciding id e.base) (hk : Key.request id ∉ p.writes.keys)
    (hr : Db.request db id = some r) {i : Id} (hv : Db.invoice db i = some v)
    (hv' : Db.invoice (p.writes ++ db) i = some v')
    (hopen : v.status = .awaitingApproval → r.status = .pending) : v' = v := by
  rcases commit_invoice h hv' with ⟨-, hsame⟩ | hinserts | ⟨c, old, hch⟩
  · exact Option.some.inj (hsame.symm.trans hv)
  · exact absurd (Log.mem_keys_of_row hv) hinserts.fresh
  · have hold : old = v := Option.some.inj (hch.committed.symm.trans hv)
    subst hold
    rcases decider_invoice hop hch with ⟨outcome, t, n, -, hn, hdid⟩ | ⟨version, reason, n, rfl, hdid⟩
    · exact absurd (written_of_did h hdid hn) hk
    · have happlies := hch.applies
      simp only [InvoiceChange.applies, decide_eq_true_eq] at happlies
      by_cases hn : n = 0
      · subst hn
        exact absurd (hopen happlies.2) (closed_of_missed h hdid hseen hr hk)
      · exact absurd (written_of_did h hdid hn) hk

/-- The committed approvals were there when the open transaction counted. -/
def CountsAll (id : Id) (db : Db) (p : Process) : Prop :=
  ∀ e ∈ p.current, ∀ org version, e.stmt = .read (.countApprovals org id version) →
    ∀ m d, Db.decision db id m = some d → d.outcome = .approve → Db.decision e.base id m = some d

theorem approvers_le_count (h : ProcOk (machine cfg) (conduct cfg) Legal db p)
    (hop : Decides id p.op) (hl : Ledger (p.writes ++ db)) (hall : CountsAll id db p)
    (hr' : Db.request (p.writes ++ db) id = some r') {n : Nat}
    (hs : Saw p.calls (.countApprovals r'.organizationId id r'.version) n) :
    (approvers (p.writes ++ db) id).length ≤ n := by
  obtain ⟨new, older, base, choice, hcur, hanswer⟩ := saw_event h hs
  have hsub : approvers (p.writes ++ db) id ⊆ approvers (writes older ++ base) id := by
    intro m hm
    obtain ⟨d, hd, houtcome⟩ := mem_approvers.mp hm
    refine mem_approvers.mpr ⟨d, ?_, houtcome⟩
    rcases commit_decision h hd with hdb | hinserts
    · have hbase := hall _ (mem_of_event hcur) _ _ rfl m d hdb houtcome
      exact decision_later (h.view_chain hcur) (List.suffix_append _ _) hbase
    · -- the decision that the count was preceded by is the only one of the transaction
      have htrace := h.trace
      rw [hcur] at htrace
      have hallowed := htrace.executed.allowed
      obtain ⟨auth, dto, key, hop⟩ := hop
      rw [hop] at hallowed
      obtain ⟨-, -, r, v, d', -, -, hd', -⟩ := hallowed
      have honce : ∀ (d d' : ApprovalDecision) (past cur : Calls Out),
          (conduct cfg p.op).before past cur (.write (.insertDecision d)) →
          ¬ Did cur (.insertDecision d') () := by
        intro d d' past cur hb
        obtain ⟨-, -, -, -, -, honce⟩ := conduct_insertDecision hb
        exact honce d'
      have hsame := same_update h (calls_subset_of_event hcur hd') hinserts.did
        (honce d' d) (honce d d')
      cases hsame
      have hview := inserted_before h hcur hd'
      rwa [hinserts.keys.1, hinserts.keys.2] at hview
  refine (approvers_length_le hsub).trans ?_
  cases hanswer
  rw [approvers, List.length_map, ← List.countP_eq_length_filter, ← List.countP_eq_length_filter]
  refine List.countP_mono_left ?_
  rintro ⟨⟨r, m⟩, d⟩ hmem hcond
  obtain ⟨hr, houtcome⟩ := of_decide_eq_true hcond
  have hfinal := decision_stays h hcur (Db.mem_decisions.mp hmem)
  simp only at hr
  subst hr
  obtain ⟨q, hq, horg, hversion, -⟩ := hl.decided _ m d hfinal
  have hsame : q = r' := Option.some.inj (hq.symm.trans hr')
  subst hsame
  simp [horg, hversion, (decision_keys h.view hfinal).1, houtcome]

/-- A decider who adds an approval to a request and leaves it pending has counted too few. -/
theorem few_approvals (h : ProcOk (machine cfg) (conduct cfg) Legal db p) {next}
    (hq : p.prog = .commit next) (hop : Decides id p.op) (hl : Ledger (p.writes ++ db))
    (hall : CountsAll id db p) (hk : Key.request id ∉ p.writes.keys)
    (hr' : Db.request (p.writes ++ db) id = some r')
    (hfew : (approvers db id).length < r'.requiredDecisions) :
    (approvers (p.writes ++ db) id).length < r'.requiredDecisions := by
  by_cases hnew : ∃ m d, InsertsDecision cfg db p id m d ∧ d.outcome = .approve
  · obtain ⟨m, d, hinserts, houtcome⟩ := hnew
    have hdue := commit_due h hq
    obtain ⟨auth, dto, key, hop'⟩ := hop
    rw [hop'] at hdue
    obtain ⟨q, w, hready, -, happroves⟩ := hdue.settled d hinserts.did
    obtain ⟨n, hn, hcomplete⟩ := happroves houtcome
    obtain ⟨horg, r'', hr'', hlater⟩ := saw_request h hready.request
    have hsame : r'' = r' := Option.some.inj (hr''.symm.trans hr')
    subst hsame
    have hcount : Saw p.calls (.countApprovals r''.organizationId id r''.version) n := by
      rw [hlater.organizationId, horg, hlater.version]
      exact hn
    have hle := approvers_le_count h ⟨auth, dto, key, hop'⟩ hl hall hr' hcount
    have hshort : ¬ q.requiredDecisions ≤ n := by
      intro henough
      obtain ⟨t, m', hm', hdid⟩ := hcomplete henough
      exact hk (written_of_did h hdid hm')
    have hrequired := hlater.requiredDecisions
    omega
  · have hsub : approvers (p.writes ++ db) id ⊆ approvers db id := by
      intro m hm
      obtain ⟨d, hd, houtcome⟩ := mem_approvers.mp hm
      rcases commit_decision h hd with hdb | hinserts
      · exact mem_approvers.mpr ⟨d, hdb, houtcome⟩
      · exact absurd ⟨m, d, hinserts, houtcome⟩ hnew
    have hle := approvers_length_le hsub
    omega

/-- The invoice of a pending request is there to be returned when the request is locked. -/
theorem return_applies (h : ProcOk (machine cfg) (conduct cfg) Legal db p) (hop : Decides id p.op)
    (hseen : ∀ e ∈ p.current, Deciding id e.base) {reason : String}
    (hch : ChangesRequest cfg db p id (.invalidated reason) r r') :
    ¬ Did p.calls (.updateInvoice r.invoiceId (.returned r.invoiceVersion)) 0 := by
  intro hdid
  obtain ⟨newer, older, rows, base, hcur, hwrote, hbefore⟩ := did_event h hdid
  have hfirst := invoice_first h hcur hbefore
  obtain ⟨auth, dto, key, hop⟩ := hop
  rw [hop] at hbefore
  obtain ⟨-, q, w, reason', n, -, -, -, hlocked⟩ := hbefore
  have hsame := same_update h (calls_subset_of_event hcur hlocked) hch.did
    (fun _ _ hb => (conduct_updateRequest hb).1 _ _) (fun _ _ hb => (conduct_updateRequest hb).1 _ _)
  cases hsame
  obtain ⟨e, he, hcall⟩ := List.mem_map.mp hlocked
  have hkey : Key.request id ∈ e.rows.keys := by
    have hmem : e ∈ p.current := by simp [hcur, he]
    obtain ⟨_, _, _, hx⟩ := h.trace.split hmem
    have hran := executed_ran hx
    obtain ⟨s, out, rows, base⟩ := e
    cases hcall
    cases hran with
    | write hwrote =>
        cases hwrote with
        | updateRequest hupdated =>
            cases hupdated with
            | wrote old new hrow happlies hchange => exact List.mem_cons_self
  obtain ⟨rest, hdb, hfree⟩ := h.locked_since hcur he hkey
  have hbase : Db.request base id = some r := by
    have hcommitted := hch.committed
    rw [Db.request, hdb, Log.row_append_of_not_mem _ hfree] at hcommitted
    exact hcommitted
  have hpending : r.status = .pending := by simpa [RequestChange.applies] using hch.applies
  obtain ⟨q', v', hq', hv', hstage⟩ := hseen _ (mem_of_event hcur)
  have hq : q' = r := Option.some.inj (hq'.symm.trans hbase)
  rw [hq, hpending] at hstage
  rw [hq] at hv'
  cases hwrote with
  | updateInvoice hupdated =>
      cases hupdated with
      | missed hmissed =>
          have hview := hmissed v' (by rw [Log.row_append_of_not_mem _ hfirst]; exact hv')
          simp [InvoiceChange.applies, hstage.1, hstage.2.1] at hview

/-- A decider who invalidates the request returns its invoice. -/
theorem invoice_returned (h : ProcOk (machine cfg) (conduct cfg) Legal db p) {next}
    (hq : p.prog = .commit next) (hop : Decides id p.op) (hseen : ∀ e ∈ p.current, Deciding id e.base)
    {reason : String} (hch : ChangesRequest cfg db p id (.invalidated reason) r r')
    (hr' : Db.request (p.writes ++ db) id = some r') (hv : Db.invoice db r.invoiceId = some v)
    (hv' : Db.invoice (p.writes ++ db) r.invoiceId = some v') : v.version < v'.version := by
  obtain ⟨auth, dto, key, hop'⟩ := hop
  have hdue := commit_due h hq
  rw [hop'] at hdue
  obtain ⟨q, w, m, hsaw, hdid⟩ := hdue.invalidated reason 1 hch.did
  obtain ⟨-, r'', hr'', hlater⟩ := saw_request h hsaw.request
  obtain ⟨r₂, hr₂, hlater₂⟩ := request_later h.view (List.suffix_append _ _) hch.committed
  have hlater : RequestLater q r' := Option.some.inj (hr''.symm.trans hr') ▸ hlater
  have hlater' : RequestLater r r' := Option.some.inj (hr₂.symm.trans hr') ▸ hlater₂
  have hi : q.invoiceId = r.invoiceId := hlater.invoiceId.symm.trans hlater'.invoiceId
  have hversion : q.invoiceVersion = r.invoiceVersion :=
    hlater.invoiceVersion.symm.trans hlater'.invoiceVersion
  rw [hi, hversion] at hdid
  by_cases hm : m = 0
  · -- the request was locked pending, so the invoice was there to be returned
    subst hm
    exact absurd hdid (return_applies h ⟨auth, dto, key, hop'⟩ hseen hch)
  · obtain ⟨old, new, hchanges, hnew⟩ := did_updateInvoice h hdid hm
    have hold : old = v := Option.some.inj (hchanges.committed.symm.trans hv)
    have hnew' : new = v' := Option.some.inj (hnew.symm.trans hv')
    rw [← hold, ← hnew', hchanges.result]
    simp [InvoiceChange.apply]

theorem Deciding.commit (h : ProcOk (machine cfg) (conduct cfg) Legal db p) {next}
    (hq : p.prog = .commit next) (hop : Decides id p.op) (hl : Ledger (p.writes ++ db))
    (hseen : ∀ e ∈ p.current, Deciding id e.base) (hall : CountsAll id db p)
    (hd : Deciding id db) : Deciding id (p.writes ++ db) := by
  obtain ⟨r, v, hr, hv, hstage⟩ := hd
  have hsuffix := List.suffix_append p.writes db
  obtain ⟨v', hv', hvlater⟩ := invoice_later h.view hsuffix hv
  obtain ⟨r', hr', hrlater⟩ := request_later h.view hsuffix hr
  refine ⟨r', v', hr', by rw [hrlater.invoiceId]; exact hv', ?_⟩
  rcases commit_request h hr' with ⟨hk, hold⟩ | hinserts | ⟨c, old, hch⟩
  · have hsame : r' = r := Option.some.inj (hold.symm.trans hr)
    subst hsame
    cases hs : r'.status with
    | pending =>
        rw [hs] at hstage
        obtain ⟨hawaiting, hversion, hfew⟩ := hstage
        have hkeep := decider_keeps h hop hseen hk hr hv hv' fun _ => hs
        subst hkeep
        exact ⟨hawaiting, hversion, few_approvals h hq hop hl hall hk hr' hfew⟩
    | approved =>
        rw [hs] at hstage
        have happroved : v.status = .approved := hstage
        have hkeep := decider_keeps h hop hseen hk hr hv hv' fun ha => by
          rw [happroved] at ha
          cases ha
        subst hkeep
        exact happroved
    | rejected =>
        rw [hs] at hstage
        obtain ⟨m, d, hd, hreject⟩ := hstage
        exact ⟨m, d, decision_later h.view hsuffix hd, hreject⟩
    | invalidated =>
        rw [hs] at hstage
        have hless : r'.invoiceVersion < v.version := hstage
        exact lt_of_lt_of_le hless hvlater.version
  · obtain ⟨_, _, _, _, hsubmit, -⟩ := hinserts.op
    obtain ⟨_, _, _, hop⟩ := hop
    rw [hop] at hsubmit
    cases hsubmit
  · have hsame : old = r := Option.some.inj (hch.committed.symm.trans hr)
    subst hsame
    cases c with
    | invalidated reason =>
        have hstatus : r'.status = .invalidated := by rw [hch.result]; rfl
        have hpending : old.status = .pending := by
          simpa [RequestChange.applies] using hch.applies
        rw [hpending] at hstage
        rw [hstatus]
        have hless := invoice_returned h hq hop hseen hch hr' hv hv'
        have hversion := hstage.2.1
        have hsame := hrlater.invoiceVersion
        show r'.invoiceVersion < v'.version
        omega
    | completed outcome t =>
        have hdue := commit_due h hq
        obtain ⟨auth, dto, key, hop'⟩ := hop
        rw [hop'] at hdue
        have hstatus : r'.status = outcome.requestStatus := by rw [hch.result]; rfl
        rw [hstatus]
        cases outcome with
        | approve =>
            obtain ⟨q, w, m, hready, hm, hdid⟩ := hdue.completed _ _ _ hch.did
            obtain ⟨-, r'', hr'', hlater⟩ := saw_request h hready.request
            have hsame : r'' = r' := Option.some.inj (hr''.symm.trans hr')
            subst hsame
            rw [← hlater.invoiceId, hrlater.invoiceId] at hdid
            obtain ⟨old', new, hchanges, hnew⟩ := did_updateInvoice h hdid hm
            have hnew' : new = v' := Option.some.inj (hnew.symm.trans hv')
            show v'.status = .approved
            rw [← hnew', hchanges.result]
            rfl
        | reject =>
            have hcause := hch.cause
            rw [hop'] at hcause
            obtain ⟨auth', dto', key', q, w, -, hready⟩ := hcause
            obtain ⟨d, hd, hrequest, houtcome⟩ := hready.decision
            have hrow := did_insertDecision h hd
            rw [hrequest] at hrow
            exact ⟨_, d, Log.row_append_of_row _ hrow, houtcome⟩

theorem Deciding.outside {rows : Db} (hext : (machine cfg).external db rows)
    (h : Deciding id db) : Deciding id (rows ++ db) := by
  have hinvoice : ∀ i, Db.invoice (rows ++ db) i = Db.invoice db i :=
    fun i => external_row hext rfl
  have hrequest : Db.request (rows ++ db) id = Db.request db id := external_row hext rfl
  have hdecision : ∀ m, Db.decision (rows ++ db) id m = Db.decision db id m :=
    fun m => external_row hext rfl
  obtain ⟨r, v, hr, hv, hstage⟩ := h
  refine ⟨r, v, hrequest.trans hr, (hinvoice _).trans hv, ?_⟩
  cases hs : r.status with
  | pending =>
      rw [hs] at hstage
      obtain ⟨hawaiting, hversion, hfew⟩ := hstage
      have hsub : approvers (rows ++ db) id ⊆ approvers db id := by
        intro m hm
        rw [mem_approvers, hdecision] at hm
        exact mem_approvers.mpr hm
      exact ⟨hawaiting, hversion, lt_of_le_of_lt (approvers_length_le hsub) hfew⟩
  | approved =>
      rw [hs] at hstage
      exact hstage
  | rejected =>
      rw [hs] at hstage
      obtain ⟨m, d, hd, hreject⟩ := hstage
      exact ⟨m, d, (hdecision m).trans hd, hreject⟩
  | invalidated =>
      rw [hs] at hstage
      exact hstage

def deciders (id : Id) : Account Val Out Op where
  allowed := Decides id
  inv := Deciding id

theorem deciders_sound {s₀ : System} (h₀ : Idle Legal s₀) (hl : Ledger s₀.db) :
    (deciders id).Sound (machine cfg) (conduct cfg) Legal (countsAlone id) s₀ where
  refl _ := trivial
  trans _ _ _ _ _ := trivial
  keep _ _ _ _ _ _ _ _ := trivial
  commit s i p next hrun hp hq hok hobs hinv := by
    have hledger := Ledger.commit hok hq (ledger_run h₀ hl hrun)
    have hall : CountsAll id s.db p := fun e he org version hstmt =>
      (alone_run h₀ hrun).fresh i p e org version hp he hstmt
    exact ⟨Deciding.commit hok hq hobs.allowed hledger hobs.inv hall hinv, trivial,
      fun _ _ => trivial⟩
  external db rows hc hext hinv := ⟨hinv.outside hext, trivial⟩

end Progress

/-- Deciders who count alone lose no completion, from any state that has lost none. -/
theorem no_lost_completion (cfg : Config) {id : Id} {s₀ s : System} (h₀ : Idle Legal s₀)
    (hl : Ledger s₀.db) (hstart : Deciding id s₀.db)
    (h : Run (machine cfg) (countsAlone id) s₀ s) : NoLostCompletion s.db id := by
  have hrespects : (deciders id).Respects (countsAlone id) :=
    ⟨fun _ _ hop => hop, fun _ _ _ _ _ _ _ _ _ => trivial⟩
  have hdeciding := ((deciders_sound h₀ hl).run hrespects (discipline cfg) h₀ hstart h).1
  exact hdeciding.noLostCompletion

section Sample

theorem pendingStart_ledger : Ledger pendingStart.db where
  assessed id r hr := by
    have hall : ∀ x ∈ Db.requests pendingDb, (Db.risk pendingDb x.2.riskAssessmentId).any
        (fun a => x.2.requiredDecisions = if a.evaluation.level = .high then 2 else 1) := by
      decide +kernel
    obtain ⟨a, ha, hrequired⟩ := (Option.any_eq_true _ _).mp (hall _ (Db.mem_requests.mpr hr))
    exact ⟨a, ha, of_decide_eq_true hrequired⟩
  billed id r hr := by
    have hall : ∀ x ∈ Db.requests pendingDb, (Db.invoice pendingDb x.2.invoiceId).any
        (fun v => v.organizationId = x.2.organizationId) := by decide +kernel
    obtain ⟨v, hv, horg⟩ := (Option.any_eq_true _ _).mp (hall _ (Db.mem_requests.mpr hr))
    exact ⟨v, hv, of_decide_eq_true horg⟩
  decided id m d hd := by
    have hnone : Db.decisions pendingDb = [] := by decide +kernel
    have hmem := Db.mem_decisions.mpr hd
    rw [show Db.decisions pendingStart.db = [] from hnone] at hmem
    cases hmem
  steppedUp id m d hd := by
    have hnone : Db.decisions pendingDb = [] := by decide +kernel
    have hmem := Db.mem_decisions.mpr hd
    rw [show Db.decisions pendingStart.db = [] from hnone] at hmem
    cases hmem
  counted id r hr hs := by
    have hall : ∀ x ∈ Db.requests pendingDb, x.2.status ≠ .approved := by decide +kernel
    exact absurd hs (hall _ (Db.mem_requests.mpr hr))

theorem pendingStart_deciding : Deciding 1 pendingStart.db := by
  have hfew : (approvers pendingDb 1).length < 2 := by decide +kernel
  exact ⟨pendingRequest, pendingInvoice, rfl, rfl, rfl, rfl, hfew⟩

/-- The statements by which process `i` records an approval and completes nothing, up to its
count and after it. -/
def counting (i : Nat) : List SystemAction := execs i (List.replicate 14 0)

def recording (i : Nat) : List SystemAction :=
  execs i ([i + 1] ++ List.replicate 7 0)

def decideAs (m : Id) (c : Char) : SystemAction :=
  .start (.decide (sampleAuth m) 1 (sampleDecision .approve) (sampleKey c))

def startsDecide : Op → Bool
  | .decide _ id _ _ => id = 1
  | _ => false

theorem decides_of_starts (op : Op) (h : startsDecide op = true) : Decides 1 op := by
  cases op with
  | decide auth id dto key =>
      cases of_decide_eq_true h
      exact ⟨auth, dto, key, rfl⟩
  | _ => cases h

/-- Deciders work while no other transaction has written anything. -/
def inTurn (s : System) : SystemAction → Bool
  | .start op => startsDecide op
  | .exec i _ => (s.procs.eraseIdx i).all fun q => q.writes.isEmpty
  | _ => true

theorem countsAlone_of_inTurn (s : System) (a : SystemAction) (h : inTurn s a = true) :
    countsAlone 1 s a := by
  cases a with
  | start op => exact decides_of_starts op h
  | exec i c =>
      intro p org version next hp hq j q hj hq'
      rintro ⟨m, d, hd, -⟩
      have hmem : q ∈ s.procs.eraseIdx i := List.mem_eraseIdx_iff_getElem?.mpr ⟨j, hj, hq'⟩
      have hempty := List.all_eq_true.mp h q hmem
      rw [List.isEmpty_iff] at hempty
      rw [hempty] at hd
      cases hd
  | _ => trivial

/-- Two owners decide one after the other; the second completes the request. -/
def decidedRun : List SystemAction :=
  decideAs 2 'a' :: counting 0 ++ recording 0 ++ decideAs 3 'b' :: approval 1

theorem no_lost_completion_sample :
    ∃ s, Run (machine sampleConfig) (countsAlone 1) pendingStart s ∧
      (approvers s.db 1).length = 2 ∧ NoLostCompletion s.db 1 := by
  obtain ⟨s, hrun, hcheck⟩ := exists_run (M := machine sampleConfig) (s := pendingStart)
    decidedRun (fun s => (approvers s.db 1).length = 2) countsAlone_of_inTurn (by decide +kernel)
  exact ⟨s, hrun, of_decide_eq_true hcheck,
    no_lost_completion sampleConfig pendingStart_idle pendingStart_ledger pendingStart_deciding hrun⟩

/-- Two owners count at the same time, each of them one approval. -/
def crossedCount : List SystemAction :=
  decideAs 2 'a' :: decideAs 3 'b' :: counting 0 ++ counting 1 ++ recording 0 ++ recording 1

theorem lost_completion : Ledger pendingStart.db ∧ Deciding 1 pendingStart.db ∧
    ∃ s, Run (machine sampleConfig) (Account.permitted (Decides 1) always) pendingStart s ∧
      ¬ NoLostCompletion s.db 1 := by
  refine ⟨pendingStart_ledger, pendingStart_deciding, ?_⟩
  obtain ⟨s, hrun, hcheck⟩ := exists_run (M := machine sampleConfig) (s := pendingStart)
    crossedCount
    (fun s => (Db.request s.db 1).any fun r => (Db.invoice s.db r.invoiceId).any fun v =>
      r.status = .pending ∧ v.version = r.invoiceVersion ∧ v.vendorId = some 1 ∧
        r.vendorBankAccountVersionId = some 1 ∧ r.organizationId = 1 ∧
        Db.bank s.db 1 = some sampleBank ∧ (∀ b ∈ Db.banks s.db, b.2.versionNumber ≤ 1) ∧
        r.requiredDecisions ≤ (approvers s.db 1).length ∧
        ∀ d ∈ Db.decisions s.db, d.2.outcome ≠ .reject)
    (Account.permitted_of_screened startsDecide (fun _ _ => true) decides_of_starts
      fun _ _ _ _ _ _ => trivial)
    (by decide +kernel)
  obtain ⟨r, hr, hcheck⟩ := (Option.any_eq_true _ _).mp hcheck
  obtain ⟨v, hv, hcheck⟩ := (Option.any_eq_true _ _).mp hcheck
  obtain ⟨hpending, hversion, hvendor, hbank, horg, hlatest, hbanks, henough, hnone⟩ :=
    of_decide_eq_true hcheck
  refine ⟨s, hrun, fun hcompleted => ?_⟩
  have hbound : Bound s.db r v := by
    refine ⟨hversion, fun vendorId hv => ?_⟩
    rw [hvendor] at hv
    cases hv
    exact ⟨1, hbank, sampleBank, hlatest, horg.symm, rfl,
      fun id c hc _ _ => hbanks _ (Db.mem_banks.mpr hc)⟩
  have hcontra := hcompleted r v hr hv hbound henough
    fun m d hd => hnone _ (Db.mem_decisions.mpr hd)
  rw [hpending] at hcontra
  cases hcontra.1

end Sample
end BlocTrust
