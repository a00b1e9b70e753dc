import BlocTrust.Screening
import BlocTrust.Duplicates

/-!
One bill is not put up for payment twice without a warning.
Of two submissions the one that counts later sees the invoice of the other, whose number and
vendor stay as long as its request stands; and of two documents with one fingerprint one
points to an earlier one by the time both are approved.
-/
namespace BlocTrust

open ReadCommitted

/-- What the count of a submission found, in the log that it ran on. -/
structure NumberChecked (cfg : Config) (db : Db) (org i version : Nat) (a : RiskAssessment)
    (v : Invoice) : Prop where
  invoice : Db.invoice db i = some v
  organization : v.organizationId = org
  version : v.version + 1 = version
  reports : a.evaluation.Reports .duplicateInvoiceNumber ↔
    ∃ j w, j ≠ i ∧ Db.invoice db j = some w ∧ SameBill cfg v w

/-- What a submission found of its documents, in the log that it read them in. -/
structure DocumentsChecked (db : Db) (org i : Id) (a : RiskAssessment) : Prop where
  invoice : ∃ v, Db.invoice db i = some v
  approved : ∀ id d, Db.document db id = some d → d.organizationId = org → d.invoiceId = i →
    d.storageState = .approved
  reports : a.evaluation.Reports .exactDocumentDuplicate ↔ ∃ id d, Db.document db id = some d ∧
    d.organizationId = org ∧ d.invoiceId = i ∧ d.duplicateOfDocumentId ≠ none

section Commit

variable {cfg : Config} {db : Db} {p : Process} {auth : AuthContext} {i j : Id}
  {dto : ApprovalsService.SubmitInvoiceDto} {key : Option Text}

theorem submits_no_document (h : ProcOk (machine cfg) (conduct cfg) Legal db p)
    (hop : p.op = .submit auth i dto key) : Key.document j ∉ p.writes.keys := by
  intro hk
  obtain ⟨d, hd⟩ := Log.exists_row_of_mem_keys hk
  obtain ⟨newer, older, u, out, rows, base, -, -, htarget, -, hbefore, -⟩ := written_update h hd rfl
  cases u with
  | insertDocument id d' =>
      obtain ⟨-, _, _, _, _, hop', -⟩ := conduct_insertDocument hbefore
      rw [hop] at hop'
      cases hop'
  | updateDocument id c =>
      obtain ⟨⟨job', final', hop', -⟩, -⟩ := conduct_updateDocument hbefore
      rw [hop] at hop'
      cases hop'
  | _ => cases htarget

theorem submits_own_invoice (h : ProcOk (machine cfg) (conduct cfg) Legal db p)
    (hop : p.op = .submit auth i dto key) (hk : Key.invoice j ∈ p.writes.keys) : j = i := by
  obtain ⟨v, hv⟩ := Log.exists_row_of_mem_keys hk
  obtain ⟨newer, older, u, out, rows, base, -, -, htarget, -, hbefore, -⟩ := written_update h hv rfl
  cases u with
  | insertInvoice id v' =>
      obtain ⟨-, -, _, _, _, _, hop', -⟩ := conduct_insertInvoice hbefore
      rw [hop] at hop'
      cases hop'
  | updateInvoice id c =>
      rw [hop] at hbefore
      cases htarget
      exact hbefore.1
  | _ => cases htarget

/-- The insertion of an assessment comes after its screening. -/
theorem screened_before (h : ProcOk (machine cfg) (screeningConduct cfg) Legal db p)
    (hop : p.op = .submit auth i dto key) {new older : List (Event Val Out)} {e : Event Val Out}
    (hcur : p.current = new ++ e :: older) {a : RiskAssessment} {riskId : Id}
    (hd : Did (older.map Event.call) (.insertRisk a) riskId) :
    ∃ v documents processings complete count,
      Screened cfg auth i (older.map Event.call) a v documents processings complete count := by
  obtain ⟨e', he, hcall⟩ := List.mem_map.mp hd
  obtain ⟨between, rest, rfl⟩ := List.append_of_mem he
  have hcur' : p.current = (new ++ e :: between) ++ e' :: rest := by simp [hcur]
  have htrace := h.trace
  rw [hcur'] at htrace
  have hallowed := htrace.executed.allowed
  obtain ⟨s, out, rows, base⟩ := e'
  cases hcall
  rw [hop] at hallowed
  obtain ⟨v, documents, processings, complete, count, hscreened⟩ := hallowed
  refine ⟨v, documents, processings, complete, count, hscreened.extend fun c hc => ?_⟩
  rw [List.map_append, List.map_cons]
  exact List.mem_append_right _ (List.mem_cons_of_mem _ hc)

variable {new older : List (Event Val Out)} {e : Event Val Out} {v : Invoice}

/-- The count of a submission, which comes after the read of its invoice. -/
theorem number_counted (h : ProcOk (machine cfg) (conduct cfg) Legal db p)
    (hscreen : ProcOk (machine cfg) (screeningConduct cfg) Legal db p)
    (hop : p.op = .submit auth i dto key) (hcur : p.current = new ++ e :: older)
    (hfirst : Key.invoice i ∉ (writes older).keys) (hv : Db.invoice e.base i = some v)
    (hversion : v.version = dto.version) {vendorId count : Nat} {number : Text}
    (hcounted : Saw (older.map Event.call)
      (.countSameNumber auth.organizationId vendorId number i) count) :
    ∃ e' ∈ p.current, ∃ u, Db.invoice e'.base i = some u ∧ u.organizationId = auth.organizationId ∧
      u.version = dto.version ∧ SameContent u v ∧
      (0 < count ↔ ∃ j w, j ≠ i ∧ Db.invoice e'.base j = some w ∧ SameBill cfg u w) := by
  obtain ⟨between, rest, base, choice, rfl, hanswer, hsuffix⟩ := saw_before h hcur hcounted
  have hcur' : p.current = (new ++ e :: between) ++ ⟨.read (.countSameNumber auth.organizationId
      vendorId number i), count, [], base⟩ :: rest := by simp [hcur]
  have htrace := hscreen.trace
  rw [hcur'] at htrace
  have hallowed := htrace.executed.allowed
  rw [hop] at hallowed
  obtain ⟨v₀, hseen, hversion₀, hvendor, hnumber⟩ := hallowed
  have hfirst' : Key.invoice i ∉ (writes rest).keys := by
    intro hk
    obtain ⟨x, hx, hkx⟩ := mem_keys_writes.mp hk
    exact hfirst (mem_keys_writes.mpr ⟨x, by simp [hx], hkx⟩)
  obtain ⟨horg, e₀, -, hrow, hearly⟩ := read_before h hcur' hfirst' hseen
  have hchain : Log.Chain Legal e.base := (h.view_chain hcur).of_append
  have hchain' : Log.Chain Legal base := (h.view_chain hcur').of_append
  obtain ⟨u, hu, hlater⟩ := invoice_later hchain' hearly hrow
  obtain ⟨u', hu', hlater'⟩ := invoice_later hchain hsuffix hu
  have hsame : u' = v := Option.some.inj (hu'.symm.trans hv)
  subst hsame
  have hlow := hlater.version
  have hhigh := hlater'.version
  have hcontent := hlater.content (by omega)
  refine ⟨_, mem_of_event hcur', u, hu, hlater.organizationId.trans horg, by omega,
    hlater'.content (by omega), ?_⟩
  -- the transaction sees the other invoices as they were committed
  have hview : ∀ k, k ≠ i → Db.invoice (writes rest ++ base) k = Db.invoice base k := by
    intro k hk
    refine Log.row_append_of_not_mem _ fun hmem => hk (submits_own_invoice h hop ?_)
    rw [Proc.writes, hcur', writes_append, writes_cons, Log.keys_append, Log.keys_append]
    exact List.mem_append_right _ (List.mem_append_right _ hmem)
  have hcount := Option.some.inj hanswer
  rw [← hcount, List.length_pos_iff_exists_mem]
  constructor
  · intro hpos
    obtain ⟨⟨k, w⟩, hmem⟩ := hpos
    obtain ⟨hmem, hcond⟩ := List.mem_filter.mp hmem
    obtain ⟨hworg, hwvendor, hk, hwnumber⟩ := of_decide_eq_true hcond
    refine ⟨k, w, hk, (hview k hk).symm.trans (Db.mem_invoices.mp hmem), ⟨?_, ?_, ?_⟩⟩
    · rw [hlater.organizationId, horg]
      exact hworg.symm
    · rw [hcontent.vendorId, hvendor]
      exact ⟨Option.some_ne_none _, hwvendor.symm⟩
    · rw [hcontent.invoiceNumber, hnumber]
      exact ⟨Option.some_ne_none _, hwnumber.symm⟩
  · intro hother
    obtain ⟨k, w, hk, hw, hbill⟩ := hother
    refine ⟨(k, w), List.mem_filter.mpr ⟨Db.mem_invoices.mpr ((hview k hk).trans hw),
      decide_eq_true ⟨?_, ?_, hk, ?_⟩⟩⟩
    · exact hbill.organization.symm.trans (hlater.organizationId.trans horg)
    · exact hbill.vendor.2.symm.trans (hcontent.vendorId.trans hvendor)
    · have hnumbers := hbill.number.2
      rw [hcontent.invoiceNumber, hnumber] at hnumbers
      exact hnumbers.symm

/-- The documents of a submission, which it reads after its invoice. -/
theorem documents_listed (h : ProcOk (machine cfg) (conduct cfg) Legal db p)
    (hscreen : ProcOk (machine cfg) (screeningConduct cfg) Legal db p)
    (hop : p.op = .submit auth i dto key) (hcur : p.current = new ++ e :: older)
    (hfirst : Key.invoice i ∉ (writes older).keys) {documents : List (Id × Document)}
    (hlisted : Saw (older.map Event.call) (.findDocuments auth.organizationId i) documents) :
    ∃ e' ∈ p.current, (∃ u, Db.invoice e'.base i = some u) ∧
      ∀ id d, (id, d) ∈ documents ↔ Db.document e'.base id = some d ∧
        d.organizationId = auth.organizationId ∧ d.invoiceId = i := by
  obtain ⟨between, rest, base, choice, rfl, hanswer, -⟩ := saw_before h hcur hlisted
  have hcur' : p.current = (new ++ e :: between) ++
      ⟨.read (.findDocuments auth.organizationId i), documents, [], base⟩ :: rest := by simp [hcur]
  have htrace := hscreen.trace
  rw [hcur'] at htrace
  have hallowed := htrace.executed.allowed
  rw [hop] at hallowed
  obtain ⟨v₀, hseen⟩ := hallowed
  have hfirst' : Key.invoice i ∉ (writes rest).keys := by
    intro hk
    obtain ⟨x, hx, hkx⟩ := mem_keys_writes.mp hk
    exact hfirst (mem_keys_writes.mpr ⟨x, by simp [hx], hkx⟩)
  obtain ⟨-, e₀, -, hrow, hearly⟩ := read_before h hcur' hfirst' hseen
  have hchain' : Log.Chain Legal base := (h.view_chain hcur').of_append
  obtain ⟨u, hu, -⟩ := invoice_later hchain' hearly hrow
  refine ⟨_, mem_of_event hcur', ⟨u, hu⟩, fun id d => ?_⟩
  have hview : Db.document (writes rest ++ base) id = Db.document base id := by
    refine Log.row_append_of_not_mem _ fun hmem => submits_no_document h hop (j := id) ?_
    rw [Proc.writes, hcur', writes_append, writes_cons, Log.keys_append, Log.keys_append]
    exact List.mem_append_right _ (List.mem_append_right _ hmem)
  have hdocuments := Option.some.inj hanswer
  rw [← hdocuments, List.mem_filter, Db.mem_documents, hview, decide_eq_true_iff]

/-- The documents that a complete review has read are approved. -/
theorem reviewed_approved (h : ProcOk (machine cfg) (conduct cfg) Legal db p)
    (hcur : p.current = new ++ e :: older) {documents : List (Id × Document)}
    {processings : List (Option DocumentProcessing)} {complete : Id × Text × Cents}
    (hscanned : Saw (older.map Event.call) (.findProcessings (documents.map Prod.fst)) processings)
    (hreviewed : ApprovalsService.reviewed v documents processings = some complete)
    {x : Id × Document} (hx : x ∈ documents) : x.2.storageState = .approved := by
  obtain ⟨between, rest, base, choice, rfl, hanswer, -⟩ := saw_before h hcur hscanned
  have hprocessings := Option.some.inj hanswer
  have hlength : documents.length ≤ processings.length := by
    rw [← hprocessings, List.length_map, List.length_map]
  rw [← List.map_fst_zip hlength] at hx
  obtain ⟨y, hy, rfl⟩ := List.mem_map.mp hx
  exact (reviewed_number hreviewed).2 y hy

theorem Screened.reports {calls : Calls Out} {a : RiskAssessment}
    {documents : List (Id × Document)} {processings : List (Option DocumentProcessing)}
    {complete : Id × Text × Cents} {count : Nat}
    (h : Screened cfg auth i calls a v documents processings complete count) :
    (a.evaluation.Reports .duplicateInvoiceNumber ↔ 0 < count) ∧
    (a.evaluation.Reports .exactDocumentDuplicate ↔
      ∃ x ∈ documents, x.2.duplicateOfDocumentId ≠ none) := by
  obtain ⟨bank, contract, amounts, policy, rfl⟩ := h.evaluation
  simp only [ApprovalsService.newAssessment, reports_iff, ApprovalsService.riskFacts]
  constructor
  · simp
  · simp [Option.isSome_iff_ne_none]

/-- A submission has checked the number of its invoice and its documents. -/
theorem screened_commit (h : ProcOk (machine cfg) (conduct cfg) Legal db p)
    (hscreen : ProcOk (machine cfg) (screeningConduct cfg) Legal db p) {next}
    (hq : p.prog = .commit next) {id : Id} {r : ApprovalRequest}
    (hins : InsertsRequest db p id r) : ∃ a u w, ∃ e ∈ p.current, ∃ e' ∈ p.current,
      Db.risk (p.writes ++ db) r.riskAssessmentId = some a ∧
      NumberChecked cfg e.base r.organizationId r.invoiceId r.invoiceVersion a u ∧
      DocumentsChecked e'.base r.organizationId r.invoiceId a ∧
      Db.invoice (p.writes ++ db) r.invoiceId = some w ∧ w.version = r.invoiceVersion ∧
      SameContent u w := by
  obtain ⟨old, bankId, hch, hversion, -, hnew⟩ := hins.submitted h hq
  obtain ⟨newer, earlier, rows, base, hcur, hbase, -, hbefore⟩ := hch.event
  have hfirst := invoice_first h hcur hbefore
  obtain ⟨auth, i, dto, key, hop, -⟩ := hins.op
  rw [hop] at hbefore
  obtain ⟨hi, -, r', reqId, bank', hdid, -, -⟩ := hbefore
  obtain ⟨cur, hsub, hready⟩ := did_before h hcur hdid
  have hsame := same_update h hins.did (calls_subset_of_event hcur hdid)
    (fun past cur hb => by rw [hop] at hb; exact hb.once r' reqId)
    (fun past cur hb => by rw [hop] at hb; exact hb.once r id)
  cases hsame
  rw [hop] at hready
  obtain ⟨w, vendorId, bank, a, riskId, version, keyHash, hw, -, -, hrisk, -, hr⟩ := hready.basis
  obtain ⟨v, documents, processings, complete, count, hscreened⟩ :=
    screened_before hscreen hop hcur (hsub hrisk)
  obtain ⟨hnumber, hdocument⟩ := hscreened.reports
  have horg : r.organizationId = auth.organizationId := by rw [hr]; rfl
  have hwversion : r.invoiceVersion = dto.version + 1 := by rw [hr, ← hw.version]; rfl
  have hriskId : r.riskAssessmentId = riskId := by rw [hr]; rfl
  rw [hi] at hfirst hbase hnew ⊢
  obtain ⟨e, he, u, hu, huorg, huversion, hcontent, hcount⟩ := number_counted h hscreen hop hcur
    hfirst hbase (by omega) hscreened.counted
  obtain ⟨e', he', hexists, hlisted⟩ := documents_listed h hscreen hop hcur hfirst hscreened.listed
  refine ⟨a, u, _, e, he, e', he', ?_, ⟨hu, huorg.trans horg.symm, by omega, hnumber.trans hcount⟩,
    ⟨hexists, fun k d hd hdorg hdi => ?_, hdocument.trans ⟨fun hx => ?_, fun hx => ?_⟩⟩, hnew,
    hversion.symm, hcontent.trans ⟨rfl, rfl, rfl, rfl, rfl, rfl, rfl, rfl, rfl, rfl⟩⟩
  · rw [hriskId]
    exact did_insertRisk h (calls_subset_of_event hcur (hsub hrisk))
  · exact reviewed_approved h hcur hscreened.scanned hscreened.reviewed
      ((hlisted k d).mpr ⟨hd, hdorg.trans horg, hdi⟩)
  · obtain ⟨⟨k, d⟩, hmem, hpointer⟩ := hx
    obtain ⟨hd, hdorg, hdi⟩ := (hlisted k d).mp hmem
    exact ⟨k, d, hd, hdorg.trans horg.symm, hdi, hpointer⟩
  · obtain ⟨k, d, hd, hdorg, hdi, hpointer⟩ := hx
    exact ⟨(k, d), (hlisted k d).mpr ⟨hd, hdorg.trans horg, hdi⟩, hpointer⟩

end Commit

section Runs

variable {cfg : Config} {ok : System → SystemAction → Prop} {s₀ s s' t : System} {i j org : Id}
  {sha : Digest}

/-- A document is made together with its invoice. -/
theorem documents_with_invoice (h₀ : Idle Legal s₀) (h : Run (machine cfg) ok s₀ t)
    (h' : Run (machine cfg) ok t s) {v : Invoice} (hv : Db.invoice t.db i = some v) {d : Document}
    (hd : Db.document s.db j = some d) (hi : d.invoiceId = i) :
    ∃ d', Db.document t.db j = some d' := by
  induction h' generalizing d with
  | refl => exact ⟨d, hd⟩
  | step hr ha hs ih =>
      have hcons := Run.consistent (discipline cfg) h₀.consistent (h.trans hr)
      cases hs.effect with
      | quiet hdb hprocs => exact ih (hdb ▸ hd) hi
      | answered k c p q next out rows hp hq hrun => exact ih hd hi
      | committed k c p next hp hq =>
          have hproc := hcons.proc k p hp
          rcases commit_document hproc hd with ⟨-, hold⟩ | hins | ⟨change, old, hch⟩
          · exact ih hold hi
          · obtain ⟨_, _, _, _, -, -, w, hdid⟩ := hins.op
            obtain ⟨new, older, rows, base, hcur, hwrote, -⟩ := did_event hproc hdid
            cases hwrote with
            | insertInvoice hinserted =>
                obtain ⟨u, hu, -⟩ := invoice_later hcons.chain (Run.suffix hr) hv
                have hfresh := inserted_fresh hproc hcur hinserted
                rw [hi] at hfresh
                exact absurd (Log.mem_keys_of_row hu) hfresh
          · refine ih hch.committed ?_
            rw [hch.result] at hi
            cases change <;> exact hi
      | outside rows hext =>
          have hrow : Db.document (rows ++ _) j = Db.document _ j := external_row hext rfl
          exact ih (hrow.symm.trans hd) hi

/-- The pointer of a document that has its fingerprint stays. -/
theorem pointer_kept (h₀ : Idle Legal s₀) (huploaded : Uploaded s₀.db)
    (h : Run (machine cfg) ok s₀ t) (h' : Run (machine cfg) ok t s)
    (hmark : Fingerprinted t.db org sha j) : duplicateOf s.db j = duplicateOf t.db j := by
  induction h' with
  | refl => rfl
  | step hr ha hs ih =>
      have hchain := (Run.consistent (discipline cfg) h₀.consistent (h.trans hr)).chain
      have hold := hmark.later hchain (Run.suffix hr)
      rw [← ih]
      cases Marked.step h₀ huploaded (h.trans hr) hs with
      | kept hsame hpointers => exact hpointers org sha j hold
      | joined org' sha' k hnew hunmarked hnone hsome hpointers => exact hpointers org sha j hold

/-- The assessment `a` of the request was made on what its submission found in the states `t`
and `u` of the run, and its invoice has kept its content at the version of the request. -/
structure Vetted (cfg : Config) (ok : System → SystemAction → Prop) (s₀ s : System)
    (r : ApprovalRequest) (a : RiskAssessment) (v : Invoice) (t u : System) : Prop where
  risk : Db.risk s.db r.riskAssessmentId = some a
  counted : Run (machine cfg) ok s₀ t ∧ Run (machine cfg) ok t s
  number : NumberChecked cfg t.db r.organizationId r.invoiceId r.invoiceVersion a v
  listed : Run (machine cfg) ok s₀ u ∧ Run (machine cfg) ok u s
  documents : DocumentsChecked u.db r.organizationId r.invoiceId a
  kept : ∃ w, Db.invoice s.db r.invoiceId = some w ∧ r.invoiceVersion ≤ w.version ∧
    (w.version = r.invoiceVersion → SameContent v w)

theorem Vetted.step {r q : ApprovalRequest} {a : RiskAssessment} {v : Invoice} {t u : System}
    (h : Vetted cfg ok s₀ s q a v t u) (hlater : RequestLater q r) {x : SystemAction}
    (hx : ok s x) (hs : Step (machine cfg) s x s') (hc : Log.Chain Legal s'.db)
    (hsuffix : s.db <:+ s'.db) : Vetted cfg ok s₀ s' r a v t u where
  risk := by
    rw [hlater.riskAssessmentId]
    exact risk_later hc hsuffix h.risk
  counted := ⟨h.counted.1, .step h.counted.2 hx hs⟩
  number := by
    rw [hlater.organizationId, hlater.invoiceId, hlater.invoiceVersion]
    exact h.number
  listed := ⟨h.listed.1, .step h.listed.2 hx hs⟩
  documents := by
    rw [hlater.organizationId, hlater.invoiceId]
    exact h.documents
  kept := by
    rw [hlater.invoiceId, hlater.invoiceVersion]
    obtain ⟨w, hw, hle, hcontent⟩ := h.kept
    obtain ⟨w', hw', hmore⟩ := invoice_later hc hsuffix hw
    have hversion := hmore.version
    refine ⟨w', hw', by omega, fun hsame => ?_⟩
    exact (hcontent (by omega)).trans (hmore.content (by omega))

theorem requests_vetted (h₀ : Idle Legal s₀) (hfresh : ∀ id, Db.request s₀.db id = none)
    (h : Run (machine cfg) ok s₀ s) : ∀ id r, Db.request s.db id = some r →
      ∃ a v t u, Vetted cfg ok s₀ s r a v t u := by
  refine h.invariant (I := fun s => ∀ id r, Db.request s.db id = some r →
    ∃ a v t u, Vetted cfg ok s₀ s r a v t u) (fun id r hr => ?_)
      fun s x s' hrun ih hx hs id r hr => ?_
  · rw [hfresh id] at hr
    cases hr
  · have hcons := Run.consistent (discipline cfg) h₀.consistent hrun
    have hchain := (Run.consistent (discipline cfg) h₀.consistent (.step hrun hx hs)).chain
    have hsuffix : s.db <:+ s'.db := Run.suffix (.step .refl hx hs : Run (machine cfg) ok s s')
    have hkept : ∀ q, Db.request s.db id = some q → RequestLater q r →
        ∃ a v t u, Vetted cfg ok s₀ s' r a v t u := by
      intro q hq hlater
      obtain ⟨a, v, t, u, hvetted⟩ := ih id q hq
      exact ⟨a, v, t, u, hvetted.step hlater hx hs hchain hsuffix⟩
    have hsame : RequestLater r r := ⟨rfl, fun _ => rfl⟩
    cases hs.effect with
    | quiet hdb hprocs => exact hkept r (hdb ▸ hr) hsame
    | answered k c p q next out rows hp hq hrun' => exact hkept r hr hsame
    | outside rows hext =>
        have hrow : Db.request (rows ++ s.db) id = Db.request s.db id := external_row hext rfl
        exact hkept r (hrow.symm.trans hr) hsame
    | committed k c p next hp hq =>
        have hproc := hcons.proc k p hp
        rcases commit_request_later hproc hr with hins | ⟨q, hold, hlater⟩
        · have hscreen := (Run.consistent (screening cfg) h₀.consistent hrun).proc k p hp
          obtain ⟨a, v, w, e, he, e', he', hrisk, hnumber, hdocuments, hw, hversion, hcontent⟩ :=
            screened_commit hproc hscreen hq hins
          obtain ⟨t, ht, hdb, hts⟩ := hrun.exists_base h₀.procs hp he
          obtain ⟨u, hu, hdb', hus⟩ := hrun.exists_base h₀.procs hp he'
          exact ⟨a, v, t, u, hrisk, ⟨ht, .step hts hx hs⟩, hdb ▸ hnumber, ⟨hu, .step hus hx hs⟩,
            hdb' ▸ hdocuments, w, hw, by omega, fun _ => hcontent⟩
        · exact hkept q hold hlater

/-- The request is for the present version of its invoice. -/
structure Standing (db : Db) (id : Id) (r : ApprovalRequest) (w : Invoice) (a : RiskAssessment) :
    Prop where
  request : Db.request db id = some r
  invoice : Db.invoice db r.invoiceId = some w
  version : w.version = r.invoiceVersion
  risk : Db.risk db r.riskAssessmentId = some a

/-- A document of the invoice has the fingerprint. -/
def Shows (db : Db) (i : Id) (sha : Digest) : Prop :=
  ∃ id d, Db.document db id = some d ∧ d.invoiceId = i ∧ d.sha256 = some sha

variable {id id' : Id} {r r' : ApprovalRequest} {w w' v v' : Invoice} {a a' : RiskAssessment}
  {u t' u' : System}

theorem same_bill {v w : Invoice} (horg : w.organizationId = v.organizationId)
    (h : SameContent v w) : bill w = bill v := by
  rw [bill, bill, horg, h.vendorId, h.invoiceNumber]

/-- Between its submission and the present an invoice with a standing request is one bill. -/
theorem Vetted.bill (hchain : Log.Chain Legal s.db) (hc : Vetted cfg ok s₀ s r a v t u)
    (hw : Standing s.db id r w a) {db : Db} (hold : t.db <:+ db) (hnew : db <:+ s.db) :
    ∃ x, Db.invoice db r.invoiceId = some x ∧ bill x = bill w := by
  obtain ⟨x, hx, hlater⟩ := invoice_later (hchain.of_suffix hnew) hold hc.number.invoice
  obtain ⟨y, hy, hlater'⟩ := invoice_later hchain hnew hx
  have hyw : y = w := Option.some.inj (hy.symm.trans hw.invoice)
  subst hyw
  obtain ⟨z, hz, -, hcontent⟩ := hc.kept
  have hzy : z = y := Option.some.inj (hz.symm.trans hw.invoice)
  subst hzy
  refine ⟨x, hx, ?_⟩
  have hlow := hlater.version
  have hhigh := hlater'.version
  have hversion := hc.number.version
  have hpresent := hw.version
  by_cases hsame : x.version = z.version
  · exact (same_bill hlater'.organizationId (hlater'.content hsame.symm)).symm
  · have hbefore := hlater.content (by omega)
    have horg := hlater'.organizationId.trans hlater.organizationId
    rw [same_bill hlater.organizationId hbefore, same_bill horg (hcontent hpresent)]

/-- The submission that counts later sees the bill of the other one. -/
theorem later_count_reports (hchain : Log.Chain Legal s.db)
    (hc : Vetted cfg ok s₀ s r a v t u) (hc' : Vetted cfg ok s₀ s r' a' v' t' u')
    (hw : Standing s.db id r w a) (hw' : Standing s.db id' r' w' a')
    (hne : r.invoiceId ≠ r'.invoiceId) (hbill : SameBill cfg w w') (hsuffix : t.db <:+ t'.db) :
    a'.evaluation.Reports .duplicateInvoiceNumber := by
  have hpast := Run.suffix hc'.counted.2
  obtain ⟨x, hx, hxw⟩ := hc.bill hchain hw hsuffix hpast
  obtain ⟨y, hy, hyw⟩ := hc'.bill hchain hw' (List.suffix_refl _) hpast
  have hyv : y = v' := Option.some.inj (hy.symm.trans hc'.number.invoice)
  rw [hyv] at hyw
  exact hc'.number.reports.mpr ⟨r.invoiceId, x, hne, hx, hbill.symm.congr hyw hxw⟩

/-- A document that has become a duplicate of an earlier one was read so by the submission of
its invoice. -/
theorem duplicate_reported (h₀ : Idle Legal s₀) (huploaded : Uploaded s₀.db)
    (h : Run (machine cfg) ok s₀ s) (hc : Vetted cfg ok s₀ s r a v t u) {d : Document}
    (hd : Db.document s.db j = some d) (horg : d.organizationId = r.organizationId)
    (hi : d.invoiceId = r.invoiceId) (hpointer : duplicateOf s.db j ≠ none) :
    a.evaluation.Reports .exactDocumentDuplicate := by
  have hchain := (Run.consistent (discipline cfg) h₀.consistent h).chain
  obtain ⟨x, hx⟩ := hc.documents.invoice
  obtain ⟨d', hd'⟩ := documents_with_invoice h₀ hc.listed.1 hc.listed.2 hx hd hi
  obtain ⟨y, hy, hlater⟩ := document_later hchain (Run.suffix hc.listed.2) hd'
  have hyd : y = d := Option.some.inj (hy.symm.trans hd)
  subst hyd
  have horg' : d'.organizationId = r.organizationId := hlater.organizationId.symm.trans horg
  have hi' : d'.invoiceId = r.invoiceId := hlater.invoiceId.symm.trans hi
  have happroved := hc.documents.approved j d' hd' horg' hi'
  obtain ⟨q, z, -, -, htracked⟩ :=
    (ingestion_sound.run ingestion_respects (discipline cfg) h₀ huploaded.ingestion
      hc.listed.1).1.tracked j d' hd'
  have hpaired := htracked.paired
  unfold Paired at hpaired
  rw [happroved] at hpaired
  -- an approved document has its fingerprint, so that its pointer is final
  obtain ⟨sha, hsha⟩ := Option.ne_none_iff_exists'.mp hpaired.2.1
  have hkept := pointer_kept h₀ huploaded hc.listed.1 hc.listed.2 ⟨d', hd', rfl, hsha⟩
  rw [hkept, duplicateOf, hd'] at hpointer
  exact hc.documents.reports.mpr ⟨j, d', hd', horg', hi', hpointer⟩

/-- Of two documents with one fingerprint one points to an earlier one. -/
theorem one_points (h₀ : Idle Legal s₀) (huploaded : Uploaded s₀.db)
    (h : Run (machine cfg) ok s₀ s) (hi : Fingerprinted s.db org sha i)
    (hj : Fingerprinted s.db org sha j) (hne : i ≠ j) :
    duplicateOf s.db i ≠ none ∨ duplicateOf s.db j ≠ none := by
  have hrooted : RootedMarks s.db org sha := by
    refine h.invariant (I := fun s => RootedMarks s.db org sha) (fun hheld => ?_)
      fun t a t' hrun ht _ hs => ht.step (.step h₀ huploaded hrun hs)
    obtain ⟨k, d, hd, -, hsha⟩ := hheld
    rw [(huploaded.quarantined k d hd).2.2.1] at hsha
    cases hsha
  obtain ⟨root, hroot⟩ := hrooted ⟨i, hi⟩
  by_contra hboth
  obtain ⟨hnone, hnone'⟩ := not_or.mp hboth
  have hi := hroot.unique i hi (not_not.mp hnone)
  have hj := hroot.unique j hj (not_not.mp hnone')
  exact hne (hi.trans hj.symm)

end Runs

/-- Every request has the assessment of its submission, which reports exactly what the
submission found.  Where two invoices of one vendor stand under requests at the same time and
their numbers differ in letter case at most, or a document of the one has the fingerprint of a
document of the other, one of the two assessments reports it.  The comparison of numbers is
assumed to be equality up to letter case; a number with `_`, `%` or a backslash would be a pattern
for the database. -/
theorem doubles_reported (cfg : Config) {ok : System → SystemAction → Prop} {s₀ s : System}
    (h₀ : Idle Legal s₀) (huploaded : Uploaded s₀.db)
    (hfresh : ∀ id, Db.request s₀.db id = none) (h : Run (machine cfg) ok s₀ s) :
    (∀ id r, Db.request s.db id = some r → ∃ a v t u, Vetted cfg ok s₀ s r a v t u) ∧
    ∀ id id' r r' w w' a a', Standing s.db id r w a → Standing s.db id' r' w' a' →
      r.invoiceId ≠ r'.invoiceId →
      (SameBill cfg w w' → a.evaluation.Reports .duplicateInvoiceNumber ∨
        a'.evaluation.Reports .duplicateInvoiceNumber) ∧
      ∀ sha, w.organizationId = w'.organizationId → Shows s.db r.invoiceId sha →
        Shows s.db r'.invoiceId sha → a.evaluation.Reports .exactDocumentDuplicate ∨
          a'.evaluation.Reports .exactDocumentDuplicate := by
  have hvetted := requests_vetted h₀ hfresh h
  have hchain := (Run.consistent (discipline cfg) h₀.consistent h).chain
  refine ⟨hvetted, fun id id' r r' w w' a a' hw hw' hne => ?_⟩
  obtain ⟨b, v, t, u, hc⟩ := hvetted id r hw.request
  obtain ⟨b', v', t', u', hc'⟩ := hvetted id' r' hw'.request
  have hba : b = a := Option.some.inj (hc.risk.symm.trans hw.risk)
  have hba' : b' = a' := Option.some.inj (hc'.risk.symm.trans hw'.risk)
  subst hba hba'
  refine ⟨fun hbill => ?_, fun sha horg hshows hshows' => ?_⟩
  · rcases List.suffix_or_suffix_of_suffix (Run.suffix hc.counted.2) (Run.suffix hc'.counted.2) with
      hearly | hearly
    · exact .inr (later_count_reports hchain hc hc' hw hw' hne hbill hearly)
    · exact .inl (later_count_reports hchain hc' hc hw' hw (Ne.symm hne) hbill.symm hearly)
  · obtain ⟨k, d, hd, hi, hsha⟩ := hshows
    obtain ⟨k', d', hd', hi', hsha'⟩ := hshows'
    obtain ⟨hing, -⟩ :=
      ingestion_sound.run ingestion_respects (discipline cfg) h₀ huploaded.ingestion h
    -- a document is of the organization of its invoice
    have hown : ∀ {k : Id} {d : Document} {r : ApprovalRequest} {w v : Invoice} {t u : System}
        {a : RiskAssessment}, Db.document s.db k = some d → d.invoiceId = r.invoiceId →
        Db.invoice s.db r.invoiceId = some w → Vetted cfg ok s₀ s r a v t u →
        d.organizationId = w.organizationId ∧ d.organizationId = r.organizationId := by
      intro k d r w v t u a hd hi hw hc
      obtain ⟨q, x, -, hx, htracked⟩ := hing.tracked k d hd
      rw [hi] at hx
      have hxw : x = w := Option.some.inj (hx.symm.trans hw)
      subst hxw
      obtain ⟨y, hy, hlater⟩ := invoice_later hchain (Run.suffix hc.counted.2) hc.number.invoice
      have hyx : y = x := Option.some.inj (hy.symm.trans hw)
      subst hyx
      have horg := htracked.invoice.symm
      exact ⟨horg, horg.trans (hlater.organizationId.trans hc.number.organization)⟩
    obtain ⟨hdw, hdr⟩ := hown hd hi hw.invoice hc
    obtain ⟨hdw', hdr'⟩ := hown hd' hi' hw'.invoice hc'
    have hsame : d'.organizationId = d.organizationId := by rw [hdw, hdw', horg]
    have hdistinct : k ≠ k' := by
      intro heq
      rw [heq] at hd
      have hdd : d = d' := Option.some.inj (hd.symm.trans hd')
      exact hne (hi.symm.trans ((congrArg Document.invoiceId hdd).trans hi'))
    rcases one_points h₀ huploaded h ⟨d, hd, rfl, hsha⟩ ⟨d', hd', hsame, hsha'⟩ hdistinct with
      hpoints | hpoints
    · exact .inl (duplicate_reported h₀ huploaded h hc hd hdr hi hpoints)
    · exact .inr (duplicate_reported h₀ huploaded h hc' hd' hdr' hi' hpoints)

section Sample

/-- Both documents are processed, and both invoices submitted. -/
def twinRun : List SystemAction :=
  twinProcessed ++ .start (.submit (sampleAuth 1) 1 ⟨1⟩ (sampleKey 'a')) :: submission 2 ++
    .start (.submit (sampleAuth 1) 2 ⟨1⟩ (sampleKey 'b')) :: submission 3

/-- The invoice `i` stands under the request `i + 1` with the number and bytes of its twin. -/
def standsTwin (db : Db) (i : Id) : Bool :=
  (Db.request db (i + 1)).any fun r => (Db.invoice db i).any fun w =>
    (Db.risk db (i + 1)).isSome && (Db.document db i).any fun d =>
      r.invoiceId = i ∧ w.version = r.invoiceVersion ∧ r.riskAssessmentId = i + 1 ∧
        w.organizationId = 1 ∧ w.vendorId = some 1 ∧ w.invoiceNumber = some ['A'] ∧
        d.invoiceId = i ∧ d.sha256 = some 8

theorem standsTwin_spec {db : Db} {i : Id} (h : standsTwin db i = true) : ∃ r w a,
    Standing db (i + 1) r w a ∧ r.invoiceId = i ∧ Shows db r.invoiceId 8 ∧
      bill w = (1, some 1, some ['A']) := by
  obtain ⟨r, hr, h⟩ := (Option.any_eq_true _ _).mp h
  obtain ⟨w, hw, h⟩ := (Option.any_eq_true _ _).mp h
  obtain ⟨hrisk, h⟩ := Bool.and_eq_true_iff.mp h
  obtain ⟨d, hd, h⟩ := (Option.any_eq_true _ _).mp h
  obtain ⟨hi, hversion, hriskId, horg, hvendor, hnumber, hdi, hsha⟩ := of_decide_eq_true h
  obtain ⟨a, ha⟩ := Option.isSome_iff_exists.mp hrisk
  refine ⟨r, w, a, ⟨hr, by rw [hi]; exact hw, hversion, by rw [hriskId]; exact ha⟩, hi,
    ⟨i, d, hd, hdi.trans hi.symm, hsha⟩, ?_⟩
  rw [bill, horg, hvendor, hnumber]

/-- Of the two submissions of one bill one reports the number, and one the bytes. -/
theorem doubles_reported_sample : ∃ (s : System) (r r' : ApprovalRequest) (w w' : Invoice)
    (a a' : RiskAssessment), Standing s.db 2 r w a ∧
    Standing s.db 3 r' w' a' ∧ r.invoiceId ≠ r'.invoiceId ∧
    (a.evaluation.Reports .duplicateInvoiceNumber ∨
      a'.evaluation.Reports .duplicateInvoiceNumber) ∧
    (a.evaluation.Reports .exactDocumentDuplicate ∨
      a'.evaluation.Reports .exactDocumentDuplicate) := by
  obtain ⟨s, hrun, hcheck⟩ := exists_run (M := machine sampleConfig) (s := twinStart) twinRun
    (fun s => standsTwin s.db 1 && standsTwin s.db 2) permitted_always (by decide +kernel)
  obtain ⟨hfirst, hsecond⟩ := Bool.and_eq_true_iff.mp hcheck
  obtain ⟨r, w, a, hw, hi, hshows, hbill⟩ := standsTwin_spec hfirst
  obtain ⟨r', w', a', hw', hi', hshows', hbill'⟩ := standsTwin_spec hsecond
  have hne : r.invoiceId ≠ r'.invoiceId := by
    rw [hi, hi']
    decide
  have hfresh : ∀ id, Db.request twinStart.db id = none := fun id =>
    Log.row_eq_none.mpr (by simp [twinStart, twinDb, uploadedDb, sampleDb, List.keys])
  obtain ⟨-, hpairs⟩ := doubles_reported sampleConfig twinStart_idle twinStart_uploaded hfresh hrun
  obtain ⟨hnumber, hbytes⟩ := hpairs 2 3 r r' w w' a a' hw hw' hne
  have hsame : SameBill sampleConfig sampleInvoice sampleInvoice :=
    ⟨rfl, ⟨Option.some_ne_none _, rfl⟩, ⟨Option.some_ne_none _, rfl⟩⟩
  refine ⟨s, r, r', w, w', a, a', hw, hw', hne, hnumber (hsame.congr hbill hbill'),
    hbytes 8 ?_ hshows hshows'⟩
  exact (congrArg Prod.fst hbill).trans (congrArg Prod.fst hbill').symm

end Sample
end BlocTrust
