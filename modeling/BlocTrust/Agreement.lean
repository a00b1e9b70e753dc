import BlocTrust.ManualReview
import BlocTrust.WorkerPrograms

/-!
Agreement of the processing row with the invoice when the worker is at rest.
An attempt that gives up sets the processing row and the invoice in two transactions.  In
the runs in which no attempt fails or is killed between the two, every ended processing
row has an invoice that has left processing.
-/
namespace BlocTrust

open ReadCommitted Prog

/-- The first statement of `manualReview`. -/
def ParksProcessing : Sigma Out → Prop
  | ⟨.write (.updateProcessing _ (.manualReview _ _)), _⟩ => True
  | _ => False

/-- The second statement of `manualReview`. -/
def ParksInvoice : Sigma Out → Prop
  | ⟨.write (.updateInvoice _ (.manualReview _)), _⟩ => True
  | _ => False

/-- What the attempts owe; the other calls owe nothing. -/
def attemptOwes (A : Sigma Out → Prop) : Op → Sigma Out → Prop
  | .process _ _ => A
  | _ => fun _ => False

def unparking : Stmt → Prop
  | .write (.updateProcessing _ (.manualReview _ _)) => False
  | _ => True

section Programs

variable {job : InvoiceIngestJob} {cfg : Config} {d : Document}

theorem unparking_call (s : Stmt) (out : Out s) (h : unparking s) : ¬ ParksProcessing ⟨s, out⟩ := by
  intro hparks
  unfold ParksProcessing at hparks
  split at hparks
  · rename_i heq
    cases heq
    exact h
  · exact hparks

/-- Nothing before `manualReview` parks the processing row. -/
theorem ingest_issues : (InvoicePipeline.ingest job cfg d).Issues unparking := by
  have haudit : ∀ a, unparking (.write (.insertAudit a)) := fun _ => trivial
  have hread : ∀ q, unparking (.read q) := fun _ => trivial
  have hcall : ∀ c, unparking (.call c) := fun _ => trivial
  have hreview : ∀ ocr, (InvoicePipeline.finishReview job ocr).Issues unparking :=
    fun ocr => finishReview_issues trivial trivial haudit
  rw [InvoicePipeline.ingest]
  split
  · refine Issues.bind ?_ fun file => finish_issues hreview fun _ => trivial
    exact scanAndPromote_issues (block_issues trivial trivial trivial haudit)
      (fun key sha => promote_issues hread trivial (fun _ => trivial) trivial) trivial hcall
  · refine (downloadApproved_issues trivial fun _ => trivial).bind fun file => ?_
    exact finish_issues hreview fun _ => trivial

variable {past cur : Calls Out}

/-- Once it has parked the processing row, `manualReview` goes on to park the invoice. -/
theorem manualReview_settles {code : Text} :
    (InvoicePipeline.manualReview job code).settles ParksProcessing ParksInvoice
      (fun _ past _ => ¬ Owes ParksProcessing ParksInvoice past)
      (fun _ past _ => ¬ Owes ParksProcessing ParksInvoice past) past cur := by
  rw [InvoicePipeline.manualReview, settles_bind, InvoicePipeline.updateProcessing, settles_bind]
  refine settles_auto _ (fun n => ?_) fun hfree _ => hfree
  rw [settles_pure, settles_bind]
  refine settles_auto _ (fun k => ?_) fun hfree _ => hfree
  exact not_owes_of_mem List.mem_cons_self trivial

theorem process_settles (final : Bool) :
    (program cfg (.process job final)).settles ParksProcessing ParksInvoice
      (fun _ past _ => ¬ Owes ParksProcessing ParksInvoice past)
      (fun _ past _ => ¬ Owes ParksProcessing ParksInvoice past) [] [] := by
  rw [program, settles_bind, InvoicePipeline.process, settles_bind, InvoicePipeline.load]
  have hload : (auto (Stmt.read (.load job)) : Program _).Issues unparking := issues_auto trivial
  have hstart : Free ParksProcessing ParksInvoice [] [] := free_nil (not_owes_nil _ _)
  refine settles_mono (fun found past cur hfree => ?_) (fun _ _ _ hfree => hfree.1)
    (hload.settles unparking_call hstart)
  cases found with
  | none => exact hfree.1
  | some found =>
      obtain ⟨d, p⟩ := found
      simp only
      split
      · exact hfree.1
      · rw [settles_tryCatch]
        refine settles_mono (fun _ _ _ hfree => hfree.1) (fun e past cur hfree => ?_)
          (ingest_issues.settles unparking_call hfree)
        split
        · rw [settles_bind]
          exact manualReview_settles
        · rw [settles_bind]
          exact settles_mono (fun _ _ _ hfree => hfree.1) (fun _ _ _ hfree => hfree.1)
            ((resetForRetry_issues (fun _ => trivial) fun _ => trivial).settles unparking_call hfree)

/-- Calls that owe nothing settle. -/
theorem settling_of_attempts {A B : Sigma Out → Prop}
    (hprocess : ∀ job final, (program cfg (.process job final)).settles A B
      (fun _ past _ => ¬ Owes A B past) (fun _ past _ => ¬ Owes A B past) [] []) (op : Op) :
    Settling (attemptOwes A) (attemptOwes B)
      (⟨op, (machine cfg).program op, [], []⟩ : Process) := by
  have hother : ∀ p : Program Response, p.settles (fun _ => False) (fun _ => False)
      (fun _ past _ => ¬ Owes (fun _ => False) (fun _ => False) past)
      (fun _ past _ => ¬ Owes (fun _ => False) (fun _ => False) past) [] [] := by
    intro p
    exact settles_mono (fun _ _ _ hfree => hfree.1) (fun _ _ _ hfree => hfree.1)
      ((issues_any p).settles (fun _ _ _ hf => hf) (free_nil (not_owes_nil _ _)))
  cases op with
  | process job final => exact hprocess job final
  | _ => exact hother _

end Programs
section Runs

variable {cfg : Config} {ok : System → SystemAction → Prop} {s₀ s s' : System} {db : Db}
  {p : Process} {id i : Id} {r r' : DocumentProcessing}

/-- What the statements of `manualReview` have left behind. -/
structure Parking (s : System) : Prop where
  invoice : ∀ (i : Nat) p j org n, s.procs[i]? = some p →
    Did p.past (.updateInvoice j (.manualReview org)) n →
      (∀ job final, p.op = .process job final → j = job.invoiceId) ∧
        ∃ v, Db.invoice s.db j = some v ∧ v.status ≠ .processing
  processing : ∀ id d r v, Db.document s.db id = some d → Db.processing s.db id = some r →
    Db.invoice s.db d.invoiceId = some v → r.state = .manualReview → v.status = .processing →
      ∃ (i : Nat) (p : Process) (job : InvoiceIngestJob) (final : Bool) (org : Id) (code : Text)
        (n : Nat), s.procs[i]? = some p ∧ p.op = .process job final ∧ job.documentId = id ∧
          job.invoiceId = d.invoiceId ∧ Did p.past (.updateProcessing id (.manualReview org code)) n

/-- The second statement of `manualReview` leaves an invoice that is not in processing. -/
theorem parked_invoice (h : ProcOk (machine cfg) (conduct cfg) Legal db p)
    (hobs : reviewing.Observed db p) {next} (hq : p.prog = .commit next) (hinv : Reviewing db)
    {org : Id} {n : Nat} (hd : Did p.calls (.updateInvoice i (.manualReview org)) n) :
    (∀ job final, p.op = .process job final → i = job.invoiceId) ∧
      ∃ v, Db.invoice (p.writes ++ db) i = some v ∧ v.status ≠ .processing := by
  obtain ⟨newer, older, rows, base, hcur, hwrote, hbefore⟩ := did_event h hd
  obtain ⟨job, final, d, r, code, m, hop, hi, hloaded, horg, -⟩ :=
    conduct_invoiceCause hbefore (List.Subset.refl _)
  refine ⟨fun job' final' hop' => ?_, ?_⟩
  · rw [hop] at hop'
    cases hop'
    exact hi
  by_cases hn : n = 0
  · subst hn
    -- the statement found the invoice of the job out of processing
    have hmem := mem_of_event hcur
    obtain ⟨d', -, hd', -, hi', hdorg, -⟩ := Left.of_loaded (hobs.known _ hmem) hloaded
    obtain ⟨_, v, _, hv, htracked⟩ := (hobs.inv _ hmem).tracked _ d' hd'
    rw [hi', ← hi] at hv
    have hview : Db.invoice (writes older ++ base) i = some v :=
      (Log.row_append_of_not_mem _ (invoice_first h hcur hbefore)).trans hv
    have hleft : v.status ≠ .processing := by
      intro hstatus
      cases hwrote with
      | updateInvoice hupdated =>
          cases hupdated with
          | missed hmissed =>
              have hnot := hmissed v hview
              have horg' : v.organizationId = org := by rw [htracked.invoice, hdorg, horg]
              simp [InvoiceChange.applies, horg', hstatus] at hnot
    obtain ⟨v', hv', hleft'⟩ := (hobs.rel _ hmem).left i v hv hleft
    exact (Lasting.commit h hq hobs hinv).left i v' hv' hleft'
  · obtain ⟨old, new, hch, hnew⟩ := did_updateInvoice h hd hn
    refine ⟨new, hnew, ?_⟩
    rw [hch.result]
    exact InvoiceStatus.noConfusion

theorem manual_change {c : ProcessingChange} (hch : ChangesProcessing cfg db p id c r r')
    (hmanual : r'.state = .manualReview) :
    ∃ org code, c = .manualReview org code ∨ c = .queueFailed org code := by
  rw [hch.result] at hmanual
  cases c with
  | manualReview org code => exact ⟨org, code, .inl rfl⟩
  | queueFailed org code => exact ⟨org, code, .inr rfl⟩
  | progressed org state n inc scan =>
      rcases progressed_state hch with rfl | rfl <;> cases hmanual
  | reset org storage =>
      simp only [ProcessingChange.apply] at hmanual
      split at hmanual <;> cases hmanual
  | parsed org => cases hmanual
  | suggested org ocr => cases hmanual
  | blocked org => cases hmanual

/-- An upload that gives up on a document gives up on its invoice at once. -/
theorem queueFailed_invoice (h : ProcOk (machine cfg) (conduct cfg) Legal db p) {next}
    (hq : p.prog = .commit next) (hobs : ingestion.Observed db p) {d : Document} {v' : Invoice}
    (hd : Db.document db id = some d) {org : Id} {code : Text}
    (hch : ChangesProcessing cfg db p id (.queueFailed org code) r r')
    (hv' : Db.invoice (p.writes ++ db) d.invoiceId = some v') : v'.status = .manualReview := by
  rcases hch.cause with ⟨job, final, d₀, r₀, cur, -, -, -, -, hready⟩ |
    ⟨normalize, auth, dto, file, code', d₀, hop, hc, -⟩
  · exact hready.elim
  · cases hc
    have hdue := commit_due h hq
    rw [hop] at hdue
    obtain ⟨d₁, k, hd₁, hk⟩ := hdue.2 id code 1 hch.did
    obtain ⟨d₂, -, hd₂, -, hi, -⟩ := hobs.fact _ hd₁
    have hsame : d₂ = d := Option.some.inj (hd₂.symm.trans hd)
    subst hsame
    obtain ⟨old, new, hchanges, hnew⟩ :=
      did_updateInvoice h hk (invoice_hit h hobs (.inr (.inr rfl)) hk)
    rw [← hi] at hnew
    have hsame : new = v' := Option.some.inj (hnew.symm.trans hv')
    rw [← hsame, hchanges.result]
    rfl

/-- A commit that puts a processing row into manual review while the invoice stays in
processing is one of an attempt. -/
theorem parks_processing (h : ProcOk (machine cfg) (conduct cfg) Legal db p) {next}
    (hq : p.prog = .commit next) (hobs : ingestion.Observed db p) {d : Document} {v' : Invoice}
    (hd : Db.document db id = some d) {c : ProcessingChange}
    (hch : ChangesProcessing cfg db p id c r r') (hmanual : r'.state = .manualReview)
    (hv' : Db.invoice (p.writes ++ db) d.invoiceId = some v') (hstatus : v'.status = .processing) :
    ∃ job final org code, p.op = .process job final ∧ job.documentId = id ∧
      job.invoiceId = d.invoiceId ∧ Did p.calls (.updateProcessing id (.manualReview org code)) 1 := by
  obtain ⟨org, code, rfl | rfl⟩ := manual_change hch hmanual
  · rcases hch.cause with ⟨job, final, d₀, r₀, cur, hop, rfl, hloaded, -, -⟩ |
      ⟨_, _, _, _, _, _, _, hc, _⟩
    · obtain ⟨d₁, -, hd₁, -, hi, -⟩ := Left.of_loaded hobs.fact hloaded
      have hsame : d₁ = d := Option.some.inj (hd₁.symm.trans hd)
      exact ⟨job, final, org, code, hop, rfl, hsame ▸ hi.symm, hch.did⟩
    · cases hc
  · rw [queueFailed_invoice h hq hobs hd hch hv'] at hstatus
    cases hstatus

theorem Parking.kept (hinv : Parking s) {a : SystemAction} (hs : Step (machine cfg) s a s')
    {d d' : Document} {v : Invoice} (hd : Db.document s.db id = some d)
    (hr : Db.processing s.db id = some r) (hv : Db.invoice s.db d.invoiceId = some v)
    (hmanual : r.state = .manualReview) (hstatus : v.status = .processing)
    (hi : d'.invoiceId = d.invoiceId) :
    ∃ (i : Nat) (p : Process) (job : InvoiceIngestJob) (final : Bool) (org : Id) (code : Text)
      (n : Nat), s'.procs[i]? = some p ∧ p.op = .process job final ∧ job.documentId = id ∧
        job.invoiceId = d'.invoiceId ∧
        Did p.past (.updateProcessing id (.manualReview org code)) n := by
  obtain ⟨i, p, job, final, org, code, n, hp, hop, hid, hinvoice, hdid⟩ :=
    hinv.processing id d r v hd hr hv hmanual hstatus
  obtain ⟨p', hp', hop', hpast⟩ := hs.past_subset hp
  exact ⟨i, p', job, final, org, code, n, hp', hop'.trans hop, hid, hinvoice.trans hi.symm,
    hpast hdid⟩

theorem Parking.step (hcons : Consistent (machine cfg) (conduct cfg) Legal s)
    (hobs : ∀ (i : Nat) p, s.procs[i]? = some p → reviewing.Observed s.db p)
    (hrev : Reviewing s.db) (hlast : StatusStays (· ≠ .processing) s.db s'.db)
    (hinv : Parking s) {a : SystemAction} (hs : Step (machine cfg) s a s') : Parking s' := by
  constructor
  · intro i p' j org n hp' hdid
    have hstays : ∀ p, s.procs[i]? = some p → p'.op = p.op →
        Did p.past (.updateInvoice j (.manualReview org)) n →
        (∀ job final, p'.op = .process job final → j = job.invoiceId) ∧
          ∃ v, Db.invoice s'.db j = some v ∧ v.status ≠ .processing := by
      intro p hp hop hold
      obtain ⟨hjob, v, hv, hleft⟩ := hinv.invoice i p j org n hp hold
      exact ⟨fun job final h => hjob job final (hop.symm.trans h), hlast j v hv hleft⟩
    cases hs.past_cases hp' with
    | fresh hpast =>
        rw [hpast] at hdid
        exact absurd hdid List.not_mem_nil
    | same p hp hop hpast => exact hstays p hp hop (hpast ▸ hdid)
    | commits p next c hp hq ha hop hpast hdb =>
        rw [hpast] at hdid
        rcases List.mem_append.mp hdid with hnew | hold
        · rw [hdb, hop]
          exact parked_invoice (hcons.proc i p hp) (hobs i p hp) hq hrev hnew
        · exact hstays p hp hop hold
  · intro id d' r' v' hd' hr' hv' hmanual hstatus
    cases hs.effect with
    | quiet hdb hprocs =>
        rw [hdb] at hd' hr' hv'
        exact hinv.kept hs hd' hr' hv' hmanual hstatus rfl
    | answered i c p q next out rows hp hq hrun =>
        exact hinv.kept hs hd' hr' hv' hmanual hstatus rfl
    | committed i c p next hp hq =>
        have hproc := hcons.proc i p hp
        rcases commit_document_later hproc hd' with hinserts | ⟨d, hd, hlater⟩
        · obtain ⟨-, -, r₁, -, hr₁, hprocessing, -⟩ := uploaded hproc hq hinserts.did
          have hsame : r₁ = r' := Option.some.inj (hr₁.symm.trans hr')
          rw [← hsame, hprocessing.state] at hmanual
          cases hmanual
        · obtain ⟨r, v, hr, hv, -⟩ := hrev.tracked id d hd
          rw [hlater.invoiceId] at hv'
          have hold : v.status = .processing := by
            by_contra hleft
            obtain ⟨w, hw, hne⟩ := hlast _ v hv hleft
            have hsame : w = v' := Option.some.inj (hw.symm.trans hv')
            exact hne (hsame ▸ hstatus)
          rcases processing_turn hproc hr hr' with rfl | ⟨change, hch⟩
          · exact hinv.kept hs hd hr hv hmanual hold hlater.invoiceId
          · obtain ⟨job, final, org, code, hop, hid, hinvoice, hdid⟩ := parks_processing hproc hq
              (observed_ingestion (hobs i p hp)) hd hch hmanual hv' hstatus
            have hlt := (List.getElem?_eq_some_iff.mp hp).1
            exact ⟨i, _, job, final, org, code, 1, List.getElem?_set_self hlt, hop, hid,
              hinvoice.trans hlater.invoiceId.symm, List.mem_append_left _ hdid⟩
    | outside rows hext =>
        have hdocument : Db.document (rows ++ s.db) id = Db.document s.db id :=
          external_row hext rfl
        have hprocessing : Db.processing (rows ++ s.db) id = Db.processing s.db id :=
          external_row hext rfl
        have hinvoice : Db.invoice (rows ++ s.db) d'.invoiceId = Db.invoice s.db d'.invoiceId :=
          external_row hext rfl
        exact hinv.kept hs (hdocument.symm.trans hd') (hprocessing.symm.trans hr')
          (hinvoice.symm.trans hv') hmanual hstatus rfl

theorem Parking.run (h₀ : Idle Legal s₀) (huploaded : Uploaded s₀.db)
    (h : Run (machine cfg) ok s₀ s) : Parking s := by
  refine h.invariant (I := Parking) ⟨by simp [h₀.procs], fun id d r v hd hr _ hmanual _ => ?_⟩ ?_
  · obtain ⟨r₁, hr₁, -, hstate⟩ := huploaded.processing id d hd
    have hsame : r₁ = r := Option.some.inj (hr₁.symm.trans hr)
    rw [← hsame, hstate] at hmanual
    cases hmanual
  · intro s a s' hrun hinv _ hs
    obtain ⟨hrev, hobs⟩ := reviewing_sound.run reviewing_respects (discipline cfg) h₀
      huploaded.reviewing hrun
    have hlast : Lasting s.db s'.db := reviewing_sound.step reviewing_respects (discipline cfg) h₀
      huploaded.reviewing hrun hs
    exact hinv.step (Run.consistent (discipline cfg) h₀.consistent hrun) hobs hrev hlast.left hs

end Runs

/-- What the processing row says of the invoice and the document. -/
structure Agrees (d : Document) (r : DocumentProcessing) (v : Invoice) : Prop where
  ended : r.state = .needsReview ∨ r.state = .manualReview ∨ r.state = .blocked →
    v.status ≠ .processing
  blocked : r.state = .blocked ↔ v.status = .blocked ∧ d.storageState = .blocked

/-- No attempt on the document is running. -/
def AtRest (s : System) (id : Id) : Prop :=
  ∀ (i : Nat) p job final, s.procs[i]? = some p → p.op = .process job final →
    job.documentId = id → p.prog.finished = true

/-- In the runs in which no attempt fails or is killed between the two statements of
`manualReview`, processing rows and invoices agree whenever the worker is at rest. -/
theorem processing_agrees (cfg : Config) {s₀ s : System} (h₀ : Idle Legal s₀)
    (huploaded : Uploaded s₀.db)
    (h : Run (machine cfg) (undisturbed (machine cfg) (attemptOwes ParksProcessing)
      (attemptOwes ParksInvoice)) s₀ s) :
    ∀ id d r v, Db.document s.db id = some d → Db.processing s.db id = some r →
      Db.invoice s.db d.invoiceId = some v → AtRest s id → Agrees d r v := by
  intro id d r v hd hr hv hrest
  obtain ⟨hrev, -⟩ := reviewing_sound.run reviewing_respects (discipline cfg) h₀
    huploaded.reviewing h
  obtain ⟨r₁, v₁, hr₁, hv₁, htracked⟩ := hrev.tracked id d hd
  have hsame : r₁ = r := Option.some.inj (hr₁.symm.trans hr)
  have hsame' : v₁ = v := Option.some.inj (hv₁.symm.trans hv)
  subst hsame hsame'
  have hpaired := htracked.paired
  unfold Paired at hpaired
  constructor
  · rintro (hstate | hstate | hstate) hstatus
    · have hprocessed := (hrev.parked id d r₁ v₁ hd hr hv).processed.mpr hstate
      rw [hstatus] at hprocessed
      cases hprocessed
    · have hparking := Parking.run h₀ huploaded h
      obtain ⟨i, p, job, final, org, code, n, hp, hop, hid, hinvoice, hdid⟩ :=
        hparking.processing id d r₁ v₁ hd hr hv hstate hstatus
      have hsettled := h.settled h₀.procs (settling_of_attempts fun job final =>
        process_settles final) (fun _ _ hok => hok) hp (hrest i p job final hp hop hid)
      refine hsettled ⟨⟨_, hdid, by rw [hop]; trivial⟩, fun c hc hparks => ?_⟩
      rw [hop] at hparks
      obtain ⟨stmt, out⟩ := c
      have hparks : ParksInvoice ⟨stmt, out⟩ := hparks
      unfold ParksInvoice at hparks
      split at hparks
      · rename_i j org' m heq
        rw [heq] at hc
        obtain ⟨hjob, w, hw, hleft⟩ := hparking.invoice i p j org' m hp hc
        rw [hjob job final hop, hinvoice, hv] at hw
        exact hleft (Option.some.inj hw ▸ hstatus)
      · exact hparks
    · rw [htracked.blocked hstate] at hstatus
      cases hstatus
  · constructor
    · intro hstate
      refine ⟨htracked.blocked hstate, ?_⟩
      cases hstorage : d.storageState with
      | blocked => rfl
      | quarantined =>
          rw [hstorage, hstate] at hpaired
          simp at hpaired
      | approved =>
          rw [hstorage, hstate] at hpaired
          simp at hpaired
    · rintro ⟨-, hstorage⟩
      rw [hstorage] at hpaired
      exact hpaired.2.2

theorem atRest_of_finished {s : System} (h : s.procs.all (·.prog.finished) = true) (id : Id) :
    AtRest s id :=
  fun _ p _ _ hp _ _ => List.all_eq_true.mp h p (List.mem_of_getElem? hp)

section Sample

/-- An attempt that hands the document over. -/
theorem processing_agrees_sample : ∃ (s : System) (d : Document) (r : DocumentProcessing)
    (v : Invoice), Db.document s.db 1 = some d ∧ Db.processing s.db 1 = some r ∧
      Db.invoice s.db d.invoiceId = some v ∧ r.state = .needsReview ∧ Agrees d r v := by
  have hok : ∀ (s : System) (a : SystemAction), smooth (machine sampleConfig) s a = true →
      undisturbed (machine sampleConfig) (attemptOwes ParksProcessing) (attemptOwes ParksInvoice)
        s a := undisturbed_of_smooth
  obtain ⟨s, hrun, hcheck⟩ := exists_run (M := machine sampleConfig) (s := uploadedStart)
    (.start (.process sampleJob true) :: promotion 0 7 ++ execs 0 (List.replicate 8 0))
    (fun s => s.procs.all (·.prog.finished) && (Db.document s.db 1).any fun d =>
      (Db.processing s.db 1).any fun r => (Db.invoice s.db d.invoiceId).any fun _ =>
        r.state = .needsReview)
    hok (by decide +kernel)
  obtain ⟨hfinished, hcheck⟩ := Bool.and_eq_true_iff.mp hcheck
  obtain ⟨d, hd, hcheck⟩ := (Option.any_eq_true _ _).mp hcheck
  obtain ⟨r, hr, hcheck⟩ := (Option.any_eq_true _ _).mp hcheck
  obtain ⟨v, hv, hcheck⟩ := (Option.any_eq_true _ _).mp hcheck
  exact ⟨s, d, r, v, hd, hr, hv, of_decide_eq_true hcheck, processing_agrees sampleConfig
    uploadedStart_idle uploadedStart_uploaded hrun 1 d r v hd hr hv (atRest_of_finished hfinished 1)⟩

/-- A final attempt that cannot read the document and is killed inside `manualReview`. -/
theorem killed_in_manualReview : ∃ (s : System) (d : Document) (r : DocumentProcessing)
    (v : Invoice),
    Run (machine sampleConfig) (Account.permitted (fun _ => True) always) uploadedStart s ∧
      Db.document s.db 1 = some d ∧ Db.processing s.db 1 = some r ∧
      Db.invoice s.db d.invoiceId = some v ∧ AtRest s 1 ∧ ¬ Agrees d r v := by
  obtain ⟨s, hrun, hcheck⟩ := exists_run (M := machine sampleConfig) (s := uploadedStart)
    (.start (.process sampleJob true) :: execs 0 [0, 0, 0, 0] ++
      [.fault 0 (.unavailable "StorageError")] ++ execs 0 [0, 0] ++
      [.kill 0 (.unavailable "killed")])
    (fun s => s.procs.all (·.prog.finished) && (Db.document s.db 1).any fun d =>
      (Db.processing s.db 1).any fun r => (Db.invoice s.db d.invoiceId).any fun v =>
        r.state = .manualReview ∧ v.status = .processing)
    permitted_always (by decide +kernel)
  obtain ⟨hfinished, hcheck⟩ := Bool.and_eq_true_iff.mp hcheck
  obtain ⟨d, hd, hcheck⟩ := (Option.any_eq_true _ _).mp hcheck
  obtain ⟨r, hr, hcheck⟩ := (Option.any_eq_true _ _).mp hcheck
  obtain ⟨v, hv, hcheck⟩ := (Option.any_eq_true _ _).mp hcheck
  obtain ⟨hmanual, hstatus⟩ := of_decide_eq_true hcheck
  exact ⟨s, d, r, v, hrun, hd, hr, hv, atRest_of_finished hfinished 1,
    fun hagrees => hagrees.ended (.inr (.inl hmanual)) hstatus⟩

end Sample
end BlocTrust
