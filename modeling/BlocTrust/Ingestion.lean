import BlocTrust.Knowledge

/-!
Ingestion of documents.
A document, its processing row and its invoice move together: what the worker has not
finished belongs to an invoice in processing, a blocked document to a blocked invoice, and
the columns that promote a document are set when it is approved and only then.
-/
namespace BlocTrust

open ReadCommitted

/-- The states of a document and of its processing row that belong together. -/
def Paired (d : Document) (r : DocumentProcessing) : Prop :=
  match d.storageState with
  | .quarantined => d.approvedObjectKey = none ∧ d.sha256 = none ∧
      (r.state = .quarantined ∨ r.state = .scanning ∨ r.state = .manualReview)
  | .approved => d.approvedObjectKey ≠ none ∧ d.sha256 ≠ none ∧
      (r.state = .parsed ∨ r.state = .needsReview ∨ r.state = .manualReview)
  | .blocked => d.approvedObjectKey = none ∧ d.sha256 = none ∧ r.state = .blocked

/-- How a document, its processing row and its invoice stand to each other. -/
structure Tracked (d : Document) (r : DocumentProcessing) (v : Invoice) : Prop where
  processing : r.organizationId = d.organizationId
  invoice : v.organizationId = d.organizationId
  paired : Paired d r
  working : r.state.done = false → v.status = .processing
  blocked : r.state = .blocked → v.status = .blocked

structure Ingestion (db : Db) : Prop where
  tracked : ∀ id d, Db.document db id = some d → ∃ r v, Db.processing db id = some r ∧
    Db.invoice db d.invoiceId = some v ∧ Tracked d r v
  owned : ∀ id r, Db.processing db id = some r → ∃ d, Db.document db id = some d
  single : ∀ id id' d d', Db.document db id = some d → Db.document db id' = some d' →
    d.invoiceId = d'.invoiceId → id = id'

/-- What ingestion never takes back. -/
structure Ingested (older newer : Db) : Prop where
  storage : ∀ id d, Db.document older id = some d → d.storageState ≠ .quarantined →
    ∃ d', Db.document newer id = some d' ∧ d'.storageState = d.storageState ∧
      d'.invoiceId = d.invoiceId
  blocked : ∀ id d v, Db.document older id = some d → d.storageState = .blocked →
    Db.invoice older d.invoiceId = some v → Db.invoice newer d.invoiceId = some v ∧
      Db.lines newer d.invoiceId = Db.lines older d.invoiceId
  reviewed : ReviewedStays older newer

theorem Ingested.refl (db : Db) : Ingested db db :=
  ⟨fun _ d hd _ => ⟨d, hd, rfl, rfl⟩, fun _ _ _ _ _ hv => ⟨hv, rfl⟩, fun _ v hv hr => ⟨v, hv, hr⟩⟩

theorem ReviewedStays.trans {a b c : Db} (h : ReviewedStays a b) (h' : ReviewedStays b c) :
    ReviewedStays a c := by
  intro i v hv hr
  obtain ⟨w, hw, hr'⟩ := h i v hv hr
  exact h' i w hw hr'

theorem Ingested.trans {a b c : Db} (h : Ingested a b) (h' : Ingested b c) : Ingested a c := by
  refine ⟨fun id d hd hs => ?_, fun id d v hd hs hv => ?_, h.reviewed.trans h'.reviewed⟩
  · obtain ⟨d', hd', hs', hi'⟩ := h.storage id d hd hs
    obtain ⟨d'', hd'', hs'', hi''⟩ := h'.storage id d' hd' (hs' ▸ hs)
    exact ⟨d'', hd'', hs''.trans hs', hi''.trans hi'⟩
  · obtain ⟨hv', hlines⟩ := h.blocked id d v hd hs hv
    obtain ⟨d', hd', hs', hi'⟩ := h.storage id d hd (by rw [hs]; decide)
    rw [← hi'] at hv' hlines ⊢
    obtain ⟨hv'', hlines'⟩ := h'.blocked id d' v hd' (hs'.trans hs) hv'
    exact ⟨hv'', hlines'.trans hlines⟩

/-- What the calls of an attempt or an upload leave behind. -/
def Left (op : Op) (call : Sigma Out) (db : Db) : Prop :=
  match call with
  | ⟨.read (.load job), some (d, _)⟩ => ∃ d' r', Db.document db job.documentId = some d' ∧
      Db.processing db job.documentId = some r' ∧ d'.invoiceId = job.invoiceId ∧
      d'.organizationId = job.organizationId ∧ r'.organizationId = job.organizationId ∧
      (d.storageState ≠ .quarantined → d'.storageState = d.storageState)
  | ⟨.write (.updateProcessing id (.manualReview _ _)), _⟩ =>
      ∃ r, Db.processing db id = some r ∧ r.state.done = true
  | ⟨.write (.insertDocument id d), _⟩ => ∃ d' r', Db.document db id = some d' ∧
      Db.processing db id = some r' ∧ d'.invoiceId = d.invoiceId ∧
      r'.organizationId = d'.organizationId ∧
      ∀ normalize auth dto file, op = .upload normalize auth dto file →
        d'.organizationId = auth.organizationId
  | _ => True

def ingestion : Account Val Out Op where
  inv := Ingestion
  rel := Ingested
  fact := Left

section Facts

variable {cfg : Config} {db : Db} {p : Process} {job : InvoiceIngestJob} {d : Document}
  {r : DocumentProcessing}

theorem Left.of_loaded (h : ∀ c ∈ p.past, Left p.op c db) (hl : Loaded job p.past d r) :
    ∃ d' r', Db.document db job.documentId = some d' ∧
      Db.processing db job.documentId = some r' ∧ d'.invoiceId = job.invoiceId ∧
      d'.organizationId = job.organizationId ∧ r'.organizationId = job.organizationId ∧
      (d.storageState ≠ .quarantined → d'.storageState = d.storageState) :=
  h _ hl.seen

theorem Left.keep {older newer : Db} (hs : older <:+ newer) (hc : Log.Chain Legal newer)
    (hrel : Ingested older newer) {op : Op} {call : Sigma Out} (h : Left op call older) :
    Left op call newer := by
  unfold Left at h ⊢
  split at h
  · rename_i job d r
    obtain ⟨d', r', hd', hr', hi, horg, horg', hstorage⟩ := h
    obtain ⟨d'', hd'', hlater⟩ := document_later hc hs hd'
    obtain ⟨r'', hr'', hlater'⟩ := processing_later hc hs hr'
    refine ⟨d'', r'', hd'', hr'', hlater.invoiceId.trans hi, hlater.organizationId.trans horg,
      hlater'.organizationId.trans horg', fun hne => ?_⟩
    have hsame := hstorage hne
    obtain ⟨e, he, hstate, -⟩ := hrel.storage _ d' hd' (hsame ▸ hne)
    have heq : e = d'' := Option.some.inj (he.symm.trans hd'')
    rw [← heq, hstate, hsame]
  · obtain ⟨r, hr, hdone⟩ := h
    obtain ⟨r', hr', hlater⟩ := processing_later hc hs hr
    exact ⟨r', hr', by rw [hlater.done hdone, hdone]⟩
  · obtain ⟨d', r', hd', hr', hi, horg, hop⟩ := h
    obtain ⟨d'', hd'', hlater⟩ := document_later hc hs hd'
    obtain ⟨r'', hr'', hlater'⟩ := processing_later hc hs hr'
    refine ⟨d'', r'', hd'', hr'', hlater.invoiceId.trans hi, ?_, fun normalize auth dto file heq => ?_⟩
    · rw [hlater'.organizationId, horg, hlater.organizationId]
    · rw [hlater.organizationId]
      exact hop normalize auth dto file heq
  · trivial

/-- The call that issues an update of a processing row. -/
theorem conduct_processingCause {op : Op} {past cur : Calls Out} {id : Id} {c : ProcessingChange}
    (h : (conduct cfg op).before past cur (.write (.updateProcessing id c))) :
    (∃ job final d r, op = .process job final ∧ id = job.documentId ∧ Loaded job past d r ∧
      ProcessingReady job past cur c) ∨
    ∃ normalize auth dto file code d, op = .upload normalize auth dto file ∧
      c = .queueFailed auth.organizationId code ∧ Did past (.insertDocument id d) () := by
  cases op with
  | process job final =>
      obtain ⟨rfl, ⟨d, r, hloaded⟩, -, hready⟩ := h
      exact .inl ⟨job, final, d, r, rfl, rfl, hloaded, hready⟩
  | upload normalize auth dto file =>
      obtain ⟨⟨code, rfl⟩, ⟨d, hd⟩, -⟩ := h
      exact .inr ⟨normalize, auth, dto, file, code, d, rfl, rfl, hd⟩
  | _ => exact h.elim

theorem ProcessingReady.organization {past cur : Calls Out} {c : ProcessingChange}
    (h : ProcessingReady job past cur c) (hc : ∀ org code, c ≠ .manualReview org code)
    (hr : r.organizationId = job.organizationId) : c.applies r = true := by
  cases c with
  | progressed org state n inc scan =>
      rw [h.1]
      exact decide_eq_true hr
  | parsed org =>
      rw [h.1]
      exact decide_eq_true hr
  | suggested org ocr =>
      have horg : org = job.organizationId := h
      rw [horg]
      exact decide_eq_true hr
  | blocked org =>
      rw [h.1]
      exact decide_eq_true hr
  | manualReview org code => exact absurd rfl (hc org code)
  | reset org storage =>
      rw [h.1]
      exact decide_eq_true hr
  | queueFailed org code => exact h.elim

/-- The worker and the upload find the processing rows that they change. -/
theorem processing_hit (h : ProcOk (machine cfg) (conduct cfg) Legal db p)
    (hobs : ingestion.Observed db p) {id : Id} {c : ProcessingChange} {n : Nat}
    (hd : Did p.calls (.updateProcessing id c) n) (hc : ∀ org code, c ≠ .manualReview org code) :
    n ≠ 0 := by
  obtain ⟨newer, older, rows, base, hcur, hwrote, hbefore⟩ := did_event h hd
  have hfirst := processing_first h hcur hbefore
  have hknown := hobs.known _ (mem_of_event hcur)
  have hrow : ∃ r, Db.processing base id = some r ∧ c.applies r = true := by
    rcases conduct_processingCause hbefore with
      ⟨job, final, d, r, hop, rfl, hloaded, hready⟩ |
      ⟨normalize, auth, dto, file, code, d, hop, rfl, hdid⟩
    · obtain ⟨-, r', -, hr', -, -, horg, -⟩ := Left.of_loaded hknown hloaded
      exact ⟨r', hr', hready.organization hc horg⟩
    · obtain ⟨d', r', -, hr', -, horg, hauth⟩ := hknown _ hdid
      exact ⟨r', hr', decide_eq_true (horg.trans (hauth _ _ _ _ hop))⟩
  obtain ⟨r, hr, happlies⟩ := hrow
  cases hwrote with
  | updateProcessing hupdated =>
      exact hupdated.hit ((Log.row_append_of_not_mem _ hfirst).trans hr) happlies

/-- The worker finds the document of its job. -/
theorem document_hit (h : ProcOk (machine cfg) (conduct cfg) Legal db p)
    (hobs : ingestion.Observed db p) {id : Id} {c : DocumentChange} {n : Nat}
    (hd : Did p.calls (.updateDocument id c) n) : n ≠ 0 := by
  obtain ⟨newer, older, rows, base, hcur, hwrote, hbefore⟩ := did_event h hd
  have hfirst := document_first h hcur hbefore
  have hknown := hobs.known _ (mem_of_event hcur)
  obtain ⟨⟨job, final, hop, rfl⟩, -⟩ := conduct_updateDocument hbefore
  rw [hop] at hbefore
  obtain ⟨-, ⟨d, r, hloaded⟩, -, hready⟩ := hbefore
  obtain ⟨d', -, hd', -, -, horg, -⟩ := Left.of_loaded hknown hloaded
  have happlies : c.applies d' = true := by
    cases c with
    | promoted org key sha duplicate =>
        rw [hready.1]
        exact decide_eq_true horg
    | blocked org =>
        have heq : org = job.organizationId := hready
        rw [heq]
        exact decide_eq_true horg
  cases hwrote with
  | updateDocument hupdated =>
      exact hupdated.hit ((Log.row_append_of_not_mem _ hfirst).trans hd') happlies

/-- The worker and the upload find the invoice that they block, hand over or give up on. -/
theorem invoice_hit (h : ProcOk (machine cfg) (conduct cfg) Legal db p)
    (hobs : ingestion.Observed db p) {i org : Id} {c : InvoiceChange} {n : Nat}
    (hc : c = .blocked org ∨ c = .suggested org ∨ c = .queueFailed org)
    (hd : Did p.calls (.updateInvoice i c) n) : n ≠ 0 := by
  obtain ⟨newer, older, rows, base, hcur, hwrote, hbefore⟩ := did_event h hd
  have hfirst := invoice_first h hcur hbefore
  have hknown := hobs.known _ (mem_of_event hcur)
  have hinv := hobs.inv _ (mem_of_event hcur)
  have hrow : ∃ v, Db.invoice base i = some v ∧ v.organizationId = org := by
    have hcause := conduct_invoiceCause hbefore (List.Subset.refl _)
    rcases hc with rfl | rfl | rfl
    · obtain ⟨job, final, d, r, m, hop, rfl, hloaded, rfl, -⟩ := hcause
      obtain ⟨d', -, hd', -, hi, horg, -⟩ := Left.of_loaded hknown hloaded
      obtain ⟨_, v, _, hv, htracked⟩ := hinv.tracked _ d' hd'
      exact ⟨v, hi ▸ hv, htracked.invoice.trans horg⟩
    · obtain ⟨job, final, d, r, ocr, m, hop, rfl, hloaded, rfl, -⟩ := hcause
      obtain ⟨d', -, hd', -, hi, horg, -⟩ := Left.of_loaded hknown hloaded
      obtain ⟨_, v, _, hv, htracked⟩ := hinv.tracked _ d' hd'
      exact ⟨v, hi ▸ hv, htracked.invoice.trans horg⟩
    · obtain ⟨normalize, auth, dto, file, id, d, m, code, hop, rfl, hdid, rfl, -⟩ := hcause
      obtain ⟨d', -, hd', -, hi, -, horg⟩ := hknown _ hdid
      obtain ⟨_, v, _, hv, htracked⟩ := hinv.tracked _ d' hd'
      exact ⟨v, hi ▸ hv, htracked.invoice.trans (horg normalize auth dto file hop)⟩
  obtain ⟨v, hv, horg⟩ := hrow
  have happlies : c.applies v = true := by
    rcases hc with rfl | rfl | rfl <;> exact decide_eq_true horg
  cases hwrote with
  | updateInvoice hupdated =>
      exact hupdated.hit ((Log.row_append_of_not_mem _ hfirst).trans hv) happlies

/-- A transaction updates a processing row at most once. -/
theorem same_processing (h : ProcOk (machine cfg) (conduct cfg) Legal db p) {id : Id}
    {c c' : ProcessingChange} {n n' : Nat} (hd : Did p.calls (.updateProcessing id c) n)
    (hd' : Did p.calls (.updateProcessing id c') n') : c = c' := by
  have hsame := same_update h hd hd'
    (fun _ _ hb => (conduct_updateProcessing hb).1 c' n')
    (fun _ _ hb => (conduct_updateProcessing hb).1 c n)
  cases hsame
  rfl

end Facts

section Commit

variable {cfg : Config} {db : Db} {p : Process} {id i : Id} {d d' : Document}
  {r r' : DocumentProcessing} {v v' old new : Invoice}

/-- The update of the processing row of its document that a change of an invoice goes with. -/
def ChangesSource (cfg : Config) (db : Db) (p : Process) (id : Id) (r : DocumentProcessing) :
    InvoiceChange → Prop
  | .suggested org => ∃ ocr r', ChangesProcessing cfg db p id (.suggested org ocr) r r'
  | .blocked org => ∃ r', ChangesProcessing cfg db p id (.blocked org) r r'
  | .queueFailed org => ∃ code r', ChangesProcessing cfg db p id (.queueFailed org code) r r'
  | .manualReview _ => r.state.done = true
  | _ => True

theorem changes_of_did (h : ProcOk (machine cfg) (conduct cfg) Legal db p)
    (hobs : ingestion.Observed db p) {c : ProcessingChange} {n : Nat}
    (hd : Did p.calls (.updateProcessing id c) n) (hc : ∀ org code, c ≠ .manualReview org code)
    (hr : Db.processing db id = some r) : ∃ r', ChangesProcessing cfg db p id c r r' ∧
      Db.processing (p.writes ++ db) id = some r' := by
  obtain ⟨old, new, hch, hnew⟩ := did_updateProcessing h hd (processing_hit h hobs hd hc)
  have hsame : old = r := Option.some.inj (hch.committed.symm.trans hr)
  subst hsame
  exact ⟨new, hch, hnew⟩

/-- The worker and the upload change the invoice of a document together with its processing. -/
theorem ChangesInvoice.source (h : ProcOk (machine cfg) (conduct cfg) Legal db p)
    (hobs : ingestion.Observed db p) {c : InvoiceChange} (hch : ChangesInvoice cfg db p i c old new)
    (hc : c.isApi = false) : ∃ id d r, Db.document db id = some d ∧ d.invoiceId = i ∧
      Db.processing db id = some r ∧ ChangesSource cfg db p id r c := by
  have hcause := hch.cause
  cases c with
  | suggested org =>
      obtain ⟨job, final, d, r, ocr, n, -, rfl, hloaded, rfl, hd⟩ := hcause
      obtain ⟨d', r', hd', hr', hi, -⟩ := Left.of_loaded hobs.fact hloaded
      obtain ⟨r'', hch', -⟩ := changes_of_did h hobs hd (by simp) hr'
      exact ⟨_, d', r', hd', hi, hr', ocr, r'', hch'⟩
  | blocked org =>
      obtain ⟨job, final, d, r, n, -, rfl, hloaded, rfl, hd⟩ := hcause
      obtain ⟨d', r', hd', hr', hi, -⟩ := Left.of_loaded hobs.fact hloaded
      obtain ⟨r'', hch', -⟩ := changes_of_did h hobs hd (by simp) hr'
      exact ⟨_, d', r', hd', hi, hr', r'', hch'⟩
  | manualReview org =>
      obtain ⟨job, final, d, r, code, n, -, rfl, hloaded, rfl, hd⟩ := hcause
      obtain ⟨d', r', hd', hr', hi, -⟩ := Left.of_loaded hobs.fact hloaded
      obtain ⟨r'', hr'', hdone⟩ := hobs.fact _ hd
      have hsame : r'' = r' := Option.some.inj (hr''.symm.trans hr')
      exact ⟨_, d', r', hd', hi, hr', hsame ▸ hdone⟩
  | queueFailed org =>
      obtain ⟨normalize, auth, dto, file, id, d, n, code, -, rfl, hdid, rfl, hd⟩ := hcause
      obtain ⟨d', r', hd', hr', hi, -⟩ := hobs.fact _ hdid
      obtain ⟨r'', hch', -⟩ := changes_of_did h hobs hd (by simp) hr'
      exact ⟨id, d', r', hd', hi, hr', code, r'', hch'⟩
  | _ => cases hc

/-- What a commit does to the invoice of a document with the processing row `r`. -/
inductive Move (cfg : Config) (db : Db) (p : Process) (id : Id) (r : DocumentProcessing)
    (v v' : Invoice) : Prop
  | kept (hsame : v' = v)
  | served (hold : v.status.reviewed = true) (hnew : v'.status.reviewed = true)
  | suggested {org ocr r'} (hch : ChangesProcessing cfg db p id (.suggested org ocr) r r')
      (hstatus : v'.status = .needsReview)
  | blocked {org r'} (hch : ChangesProcessing cfg db p id (.blocked org) r r')
      (hresult : v' = { v with status := .blocked })
  | failed {org code r'} (hch : ChangesProcessing cfg db p id (.queueFailed org code) r r')
      (hstatus : v'.status = .manualReview)
  | abandoned (hdone : r.state.done = true) (hold : v.status = .processing)
      (hstatus : v'.status = .manualReview)

theorem invoice_move (h : ProcOk (machine cfg) (conduct cfg) Legal db p)
    (hobs : ingestion.Observed db p) (hinv : Ingestion db) (hd : Db.document db id = some d)
    (hr : Db.processing db id = some r) (hv : Db.invoice db d.invoiceId = some v)
    (hv' : Db.invoice (p.writes ++ db) d.invoiceId = some v') : Move cfg db p id r v v' := by
  rcases commit_invoice h hv' with ⟨-, hold⟩ | hinserts | ⟨c, old, hch⟩
  · exact .kept (Option.some.inj (hold.symm.trans hv))
  · exact absurd (Log.mem_keys_of_row hv) hinserts.fresh
  · have hsame : old = v := Option.some.inj (hch.committed.symm.trans hv)
    subst hsame
    cases hc : c.isApi with
    | true =>
        have hreviewed := hch.reviewed h (fun e he => (hobs.rel e he).reviewed) hc
        exact .served hreviewed.1 hreviewed.2
    | false =>
        obtain ⟨id', d₁, r₁, hd₁, hi, hr₁, hsource⟩ := hch.source h hobs hc
        have hid : id' = id := hinv.single id' id d₁ d hd₁ hd hi
        subst hid
        have hsame : r₁ = r := Option.some.inj (hr₁.symm.trans hr)
        subst hsame
        have hresult := hch.result
        have happlies := hch.applies
        cases c with
        | suggested org =>
            obtain ⟨ocr, r', hsource⟩ := hsource
            exact .suggested hsource (by rw [hresult]; rfl)
        | blocked org =>
            obtain ⟨r', hsource⟩ := hsource
            exact .blocked hsource hresult
        | manualReview org =>
            simp only [InvoiceChange.applies, decide_eq_true_eq] at happlies
            exact .abandoned hsource happlies.2 (by rw [hresult]; rfl)
        | queueFailed org =>
            obtain ⟨code, r', hsource⟩ := hsource
            exact .failed hsource (by rw [hresult]; rfl)
        | _ => cases hc

/-- The new version of a processing row is the one after the commit. -/
theorem ChangesProcessing.final (h : ProcOk (machine cfg) (conduct cfg) Legal db p)
    {c : ProcessingChange} (hch : ChangesProcessing cfg db p id c r r') :
    Db.processing (p.writes ++ db) id = some r' := by
  obtain ⟨old, new, hch', hnew⟩ := did_updateProcessing h hch.did Nat.one_ne_zero
  have hsame : old = r := Option.some.inj (hch'.committed.symm.trans hch.committed)
  rw [hnew, hch'.result, hch.result, hsame]

/-- The update of the processing row that a change of a document goes with. -/
theorem ChangesDocument.source (h : ProcOk (machine cfg) (conduct cfg) Legal db p) {next}
    (hq : p.prog = .commit next) {c : DocumentChange} (hch : ChangesDocument cfg db p id c d d') :
    (∃ org key sha duplicate m, c = .promoted org key sha duplicate ∧
      Did p.calls (.updateProcessing id (.parsed org)) m) ∨
    ∃ org m, c = .blocked org ∧ Did p.calls (.updateProcessing id (.blocked org)) m := by
  obtain ⟨job, final, hop, rfl⟩ := hch.op
  have hdue := commit_due h hq
  rw [hop] at hdue
  have hdid := hch.did
  cases c with
  | promoted org key sha duplicate =>
      obtain ⟨m, hm⟩ := hdue.promoted _ _ _ _ _ hdid
      exact .inl ⟨org, key, sha, duplicate, m, rfl, hm⟩
  | blocked org =>
      obtain ⟨m, k, hm, -⟩ := hdue.blocked _ _ hdid
      exact .inr ⟨org, m, rfl, hm⟩

/-- Without a change of the document only two transitions separate the pair. -/
theorem Paired.keep (hpaired : Paired d r)
    (htransition : validateDocumentProcessingTransition r.state r'.state = true)
    (hblocked : r'.state = .blocked → r.state = .blocked)
    (hparsed : r'.state = .parsed → d.storageState ≠ .quarantined) : Paired d r' := by
  unfold Paired at hpaired ⊢
  cases hs : d.storageState <;> rw [hs] at hpaired hparsed <;>
    obtain ⟨hkey, hsha, hstate⟩ := hpaired <;> refine ⟨hkey, hsha, ?_⟩ <;>
    cases hr : r.state <;> cases hr' : r'.state <;>
    simp_all [validateDocumentProcessingTransition]

/-- What led to a change of a processing row. -/
theorem ChangesProcessing.cause {c : ProcessingChange}
    (hch : ChangesProcessing cfg db p id c r r') :
    (∃ job final d r cur, p.op = .process job final ∧ id = job.documentId ∧
      Loaded job p.past d r ∧ cur ⊆ p.calls ∧ ProcessingReady job p.past cur c) ∨
    ∃ normalize auth dto file code d, p.op = .upload normalize auth dto file ∧
      c = .queueFailed auth.organizationId code ∧ Did p.past (.insertDocument id d) () := by
  obtain ⟨newer, older, rows, base, hcur, -, hbefore⟩ := hch.event
  rcases conduct_processingCause hbefore with ⟨job, final, d, r, hop, hid, hloaded, hready⟩ | hupload
  · exact .inl ⟨job, final, d, r, _, hop, hid, hloaded, calls_subset_of_event hcur, hready⟩
  · exact .inr hupload

/-- A document that was found approved is approved. -/
theorem saw_storage (h : ProcOk (machine cfg) (conduct cfg) Legal db p)
    (hobs : ingestion.Observed db p) (hd : Db.document db id = some d)
    (hk : Key.document id ∉ p.writes.keys) {org : Id} {storage : DocumentStorageState}
    (hs : Saw p.calls (.documentStorage org id) (some storage)) (hne : storage ≠ .quarantined) :
    d.storageState = storage := by
  obtain ⟨new, older, base, choice, hcur, hanswer⟩ := saw_event h hs
  obtain ⟨d₁, hrow, rfl⟩ := Option.map_eq_some_iff.mp (Option.some.inj hanswer)
  obtain ⟨hrow, -⟩ := rowWhere_eq_some.mp hrow
  have hfree : Key.document id ∉ (writes older).keys := by
    intro hkey
    obtain ⟨e, he, hke⟩ := mem_keys_writes.mp hkey
    exact hk (mem_keys_writes.mpr ⟨e, by simp [hcur, he], hke⟩)
  rw [Db.document, Log.row_append_of_not_mem _ hfree] at hrow
  obtain ⟨d₂, hd₂, hstate, -⟩ := (hobs.rel _ (mem_of_event hcur)).storage id d₁ hrow hne
  have hsame : d₂ = d := Option.some.inj (hd₂.symm.trans hd)
  rw [← hsame, hstate]

/-- The transactions that leave a document alone, by the change of its processing row. -/
theorem document_kept (h : ProcOk (machine cfg) (conduct cfg) Legal db p) {next}
    (hq : p.prog = .commit next) (hd : Db.document db id = some d)
    (hd' : Db.document (p.writes ++ db) id = some d') {c : ProcessingChange} {n : Nat}
    (hdid : Did p.calls (.updateProcessing id c) n) (hparsed : ∀ org, c ≠ .parsed org)
    (hblocked : ∀ org, c ≠ .blocked org) : Key.document id ∉ p.writes.keys ∧ d' = d := by
  rcases commit_document h hd' with ⟨hk, hold⟩ | hinserts | ⟨c', old, hch'⟩
  · exact ⟨hk, Option.some.inj (hold.symm.trans hd)⟩
  · exact absurd (Log.mem_keys_of_row hd) hinserts.fresh
  · rcases hch'.source h hq with ⟨org, _, _, _, m, -, hm⟩ | ⟨org, m, -, hm⟩
    · exact absurd (same_processing h hdid hm) (hparsed org)
    · exact absurd (same_processing h hdid hm) (hblocked org)

/-- The worker keeps the states of a document and of its processing together. -/
theorem paired_change (h : ProcOk (machine cfg) (conduct cfg) Legal db p) {next}
    (hq : p.prog = .commit next) (hobs : ingestion.Observed db p)
    (hd : Db.document db id = some d) (hd' : Db.document (p.writes ++ db) id = some d')
    {c : ProcessingChange} (hch : ChangesProcessing cfg db p id c r r') (hpaired : Paired d r) :
    Paired d' r' := by
  have hresult := hch.result
  have htransition := hch.transition
  have hcause := hch.cause
  cases c with
  | progressed org state n inc scan =>
      obtain ⟨-, rfl⟩ := document_kept h hq hd hd' hch.did (by simp) (by simp)
      have hstate : r'.state = state := by rw [hresult]; rfl
      rcases hcause with ⟨job, final, d₀, r₀, cur, -, rfl, hloaded, -, -, d₁, r₁, hl₁, hready⟩ |
        ⟨_, _, _, _, _, _, _, hc, _⟩
      · rcases hready with ⟨rfl, -, -⟩ | ⟨rfl, -, hstorage⟩
        · refine hpaired.keep htransition (fun hb => ?_) (fun hb => ?_) <;>
            rw [hstate] at hb <;> cases hb
        · refine hpaired.keep htransition (fun hb => ?_) (fun _ => ?_)
          · rw [hstate] at hb
            cases hb
          · obtain ⟨d₂, -, hd₂, -, -, -, -, hsame⟩ := Left.of_loaded hobs.fact hl₁
            have heq : d₂ = d' := Option.some.inj (hd₂.symm.trans hd)
            rw [← heq, hsame hstorage]
            exact hstorage
      · cases hc
  | parsed org =>
      rcases hcause with ⟨job, final, d₀, r₀, cur, -, rfl, -, hsub, -, key, sha, dup, n, hdid⟩ |
        ⟨_, _, _, _, _, _, _, hc, _⟩
      · obtain ⟨old, new, hchd, hnew⟩ := did_updateDocument h (hsub hdid)
          (document_hit h hobs (hsub hdid))
        have heq : new = d' := Option.some.inj (hnew.symm.trans hd')
        rw [← heq, hchd.result, hresult]
        exact ⟨by simp [DocumentChange.apply], by simp [DocumentChange.apply], .inl rfl⟩
      · cases hc
  | suggested org ocr =>
      obtain ⟨-, rfl⟩ := document_kept h hq hd hd' hch.did (by simp) (by simp)
      have hstate : r'.state = .needsReview := by rw [hresult]; rfl
      refine hpaired.keep htransition (fun hb => ?_) (fun hb => ?_) <;>
        rw [hstate] at hb <;> cases hb
  | blocked org =>
      rcases hcause with ⟨job, final, d₀, r₀, cur, -, rfl, -, hsub, -, n, hdid⟩ |
        ⟨_, _, _, _, _, _, _, hc, _⟩
      · obtain ⟨old, new, hchd, hnew⟩ := did_updateDocument h (hsub hdid)
          (document_hit h hobs (hsub hdid))
        have heq : new = d' := Option.some.inj (hnew.symm.trans hd')
        have hold : old = d := Option.some.inj (hchd.committed.symm.trans hd)
        have hstate : r'.state = .blocked := by rw [hresult]; rfl
        rw [hstate] at htransition
        have hnone : d.approvedObjectKey = none ∧ d.sha256 = none := by
          unfold Paired at hpaired
          cases hs : d.storageState <;> rw [hs] at hpaired
          case quarantined => exact ⟨hpaired.1, hpaired.2.1⟩
          case blocked => exact ⟨hpaired.1, hpaired.2.1⟩
          case approved =>
            rcases hpaired.2.2 with hr | hr | hr <;> rw [hr] at htransition <;> cases htransition
        rw [← heq, hchd.result, hold]
        exact ⟨hnone.1, hnone.2, hstate⟩
      · cases hc
  | manualReview org code =>
      obtain ⟨-, rfl⟩ := document_kept h hq hd hd' hch.did (by simp) (by simp)
      have hstate : r'.state = .manualReview := by rw [hresult]; rfl
      refine hpaired.keep htransition (fun hb => ?_) (fun hb => ?_) <;>
        rw [hstate] at hb <;> cases hb
  | reset org storage =>
      obtain ⟨hk, rfl⟩ := document_kept h hq hd hd' hch.did (by simp) (by simp)
      have hstate : r'.state = if storage = .approved then .parsed else .quarantined := by
        rw [hresult]
        rfl
      rcases hcause with ⟨job, final, d₀, r₀, cur, -, rfl, -, hsub, -, hsaw⟩ |
        ⟨_, _, _, _, _, _, _, hc, _⟩
      · refine hpaired.keep htransition (fun hb => ?_) (fun hb => ?_)
        · rw [hstate] at hb
          split at hb <;> cases hb
        · rw [hstate] at hb
          split at hb
          · rename_i happroved
            rw [saw_storage h hobs hd hk (hsub hsaw) (by rw [happroved]; decide), happroved]
            decide
          · cases hb
      · cases hc
  | queueFailed org code =>
      obtain ⟨-, rfl⟩ := document_kept h hq hd hd' hch.did (by simp) (by simp)
      have hstate : r'.state = .manualReview := by rw [hresult]; rfl
      refine hpaired.keep htransition (fun hb => ?_) (fun hb => ?_) <;>
        rw [hstate] at hb <;> cases hb

/-- A transaction that blocks the processing of a document blocks its invoice. -/
theorem blocks_invoice (h : ProcOk (machine cfg) (conduct cfg) Legal db p) {next}
    (hq : p.prog = .commit next) (hobs : ingestion.Observed db p)
    (hd : Db.document db id = some d) {org : Id}
    (hch : ChangesProcessing cfg db p id (.blocked org) r r')
    (hv' : Db.invoice (p.writes ++ db) d.invoiceId = some v') : v'.status = .blocked := by
  rcases hch.cause with ⟨job, final, d₀, r₀, cur, hop, rfl, hloaded, hsub, -, n, hdid⟩ |
    ⟨_, _, _, _, _, _, _, hc, _⟩
  · have hdue := commit_due h hq
    rw [hop] at hdue
    obtain ⟨-, k, -, hk⟩ := hdue.blocked _ _ (hsub hdid)
    obtain ⟨d₁, -, hd₁, -, hi, -⟩ := Left.of_loaded hobs.fact hloaded
    have heq : d₁ = d := Option.some.inj (hd₁.symm.trans hd)
    obtain ⟨old, new, hchanges, hnew⟩ := did_updateInvoice h hk (invoice_hit h hobs (.inl rfl) hk)
    rw [← hi, heq] at hnew
    have hsame : new = v' := Option.some.inj (hnew.symm.trans hv')
    rw [← hsame, hchanges.result]
    rfl
  · cases hc

theorem blocked_change {c : ProcessingChange}
    (hch : ChangesProcessing cfg db p id c r r') (hblocked : r'.state = .blocked) :
    ∃ org, c = .blocked org := by
  rw [hch.result] at hblocked
  have hcause := hch.cause
  cases c with
  | blocked org => exact ⟨org, rfl⟩
  | progressed org state n inc scan =>
      rcases hcause with ⟨job, final, d₀, r₀, cur, -, -, -, -, -, d₁, r₁, -, hready⟩ |
        ⟨_, _, _, _, _, _, _, hc, _⟩
      · rcases hready with ⟨rfl, -, -⟩ | ⟨rfl, -, -⟩ <;> cases hblocked
      · cases hc
  | reset org storage =>
      simp only [ProcessingChange.apply] at hblocked
      split at hblocked <;> cases hblocked
  | parsed org => cases hblocked
  | suggested org ocr => cases hblocked
  | manualReview org code => cases hblocked
  | queueFailed org code => cases hblocked

/-- A commit keeps document, processing and invoice together. -/
theorem Tracked.commit (h : ProcOk (machine cfg) (conduct cfg) Legal db p) {next}
    (hq : p.prog = .commit next) (hobs : ingestion.Observed db p) (hinv : Ingestion db)
    (hd : Db.document db id = some d) (hd' : Db.document (p.writes ++ db) id = some d')
    (hr : Db.processing db id = some r) (hr' : Db.processing (p.writes ++ db) id = some r')
    (hv : Db.invoice db d.invoiceId = some v)
    (hv' : Db.invoice (p.writes ++ db) d.invoiceId = some v') (ht : Tracked d r v) :
    Tracked d' r' v' := by
  have hsuffix := List.suffix_append p.writes db
  obtain ⟨d₁, hd₁, hdlater⟩ := document_later h.view hsuffix hd
  have heq : d₁ = d' := Option.some.inj (hd₁.symm.trans hd')
  subst heq
  obtain ⟨r₁, hr₁, hrlater⟩ := processing_later h.view hsuffix hr
  have heq : r₁ = r' := Option.some.inj (hr₁.symm.trans hr')
  subst heq
  obtain ⟨v₁, hv₁, hvlater⟩ := invoice_later h.view hsuffix hv
  have heq : v₁ = v' := Option.some.inj (hv₁.symm.trans hv')
  subst heq
  have hmove := invoice_move h hobs hinv hd hr hv hv'
  have hfinal : ∀ {c : ProcessingChange} {r₂ : DocumentProcessing},
      ChangesProcessing cfg db p id c r r₂ → r₂ = r₁ :=
    fun hch => Option.some.inj ((hch.final h).symm.trans hr')
  refine ⟨?_, ?_, ?_, fun hundone => ?_, fun hblocked => ?_⟩
  · rw [hrlater.organizationId, ht.processing, hdlater.organizationId]
  · rw [hvlater.organizationId, ht.invoice, hdlater.organizationId]
  · rcases commit_processing h hr' with ⟨hk, hold⟩ | hinserts | ⟨c, old, hch⟩
    · have hsame : r₁ = r := Option.some.inj (hold.symm.trans hr)
      rcases commit_document h hd' with ⟨-, hold⟩ | hinserts | ⟨c, old, hch⟩
      · have hsame' : d₁ = d := Option.some.inj (hold.symm.trans hd)
        rw [hsame, hsame']
        exact ht.paired
      · exact absurd (Log.mem_keys_of_row hd) hinserts.fresh
      · -- a change of the document goes with one of its processing row
        have hwritten : ∀ {c : ProcessingChange} {n : Nat},
            Did p.calls (.updateProcessing id c) n → (∀ org code, c ≠ .manualReview org code) →
            False := by
          intro c n hdid hc
          obtain ⟨r₂, hch₂, -⟩ := changes_of_did h hobs hdid hc hr
          obtain ⟨newer, older, rows, base, hcur, hwrote, -⟩ := did_event h hch₂.did
          cases hwrote with
          | updateProcessing hupdated =>
              cases hupdated with
              | wrote old new hrow happlies hchange =>
                  exact hk (written_key hcur List.mem_cons_self)
        rcases hch.source h hq with ⟨_, _, _, _, m, -, hm⟩ | ⟨_, m, -, hm⟩
        · exact (hwritten hm (by simp)).elim
        · exact (hwritten hm (by simp)).elim
    · exact absurd (Log.mem_keys_of_row hr) hinserts.fresh
    · have hsame : old = r := Option.some.inj (hch.committed.symm.trans hr)
      subst hsame
      exact paired_change h hq hobs hd hd' hch ht.paired
  · have hundone' : r.state.done = false := by
      cases hdone : r.state.done with
      | false => rfl
      | true => rw [hrlater.done hdone, hdone] at hundone; cases hundone
    have hprocessing := ht.working hundone'
    cases hmove with
    | kept hsame => rw [hsame, hprocessing]
    | served hold hnew => rw [hprocessing] at hold; cases hold
    | suggested hch hstatus => rw [← hfinal hch, hch.result] at hundone; cases hundone
    | blocked hch hresult => rw [← hfinal hch, hch.result] at hundone; cases hundone
    | failed hch hstatus => rw [← hfinal hch, hch.result] at hundone; cases hundone
    | abandoned hdone hold hstatus => rw [hundone'] at hdone; cases hdone
  · by_cases hold : r.state = .blocked
    · have hstatus := ht.blocked hold
      cases hmove with
      | kept hsame => rw [hsame, hstatus]
      | served hold hnew => rw [hstatus] at hold; cases hold
      | suggested hch _ =>
          have htransition := hch.transition
          rw [hold, hch.result] at htransition
          cases htransition
      | blocked hch hresult => rw [hresult]
      | failed hch _ =>
          have htransition := hch.transition
          rw [hold, hch.result] at htransition
          cases htransition
      | abandoned hdone hprocessing _ => rw [hstatus] at hprocessing; cases hprocessing
    · rcases commit_processing h hr' with ⟨-, hsame⟩ | hinserts | ⟨c, old, hch⟩
      · have hsame : r₁ = r := Option.some.inj (hsame.symm.trans hr)
        exact absurd (hsame ▸ hblocked) hold
      · exact absurd (Log.mem_keys_of_row hr) hinserts.fresh
      · obtain ⟨org, rfl⟩ := blocked_change hch hblocked
        exact blocks_invoice h hq hobs hd hch hv'

/-- An upload commits a document with its processing row and its invoice. -/
theorem uploaded (h : ProcOk (machine cfg) (conduct cfg) Legal db p) {next}
    (hq : p.prog = .commit next) (hd : Did p.calls (.insertDocument id d) ()) :
    InsertsDocument db p id d ∧ Db.document (p.writes ++ db) id = some d ∧ ∃ r v,
      Db.processing (p.writes ++ db) id = some r ∧ InsertsProcessing db p id r ∧
      Db.invoice (p.writes ++ db) d.invoiceId = some v ∧ InsertsInvoice db p d.invoiceId v := by
  obtain ⟨newer, older, rows, base, hcur, hwrote, hbefore⟩ := did_event h hd
  obtain ⟨-, normalize, auth, dto, file, hop, -, v, hv⟩ := conduct_insertDocument hbefore
  have hdue := commit_due h hq
  rw [hop] at hdue
  obtain ⟨id', d', r, hd', hi, hr⟩ := hdue.1 _ v (calls_subset_of_event hcur hv)
  have hsame := same_update h hd hd'
    (fun past cur hb => by rw [hop] at hb; exact hb.2.2.2.2.2.2 id' d')
    (fun past cur hb => by rw [hop] at hb; exact hb.2.2.2.2.2.2 id d)
  cases hsame
  have hdocument : InsertsDocument db p id d ∧ Db.document (p.writes ++ db) id = some d := by
    cases hwrote with
    | insertDocument hinserted =>
        have hfresh := inserted_fresh h hcur hinserted
        obtain ⟨w, hw, -⟩ := written_later h hcur (hinserted.row)
        have hkey : Key.document id ∈ p.writes.keys :=
          written_key hcur (Log.mem_keys_of_row hinserted.row)
        rcases commit_document h hw with ⟨hk, -⟩ | hinserts | ⟨c, old, hch⟩
        · exact absurd hkey hk
        · have hsame := same_update h hd hinserts.did
            (fun past cur hb => by rw [hop] at hb; exact hb.2.2.2.2.2.2 id w)
            (fun past cur hb => by rw [hop] at hb; exact hb.2.2.2.2.2.2 id d)
          cases hsame
          exact ⟨hinserts, hw⟩
        · exact absurd (Log.mem_keys_of_row hch.committed) hfresh
  refine ⟨hdocument.1, hdocument.2, ?_⟩
  have hprocessing : ∃ r, Db.processing (p.writes ++ db) id = some r ∧
      InsertsProcessing db p id r := by
    obtain ⟨newer, older, rows, base, hcur, hwrote, -⟩ := did_event h hr
    cases hwrote with
    | insertProcessing hinserted =>
        have hfresh := inserted_fresh h hcur hinserted
        obtain ⟨w, hw, -⟩ := written_later h hcur (hinserted.row)
        have hkey : Key.processing id ∈ p.writes.keys :=
          written_key hcur (Log.mem_keys_of_row hinserted.row)
        rcases commit_processing h hw with ⟨hk, -⟩ | hinserts | ⟨c, old, hch⟩
        · exact absurd hkey hk
        · exact ⟨w, hw, hinserts⟩
        · exact absurd (Log.mem_keys_of_row hch.committed) hfresh
  have hinvoice : ∃ v, Db.invoice (p.writes ++ db) d.invoiceId = some v ∧
      InsertsInvoice db p d.invoiceId v := by
    obtain ⟨newer, older, rows, base, hcur, hwrote, -⟩ :=
      did_event h (calls_subset_of_event hcur hv)
    cases hwrote with
    | insertInvoice hinserted =>
        have hfresh := inserted_fresh h hcur hinserted
        obtain ⟨w, hw, -⟩ := written_later h hcur (hinserted.row)
        have hkey : Key.invoice d.invoiceId ∈ p.writes.keys :=
          written_key hcur (Log.mem_keys_of_row hinserted.row)
        rcases commit_invoice h hw with ⟨hk, -⟩ | hinserts | ⟨c, old, hch⟩
        · exact absurd hkey hk
        · exact ⟨w, hw, hinserts⟩
        · exact absurd (Log.mem_keys_of_row hch.committed) hfresh
  obtain ⟨r, hr, hprocessing⟩ := hprocessing
  obtain ⟨v, hv, hinvoice⟩ := hinvoice
  exact ⟨r, v, hr, hprocessing, hv, hinvoice⟩

theorem commit_document_later (h : ProcOk (machine cfg) (conduct cfg) Legal db p)
    (hd : Db.document (p.writes ++ db) id = some d') : InsertsDocument db p id d' ∨
      ∃ d, Db.document db id = some d ∧ DocumentLater d d' := by
  rcases commit_document h hd with ⟨-, hold⟩ | hinserts | ⟨c, old, hch⟩
  · exact .inr ⟨d', hold, ⟨rfl, rfl, rfl, fun _ => rfl, fun _ => rfl⟩⟩
  · exact .inl hinserts
  · obtain ⟨w, hw, hlater⟩ := document_later h.view (List.suffix_append p.writes db) hch.committed
    have hsame : w = d' := Option.some.inj (hw.symm.trans hd)
    exact .inr ⟨old, hch.committed, hsame ▸ hlater⟩

theorem Ingestion.commit (h : ProcOk (machine cfg) (conduct cfg) Legal db p) {next}
    (hq : p.prog = .commit next) (hobs : ingestion.Observed db p) (hinv : Ingestion db) :
    Ingestion (p.writes ++ db) := by
  have hsuffix := List.suffix_append p.writes db
  refine ⟨fun id d' hd' => ?_, fun id r' hr' => ?_, fun id id' d d' hd hd' hi => ?_⟩
  · rcases commit_document_later h hd' with hinserts | ⟨d, hd, hlater⟩
    · obtain ⟨-, -, r, v, hr, hprocessing, hv, hinvoice⟩ := uploaded h hq hinserts.did
      obtain ⟨_, auth, _, _, hop, horg, -⟩ := hinserts.op
      obtain ⟨_, auth₁, _, _, hop₁, horg₁, -⟩ := hprocessing.op
      obtain ⟨_, auth₂, _, _, hop₂, horg₂⟩ := hinvoice.op
      rw [hop] at hop₁ hop₂
      cases hop₁
      cases hop₂
      refine ⟨r, v, hr, hv, horg₁.trans horg.symm, horg₂.trans horg.symm, ?_, fun _ => ?_,
        fun hb => ?_⟩
      · unfold Paired
        rw [hinserts.quarantined.1]
        exact ⟨hinserts.quarantined.2.1, hinserts.quarantined.2.2.1, .inl hprocessing.state⟩
      · exact hinvoice.status
      · rw [hprocessing.state] at hb
        cases hb
    · obtain ⟨r, v, hr, hv, ht⟩ := hinv.tracked id d hd
      obtain ⟨r', hr', -⟩ := processing_later h.view hsuffix hr
      obtain ⟨v', hv', -⟩ := invoice_later h.view hsuffix hv
      refine ⟨r', v', hr', ?_, ht.commit h hq hobs hinv hd hd' hr hr' hv hv'⟩
      rw [hlater.invoiceId]
      exact hv'
  · rcases commit_processing h hr' with ⟨-, hold⟩ | hinserts | ⟨c, old, hch⟩
    · obtain ⟨d, hd⟩ := hinv.owned id r' hold
      obtain ⟨d', hd', -⟩ := document_later h.view hsuffix hd
      exact ⟨d', hd'⟩
    · obtain ⟨_, _, _, _, _, _, d, hd⟩ := hinserts.op
      exact ⟨d, (uploaded h hq hd).2.1⟩
    · obtain ⟨d, hd⟩ := hinv.owned id old hch.committed
      obtain ⟨d', hd', -⟩ := document_later h.view hsuffix hd
      exact ⟨d', hd'⟩
  · -- a new document has a new invoice
    have hnew : ∀ {id id' : Id} {d d' : Document}, InsertsDocument db p id d →
        Db.document db id' = some d' → d.invoiceId = d'.invoiceId → False := by
      intro id id' d d' hinserts hold hi
      obtain ⟨-, -, _, v, -, -, -, hinvoice⟩ := uploaded h hq hinserts.did
      obtain ⟨_, w, _, hw, -⟩ := hinv.tracked id' d' hold
      rw [← hi] at hw
      exact hinvoice.fresh (Log.mem_keys_of_row hw)
    rcases commit_document_later h hd with hinserts | ⟨e, he, hlater⟩
    · rcases commit_document_later h hd' with hinserts' | ⟨e', he', hlater'⟩
      · obtain ⟨_, _, _, _, hop, -⟩ := hinserts.op
        have hsame := same_update h hinserts.did hinserts'.did
          (fun past cur hb => by rw [hop] at hb; exact hb.2.2.2.2.2.2 id' d')
          (fun past cur hb => by rw [hop] at hb; exact hb.2.2.2.2.2.2 id d)
        cases hsame
        rfl
      · exact (hnew hinserts he' (hi.trans hlater'.invoiceId)).elim
    · rcases commit_document_later h hd' with hinserts' | ⟨e', he', hlater'⟩
      · exact (hnew hinserts' he (hi.symm.trans hlater.invoiceId)).elim
      · exact hinv.single id id' e e' he he'
          (hlater.invoiceId.symm.trans (hi.trans hlater'.invoiceId))

/-- Whoever changes a row that is not under review belongs to a document in work. -/
theorem ChangesInvoice.reviewed_kept (h : ProcOk (machine cfg) (conduct cfg) Legal db p)
    (hobs : ingestion.Observed db p) (hinv : Ingestion db) {c : InvoiceChange}
    (hch : ChangesInvoice cfg db p i c old new) (hold : old.status.reviewed = true) :
    new.status.reviewed = true := by
  cases hc : c.isApi with
  | true => exact (hch.reviewed h (fun e he => (hobs.rel e he).reviewed) hc).2
  | false =>
      obtain ⟨id, d, r, hd, rfl, hr, hsource⟩ := hch.source h hobs hc
      have hresult := hch.result
      cases c with
      | suggested org =>
          rw [hresult]
          rfl
      | blocked org =>
          obtain ⟨r', hsource⟩ := hsource
          obtain ⟨r₁, v, hr₁, hv, ht⟩ := hinv.tracked id d hd
          have hsame : r₁ = r := Option.some.inj (hr₁.symm.trans hr)
          have hsame' : v = old := Option.some.inj (hv.symm.trans hch.committed)
          subst hsame hsame'
          have htransition := hsource.transition
          rw [hsource.result] at htransition
          cases hdone : r₁.state.done with
          | false =>
              rw [ht.working hdone] at hold
              cases hold
          | true =>
              rw [ht.blocked (transition_done htransition hdone).symm] at hold
              cases hold
      | manualReview org =>
          rw [hresult]
          rfl
      | queueFailed org =>
          rw [hresult]
          rfl
      | _ => cases hc

theorem Ingested.commit (h : ProcOk (machine cfg) (conduct cfg) Legal db p) {next}
    (hq : p.prog = .commit next) (hobs : ingestion.Observed db p) (hinv : Ingestion db) :
    Ingested db (p.writes ++ db) := by
  have hsuffix := List.suffix_append p.writes db
  refine ⟨fun id d hd hs => ?_, fun id d v hd hs hv => ?_, fun i v hv hr => ?_⟩
  · obtain ⟨d', hd', hlater⟩ := document_later h.view hsuffix hd
    refine ⟨d', hd', ?_, hlater.invoiceId⟩
    rcases commit_document h hd' with ⟨-, hold⟩ | hinserts | ⟨c, old, hch⟩
    · rw [Option.some.inj (hold.symm.trans hd)]
    · exact absurd (Log.mem_keys_of_row hd) hinserts.fresh
    · have hsame : old = d := Option.some.inj (hch.committed.symm.trans hd)
      subst hsame
      obtain ⟨r, v, hr, -, ht⟩ := hinv.tracked id old hd
      have hpaired := ht.paired
      unfold Paired at hpaired
      have hresult := hch.result
      rcases hch.source h hq with ⟨org, key, sha, dup, m, rfl, hm⟩ | ⟨org, m, rfl, hm⟩
      · obtain ⟨r', hsource, -⟩ := changes_of_did h hobs hm (by simp) hr
        have htransition := hsource.transition
        rw [hsource.result] at htransition
        cases hstate : old.storageState with
        | quarantined => exact absurd hstate hs
        | approved =>
            rw [hresult]
            rfl
        | blocked =>
            rw [hstate] at hpaired
            rw [hpaired.2.2] at htransition
            cases htransition
      · obtain ⟨r', hsource, -⟩ := changes_of_did h hobs hm (by simp) hr
        have htransition := hsource.transition
        rw [hsource.result] at htransition
        cases hstate : old.storageState with
        | quarantined => exact absurd hstate hs
        | approved =>
            rw [hstate] at hpaired
            rcases hpaired.2.2 with hr | hr | hr <;> rw [hr] at htransition <;> cases htransition
        | blocked =>
            rw [hresult]
            rfl
  · obtain ⟨r, w, hr, hw, ht⟩ := hinv.tracked id d hd
    have hsame : w = v := Option.some.inj (hw.symm.trans hv)
    subst hsame
    have hpaired := ht.paired
    unfold Paired at hpaired
    rw [hs] at hpaired
    have hstatus := ht.blocked hpaired.2.2
    obtain ⟨w', hw', -⟩ := invoice_later h.view hsuffix hv
    constructor
    · have hkept : w' = w := by
        cases invoice_move h hobs hinv hd hr hv hw' with
        | kept hsame => exact hsame
        | served hold hnew =>
            rw [hstatus] at hold
            cases hold
        | suggested hch _ =>
            have htransition := hch.transition
            rw [hpaired.2.2, hch.result] at htransition
            cases htransition
        | blocked hch hresult =>
            rw [hresult, ← hstatus]
        | failed hch _ =>
            have htransition := hch.transition
            rw [hpaired.2.2, hch.result] at htransition
            cases htransition
        | abandoned hdone hold _ =>
            rw [hstatus] at hold
            cases hold
      rw [← hkept]
      exact hw'
    · rcases commit_lines h with hsame | ⟨auth, dto, e, -, hdid⟩
      · exact hsame
      · obtain ⟨old, new, hch, -⟩ := did_updateInvoice h hdid Nat.one_ne_zero
        have hsame : old = w := Option.some.inj (hch.committed.symm.trans hv)
        have hold := (hch.reviewed h (fun e he => (hobs.rel e he).reviewed) rfl).1
        rw [hsame, hstatus] at hold
        cases hold
  · obtain ⟨w, hw, -⟩ := invoice_later h.view hsuffix hv
    refine ⟨w, hw, ?_⟩
    rcases commit_invoice h hw with ⟨-, hold⟩ | hinserts | ⟨c, old, hch⟩
    · rw [Option.some.inj (hold.symm.trans hv)]
      exact hr
    · exact absurd (Log.mem_keys_of_row hv) hinserts.fresh
    · have hsame : old = v := Option.some.inj (hch.committed.symm.trans hv)
      exact hch.reviewed_kept h hobs hinv (hsame ▸ hr)

/-- A transaction writes a document at most once. -/
theorem document_once (h : ProcOk (machine cfg) (conduct cfg) Legal db p)
    {newer older : List (Event Val Out)} {e : Event Val Out} (hcur : p.current = newer ++ e :: older)
    (hk : Key.document id ∈ e.rows.keys) : Key.document id ∉ (writes older).keys := by
  have htrace := h.trace
  rw [hcur] at htrace
  have hx := htrace.executed
  obtain ⟨s, out, rows, base⟩ := e
  have hinserted : ∀ {w : Document} {indexes : List UniqueIndex},
      Inserted (writes older ++ base) (.document id) w indexes rows →
        Key.document id ∉ (writes older).keys := by
    intro w indexes hi hmem
    refine hi.fresh ?_
    rw [Log.keys_append]
    exact List.mem_append_left _ hmem
  have hbefore := hx.allowed
  have hran : Ran cfg (writes older ++ base) s out rows := executed_ran hx
  cases hran with
  | read choice hanswer => simp [List.keys] at hk
  | call choice hreply => cases reply_internal hreply hk
  | write hwrote =>
      have htarget := hwrote.target hk rfl
      cases hwrote with
      | insertDocument hi =>
          cases htarget
          exact hinserted hi
      | updateDocument hu =>
          cases htarget
          exact document_first h hcur hbefore
      | _ => cases htarget

/-- A document that a statement found is the committed one, or the one its transaction wrote. -/
theorem document_seen (h : ProcOk (machine cfg) (conduct cfg) Legal db p)
    {newer older : List (Event Val Out)} {e : Event Val Out} (hcur : p.current = newer ++ e :: older)
    (hd : Db.document (writes older ++ e.base) id = some d) :
    Db.document e.base id = some d ∨ Db.document (p.writes ++ db) id = some d := by
  by_cases hk : Key.document id ∈ (writes older).keys
  · right
    have hfree : Key.document id ∉ (writes (newer ++ [e])).keys := by
      intro hmem
      obtain ⟨e', he', hke⟩ := mem_keys_writes.mp hmem
      obtain ⟨a, b, hsplit⟩ := List.append_of_mem he'
      have hcur' : p.current = a ++ e' :: (b ++ older) := by
        rw [hcur, ← List.singleton_append, ← List.append_assoc, hsplit, List.append_assoc,
          List.cons_append]
      refine document_once h hcur' hke ?_
      rw [writes_append, Log.keys_append]
      exact List.mem_append_right _ hk
    obtain ⟨w, hw⟩ := Log.exists_row_of_mem_keys hk
    rw [Db.document, Log.row_append_of_row _ hw] at hd
    cases hd
    have hwrites : p.writes = writes (newer ++ [e]) ++ writes older := by
      rw [Proc.writes, hcur, ← writes_append, List.append_assoc, List.singleton_append]
    rw [Db.document, hwrites, List.append_assoc, Log.row_append_of_not_mem _ hfree]
    exact Log.row_append_of_row _ hw
  · left
    rwa [Db.document, Log.row_append_of_not_mem _ hk] at hd

theorem Left.commit (h : ProcOk (machine cfg) (conduct cfg) Legal db p) {next}
    (hq : p.prog = .commit next) (hobs : ingestion.Observed db p) (hinv : Ingestion db)
    {e : Event Val Out} (he : e ∈ p.current) : Left p.op e.call (p.writes ++ db) := by
  have hcall : e.call ∈ p.calls := List.mem_map_of_mem he
  unfold Left
  split
  · rename_i job d r heq
    rw [heq] at hcall
    obtain ⟨newer, older, base, choice, hcur, hanswer⟩ := saw_event h hcall
    obtain ⟨d₁, hd₁, hanswer⟩ := Option.bind_eq_some_iff.mp (Option.some.inj hanswer)
    obtain ⟨r₁, hr₁, hpair⟩ := Option.bind_eq_some_iff.mp hanswer
    cases hpair
    obtain ⟨hd₁, hjob⟩ := rowWhere_eq_some.mp hd₁
    obtain ⟨hr₁, horg⟩ := rowWhere_eq_some.mp hr₁
    simp only [decide_eq_true_eq] at hjob horg
    obtain ⟨d', hd', hlater⟩ := view_later h hcur (k := .document job.documentId) hd₁
    obtain ⟨r', hr', hlater'⟩ := view_later h hcur (k := .processing job.documentId) hr₁
    refine ⟨d', r', hd', hr', hlater.invoiceId.trans hjob.1, hlater.organizationId.trans hjob.2,
      hlater'.organizationId.trans (horg.trans hjob.2), fun hne => ?_⟩
    rcases document_seen h hcur hd₁ with hbase | hwritten
    · have hrel : Ingested base (p.writes ++ db) :=
        (hobs.rel _ (mem_of_event hcur)).trans (Ingested.commit h hq hobs hinv)
      obtain ⟨d₂, hd₂, hstate, -⟩ := hrel.storage _ d hbase hne
      have hsame : d₂ = d' := Option.some.inj (hd₂.symm.trans hd')
      rw [← hsame, hstate]
    · have hsame : d = d' := Option.some.inj (hwritten.symm.trans hd')
      rw [hsame]
  · rename_i id org code n heq
    rw [heq] at hcall
    have hdid : Did p.calls (.updateProcessing id (.manualReview org code)) n := hcall
    by_cases hn : n = 0
    · subst hn
      obtain ⟨newer, older, rows, base, hcur, hwrote, hbefore⟩ := did_event h hdid
      have hknown := hobs.known _ (mem_of_event hcur)
      rcases conduct_processingCause hbefore with ⟨job, final, d, r, hop, rfl, hloaded, hready⟩ |
        ⟨_, _, _, _, _, _, _, hc, _⟩
      · obtain ⟨-, r', -, hr', -, -, horg, -⟩ := Left.of_loaded hknown hloaded
        have hview : Db.processing (writes older ++ base) job.documentId = some r' :=
          (Log.row_append_of_not_mem _ (processing_first h hcur hbefore)).trans hr'
        cases hwrote with
        | updateProcessing hu =>
            cases hu with
            | missed hmissed =>
                have hnot := hmissed r' hview
                have hsame : org = job.organizationId := hready
                simp only [ProcessingChange.applies, hsame, horg, ne_eq, true_and,
                  decide_eq_false_iff_not, not_and, not_not] at hnot
                have hdone : r'.state.done = true := by
                  by_cases hreview : r'.state = .needsReview
                  · rw [hreview]
                    rfl
                  · rw [hnot hreview]
                    rfl
                obtain ⟨r₁, hr₁, hlater⟩ := view_later h hcur (k := .processing job.documentId) hview
                exact ⟨r₁, hr₁, (congrArg _ (hlater.done hdone)).trans hdone⟩
      · cases hc
    · obtain ⟨old, new, hch, hnew⟩ := did_updateProcessing h hdid hn
      exact ⟨new, hnew, by rw [hch.result]; rfl⟩
  · rename_i id d u heq
    rw [heq] at hcall
    obtain ⟨hinserts, hd, r, v, hr, hprocessing, -⟩ := uploaded h hq hcall
    obtain ⟨_, auth, _, _, hop, horg, -⟩ := hinserts.op
    obtain ⟨_, auth₁, _, _, hop₁, horg₁, -⟩ := hprocessing.op
    rw [hop] at hop₁
    cases hop₁
    refine ⟨d, r, hd, hr, rfl, horg₁.trans horg.symm, fun _ _ _ _ hop' => ?_⟩
    rw [hop] at hop'
    cases hop'
    exact horg
  · trivial

theorem Ingestion.outside {rows : Db} (hext : (machine cfg).external db rows)
    (hinv : Ingestion db) : Ingestion (rows ++ db) := by
  have hdocument : ∀ i, Db.document (rows ++ db) i = Db.document db i :=
    fun i => external_row hext rfl
  have hprocessing : ∀ i, Db.processing (rows ++ db) i = Db.processing db i :=
    fun i => external_row hext rfl
  have hinvoice : ∀ i, Db.invoice (rows ++ db) i = Db.invoice db i :=
    fun i => external_row hext rfl
  constructor
  · simpa only [hdocument, hprocessing, hinvoice] using hinv.tracked
  · simpa only [hdocument, hprocessing] using hinv.owned
  · simpa only [hdocument] using hinv.single

theorem Ingested.outside {rows : Db} (hext : (machine cfg).external db rows) :
    Ingested db (rows ++ db) := by
  have hdocument : ∀ i, Db.document (rows ++ db) i = Db.document db i :=
    fun i => external_row hext rfl
  have hinvoice : ∀ i, Db.invoice (rows ++ db) i = Db.invoice db i :=
    fun i => external_row hext rfl
  exact ⟨fun id d hd _ => ⟨d, (hdocument id).trans hd, rfl, rfl⟩,
    fun _ _ _ _ _ hv => ⟨(hinvoice _).trans hv, external_lines hext _⟩,
    fun i v hv hr => ⟨v, (hinvoice i).trans hv, hr⟩⟩

theorem ingestion_sound {ok : System → SystemAction → Prop} {s₀ : System} :
    ingestion.Sound (machine cfg) (conduct cfg) Legal ok s₀ where
  refl := Ingested.refl
  trans _ _ _ h h' := h.trans h'
  keep _ _ _ _ hs hc hrel h := h.keep hs hc hrel
  commit _ _ _ _ _ _ hq hok hobs hinv := ⟨hinv.commit hok hq hobs, .commit hok hq hobs hinv,
    fun _ he => Left.commit hok hq hobs hinv he⟩
  external _ _ _ hext hinv := ⟨hinv.outside hext, .outside hext⟩

end Commit
end BlocTrust
