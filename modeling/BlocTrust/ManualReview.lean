import BlocTrust.MalwareGate

/-!
Manual review.
An invoice goes to manual review together with the processing row of its document, and an
invoice is past processing exactly when that row is.  The database has no transition of a
processing row out of manual review, and the services set the status of an invoice only if
they have found it past processing, so an invoice never leaves manual review.
-/
namespace BlocTrust

open ReadCommitted

/-- The statuses of an invoice whose document has been processed. -/
def InvoiceStatus.processed : InvoiceStatus → Bool
  | needsReview | awaitingApproval | approved | rejected => true
  | _ => false

/-- An invoice whose status has the property goes on having it. -/
def StatusStays (P : InvoiceStatus → Prop) (older newer : Db) : Prop :=
  ∀ i v, Db.invoice older i = some v → P v.status →
    ∃ w, Db.invoice newer i = some w ∧ P w.status

theorem StatusStays.refl (P : InvoiceStatus → Prop) (db : Db) : StatusStays P db db :=
  fun _ v hv hP => ⟨v, hv, hP⟩

theorem StatusStays.trans {P : InvoiceStatus → Prop} {a b c : Db} (h : StatusStays P a b)
    (h' : StatusStays P b c) : StatusStays P a c := by
  intro i v hv hP
  obtain ⟨w, hw, hP'⟩ := h i v hv hP
  exact h' i w hw hP'

/-- How a processing row and its invoice agree on the review. -/
structure Parked (r : DocumentProcessing) (v : Invoice) : Prop where
  processed : v.status.processed = true ↔ r.state = .needsReview
  manual : v.status = .manualReview → r.state = .manualReview

structure Reviewing (db : Db) : Prop extends Ingestion db where
  parked : ∀ id d r v, Db.document db id = some d → Db.processing db id = some r →
    Db.invoice db d.invoiceId = some v → Parked r v

structure Lasting (older newer : Db) : Prop where
  ingested : Ingested older newer
  processed : StatusStays (·.processed = true) older newer
  manual : StatusStays (· = .manualReview) older newer
  left : StatusStays (· ≠ .processing) older newer

theorem Lasting.refl (db : Db) : Lasting db db := ⟨.refl db, .refl _ db, .refl _ db, .refl _ db⟩

theorem Lasting.trans {a b c : Db} (h : Lasting a b) (h' : Lasting b c) : Lasting a c :=
  ⟨h.ingested.trans h'.ingested, h.processed.trans h'.processed, h.manual.trans h'.manual,
    h.left.trans h'.left⟩

def reviewing : Account Val Out Op where
  inv := Reviewing
  rel := Lasting
  fact := Left

section Commit

variable {cfg : Config} {db : Db} {p : Process} {id i : Id} {c : InvoiceChange} {d : Document}
  {r r' : DocumentProcessing} {v v' old new : Invoice}

theorem observed_ingestion (h : reviewing.Observed db p) : ingestion.Observed db p where
  allowed := h.allowed
  inv e he := (h.inv e he).toIngestion
  rel e he := (h.rel e he).ingested
  guard _ _ _ _ := trivial
  fact := h.fact
  known := h.known

/-- The services set the status of an invoice that is past processing, or keep its status. -/
theorem ChangesInvoice.served_status (h : ProcOk (machine cfg) (conduct cfg) Legal db p)
    (hobs : reviewing.Observed db p) (hch : ChangesInvoice cfg db p i c old new)
    (hapi : c.isApi = true) :
    old.status.processed = true ∧ new.status.processed = true ∨ new.status = old.status := by
  have happlies := hch.applies
  have hresult := hch.result
  have hcause := hch.cause
  obtain ⟨newer, older, rows, base, hcur, hbase, -, hbefore⟩ := hch.event
  have hfirst := invoice_first h hcur hbefore
  have hseen : ∀ {org w}, Saw (older.map Event.call) (.findInvoice org i) (some w) →
      w.status = .awaitingApproval → old.status.processed = true := by
    intro org w hs hw
    obtain ⟨-, e, he, hinvoice, -⟩ := read_before h hcur hfirst hs
    obtain ⟨w', hw', hprocessed⟩ := (hobs.rel e he).processed i w hinvoice (by rw [hw]; rfl)
    have hsame : w' = old := Option.some.inj (hw'.symm.trans hch.committed)
    exact hsame ▸ hprocessed
  cases c with
  | submitted org version bank =>
      simp only [InvoiceChange.applies, decide_eq_true_eq] at happlies
      exact .inl ⟨by rw [happlies.2.2]; rfl, by rw [hresult]; rfl⟩
  | returned version =>
      simp only [InvoiceChange.applies, decide_eq_true_eq] at happlies
      exact .inl ⟨by rw [happlies.2]; rfl, by rw [hresult]; rfl⟩
  | frozen org vendor =>
      simp only [InvoiceChange.applies, decide_eq_true_eq] at happlies
      exact .inl ⟨by rw [happlies.2.2]; rfl, by rw [hresult]; rfl⟩
  | decided outcome =>
      obtain ⟨auth, id, dto, key, -, -, -, -, hop, -⟩ := hcause
      rw [hop] at hbefore
      obtain ⟨-, r, w, t, n, hready, rfl, -⟩ := hbefore
      have hold := hseen hready.ready.invoice hready.ready.status
      exact .inl ⟨hold, by rw [hresult]; cases outcome <;> rfl⟩
  | edited org version e =>
      obtain ⟨auth, dto, -, hop, -⟩ := hcause
      rw [hop] at hbefore
      obtain ⟨-, -, _, w, hready, heq⟩ := hbefore
      cases heq
      by_cases hinvalidates : e.invalidatesApproval = true
      · have hold := hseen hready.seen (hready.invalidates.mp hinvalidates)
        refine .inl ⟨hold, ?_⟩
        rw [hresult]
        simp [InvoiceChange.apply, InvoiceEdit.apply, hinvalidates, InvoiceStatus.processed]
      · right
        rw [hresult]
        simp [InvoiceChange.apply, InvoiceEdit.apply, hinvalidates]
  | _ => cases hapi

/-- A change of an invoice leaves it past processing, or in manual review, where it is. -/
theorem ChangesInvoice.lasting (h : ProcOk (machine cfg) (conduct cfg) Legal db p)
    (hobs : reviewing.Observed db p) (hinv : Reviewing db)
    (hch : ChangesInvoice cfg db p i c old new) :
    (old.status.processed = true → new.status.processed = true) ∧
      (old.status = .manualReview → new.status = .manualReview) := by
  cases hc : c.isApi with
  | true =>
      rcases hch.served_status h hobs hc with ⟨hold, hnew⟩ | hsame
      · refine ⟨fun _ => hnew, fun hmanual => ?_⟩
        rw [hmanual] at hold
        cases hold
      · rw [hsame]
        exact ⟨fun hold => hold, fun hold => hold⟩
  | false =>
      obtain ⟨id, d, r, hd, rfl, hr, hsource⟩ := hch.source h (observed_ingestion hobs) hc
      have hparked := hinv.parked id d r old hd hr hch.committed
      have happlies := hch.applies
      have hresult := hch.result
      -- the processing row has no transition out of either state
      have hstuck : ∀ {change : ProcessingChange} {r' : DocumentProcessing},
          ChangesProcessing cfg db p id change r r' → r.state.done = true → r'.state = r.state :=
        fun hprocessing hdone => transition_done hprocessing.transition hdone
      cases c with
      | suggested org =>
          obtain ⟨ocr, r', hprocessing⟩ := hsource
          refine ⟨fun _ => by rw [hresult]; rfl, fun hmanual => ?_⟩
          have hr' := hstuck hprocessing (by rw [hparked.manual hmanual]; rfl)
          rw [hparked.manual hmanual, hprocessing.result] at hr'
          cases hr'
      | blocked org =>
          obtain ⟨r', hprocessing⟩ := hsource
          constructor
          · intro hold
            have hr' := hstuck hprocessing (by rw [hparked.processed.mp hold]; rfl)
            rw [hparked.processed.mp hold, hprocessing.result] at hr'
            cases hr'
          · intro hmanual
            have hr' := hstuck hprocessing (by rw [hparked.manual hmanual]; rfl)
            rw [hparked.manual hmanual, hprocessing.result] at hr'
            cases hr'
      | manualReview org =>
          simp only [InvoiceChange.applies, decide_eq_true_eq] at happlies
          rw [happlies.2]
          constructor
          · intro hold
            cases hold
          · intro hold
            cases hold
      | queueFailed org =>
          obtain ⟨code, r', hprocessing⟩ := hsource
          refine ⟨fun hold => ?_, fun _ => by rw [hresult]; rfl⟩
          have hr' := hstuck hprocessing (by rw [hparked.processed.mp hold]; rfl)
          rw [hparked.processed.mp hold, hprocessing.result] at hr'
          cases hr'
      | _ => cases hc

/-- No update sends an invoice back to processing. -/
theorem InvoiceChange.left_processing (c : InvoiceChange) (hleft : v.status ≠ .processing) :
    (c.apply v).status ≠ .processing := by
  cases c with
  | edited org version e =>
      simp only [InvoiceChange.apply, InvoiceEdit.apply]
      split
      · decide
      · exact hleft
  | decided outcome => cases outcome <;> exact InvoiceStatus.noConfusion
  | _ => exact InvoiceStatus.noConfusion

theorem Lasting.commit (h : ProcOk (machine cfg) (conduct cfg) Legal db p) {next}
    (hq : p.prog = .commit next) (hobs : reviewing.Observed db p) (hinv : Reviewing db) :
    Lasting db (p.writes ++ db) := by
  have hmove : ∀ i v, Db.invoice db i = some v → ∃ w, Db.invoice (p.writes ++ db) i = some w ∧
      (v.status.processed = true → w.status.processed = true) ∧
      (v.status = .manualReview → w.status = .manualReview) ∧
      (v.status ≠ .processing → w.status ≠ .processing) := by
    intro i v hv
    obtain ⟨w, hw, -⟩ := invoice_later h.view (List.suffix_append p.writes db) hv
    refine ⟨w, hw, ?_⟩
    rcases commit_invoice h hw with ⟨-, hold⟩ | hinserts | ⟨c, old, hch⟩
    · rw [Option.some.inj (hold.symm.trans hv)]
      exact ⟨fun hp => hp, fun hm => hm, fun hl => hl⟩
    · exact absurd (Log.mem_keys_of_row hv) hinserts.fresh
    · have hsame : old = v := Option.some.inj (hch.committed.symm.trans hv)
      subst hsame
      obtain ⟨hprocessed, hmanual⟩ := hch.lasting h hobs hinv
      refine ⟨hprocessed, hmanual, fun hleft => ?_⟩
      rw [hch.result]
      exact c.left_processing hleft
  refine ⟨.commit h hq (observed_ingestion hobs) hinv.toIngestion, fun i v hv hprocessed => ?_,
    fun i v hv hmanual => ?_, fun i v hv hleft => ?_⟩
  · obtain ⟨w, hw, hkept, -⟩ := hmove i v hv
    exact ⟨w, hw, hkept hprocessed⟩
  · obtain ⟨w, hw, -, hkept, -⟩ := hmove i v hv
    exact ⟨w, hw, hkept hmanual⟩
  · obtain ⟨w, hw, -, -, hkept⟩ := hmove i v hv
    exact ⟨w, hw, hkept hleft⟩

/-- A transaction that hands over the processing row of a document hands over its invoice. -/
theorem hands_over (h : ProcOk (machine cfg) (conduct cfg) Legal db p) {next}
    (hq : p.prog = .commit next) (hobs : ingestion.Observed db p)
    (hd : Db.document db id = some d) {org : Id} {ocr : OcrResult}
    (hch : ChangesProcessing cfg db p id (.suggested org ocr) r r')
    (hv' : Db.invoice (p.writes ++ db) d.invoiceId = some v') : v'.status = .needsReview := by
  rcases hch.cause with ⟨job, final, d₀, r₀, cur, hop, rfl, hloaded, hsub, -⟩ |
    ⟨_, _, _, _, _, _, _, hc, _⟩
  · have hdue := commit_due h hq
    rw [hop] at hdue
    obtain ⟨k, hk⟩ := hdue.suggested _ _ _ hch.did
    obtain ⟨d₁, -, hd₁, -, hi, -⟩ := Left.of_loaded hobs.fact hloaded
    have heq : d₁ = d := Option.some.inj (hd₁.symm.trans hd)
    obtain ⟨old, new, hchanges, hnew⟩ :=
      did_updateInvoice h hk (invoice_hit h hobs (.inr (.inl rfl)) hk)
    rw [← hi, heq] at hnew
    have hsame : new = v' := Option.some.inj (hnew.symm.trans hv')
    rw [← hsame, hchanges.result]
    rfl
  · cases hc

/-- An attempt reports progress in scanning and in parsing only. -/
theorem progressed_state {org : Id} {state : DocumentProcessingState} {n : Nat} {inc : Bool}
    {scan : Option DocumentScanResult}
    (hch : ChangesProcessing cfg db p id (.progressed org state n inc scan) r r') :
    state = .scanning ∨ state = .parsed := by
  rcases hch.cause with ⟨job, final, d₀, r₀, cur, -, -, -, -, -, d₁, r₁, -, hready⟩ |
    ⟨_, _, _, _, _, _, _, hc, _⟩
  · rcases hready with ⟨rfl, -, -⟩ | ⟨rfl, -, -⟩
    · exact .inl rfl
    · exact .inr rfl
  · cases hc

theorem suggested_change {c : ProcessingChange} (hch : ChangesProcessing cfg db p id c r r')
    (hreview : r'.state = .needsReview) : ∃ org ocr, c = .suggested org ocr := by
  rw [hch.result] at hreview
  cases c with
  | suggested org ocr => exact ⟨org, ocr, rfl⟩
  | progressed org state n inc scan =>
      rcases progressed_state hch with rfl | rfl <;> cases hreview
  | reset org storage =>
      simp only [ProcessingChange.apply] at hreview
      split at hreview <;> cases hreview
  | parsed org => cases hreview
  | blocked org => cases hreview
  | manualReview org code => cases hreview
  | queueFailed org code => cases hreview

/-- What becomes of a processing row in a commit. -/
theorem processing_turn (h : ProcOk (machine cfg) (conduct cfg) Legal db p)
    (hr : Db.processing db id = some r) (hr' : Db.processing (p.writes ++ db) id = some r') :
    r' = r ∨ ∃ c, ChangesProcessing cfg db p id c r r' := by
  rcases commit_processing h hr' with ⟨-, hold⟩ | hinserts | ⟨c, old, hch⟩
  · exact .inl (Option.some.inj (hold.symm.trans hr))
  · exact absurd (Log.mem_keys_of_row hr) hinserts.fresh
  · have hsame : old = r := Option.some.inj (hch.committed.symm.trans hr)
    exact .inr ⟨c, hsame ▸ hch⟩

theorem Parked.commit (h : ProcOk (machine cfg) (conduct cfg) Legal db p) {next}
    (hq : p.prog = .commit next) (hobs : reviewing.Observed db p) (hinv : Reviewing db)
    (hd : Db.document db id = some d) (hr : Db.processing db id = some r)
    (hr' : Db.processing (p.writes ++ db) id = some r') (hv : Db.invoice db d.invoiceId = some v)
    (hv' : Db.invoice (p.writes ++ db) d.invoiceId = some v') : Parked r' v' := by
  have hparked := hinv.parked id d r v hd hr hv
  obtain ⟨r₁, w, hr₁, hw, htracked⟩ := hinv.tracked id d hd
  have hsame : r₁ = r := Option.some.inj (hr₁.symm.trans hr)
  subst hsame
  have hsame : w = v := Option.some.inj (hw.symm.trans hv)
  subst hsame
  have hlast := Lasting.commit h hq hobs hinv
  have hdone : r₁.state.done = true → r'.state = r₁.state := by
    intro hdone
    rcases processing_turn h hr hr' with rfl | ⟨c, hch⟩
    · rfl
    · exact transition_done hch.transition hdone
  have hfinal : ∀ {c : ProcessingChange} {r₂ : DocumentProcessing},
      ChangesProcessing cfg db p id c r₁ r₂ → r' = r₂ :=
    fun hch => Option.some.inj (hr'.symm.trans (hch.final h))
  -- where the new status comes from
  have hcases : v'.status = w.status ∨ w.status.processed = true ∧ v'.status.processed = true ∨
      r'.state = .needsReview ∧ v'.status = .needsReview ∨
      v'.status = .blocked ∧ r'.state = .blocked ∨
      v'.status = .manualReview ∧ r'.state = .manualReview := by
    rcases commit_invoice h hv' with ⟨-, hold⟩ | hinserts | ⟨c, old, hch⟩
    · rw [Option.some.inj (hold.symm.trans hv)]
      exact .inl rfl
    · exact absurd (Log.mem_keys_of_row hv) hinserts.fresh
    · have hsame : old = w := Option.some.inj (hch.committed.symm.trans hv)
      subst hsame
      cases hc : c.isApi with
      | true =>
          rcases hch.served_status h hobs hc with hboth | hsame
          · exact .inr (.inl hboth)
          · exact .inl hsame
      | false =>
          obtain ⟨id', d₁, r₂, hd₁, hi, hr₂, hsource⟩ := hch.source h (observed_ingestion hobs) hc
          have hid : id' = id := hinv.single id' id d₁ d hd₁ hd hi
          subst hid
          have hsame : r₂ = r₁ := Option.some.inj (hr₂.symm.trans hr)
          subst hsame
          have happlies := hch.applies
          have hresult := hch.result
          cases c with
          | suggested org =>
              obtain ⟨ocr, r₃, hprocessing⟩ := hsource
              refine .inr (.inr (.inl ⟨?_, by rw [hresult]; rfl⟩))
              rw [hfinal hprocessing, hprocessing.result]
              rfl
          | blocked org =>
              obtain ⟨r₃, hprocessing⟩ := hsource
              refine .inr (.inr (.inr (.inl ⟨by rw [hresult]; rfl, ?_⟩)))
              rw [hfinal hprocessing, hprocessing.result]
              rfl
          | manualReview org =>
              simp only [InvoiceChange.applies, decide_eq_true_eq] at happlies
              have hstate : r₂.state = .manualReview := by
                have hfinished : r₂.state.done = true := hsource
                cases hstate : r₂.state with
                | manualReview => rfl
                | needsReview =>
                    have hprocessed := hparked.processed.mpr hstate
                    rw [happlies.2] at hprocessed
                    cases hprocessed
                | blocked =>
                    have hblocked := htracked.blocked hstate
                    rw [happlies.2] at hblocked
                    cases hblocked
                | _ => rw [hstate] at hfinished; cases hfinished
              refine .inr (.inr (.inr (.inr ⟨by rw [hresult]; rfl, ?_⟩)))
              rw [hdone (by rw [hstate]; rfl), hstate]
          | queueFailed org =>
              obtain ⟨code, r₃, hprocessing⟩ := hsource
              refine .inr (.inr (.inr (.inr ⟨by rw [hresult]; rfl, ?_⟩)))
              rw [hfinal hprocessing, hprocessing.result]
              rfl
          | _ => cases hc
  refine ⟨⟨fun hprocessed => ?_, fun hreview => ?_⟩, fun hmanual => ?_⟩
  · have hkept : w.status.processed = true → r'.state = .needsReview := by
      intro hold
      have hstate := hparked.processed.mp hold
      rw [hdone (by rw [hstate]; rfl), hstate]
    rcases hcases with hsame | ⟨hold, -⟩ | ⟨hstate, -⟩ | ⟨hstatus, -⟩ | ⟨hstatus, -⟩
    · exact hkept (hsame ▸ hprocessed)
    · exact hkept hold
    · exact hstate
    · rw [hstatus] at hprocessed
      cases hprocessed
    · rw [hstatus] at hprocessed
      cases hprocessed
  · have hkept : r₁.state = .needsReview → v'.status.processed = true := by
      intro hstate
      obtain ⟨w', hw', hprocessed⟩ := hlast.processed _ w hv (hparked.processed.mpr hstate)
      have hsame : w' = v' := Option.some.inj (hw'.symm.trans hv')
      exact hsame ▸ hprocessed
    rcases processing_turn h hr hr' with rfl | ⟨c, hch⟩
    · exact hkept hreview
    · obtain ⟨org, ocr, rfl⟩ := suggested_change hch hreview
      rw [hands_over h hq (observed_ingestion hobs) hd hch hv']
      rfl
  · rcases hcases with hsame | ⟨-, hnew⟩ | ⟨-, hstatus⟩ | ⟨hstatus, -⟩ | ⟨-, hstate⟩
    · have hstate := hparked.manual (hsame ▸ hmanual)
      rw [hdone (by rw [hstate]; rfl), hstate]
    · rw [hmanual] at hnew
      cases hnew
    · rw [hmanual] at hstatus
      cases hstatus
    · rw [hmanual] at hstatus
      cases hstatus
    · exact hstate

theorem Reviewing.commit (h : ProcOk (machine cfg) (conduct cfg) Legal db p) {next}
    (hq : p.prog = .commit next) (hobs : reviewing.Observed db p) (hinv : Reviewing db) :
    Reviewing (p.writes ++ db) := by
  refine ⟨hinv.toIngestion.commit h hq (observed_ingestion hobs), fun id d r v hd hr hv => ?_⟩
  rcases commit_document_later h hd with hinserts | ⟨d₀, hd₀, hlater⟩
  · obtain ⟨-, -, r₁, v₁, hr₁, hprocessing, hv₁, hinvoice⟩ := uploaded h hq hinserts.did
    have hsame : r₁ = r := Option.some.inj (hr₁.symm.trans hr)
    have hsame' : v₁ = v := Option.some.inj (hv₁.symm.trans hv)
    subst hsame hsame'
    constructor
    · rw [hinvoice.status, hprocessing.state]
      simp [InvoiceStatus.processed]
    · rw [hinvoice.status]
      exact fun hm => by cases hm
  · obtain ⟨r₀, v₀, hr₀, hv₀, -⟩ := hinv.tracked id d₀ hd₀
    rw [hlater.invoiceId] at hv
    exact Parked.commit h hq hobs hinv hd₀ hr₀ hr hv₀ hv

theorem Reviewing.outside {rows : Db} (hext : (machine cfg).external db rows)
    (hinv : Reviewing db) : Reviewing (rows ++ db) := by
  refine ⟨hinv.toIngestion.outside hext, fun id d r v hd hr hv => ?_⟩
  have hdocument : Db.document (rows ++ db) id = Db.document db id := external_row hext rfl
  have hprocessing : Db.processing (rows ++ db) id = Db.processing db id := external_row hext rfl
  have hinvoice : Db.invoice (rows ++ db) d.invoiceId = Db.invoice db d.invoiceId :=
    external_row hext rfl
  exact hinv.parked id d r v (hdocument.symm.trans hd) (hprocessing.symm.trans hr)
    (hinvoice.symm.trans hv)

theorem Lasting.outside {rows : Db} (hext : (machine cfg).external db rows) :
    Lasting db (rows ++ db) := by
  have hinvoice : ∀ i, Db.invoice (rows ++ db) i = Db.invoice db i :=
    fun i => external_row hext rfl
  have hstays : ∀ P : InvoiceStatus → Prop, StatusStays P db (rows ++ db) :=
    fun P i v hv hP => ⟨v, (hinvoice i).trans hv, hP⟩
  exact ⟨.outside hext, hstays _, hstays _, hstays _⟩

theorem reviewing_sound {ok : System → SystemAction → Prop} {s₀ : System} :
    reviewing.Sound (machine cfg) (conduct cfg) Legal ok s₀ where
  refl := Lasting.refl
  trans _ _ _ h h' := h.trans h'
  keep _ _ _ _ hs hc hrel h := h.keep hs hc hrel.ingested
  commit _ _ _ _ _ _ hq hok hobs hinv := ⟨hinv.commit hok hq hobs, .commit hok hq hobs hinv,
    fun _ he => Left.commit hok hq (observed_ingestion hobs) hinv.toIngestion he⟩
  external _ _ _ hext hinv := ⟨hinv.outside hext, .outside hext⟩

end Commit

section Runs

variable {cfg : Config} {ok ok' : System → SystemAction → Prop} {s₀ s t : System}

theorem reviewing_respects : reviewing.Respects (E := Failure) (R := Response) ok :=
  ⟨fun _ _ _ => trivial, fun _ _ _ _ _ _ _ _ _ => trivial⟩

theorem Uploaded.reviewing {db : Db} (h : Uploaded db) : Reviewing db := by
  refine ⟨h.ingestion, fun id d r v hd hr hv => ?_⟩
  obtain ⟨r₁, hr₁, -, hstate⟩ := h.processing id d hd
  obtain ⟨v₁, hv₁, -, hstatus⟩ := h.invoice id d hd
  have hsame : r₁ = r := Option.some.inj (hr₁.symm.trans hr)
  have hsame' : v₁ = v := Option.some.inj (hv₁.symm.trans hv)
  subst hsame hsame'
  constructor
  · rw [hstatus, hstate]
    simp [InvoiceStatus.processed]
  · rw [hstatus]
    exact fun hm => by cases hm

/-- Whatever is done after it, the two ends of the run stand in the preorder. -/
theorem lasting_run (h₀ : Idle Legal s₀) (huploaded : Uploaded s₀.db)
    (h : Run (machine cfg) ok s₀ s) (h' : Run (machine cfg) ok' s t) : Lasting s.db t.db := by
  have hany : Run (machine cfg) (fun _ _ => True) s₀ s := h.mono fun _ _ _ => trivial
  have hany' : Run (machine cfg) (fun _ _ => True) s t := h'.mono fun _ _ _ => trivial
  exact reviewing_sound.related reviewing_respects (discipline cfg) h₀ huploaded.reviewing hany hany'

/-- No invoice in manual review ever awaits an approval. -/
theorem manual_review_kept (h₀ : Idle Legal s₀) (huploaded : Uploaded s₀.db)
    (h : Run (machine cfg) ok s₀ s) {i : Id} {v : Invoice} (hv : Db.invoice s.db i = some v)
    (hstatus : v.status = .manualReview) (h' : Run (machine cfg) ok' s t) {w : Invoice}
    (hw : Db.invoice t.db i = some w) : w.status ≠ .awaitingApproval := by
  obtain ⟨w', hw', hkept⟩ := (lasting_run h₀ huploaded h h').manual i v hv hstatus
  have hsame : w' = w := Option.some.inj (hw'.symm.trans hw)
  rw [← hsame, hkept]
  decide

end Runs

/-- The documents of an invoice as `canEditInvoiceDraft` sees them. -/
def draftDocuments (db : Db) (i : Id) : List (DocumentStorageState × Option DocumentScanResult) :=
  (db.documents.filter fun d => d.2.invoiceId = i).map fun d =>
    (d.2.storageState, (Db.processing db d.1).map (·.scanResult))

/-- The invoice of `s` can still be brought to the approvers. -/
def Recoverable (cfg : Config) (s : System) (i : Id) : Prop :=
  ∃ t w, Run (machine cfg) (Account.permitted (fun _ => True) always) s t ∧
    Db.invoice t.db i = some w ∧ w.status = .awaitingApproval

/-- Manual review is a dead end, also for the drafts that the services accept edits of. -/
theorem manual_review_final (cfg : Config) {ok : System → SystemAction → Prop} {s₀ s : System}
    (h₀ : Idle Legal s₀) (huploaded : Uploaded s₀.db) (h : Run (machine cfg) ok s₀ s) :
    ∀ i v, Db.invoice s.db i = some v → v.status = .manualReview →
      InvoicesService.canEditInvoiceDraft v.status (draftDocuments s.db i) = true →
        ¬ Recoverable cfg s i := by
  rintro i v hv hstatus - ⟨t, w, hrun, hw, hawaiting⟩
  exact manual_review_kept h₀ huploaded h hv hstatus hrun hw hawaiting

section Sample

/-- A final attempt that promotes the document and fails in the OCR. -/
def unreadable : List SystemAction :=
  .start (.process sampleJob true) :: promotion 0 7 ++ execs 0 [0, 0] ++
    [.fault 0 (.unavailable "OcrError")] ++ execs 0 [0, 0, 0, 0]

theorem unreadable_run : ∃ s v,
    Run (machine sampleConfig) (Account.permitted (fun _ => True) always) uploadedStart s ∧
      Db.invoice s.db 1 = some v ∧ v.status = .manualReview ∧
      InvoicesService.canEditInvoiceDraft v.status (draftDocuments s.db 1) = true := by
  obtain ⟨s, hrun, hcheck⟩ := exists_run (M := machine sampleConfig) (s := uploadedStart) unreadable
    (fun s => (Db.invoice s.db 1).any fun v => v.status = .manualReview ∧
      InvoicesService.canEditInvoiceDraft v.status (draftDocuments s.db 1) = true)
    permitted_always (by decide +kernel)
  obtain ⟨v, hv, hcheck⟩ := (Option.any_eq_true _ _).mp hcheck
  obtain ⟨hstatus, hedit⟩ := of_decide_eq_true hcheck
  exact ⟨s, v, hrun, hv, hstatus, hedit⟩

/-- The services accept edits of the invoice, and nothing brings it to the approvers. -/
theorem unreadable_stuck : ∃ s v,
    Run (machine sampleConfig) (Account.permitted (fun _ => True) always) uploadedStart s ∧
      Db.invoice s.db 1 = some v ∧ v.status = .manualReview ∧
      InvoicesService.canEditInvoiceDraft v.status (draftDocuments s.db 1) = true ∧
      ¬ Recoverable sampleConfig s 1 := by
  obtain ⟨s, v, hrun, hv, hstatus, hedit⟩ := unreadable_run
  refine ⟨s, v, hrun, hv, hstatus, hedit, fun ⟨t, w, hlater, hw, hawaiting⟩ => ?_⟩
  exact manual_review_kept uploadedStart_idle uploadedStart_uploaded hrun hv hstatus hlater hw
    hawaiting

theorem manual_review_final_sample : ∃ s : System, ¬ Recoverable sampleConfig s 1 := by
  obtain ⟨s, v, hrun, hv, hstatus, hedit⟩ := unreadable_run
  exact ⟨s, manual_review_final sampleConfig uploadedStart_idle uploadedStart_uploaded hrun 1 v hv
    hstatus hedit⟩

end Sample
end BlocTrust
