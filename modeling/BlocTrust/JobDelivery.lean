import BlocTrust.MalwareGate

/-!
Repeated and overlapping deliveries of one job.
The transition trigger keeps an attempt away from a document whose processing has ended,
but lets an update through that leaves the state as it is; the runs in which no last
transaction of an attempt finds the state it is about to set change the invoice once.
-/
namespace BlocTrust

open ReadCommitted

/-- The last transaction of an attempt finds the document not yet handed over for review. -/
def handsOverOnce (_ : Op) (_ : Calls Out) (_ : List (Event Val Out)) (db : Db) : Stmt → Prop
  | .write (.updateProcessing id (.suggested _ _)) => ∀ r, Db.processing db id = some r →
      r.state ≠ .needsReview
  | _ => True

def delivery : Account Val Out Op := ingestion.restrict handsOverOnce

def Op.isWorker : Op → Bool
  | .process .. => true
  | _ => false

section Delivery

variable {cfg : Config} {db : Db} {p : Process} {i : Id} {v w : Invoice}

/-- A worker changes only invoices that are still in processing. -/
theorem worker_change (h : ProcOk (machine cfg) (conduct cfg) Legal db p)
    (hobs : delivery.Observed db p) (hinv : Ingestion db) (hworker : p.op.isWorker = true)
    {c : InvoiceChange} (hch : ChangesInvoice cfg db p i c v w) (hleft : v.status ≠ .processing) :
    w.status = v.status := by
  have hobs' : ingestion.Observed db p := hobs.of_restrict fun _ _ _ _ _ => trivial
  have hcause := hch.cause
  obtain ⟨job, final, hop⟩ : ∃ job final, p.op = .process job final := by
    cases hop : p.op with
    | process job final => exact ⟨job, final, rfl⟩
    | _ =>
        rw [hop] at hworker
        cases hworker
  rw [hop] at hcause
  have hc : c.isApi = false := by
    cases c with
    | submitted org version bank =>
        obtain ⟨_, _, _, _, _, hop', -⟩ := hcause
        cases hop'
    | returned version =>
        obtain ⟨_, _, _, _, _, _, _, _, hop', -⟩ := hcause
        cases hop'
    | frozen org vendor =>
        obtain ⟨_, _, hop', -⟩ := hcause
        cases hop'
    | edited org version e =>
        obtain ⟨_, _, _, hop', -⟩ := hcause
        cases hop'
    | decided outcome =>
        obtain ⟨_, _, _, _, _, _, _, _, hop', -⟩ := hcause
        cases hop'
    | _ => rfl
  obtain ⟨id, d, r, hd, rfl, hr, hsource⟩ := hch.source h hobs' hc
  obtain ⟨r₁, v₁, hr₁, hv₁, ht⟩ := hinv.tracked id d hd
  have hsame : r₁ = r := Option.some.inj (hr₁.symm.trans hr)
  have hsame' : v₁ = v := Option.some.inj (hv₁.symm.trans hch.committed)
  subst hsame hsame'
  have hdone : r₁.state.done = true := by
    cases hdone : r₁.state.done with
    | false => exact absurd (ht.working hdone) hleft
    | true => rfl
  cases c with
  | suggested org =>
      -- the transition trigger leaves only the state that the guard excludes
      obtain ⟨ocr, r', hsource⟩ := hsource
      have htransition := hsource.transition
      rw [hsource.result] at htransition
      have hreview : r₁.state = .needsReview := (transition_done htransition hdone).symm
      obtain ⟨newer, older, rows, base, hcur, hbase, -⟩ := hsource.event
      exact absurd hreview (hobs.guard newer _ older hcur r₁ hbase)
  | blocked org =>
      obtain ⟨r', hsource⟩ := hsource
      have htransition := hsource.transition
      rw [hsource.result] at htransition
      have hblocked := ht.blocked (transition_done htransition hdone).symm
      rw [hch.result, hblocked]
      rfl
  | manualReview org =>
      have happlies := hch.applies
      simp only [InvoiceChange.applies, decide_eq_true_eq] at happlies
      exact absurd happlies.2 hleft
  | queueFailed org =>
      obtain ⟨_, _, _, _, _, _, _, _, hop', -⟩ := hcause
      cases hop'
  | _ => cases hc

end Delivery

/-- No step of a worker changes the status of an invoice that has left processing. -/
theorem job_delivery (cfg : Config) {s₀ s s' : System} (h₀ : Idle Legal s₀)
    (huploaded : Uploaded s₀.db)
    (h : Run (machine cfg) (Account.permitted (fun _ => True) handsOverOnce) s₀ s) {i c : Nat}
    (hs : Step (machine cfg) s (.exec i c) s') {p : Process} (hp : s.procs[i]? = some p)
    (hworker : p.op.isWorker = true) {j : Id} {v w : Invoice} (hv : Db.invoice s.db j = some v)
    (hw : Db.invoice s'.db j = some w) (hleft : v.status ≠ .processing) : w.status = v.status := by
  have hsound : delivery.Sound (machine cfg) (conduct cfg) Legal
      (Account.permitted (fun _ => True) handsOverOnce) s₀ :=
    ingestion_sound.restrict fun _ _ _ _ _ => trivial
  have hcons := Run.consistent (discipline cfg) h₀.consistent h
  obtain ⟨hinv, hobs⟩ := hsound.run (Account.respects_permitted delivery) (discipline cfg) h₀
    huploaded.ingestion h
  have hkept : Db.invoice s.db j = some w → w.status = v.status :=
    fun hold => by rw [Option.some.inj (hold.symm.trans hv)]
  cases hs.effect with
  | quiet hdb hprocs => exact hkept (hdb ▸ hw)
  | answered _ _ q _ _ out rows hq hprog hrun => exact hkept hw
  | committed _ _ q next hq hprog =>
      have hsame : q = p := Option.some.inj (hq.symm.trans hp)
      subst hsame
      have hproc := hcons.proc i q hq
      rcases commit_invoice hproc hw with ⟨-, hold⟩ | hinserts | ⟨change, old, hch⟩
      · exact hkept hold
      · exact absurd (Log.mem_keys_of_row hv) hinserts.fresh
      · have hsame : old = v := Option.some.inj (hch.committed.symm.trans hv)
        subst hsame
        exact worker_change hproc (hobs i q hq) hinv hworker hch hleft

section Sample

def handsOver (db : Db) : Stmt → Bool
  | .write (.updateProcessing id (.suggested _ _)) =>
      (Db.processing db id).all fun r => r.state ≠ .needsReview
  | _ => true

theorem handsOverOnce_of_handsOver (op : Op) (past : Calls Out) (es : List (Event Val Out))
    (db : Db) (q : Stmt) (h : handsOver db q = true) : handsOverOnce op past es db q := by
  unfold handsOverOnce
  split
  · intro r hr
    simpa [handsOver, hr] using h
  · trivial

/-- A submission is waiting when a second delivery of the job starts; its first commit finds
the job done. -/
theorem job_delivery_sample : ∃ s s' v w,
    Step (machine sampleConfig) s (.exec 2 0) s' ∧ Db.invoice s.db 1 = some v ∧
      Db.invoice s'.db 1 = some w ∧ v.status = .awaitingApproval ∧ w.status = v.status := by
  have hstarts : ∀ op : Op, true = true → True := fun _ _ => trivial
  have hpermitted := Account.permitted_of_screened (E := Failure) (R := Response)
    (fun _ => true) handsOver hstarts handsOverOnce_of_handsOver
  obtain ⟨s, s', hrun, -, hstep, hcheck⟩ := exists_step (M := machine sampleConfig)
    (s := uploadedStart) (.start (.process sampleJob true) :: promotion 0 7 ++
      execs 0 (List.replicate 4 0) ++ finishing 0 20 ++
      .start (.submit (sampleAuth 1) 1 ⟨1⟩ (sampleKey 'a')) :: submission 1 ++
      .start (.process sampleJob false) :: execs 2 [0]) (.exec 2 0)
    (fun s s' => (Db.invoice s.db 1).any fun v => (Db.invoice s'.db 1).any fun _ =>
      (s.procs[2]?).any fun p => v.status = .awaitingApproval ∧ p.op.isWorker)
    hpermitted (by decide +kernel)
  obtain ⟨v, hv, hcheck⟩ := (Option.any_eq_true _ _).mp hcheck
  obtain ⟨w, hw, hcheck⟩ := (Option.any_eq_true _ _).mp hcheck
  obtain ⟨p, hp, hcheck⟩ := (Option.any_eq_true _ _).mp hcheck
  obtain ⟨hawaiting, hworker⟩ := of_decide_eq_true hcheck
  exact ⟨s, s', v, w, hstep, hv, hw, hawaiting, job_delivery sampleConfig uploadedStart_idle
    uploadedStart_uploaded hrun hstep hp hworker hv hw (by rw [hawaiting]; decide)⟩

/-- A second attempt takes the document up after its promotion and ends after the submission. -/
def lateAttempt : List SystemAction :=
  .start (.process sampleJob false) :: promotion 0 7 ++
    .start (.process sampleJob false) :: resumption 1 ++
    execs 0 (List.replicate 4 0) ++ finishing 0 20 ++
    .start (.submit (sampleAuth 1) 1 ⟨1⟩ (sampleKey 'a')) :: submission 2 ++
    execs 1 [0, 0, 21]

theorem late_attempt : ∃ s s' p v w,
    Run (machine sampleConfig) (Account.permitted (fun _ => True) always) uploadedStart s ∧
      Step (machine sampleConfig) s (.exec 1 0) s' ∧ s.procs[1]? = some p ∧
      p.op.isWorker = true ∧ Db.invoice s.db 1 = some v ∧
      Db.invoice s'.db 1 = some w ∧ v.status = .awaitingApproval ∧ w.status = .needsReview := by
  obtain ⟨s, s', hrun, -, hstep, hcheck⟩ := exists_step (M := machine sampleConfig)
    (s := uploadedStart) lateAttempt (.exec 1 0)
    (fun s s' => (Db.invoice s.db 1).any fun v => (Db.invoice s'.db 1).any fun w =>
      (s.procs[1]?).any fun p => v.status = .awaitingApproval ∧ w.status = .needsReview ∧
        p.op.isWorker)
    permitted_always (by decide +kernel)
  obtain ⟨v, hv, hcheck⟩ := (Option.any_eq_true _ _).mp hcheck
  obtain ⟨w, hw, hcheck⟩ := (Option.any_eq_true _ _).mp hcheck
  obtain ⟨p, hp, hcheck⟩ := (Option.any_eq_true _ _).mp hcheck
  obtain ⟨hawaiting, hreview, hworker⟩ := of_decide_eq_true hcheck
  exact ⟨s, s', p, v, w, hrun, hstep, hp, hworker, hv, hw, hawaiting, hreview⟩

end Sample
end BlocTrust
