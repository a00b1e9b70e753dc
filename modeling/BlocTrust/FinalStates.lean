import BlocTrust.Knowledge
import BlocTrust.Tenant

/-!
Final states of invoices.
The services follow the state machine of the domain, and an approved or rejected invoice
keeps its row and its lines, as long as no edit and no decision of another outcome is
applied to it.
-/
namespace BlocTrust

open ReadCommitted

/-- Edits and decisions of another outcome miss final invoices. -/
def sparesFinal : Op → Calls Out → List (Event Val Out) → Log Val → Stmt → Prop
  | _, _, _, db, .write (.updateInvoice i (.edited org version _)) =>
      ∀ v, Db.invoice db i = some v → v.organizationId = org → v.version = version →
        v.status.final = false
  | _, _, _, db, .write (.updateInvoice i (.decided outcome)) =>
      ∀ v, Db.invoice db i = some v → v.status.final = true → v.status = outcome.invoiceStatus
  | _, _, _, _, _ => True

/-- A change of status that the domain allows. -/
def Transitions (v w : Invoice) : Prop :=
  w.status ≠ v.status → ∃ s t, v.status.state = some s ∧ w.status.state = some t ∧
    canTransitionInvoice s t = true

/-- A request is not ahead of its invoice; at its own version the invoice awaits approval
or is decided. -/
def Versioned (db : Db) : Prop :=
  ∀ id r v, Db.request db id = some r → Db.invoice db r.invoiceId = some v →
    r.invoiceVersion ≤ v.version ∧
      (r.invoiceVersion = v.version → v.status = .awaitingApproval ∨ v.status.final = true)

structure Settled (older newer : Db) : Prop where
  final : ∀ i v, Db.invoice older i = some v → v.status.final = true →
    Db.invoice newer i = some v ∧ Db.lines newer i = Db.lines older i
  reviewed : ReviewedStays older newer

theorem Settled.refl (db : Db) : Settled db db :=
  ⟨fun _ _ hv _ => ⟨hv, rfl⟩, fun _ v hv hr => ⟨v, hv, hr⟩⟩

theorem Settled.trans {a b c : Db} (h : Settled a b) (h' : Settled b c) : Settled a c := by
  constructor
  · intro i v hv hf
    obtain ⟨hb, hlines⟩ := h.final i v hv hf
    obtain ⟨hc, hlines'⟩ := h'.final i v hb hf
    exact ⟨hc, hlines'.trans hlines⟩
  · intro i v hv hr
    obtain ⟨w, hw, hr'⟩ := h.reviewed i v hv hr
    exact h'.reviewed i w hw hr'

def finality : Account Val Out Op where
  allowed op := op.isApi = true
  guard := sparesFinal
  inv := Versioned
  rel := Settled

section Commit

variable {cfg : Config} {db : Db} {p : Process} {i : Id} {c : InvoiceChange} {old new : Invoice}

/-- How a service may change an invoice. -/
structure Lawful (old new : Invoice) : Prop where
  final : old.status.final = true → new = old
  reviewed : old.status.reviewed = true → new.status.reviewed = true
  transitions : Transitions old new

theorem lawful_of_status (hf : old.status.final = false) (hr : new.status.reviewed = true)
    (ht : ∃ s t, old.status.state = some s ∧ new.status.state = some t ∧
      canTransitionInvoice s t = true) : Lawful old new where
  final h := by
    rw [hf] at h
    cases h
  reviewed _ := hr
  transitions _ := ht

/-- An edit sends a reviewed invoice that is not final back to review, or leaves its status. -/
theorem ChangesInvoice.lawful_edit (h : ProcOk (machine cfg) (conduct cfg) Legal db p)
    (hobs : finality.Observed db p) {org : Id} {version : Nat} {e : InvoiceEdit}
    (hch : ChangesInvoice cfg db p i (.edited org version e) old new) : Lawful old new := by
  have happlies := hch.applies
  simp only [InvoiceChange.applies, decide_eq_true_eq] at happlies
  have hresult := hch.result
  obtain ⟨newer, older, rows, base, hcur, hbase, -, -⟩ := hch.event
  have hfinal := hobs.guard newer _ older hcur old hbase happlies.1 happlies.2
  have hreviewed := (hch.reviewed h (fun e he => (hobs.rel e he).reviewed) rfl).1
  cases hinvalidates : e.invalidatesApproval with
  | false =>
      have hstatus : new.status = old.status := by
        rw [hresult]
        simp [InvoiceChange.apply, InvoiceEdit.apply, hinvalidates]
      refine ⟨fun hf => ?_, fun hr => hstatus ▸ hr, fun hne => absurd hstatus hne⟩
      rw [hfinal] at hf
      cases hf
  | true =>
      have hstatus : new.status = .needsReview := by
        rw [hresult]
        simp [InvoiceChange.apply, InvoiceEdit.apply, hinvalidates]
      refine ⟨fun hf => ?_, fun _ => by rw [hstatus]; rfl, fun hne => ?_⟩
      · rw [hfinal] at hf
        cases hf
      · rw [hstatus] at hne ⊢
        cases hold : old.status <;> rw [hold] at hne hreviewed hfinal
        case processing => cases hreviewed
        case blocked => cases hreviewed
        case approved => cases hfinal
        case rejected => cases hfinal
        case needsReview => exact absurd rfl hne
        case manualReview => exact ⟨_, _, rfl, rfl, by decide⟩
        case awaitingApproval => exact ⟨_, _, rfl, rfl, by decide⟩

/-- A decision finds the invoice awaiting approval, unless it rejects it. -/
theorem ChangesInvoice.lawful_decision (h : ProcOk (machine cfg) (conduct cfg) Legal db p)
    (hobs : finality.Observed db p) (hinv : Versioned db) {outcome : ApprovalDecisionOutcome}
    (hch : ChangesInvoice cfg db p i (.decided outcome) old new) : Lawful old new := by
  have hresult : new = { old with status := outcome.invoiceStatus } := hch.result
  obtain ⟨newer, older, rows, base, hcur, hbase, -, -⟩ := hch.event
  have hguard := hobs.guard newer _ older hcur old hbase
  obtain ⟨auth, id, dto, key, -, -, -, -, hop, -⟩ := hch.cause
  have hreviewed := (hch.reviewed h (fun e he => (hobs.rel e he).reviewed) rfl).1
  have hstatus : new.status = outcome.invoiceStatus := by rw [hresult]
  have hsame : old.status = outcome.invoiceStatus → new = old := by
    intro heq
    rw [hresult, ← heq]
  refine ⟨fun hf => hsame (hguard hf), fun _ => by rw [hstatus]; cases outcome <;> rfl,
    fun hne => ?_⟩
  have hfinal : old.status.final = false := by
    cases hf : old.status.final with
    | false => rfl
    | true => exact absurd (by rw [hsame (hguard hf)]) hne
  cases outcome with
  | reject =>
      have hrejected : new.status = .rejected := hstatus
      rw [hrejected] at hne ⊢
      cases hold : old.status <;> rw [hold] at hne hreviewed hfinal
      case processing => cases hreviewed
      case blocked => cases hreviewed
      case approved => cases hfinal
      case rejected => cases hfinal
      case needsReview => exact ⟨_, _, rfl, rfl, by decide⟩
      case manualReview => exact ⟨_, _, rfl, rfl, by decide⟩
      case awaitingApproval => exact ⟨_, _, rfl, rfl, by decide⟩
  | approve =>
      have happroved : new.status = .approved := hstatus
      have hold : old.status ≠ .approved := fun heq => hne (happroved.trans heq.symm)
      obtain ⟨id', r', hr', hi, -, hversion⟩ := hch.approved h hold happroved
      have hawaiting : old.status = .awaitingApproval := by
        rcases commit_request_later h hr' with hinserts | ⟨q, hq, hlater⟩
        · obtain ⟨_, _, _, _, hsubmit, -⟩ := hinserts.op
          rw [hop] at hsubmit
          cases hsubmit
        · have hcommitted : Db.invoice db q.invoiceId = some old := by
            rw [← hlater.invoiceId, hi]
            exact hch.committed
          have hversion' : q.invoiceVersion = old.version := by
            rw [← hlater.invoiceVersion, hversion, hresult]
          rcases (hinv id' q old hq hcommitted).2 hversion' with ha | hf
          · exact ha
          · rw [hfinal] at hf
            cases hf
      rw [happroved, hawaiting]
      exact ⟨_, _, rfl, rfl, by decide⟩

theorem ChangesInvoice.lawful (h : ProcOk (machine cfg) (conduct cfg) Legal db p)
    (hobs : finality.Observed db p) (hinv : Versioned db)
    (hch : ChangesInvoice cfg db p i c old new) : Lawful old new := by
  have hapi := hobs.allowed
  have hresult := hch.result
  have happlies := hch.applies
  cases c with
  | edited org version e => exact hch.lawful_edit h hobs
  | decided outcome => exact hch.lawful_decision h hobs hinv
  | submitted org version bank =>
      simp only [InvoiceChange.applies, decide_eq_true_eq] at happlies
      have hold := happlies.2.2
      refine lawful_of_status (by rw [hold]; rfl) (by rw [hresult]; rfl) ?_
      rw [hold, hresult]
      exact ⟨_, _, rfl, rfl, by decide⟩
  | returned version =>
      simp only [InvoiceChange.applies, decide_eq_true_eq] at happlies
      have hold := happlies.2
      refine lawful_of_status (by rw [hold]; rfl) (by rw [hresult]; rfl) ?_
      rw [hold, hresult]
      exact ⟨_, _, rfl, rfl, by decide⟩
  | frozen org vendor =>
      simp only [InvoiceChange.applies, decide_eq_true_eq] at happlies
      have hold := happlies.2.2
      refine lawful_of_status (by rw [hold]; rfl) (by rw [hresult]; rfl) ?_
      rw [hold, hresult]
      exact ⟨_, _, rfl, rfl, by decide⟩
  | _ => cases hch.api hapi

/-- The rows of an invoice before and after a commit. -/
theorem commit_lawful (h : ProcOk (machine cfg) (conduct cfg) Legal db p)
    (hobs : finality.Observed db p) (hinv : Versioned db) (hold : Db.invoice db i = some old)
    (hnew : Db.invoice (p.writes ++ db) i = some new) : Lawful old new := by
  rcases commit_invoice h hnew with ⟨-, hsame⟩ | hinserts | ⟨c, old', hch⟩
  · have heq : new = old := Option.some.inj (hsame.symm.trans hold)
    exact ⟨fun _ => heq, fun hr => heq ▸ hr, fun hne => absurd (heq ▸ rfl) hne⟩
  · exact absurd (Log.mem_keys_of_row hold) hinserts.fresh
  · have heq : old' = old := Option.some.inj (hch.committed.symm.trans hold)
    exact heq ▸ hch.lawful h hobs hinv

/-- The lines of a final invoice are not edited either. -/
theorem commit_final_lines (h : ProcOk (machine cfg) (conduct cfg) Legal db p)
    (hobs : finality.Observed db p) (hold : Db.invoice db i = some old)
    (hf : old.status.final = true) : Db.lines (p.writes ++ db) i = Db.lines db i := by
  rcases commit_lines h with hsame | ⟨auth, dto, e, -, hdid⟩
  · exact hsame
  · obtain ⟨old', new, hch, -⟩ := did_updateInvoice h hdid Nat.one_ne_zero
    have heq : old' = old := Option.some.inj (hch.committed.symm.trans hold)
    subst heq
    have happlies := hch.applies
    simp only [InvoiceChange.applies, decide_eq_true_eq] at happlies
    obtain ⟨newer, older, rows, base, hcur, hbase, -⟩ := hch.event
    have hguard := hobs.guard newer _ older hcur old' hbase happlies.1 happlies.2
    rw [hf] at hguard
    cases hguard

theorem Settled.commit (h : ProcOk (machine cfg) (conduct cfg) Legal db p)
    (hobs : finality.Observed db p) (hinv : Versioned db) : Settled db (p.writes ++ db) := by
  constructor
  · intro i v hv hf
    obtain ⟨w, hw, -⟩ := invoice_later h.view (List.suffix_append _ _) hv
    have hsame := (commit_lawful h hobs hinv hv hw).final hf
    exact ⟨hsame ▸ hw, commit_final_lines h hobs hv hf⟩
  · intro i v hv hr
    obtain ⟨w, hw, -⟩ := invoice_later h.view (List.suffix_append _ _) hv
    exact ⟨w, hw, (commit_lawful h hobs hinv hv hw).reviewed hr⟩

theorem Versioned.commit (h : ProcOk (machine cfg) (conduct cfg) Legal db p) {next}
    (hq : p.prog = .commit next) (hobs : finality.Observed db p) (hinv : Versioned db) :
    Versioned (p.writes ++ db) := by
  intro id r w hr hw
  rcases commit_request_later h hr with hinserts | ⟨q, hq', hlater⟩
  · obtain ⟨v, bankId, hch, hversion, -, hnew⟩ := hinserts.submitted h hq
    have hsame := Option.some.inj (hw.symm.trans hnew)
    rw [hsame, hversion]
    exact ⟨Nat.le_refl _, fun _ => .inl rfl⟩
  · rw [hlater.invoiceId] at hw
    rw [hlater.invoiceVersion]
    rcases commit_invoice h hw with ⟨-, hold⟩ | hinserts | ⟨c, v, hch⟩
    · exact hinv id q w hq' hold
    · obtain ⟨_, _, _, _, hop, -⟩ := hinserts.op
      have hapi : p.op.isApi = true := hobs.allowed
      rw [hop] at hapi
      cases hapi
    · obtain ⟨hle, -⟩ := hinv id q v hq' hch.committed
      rcases hch.bumps hobs.allowed with ⟨outcome, rfl⟩ | hbump
      · have hresult : w = { v with status := outcome.invoiceStatus } := hch.result
        rw [hresult]
        exact ⟨hle, fun _ => .inr (by cases outcome <;> rfl)⟩
      · omega

theorem Versioned.outside {rows : Db} (hext : (machine cfg).external db rows)
    (hinv : Versioned db) : Versioned (rows ++ db) := by
  intro id r v hr hv
  have hrequest : Db.request (rows ++ db) id = Db.request db id := external_row hext rfl
  have hinvoice : Db.invoice (rows ++ db) r.invoiceId = Db.invoice db r.invoiceId :=
    external_row hext rfl
  exact hinv id r v (hrequest.symm.trans hr) (hinvoice.symm.trans hv)

theorem Settled.outside {rows : Db} (hext : (machine cfg).external db rows) :
    Settled db (rows ++ db) := by
  have hinvoice : ∀ i, Db.invoice (rows ++ db) i = Db.invoice db i :=
    fun i => external_row hext rfl
  exact ⟨fun i v hv _ => ⟨(hinvoice i).trans hv, external_lines hext i⟩,
    fun i v hv hr => ⟨v, (hinvoice i).trans hv, hr⟩⟩

theorem finality_sound {ok : System → SystemAction → Prop} {s₀ : System} :
    finality.Sound (machine cfg) (conduct cfg) Legal ok s₀ where
  refl := Settled.refl
  trans _ _ _ h h' := h.trans h'
  keep _ _ _ _ _ _ _ _ := trivial
  commit _ _ _ _ _ _ hq hok hobs hinv :=
    ⟨Versioned.commit hok hq hobs hinv, Settled.commit hok hobs hinv, fun _ _ => trivial⟩
  external _ _ _ hext hinv := ⟨hinv.outside hext, Settled.outside hext⟩

end Commit

/-- Every committed change of a status is one that the domain allows, and from the commit that
makes an invoice final on neither the invoice nor its lines ever change. -/
theorem final_states (cfg : Config) {s₀ s : System} (h₀ : Idle Legal s₀) (hclear : Clear s₀.db)
    (h : Run (machine cfg) (Account.permitted (·.isApi = true) sparesFinal) s₀ s) :
    (∀ a s', Account.permitted (·.isApi = true) sparesFinal s a → Step (machine cfg) s a s' →
      ∀ i v w, Db.invoice s.db i = some v → Db.invoice s'.db i = some w → Transitions v w) ∧
    ∀ t, Run (machine cfg) (Account.permitted (·.isApi = true) sparesFinal) s t →
      ∀ i v, Db.invoice s.db i = some v → v.status.final = true →
        Db.invoice t.db i = some v ∧ Db.lines t.db i = Db.lines s.db i := by
  have hstart : Versioned s₀.db := by
    intro id r v hr
    rw [hclear.requests] at hr
    cases hr
  constructor
  · intro a s' ha hs
    refine finality_sound.each finality.respects_permitted (discipline cfg) h₀ hstart
      (Q := fun older newer => ∀ i v w, Db.invoice older i = some v →
        Db.invoice newer i = some w → Transitions v w) ?_ ?_ ?_ h hs
    · intro db i v w hv hw hne
      exact absurd (congrArg Invoice.status (Option.some.inj (hw.symm.trans hv))) hne
    · intro s i p next _ _ _ hok hobs hinv j v w hv hw
      exact (commit_lawful hok hobs hinv hv hw).transitions
    · intro db rows _ hext _ i v w hv hw hne
      have hrow : Db.invoice (rows ++ db) i = Db.invoice db i := external_row hext rfl
      have hsame := Option.some.inj (hw.symm.trans (hrow.trans hv))
      exact absurd (congrArg Invoice.status hsame) hne
  · intro t ht
    have hsettled := finality_sound.related finality.respects_permitted (discipline cfg) h₀ hstart
      h ht
    exact hsettled.final

section Sample

/-- The statements that change no final invoice. -/
def changesNoFinal (db : Db) : Stmt → Bool
  | .write (.updateInvoice i _) => (Db.invoice db i).all (!·.status.final)
  | _ => true

theorem sparesFinal_of_changes (op : Op) (past : Calls Out) (es : List (Event Val Out)) (db : Db)
    (q : Stmt) (h : changesNoFinal db q = true) : sparesFinal op past es db q := by
  unfold sparesFinal
  split
  · intro v hv _ _
    simpa [changesNoFinal, hv] using h
  · intro v hv hf
    simp [changesNoFinal, hv, hf] at h
  · trivial

/-- The commit of an approval. -/
theorem final_states_sample : ∃ s s' v w,
    Step (machine sampleConfig) s (.exec 1 0) s' ∧ Db.invoice s.db 1 = some v ∧
      Db.invoice s'.db 1 = some w ∧ v.status = .awaitingApproval ∧ w.status = .approved ∧
      Transitions v w := by
  have hpermitted := Account.permitted_of_screened (E := Failure) (R := Response)
    Op.isApi changesNoFinal (fun _ h => h) sparesFinal_of_changes
  obtain ⟨s, s', hrun, hallow, hstep, hcheck⟩ := exists_step (M := machine sampleConfig)
    (s := sampleStart) approvedRun.dropLast (.exec 1 0)
    (fun s s' => (Db.invoice s.db 1).any fun v => (Db.invoice s'.db 1).any fun w =>
      v.status = .awaitingApproval ∧ w.status = .approved) hpermitted (by decide +kernel)
  obtain ⟨v, hv, hcheck⟩ := (Option.any_eq_true _ _).mp hcheck
  obtain ⟨w, hw, hcheck⟩ := (Option.any_eq_true _ _).mp hcheck
  obtain ⟨hawaiting, happroved⟩ := of_decide_eq_true hcheck
  have hfinal := final_states sampleConfig sampleStart_idle sampleStart_clear hrun
  exact ⟨s, s', v, w, hstep, hv, hw, hawaiting, happroved,
    hfinal.1 _ s' hallow hstep 1 v w hv hw⟩

/-- An edit reads the invoice while it awaits approval and is applied once it is approved. -/
def reopeningEdit : List SystemAction :=
  .start (.submit (sampleAuth 1) 1 ⟨1⟩ (sampleKey 'a')) :: submission 0 ++
    .start (.update (sampleAuth 1) 1 (sampleEdit 2 200)) :: execs 1 (List.replicate 3 0) ++
    .start (.decide (sampleAuth 2) 0 (sampleDecision .approve) (sampleKey 'b')) :: approval 2 ++
    execs 1 [0, 0, 0, 0, 0, 0, 0, 8, 9]

theorem approved_reopened : ∃ s s' v w,
    Run (machine sampleConfig) (Account.permitted (·.isApi = true) always) sampleStart s ∧
      Step (machine sampleConfig) s (.exec 1 0) s' ∧ Db.invoice s.db 1 = some v ∧
      Db.invoice s'.db 1 = some w ∧ v.status = .approved ∧ w.status = .needsReview ∧
      ¬ Transitions v w := by
  obtain ⟨s, s', hrun, -, hstep, hcheck⟩ := exists_step (M := machine sampleConfig)
    (s := sampleStart) reopeningEdit (.exec 1 0)
    (fun s s' => (Db.invoice s.db 1).any fun v => (Db.invoice s'.db 1).any fun w =>
      v.status = .approved ∧ w.status = .needsReview) (permitted_starts Op.isApi) (by decide +kernel)
  obtain ⟨v, hv, hcheck⟩ := (Option.any_eq_true _ _).mp hcheck
  obtain ⟨w, hw, hcheck⟩ := (Option.any_eq_true _ _).mp hcheck
  obtain ⟨happroved, hreview⟩ := of_decide_eq_true hcheck
  refine ⟨s, s', v, w, hrun, hstep, hv, hw, happroved, hreview, fun htransitions => ?_⟩
  obtain ⟨x, y, hx, hy, hcan⟩ := htransitions (by rw [happroved, hreview]; decide)
  rw [happroved] at hx
  rw [hreview] at hy
  cases hx
  cases hy
  exact absurd hcan (by decide)

end Sample
end BlocTrust
