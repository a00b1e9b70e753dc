import BlocTrust.Ledger
import BlocTrust.Tenant

/-!
Approval safety.
An approved invoice has an approved request of its own version with a full quorum, as long
as no edit that takes the invoice for a draft is applied to it after its approval, and no decision
is created after the step-up that was found for it has expired.
-/
namespace BlocTrust

open ReadCommitted

/-- The request `r` that approves the version `v` of the invoice `i`. -/
structure SafelyApproved (cfg : Config) (db : Db) (i : Id) (v : Invoice) (id : Id)
    (r : ApprovalRequest) : Prop where
  request : Db.request db id = some r
  invoice : r.invoiceId = i
  status : r.status = .approved
  version : r.invoiceVersion = v.version
  distinct : (approvers db id).Nodup
  quorum : r.requiredDecisions ≤ (approvers db id).length
  separate : r.initiatedByMembershipId ∉ approvers db id
  unanimous : ∀ m d, Db.decision db id m = some d → d.outcome ≠ .reject
  steppedUp : ∀ m d, Db.decision db id m = some d → SteppedUp db m d
  fresh : ∀ m d, Db.decision db id m = some d →
    d.createdAt ≤ d.stepUpVerifiedAt + cfg.stepUpTtlMilliseconds
  assessed : ∃ a, Db.risk db r.riskAssessmentId = some a ∧
    (a.evaluation.level = .high → r.requiredDecisions = 2)

/-- No edit that leaves the status alone is applied to an approved invoice. -/
def sparesApproved : Op → Calls Out → List (Event Val Out) → Log Val → Stmt → Prop
  | _, _, _, db, .write (.updateInvoice i (.edited org version e)) =>
      e.invalidatesApproval = false → ∀ v, Db.invoice db i = some v → v.organizationId = org →
        v.version = version → v.status ≠ .approved
  | _, _, _, _, _ => True

/-- No decision is created after the step-up of the session that its transaction has found has
expired. -/
def createsInTime (cfg : Config) :
    Op → Calls Out → List (Event Val Out) → Log Val → Stmt → Prop
  | _, _, es, _, .write (.insertDecision d) =>
      ∀ sessionId org userId current after session verifiedAt,
        Saw (es.map Event.call) (.findSession sessionId org userId current after) (some session) →
          session.stepUpVerifiedAt = some verifiedAt →
            d.createdAt ≤ verifiedAt + cfg.stepUpTtlMilliseconds
  | _, _, _, _, _ => True

/-- The conditions on the statements of a run. -/
def approvesSafely (cfg : Config) (op : Op) (past : Calls Out) (es : List (Event Val Out))
    (db : Log Val) (q : Stmt) : Prop :=
  sparesApproved op past es db q ∧ createsInTime cfg op past es db q

/-- Every approved invoice has an approved request of its version. -/
def VersionApproved (db : Db) : Prop :=
  ∀ i v, Db.invoice db i = some v → v.status = .approved → ∃ id r, Db.request db id = some r ∧
    r.invoiceId = i ∧ r.status = .approved ∧ r.invoiceVersion = v.version

/-- Every decision was created in the lifetime of its step-up. -/
def CreatedInTime (cfg : Config) (db : Db) : Prop :=
  ∀ id m d, Db.decision db id m = some d →
    d.createdAt ≤ d.stepUpVerifiedAt + cfg.stepUpTtlMilliseconds

def safetyAccount (cfg : Config) : Account Val Out Op where
  guard := approvesSafely cfg
  inv db := VersionApproved db ∧ CreatedInTime cfg db

section Commit

variable {cfg : Config} {db : Db} {p : Process} {i : Id}

/-- An approved request stays what it is. -/
theorem approved_later {older newer : Db} (hc : Log.Chain Legal newer) (hs : older <:+ newer)
    {version : Nat} (h : ∃ id r, Db.request older id = some r ∧ r.invoiceId = i ∧
      r.status = .approved ∧ r.invoiceVersion = version) :
    ∃ id r, Db.request newer id = some r ∧ r.invoiceId = i ∧ r.status = .approved ∧
      r.invoiceVersion = version := by
  obtain ⟨id, r, hr, hi, hstatus, hversion⟩ := h
  obtain ⟨r', hr', hlater⟩ := request_later hc hs hr
  have hclosed : r'.status = r.status := hlater.closed (by simp [hstatus])
  exact ⟨id, r', hr', hlater.invoiceId.trans hi, hclosed.trans hstatus,
    hlater.invoiceVersion.trans hversion⟩

theorem VersionApproved.commit (h : ProcOk (machine cfg) (conduct cfg) Legal db p)
    (hobs : (safetyAccount cfg).Observed db p) (hinv : VersionApproved db) :
    VersionApproved (p.writes ++ db) := by
  intro i new hnew hstatus
  have hsuffix := List.suffix_append p.writes db
  rcases commit_invoice h hnew with ⟨-, hold⟩ | hinserts | ⟨c, old, hch⟩
  · exact approved_later h.view hsuffix (hinv i new hold hstatus)
  · rw [hinserts.status] at hstatus
    cases hstatus
  · by_cases hold : old.status = .approved
    · have happroved := approved_later h.view hsuffix (hinv i old hch.committed hold)
      suffices hversion : new.version = old.version by rwa [hversion]
      have hresult := hch.result
      have happlies := hch.applies
      obtain ⟨newer, older, rows, base, hcur, hbase, -, -⟩ := hch.event
      have hguard := (hobs.guard newer _ older hcur).1
      cases c with
      | edited org version e =>
          simp only [InvoiceChange.applies, decide_eq_true_eq] at happlies
          have hinvalidates : e.invalidatesApproval ≠ false := fun hfalse =>
            hguard hfalse old hbase happlies.1 happlies.2 hold
          rw [hresult] at hstatus
          simp [InvoiceChange.apply, InvoiceEdit.apply, hinvalidates] at hstatus
      | decided outcome => rw [hresult]; rfl
      | submitted org version bank => rw [hresult] at hstatus; cases hstatus
      | returned version => rw [hresult] at hstatus; cases hstatus
      | frozen org vendor => rw [hresult] at hstatus; cases hstatus
      | suggested org => rw [hresult] at hstatus; cases hstatus
      | blocked org => rw [hresult] at hstatus; cases hstatus
      | manualReview org => rw [hresult] at hstatus; cases hstatus
      | queueFailed org => rw [hresult] at hstatus; cases hstatus
    · exact hch.approved h hold hstatus

theorem VersionApproved.outside {rows : Db} (hc : Log.Chain Legal (rows ++ db))
    (hext : (machine cfg).external db rows) (hinv : VersionApproved db) :
    VersionApproved (rows ++ db) := by
  intro i v hv hstatus
  have hsame : Db.invoice (rows ++ db) i = Db.invoice db i := external_row hext rfl
  rw [hsame] at hv
  exact approved_later hc (List.suffix_append rows db) (hinv i v hv hstatus)

/-- The step-up of a decision that is inserted is one that its transaction has found. -/
theorem CreatedInTime.commit (h : ProcOk (machine cfg) (conduct cfg) Legal db p)
    (hobs : (safetyAccount cfg).Observed db p) (hinv : CreatedInTime cfg db) :
    CreatedInTime cfg (p.writes ++ db) := by
  intro id m d hd
  rcases commit_decision h hd with hold | hinserts
  · exact hinv id m d hold
  · obtain ⟨newer, older, rows, base, hcur, -, hbefore⟩ := did_event h hinserts.did
    obtain ⟨auth, dto, key, hop, ⟨r, v, hready⟩, -⟩ := conduct_insertDecision hbefore
    obtain ⟨current, checkedAt, session, hseen, hverified⟩ := hready.authorized.session
    exact (hobs.guard newer _ older hcur).2 _ _ _ _ _ _ _ hseen hverified

theorem CreatedInTime.outside {rows : Db} (hext : (machine cfg).external db rows)
    (hinv : CreatedInTime cfg db) : CreatedInTime cfg (rows ++ db) := by
  intro id m d hd
  have hsame : Db.decision (rows ++ db) id m = Db.decision db id m := external_row hext rfl
  rw [hsame] at hd
  exact hinv id m d hd

theorem safetyAccount_sound {ok : System → SystemAction → Prop} {s₀ : System} :
    (safetyAccount cfg).Sound (machine cfg) (conduct cfg) Legal ok s₀ where
  refl _ := trivial
  trans _ _ _ _ _ := trivial
  keep _ _ _ _ _ _ _ _ := trivial
  commit _ _ _ _ _ _ _ hok hobs hinv :=
    ⟨⟨hinv.1.commit hok hobs, hinv.2.commit hok hobs⟩, trivial, fun _ _ => trivial⟩
  external _ _ hc hext hinv := ⟨⟨hinv.1.outside hc hext, hinv.2.outside hext⟩, trivial⟩

end Commit

/-- The edits that send an invoice back to review, and all other statements. -/
def keepsApproved : Db → Stmt → Bool
  | _, .write (.updateInvoice _ (.edited _ _ e)) => e.invalidatesApproval
  | _, _ => true

theorem sparesApproved_of_keeps (op : Op) (past : Calls Out) (es : List (Event Val Out)) (db : Db)
    (q : Stmt) (h : keepsApproved db q = true) : sparesApproved op past es db q := by
  unfold sparesApproved
  split
  · intro hfalse
    rw [keepsApproved, hfalse] at h
    cases h
  · trivial

/-- The decisions that are created in the first lifetime of a step-up, and all other statements. -/
def createsEarly (cfg : Config) : Stmt → Bool
  | .write (.insertDecision d) => d.createdAt ≤ cfg.stepUpTtlMilliseconds
  | _ => true

theorem createsInTime_of_early {cfg : Config} (op : Op) (past : Calls Out)
    (es : List (Event Val Out)) (db : Db) (q : Stmt) (h : createsEarly cfg q = true) :
    createsInTime cfg op past es db q := by
  unfold createsInTime
  split
  · intro _ _ _ _ _ _ verifiedAt _ _
    exact (of_decide_eq_true h).trans (Nat.le_add_left _ _)
  · trivial

/-- An edit reads the invoice before it is submitted and is applied after its approval. -/
def crossedEdit : List SystemAction :=
  .start (.update (sampleAuth 1) 1 (sampleEdit 2 200)) :: execs 0 (List.replicate 4 0) ++
    .start (.submit (sampleAuth 1) 1 ⟨1⟩ (sampleKey 'a')) :: submission 1 ++
    .start (.decide (sampleAuth 2) 1 (sampleDecision .approve) (sampleKey 'b')) :: approval 2 ++
    execs 0 [0, 0, 0, 0, 0, 9, 0]

/-- A step-up is fresh when it is checked, and has expired when the decision is created. -/
def lateDecision : List SystemAction :=
  .start (.submit (sampleAuth 1) 1 ⟨1⟩ (sampleKey 'a')) :: submission 0 ++
    .start (.decide (sampleAuth 2) 0 (sampleDecision .approve) (sampleKey 'b')) ::
    execs 1 (List.replicate 11 0 ++ [1000000] ++ List.replicate 5 0 ++ [3] ++ List.replicate 7 0)

end BlocTrust
