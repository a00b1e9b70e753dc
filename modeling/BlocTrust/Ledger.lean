import BlocTrust.Knowledge

/-!
The ledger of approvals, whatever the interleaving.
A request has its assessment and its invoice; a decision has its request, a decider other
than the initiator and a step-up of the decider's own session; a rejection closes its
request; and an approved request has as many approvers as it requires.
-/
namespace BlocTrust

open ReadCommitted

section Approvers

variable {db : Db} {id m : Id}

/-- The memberships that approved a request. -/
def approvers (db : Db) (id : Id) : List Id :=
  (db.decisions.filter fun (rm, d) => rm.1 = id ∧ d.outcome = .approve).map (·.1.2)

theorem mem_approvers :
    m ∈ approvers db id ↔ ∃ d, Db.decision db id m = some d ∧ d.outcome = .approve := by
  constructor
  · intro h
    obtain ⟨⟨⟨r, m'⟩, d⟩, hmem, rfl⟩ := List.mem_map.mp h
    obtain ⟨hd, hcond⟩ := List.mem_filter.mp hmem
    obtain ⟨rfl, houtcome⟩ := of_decide_eq_true hcond
    exact ⟨d, Db.mem_decisions.mp hd, houtcome⟩
  · rintro ⟨d, hd, houtcome⟩
    refine List.mem_map.mpr ⟨((id, m), d), List.mem_filter.mpr ⟨Db.mem_decisions.mpr hd, ?_⟩, rfl⟩
    simp [houtcome]

/-- Nobody is counted twice. -/
theorem nodup_approvers (db : Db) (id : Id) : (approvers db id).Nodup := by
  have hkeys : (db.decisions.map Prod.fst).Nodup := Log.nodup_table ..
  rw [approvers]
  have hsub := (List.filter_sublist (p := fun (rm, d) =>
    rm.1 = id ∧ d.outcome = ApprovalDecisionOutcome.approve) (l := db.decisions)).map Prod.fst
  have hnodup := List.Nodup.of_map _ (hsub.nodup hkeys)
  refine List.Nodup.map_on ?_ hnodup
  rintro ⟨⟨r, m⟩, d⟩ hmem ⟨⟨r', m'⟩, d'⟩ hmem' heq
  obtain ⟨hd, hcond⟩ := List.mem_filter.mp hmem
  obtain ⟨hd', hcond'⟩ := List.mem_filter.mp hmem'
  obtain ⟨rfl, -⟩ := of_decide_eq_true hcond
  obtain ⟨rfl, -⟩ := of_decide_eq_true hcond'
  simp only at heq
  subst heq
  have hsame := (Db.mem_decisions.mp hd).symm.trans (Db.mem_decisions.mp hd')
  cases hsame
  rfl

theorem approvers_length_le {older newer : Db} (h : approvers older id ⊆ approvers newer id) :
    (approvers older id).length ≤ (approvers newer id).length :=
  (nodup_approvers older id).length_le_of_subset h

theorem approvers_subset {older newer : Db} (hc : Log.Chain Legal newer) (hs : older <:+ newer)
    (id : Id) : approvers older id ⊆ approvers newer id := by
  intro m hm
  obtain ⟨d, hd, houtcome⟩ := mem_approvers.mp hm
  exact mem_approvers.mpr ⟨d, decision_later hc hs hd, houtcome⟩

end Approvers

section Ledger

/-- The decision carries a step-up of the decider's own session. -/
def SteppedUp (db : Db) (m : Id) (d : ApprovalDecision) : Prop :=
  ∃ session member, (⟨.session d.sessionId, session⟩ : Sigma Val) ∈ db ∧
    Db.membership db m = some member ∧ session.userId = member.userId ∧
    session.organizationId = member.organizationId ∧
    session.stepUpVerifiedAt = some d.stepUpVerifiedAt

structure Ledger (db : Db) : Prop where
  assessed : ∀ id r, Db.request db id = some r → ∃ a, Db.risk db r.riskAssessmentId = some a ∧
    r.requiredDecisions = if a.evaluation.level = .high then 2 else 1
  billed : ∀ id r, Db.request db id = some r → ∃ v, Db.invoice db r.invoiceId = some v ∧
    v.organizationId = r.organizationId
  decided : ∀ id m d, Db.decision db id m = some d → ∃ r, Db.request db id = some r ∧
    d.organizationId = r.organizationId ∧ d.approvalVersion = r.version ∧
    m ≠ r.initiatedByMembershipId ∧ (d.outcome = .reject → r.status = .rejected)
  steppedUp : ∀ id m d, Db.decision db id m = some d → SteppedUp db m d
  counted : ∀ id r, Db.request db id = some r → r.status = .approved →
    r.requiredDecisions ≤ (approvers db id).length

variable {cfg : Config} {older newer db : Db}

theorem SteppedUp.later (hc : Log.Chain Legal newer) (hs : older <:+ newer) {m : Id}
    {d : ApprovalDecision} (h : SteppedUp older m d) : SteppedUp newer m d := by
  obtain ⟨session, member, hsession, hmember, huser, horg, hverified⟩ := h
  obtain ⟨member', hmember', horg', huser'⟩ := row_later hc hs hmember
  exact ⟨session, member', hs.subset hsession, hmember', huser.trans huser'.symm,
    horg.trans horg'.symm, hverified⟩

/-- A log without requests and decisions has an empty ledger. -/
theorem Ledger.of_empty (hrequests : ∀ id, Db.request db id = none)
    (hdecisions : ∀ r m, Db.decision db r m = none) : Ledger db where
  assessed id r hr := by simp [hrequests] at hr
  billed id r hr := by simp [hrequests] at hr
  decided id m d hd := by simp [hdecisions] at hd
  steppedUp id m d hd := by simp [hdecisions] at hd
  counted id r hr := by simp [hrequests] at hr

theorem Ledger.outside {rows : Db} (hc : Log.Chain Legal (rows ++ db))
    (hext : (machine cfg).external db rows) (h : Ledger db) : Ledger (rows ++ db) := by
  have hsuffix := List.suffix_append rows db
  have hrequest : ∀ id, Db.request (rows ++ db) id = Db.request db id :=
    fun id => external_row hext rfl
  have hdecision : ∀ r m, Db.decision (rows ++ db) r m = Db.decision db r m :=
    fun r m => external_row hext rfl
  refine ⟨fun id r hr => ?_, fun id r hr => ?_, fun id m d hd => ?_, fun id m d hd => ?_,
    fun id r hr hs => ?_⟩
  · rw [hrequest] at hr
    obtain ⟨a, ha, hrequired⟩ := h.assessed id r hr
    exact ⟨a, risk_later hc hsuffix ha, hrequired⟩
  · rw [hrequest] at hr
    obtain ⟨v, hv, horg⟩ := h.billed id r hr
    obtain ⟨w, hw, hlater⟩ := invoice_later hc hsuffix hv
    exact ⟨w, hw, hlater.organizationId.trans horg⟩
  · rw [hdecision] at hd
    rw [hrequest]
    exact h.decided id m d hd
  · rw [hdecision] at hd
    exact (h.steppedUp id m d hd).later hc hsuffix
  · rw [hrequest] at hr
    exact (h.counted id r hr hs).trans (approvers_length_le (approvers_subset hc hsuffix id))

end Ledger

section Commit

variable {cfg : Config} {db : Db} {p : Process}

/-- A decision that a statement sees is there at the commit. -/
theorem decision_stays (h : ProcOk (machine cfg) (conduct cfg) Legal db p) {e : Event Val Out}
    {new older : List (Event Val Out)} (hcur : p.current = new ++ e :: older) {r m : Id}
    {d : ApprovalDecision} (hd : Db.decision (writes older ++ e.base) r m = some d) :
    Db.decision (p.writes ++ db) r m = some d := by
  obtain ⟨w, hw, rfl⟩ := view_later h hcur hd
  exact hw

/-- The count of a deciding transaction does not exceed the approvers at its commit. -/
theorem countApprovals_le (h : ProcOk (machine cfg) (conduct cfg) Legal db p) {org id : Id}
    {version n : Nat} (hs : Saw p.calls (.countApprovals org id version) n) :
    n ≤ (approvers (p.writes ++ db) id).length := by
  obtain ⟨new, older, base, choice, hcur, hanswer⟩ := saw_event h hs
  have hsub : approvers (writes older ++ base) id ⊆ approvers (p.writes ++ db) id := by
    intro m hm
    obtain ⟨d, hd, houtcome⟩ := mem_approvers.mp hm
    exact mem_approvers.mpr ⟨d, decision_stays h hcur hd, houtcome⟩
  refine le_trans ?_ (approvers_length_le hsub)
  cases hanswer
  rw [approvers, List.length_map, ← List.countP_eq_length_filter, ← List.countP_eq_length_filter]
  refine List.countP_mono_left ?_
  rintro ⟨⟨r, m⟩, d⟩ hmem hcond
  obtain ⟨-, hrequest, -, houtcome⟩ := of_decide_eq_true hcond
  have hkeys := decision_keys h.view (decision_stays h hcur (Db.mem_decisions.mp hmem))
  simp [← hkeys.1, hrequest, houtcome]

/-- A recorded decision comes with everything `decide` has checked. -/
theorem InsertsDecision.ledger (h : ProcOk (machine cfg) (conduct cfg) Legal db p) {id m : Id}
    {d : ApprovalDecision} (hi : InsertsDecision cfg db p id m d) :
    (∃ r, Db.request (p.writes ++ db) id = some r ∧ d.organizationId = r.organizationId ∧
      d.approvalVersion = r.version ∧ m ≠ r.initiatedByMembershipId) ∧
    SteppedUp (p.writes ++ db) m d := by
  obtain ⟨auth, dto, key, hop, cur, q, v, hsub, hready⟩ := hi.op
  obtain ⟨horg, r, hr, hlater⟩ := saw_request h (hsub hready.ready.request)
  have hm : m = auth.membershipId := by rw [← hi.keys.2, hready.membership]
  obtain ⟨pol, hpol, hseparated⟩ := hready.authorized.policy
  have hflag : pol.requireSeparationOfDuties = true := by
    rcases hpol with hseen | hinserted
    · obtain ⟨new, older, base, choice, hcur, hanswer⟩ := saw_event h (hsub hseen)
      exact policy_separates (h.view_chain hcur) (Option.some.inj hanswer)
    · obtain ⟨new, older, rows, base, hcur, hwrote, -⟩ := did_event h (hsub hinserted)
      cases hwrote with
      | insertPolicy hi => rfl
  obtain ⟨member, hmember⟩ := hready.authorized.membership
  obtain ⟨current, checkedAt, session, hsession, hverified⟩ := hready.authorized.session
  obtain ⟨new, older, base, choice, hcur, hanswer⟩ := saw_event h (hsub hmember)
  obtain ⟨hrow, hcond⟩ := rowWhere_eq_some.mp (Option.some.inj hanswer)
  obtain ⟨horg', huser', -, -⟩ := of_decide_eq_true hcond
  obtain ⟨member', hmember', hlater'⟩ := view_later h hcur hrow
  obtain ⟨new', older', base', choice', hcur', hanswer'⟩ := saw_event h (hsub hsession)
  obtain ⟨hrow', hcond'⟩ := rowWhere_eq_some.mp (Option.some.inj hanswer')
  obtain ⟨horg'', huser'', -⟩ := of_decide_eq_true hcond'
  refine ⟨⟨r, hr, ?_, ?_, ?_⟩, session, member', ?_, ?_, ?_, ?_, hverified⟩
  · rw [hready.organization, hlater.organizationId, horg]
  · rw [hready.version, hlater.version]
  · intro heq
    refine hseparated ⟨hflag, ?_⟩
    rw [← hm, heq, hlater.initiatedByMembershipId]
  · rw [hready.session]
    exact h.view_subset hcur' (Log.mem_of_row hrow')
  · rw [hm]
    exact hmember'
  · rw [huser'', hlater'.2, huser']
  · rw [horg'', hlater'.1, horg']

/-- A committing submission has stored the assessment of its request and has read its invoice. -/
theorem InsertsRequest.ledger (h : ProcOk (machine cfg) (conduct cfg) Legal db p) {id : Id}
    {r : ApprovalRequest} (hi : InsertsRequest db p id r) :
    (∃ a, Db.risk (p.writes ++ db) r.riskAssessmentId = some a ∧
      r.requiredDecisions = if a.evaluation.level = .high then 2 else 1) ∧
    (∃ v, Db.invoice (p.writes ++ db) r.invoiceId = some v ∧
      v.organizationId = r.organizationId) ∧ r.status = .pending := by
  obtain ⟨auth, i, dto, key, hop, cur, hsub, hready⟩ := hi.op
  obtain ⟨v, vendorId, bank, a, riskId, version, keyHash, hv, -, -, ha, -, rfl⟩ := hready.basis
  obtain ⟨horg, w, hw, hlater⟩ := saw_invoice h (hsub hv.seen)
  exact ⟨⟨a, did_insertRisk h (hsub ha), rfl⟩, ⟨w, hw, hlater.organizationId.trans horg⟩, rfl⟩

/-- A committing rejection has closed its request. -/
theorem InsertsDecision.rejects (h : ProcOk (machine cfg) (conduct cfg) Legal db p) {next}
    (hq : p.prog = .commit next) {id m : Id} {d : ApprovalDecision}
    (hi : InsertsDecision cfg db p id m d) (hreject : d.outcome = .reject) :
    ∃ r, Db.request (p.writes ++ db) id = some r ∧ r.status = .rejected := by
  obtain ⟨auth, dto, key, hop, -⟩ := hi.op
  have hdue := commit_due h hq
  rw [hop] at hdue
  obtain ⟨q, v, -, hrejected, -⟩ := hdue.settled d hi.did
  obtain ⟨t, n, hn, hdid⟩ := hrejected hreject
  obtain ⟨old, new, hchanges, hnew⟩ := did_updateRequest h hdid hn
  exact ⟨new, hnew, by rw [hchanges.result]; rfl⟩

theorem Ledger.commit (h : ProcOk (machine cfg) (conduct cfg) Legal db p) {next}
    (hq : p.prog = .commit next) (hl : Ledger db) : Ledger (p.writes ++ db) := by
  have hsuffix := List.suffix_append p.writes db
  refine ⟨fun id r hr => ?_, fun id r hr => ?_, fun id m d hd => ?_, fun id m d hd => ?_,
    fun id r hr hs => ?_⟩
  · rcases commit_request_later h hr with hi | ⟨q, hq', hlater⟩
    · exact (hi.ledger h).1
    · obtain ⟨a, ha, hrequired⟩ := hl.assessed id q hq'
      refine ⟨a, ?_, by rw [hlater.requiredDecisions, hrequired]⟩
      rw [hlater.riskAssessmentId]
      exact risk_later h.view hsuffix ha
  · rcases commit_request_later h hr with hi | ⟨q, hq', hlater⟩
    · exact (hi.ledger h).2.1
    · obtain ⟨v, hv, horg⟩ := hl.billed id q hq'
      obtain ⟨w, hw, hlater'⟩ := invoice_later h.view hsuffix hv
      rw [hlater.invoiceId, hlater.organizationId]
      exact ⟨w, hw, hlater'.organizationId.trans horg⟩
  · rcases commit_decision h hd with hold | hi
    · obtain ⟨q, hq', horg, hversion, hne, hreject⟩ := hl.decided id m d hold
      obtain ⟨r, hr, hlater⟩ := request_later h.view hsuffix hq'
      refine ⟨r, hr, horg.trans hlater.organizationId.symm, hversion.trans hlater.version.symm,
        by rwa [hlater.initiatedByMembershipId], fun ho => ?_⟩
      have hrejected := hreject ho
      rw [hlater.closed (by simp [hrejected]), hrejected]
    · obtain ⟨r, hr, horg, hversion, hne⟩ := (hi.ledger h).1
      refine ⟨r, hr, horg, hversion, hne, fun ho => ?_⟩
      obtain ⟨r', hr', hrejected⟩ := hi.rejects h hq ho
      rw [hr] at hr'
      cases hr'
      exact hrejected
  · rcases commit_decision h hd with hold | hi
    · exact (hl.steppedUp id m d hold).later h.view hsuffix
    · exact (hi.ledger h).2
  · rcases commit_request h hr with ⟨-, hold⟩ | hi | ⟨c, old, hchanges⟩
    · exact (hl.counted id r hold hs).trans
        (approvers_length_le (approvers_subset h.view hsuffix id))
    · rw [(hi.ledger h).2.2] at hs
      cases hs
    · have hresult := hchanges.result
      cases hc : c with
      | invalidated reason =>
          rw [hresult, hc] at hs
          cases hs
      | completed outcome t =>
          have hcause := hchanges.cause
          rw [hc] at hcause
          obtain ⟨auth, dto, key, q, v, -, hready⟩ := hcause
          have houtcome : outcome = .approve := by
            rw [hresult, hc] at hs
            cases outcome with
            | approve => rfl
            | reject => cases hs
          obtain ⟨n, hn, hle⟩ := hready.counted houtcome
          obtain ⟨-, r', hr', hlater⟩ := saw_request h hready.ready.request
          rw [hr] at hr'
          cases hr'
          rw [hlater.requiredDecisions]
          exact hle.trans (countApprovals_le h hn)

end Commit

section Run

variable {cfg : Config}

/-- The ledger as an account of all runs. -/
def ledger : Account Val Out Op where
  inv := Ledger

theorem ledger_sound {ok : System → SystemAction → Prop} {s₀ : System} :
    ledger.Sound (machine cfg) (conduct cfg) Legal ok s₀ where
  refl _ := trivial
  trans _ _ _ _ _ := trivial
  keep _ _ _ _ _ _ _ _ := trivial
  commit _ _ _ _ _ _ hq hok _ hl := ⟨Ledger.commit hok hq hl, trivial, fun _ _ => trivial⟩
  external _ _ hc hext hl := ⟨Ledger.outside hc hext hl, trivial⟩

/-- The ledger is kept in every run of the system. -/
theorem ledger_run {ok : System → SystemAction → Prop} {s₀ s : System} (h₀ : Idle Legal s₀)
    (hl : Ledger s₀.db) (h : Run (machine cfg) ok s₀ s) : Ledger s.db :=
  (ledger_sound.run ⟨fun _ _ _ => trivial, fun _ _ _ _ _ _ _ _ _ => trivial⟩ (discipline cfg) h₀
    hl h).1

end Run
end BlocTrust
