import BlocTrust.Approvers
import BlocTrust.RowChecks
import BlocTrust.Identity.RefreshTokens
import BlocTrust.Tenant

/-!
The list of approvers and the rule for decisions.
A proper call of a member with a live session and a fresh step-up is followed through `decide`:
it records a decision exactly when the member is eligible, the session guard admits it and it has
not decided before.  The list asks for the first of these only.
-/
namespace BlocTrust.ApprovalsService

open ReadCommitted Prog

section Deciding

variable {cfg : Config} {time : Time} {w db : Db} {R : Failure → Db → Db → Prop}
  {auth : AuthContext}
  {requestId : Id} {request : ApprovalRequest} {v : Invoice} {dto : ApprovalDecisionDto}

theorem audit_surely {action entityType : String} {entityId : Id} {reason : Option Text}
    {Q : Unit → Db → Db → Prop} (hQ : ∀ c a, Q () (⟨.audit c, a⟩ :: w) db) :
    (writeAudit auth action entityType entityId reason).surely (engineAt cfg time)
      (fun _ => False) Q R w db := by
  have hrun : ∀ c a, Key.audit c ∉ (w ++ db).keys →
      engineAt cfg time (.write (.insertAudit a)) c (w ++ db) =
        some (.ok ((), [⟨.audit c, a⟩])) := by
    intro c a hfresh
    refine (if_neg hfresh).trans (congrArg some ?_)
    show Except.map _ (insertRow (w ++ db) _ _ []) = _
    rw [insertRow, if_neg (by simpa using hfresh)]
    rfl
  refine surely_answered ?_ (fun c r hr => ?_) (fun _ => False.elim)
  · obtain ⟨c, hc⟩ := exists_fresh (f := Key.audit) (fun _ _ h => Key.audit.inj h) (w ++ db).keys
    exact ⟨c, _, hrun c _ hc⟩
  · have hfresh : Key.audit c ∉ (w ++ db).keys := by
      intro hmem
      cases hr.symm.trans (if_pos hmem)
    cases hr.symm.trans (hrun c _ hfresh)
    exact ⟨(), _, rfl, hQ c _⟩

theorem bank_surely {Q : Bool → Db → Db → Prop} (hawaits : Awaits db requestId request v)
    (horg : auth.organizationId = request.organizationId) (hQ : Q true [] db) :
    (bankIsCurrent auth.organizationId request v.vendorId).surely (engineAt cfg time)
      (fun _ => False) Q R [] db := by
  cases hvendor : v.vendorId with
  | none => exact hQ
  | some vendorId =>
      obtain ⟨id, b, hbank, hlatest⟩ := hawaits.bank vendorId hvendor
      have hanswer : ∀ c, answer cfg c db (.latestBank auth.organizationId vendorId) =
          ([(id, b)][c]?).map some := by
        intro c
        show anyOf c (greatest _ (db.banks.filter _)) = _
        rw [horg, hlatest]
        rfl
      refine (surely_bind _ _).mpr (surely_answered ?_ (fun c r hr => ?_) (fun _ => False.elim))
      · exact ⟨0, _, congrArg (Option.map fun out => Except.ok (out, [])) (hanswer 0)⟩
      · obtain ⟨out, hout, rfl⟩ := Option.map_eq_some_iff.mp hr
        obtain ⟨x, hx, rfl⟩ := Option.map_eq_some_iff.mp ((hanswer c).symm.trans hout)
        obtain rfl : x = (id, b) := List.mem_singleton.mp (List.mem_of_getElem? hx)
        refine ⟨_, [], rfl, ?_⟩
        show Q (request.vendorBankAccountVersionId == some id) [] db
        rw [hbank, beq_self_eq_true]
        exact hQ

theorem request_answer {r : ApprovalRequest} (hrow : Db.request db requestId = some r)
    (horg : r.organizationId = auth.organizationId) (c : Nat) :
    answer cfg c db (.findRequest auth.organizationId requestId) = some (some r) :=
  congrArg some (rowWhere_eq_some.mpr ⟨hrow, decide_eq_true horg⟩)

/-- A key that no decision of the organization carries finds nothing to return again. -/
theorem unused_answer {keyHash : Digest} (hunused : ∀ x ∈ db.decisions,
      x.2.organizationId = auth.organizationId → x.2.idempotencyKeyHash ≠ keyHash) (c : Nat) :
    answer cfg c db (.findDecisionByKey auth.organizationId keyHash) = some none := by
  have hnil : db.decisions.filter (fun x => x.2.organizationId = auth.organizationId ∧
      x.2.idempotencyKeyHash = keyHash) = [] := by
    refine List.filter_eq_nil_iff.mpr fun x hx hboth => ?_
    obtain ⟨hsame, hhash⟩ := of_decide_eq_true hboth
    exact hunused x hx hsame hhash
  show anyOf c ((db.decisions.filter _).map Prod.snd) = _
  rw [hnil]
  rfl

/-- The relations of a request that has them are read. -/
theorem related_surely {r : ApprovalRequest} {Q : RequestDetails → Db → Db → Prop}
    (hinvoice : Db.invoice (w ++ db) r.invoiceId = some v)
    (hvorg : v.organizationId = r.organizationId)
    (hrisk : (Db.risk (w ++ db) r.riskAssessmentId).isSome = true)
    (hQ : ∀ risk decisions, Q ⟨requestId, r, summary r.invoiceId v, risk, decisions⟩ w db) :
    (requestDetails requestId r).surely (engineAt cfg time) (fun _ => False) Q R w db := by
  refine details_surely (fun v' risk decisions hv' _ _ => ?_) ?_
  · obtain rfl : v' = v := Option.some.inj (hv'.symm.trans hinvoice)
    exact hQ risk decisions
  · rintro (hmissing | hnone)
    · exact absurd hvorg (hmissing v hinvoice)
    · rw [hnone] at hrisk
      cases hrisk

/-- A request that awaits decisions, and a call that is proper, reach `record`. -/
theorem decide_surely {idempotencyKey : Option Text} {Q : ApprovalView → Db → Db → Prop}
    (hawaits : Awaits db requestId request v)
    (hrisk : (Db.risk db request.riskAssessmentId).isSome = true)
    (hproper : Proper cfg db request dto idempotencyKey)
    (horg : auth.organizationId = request.organizationId)
    (hrecord : ∀ t, normalizedKey idempotencyKey = some t →
      (record cfg auth requestId request dto (cfg.sha256 (utf8 t))).surely (engineAt cfg time)
        (fun _ => False) (fun view w db => Q view [] (w ++ db)) (fun e _ db => R e [] db) [] db) :
    (decide cfg auth requestId dto idempotencyKey).surely (engineAt cfg time) (fun _ => False) Q R
      [] db := by
  obtain ⟨t, hkey, -, hunused⟩ := hproper.key
  unfold decide idempotencyKeyHash
  rw [hkey]
  refine (surely_bind _ _).mpr ((surely_bind _ _).mpr ?_)
  refine (surely_bind _ _).mpr ((surely_transaction _).mpr ?_)
  refine (surely_bind _ _).mpr (read_surely none
    (unused_answer fun x hx hsame => hunused x hx (hsame.trans horg)) ?_)
  refine (surely_bind _ _).mpr (read_surely (some request)
    (request_answer hawaits.row horg.symm) ?_)
  refine (surely_bind _ _).mpr ((surely_bind _ _).mpr (related_surely hawaits.invoice
    hawaits.organization hrisk fun risk decisions => ?_))
  refine (surely_bind _ _).mpr ((surely_require _ _).mpr ⟨fun _ => ?_,
    fun hnot => absurd hawaits.pending hnot⟩)
  refine (surely_bind _ _).mpr ((surely_require _ _).mpr ⟨fun _ => ?_,
    fun hnot => absurd hproper.version.symm hnot⟩)
  have hcurrent : ¬ ((summary request.invoiceId v).version ≠ request.invoiceVersion ∨
      (summary request.invoiceId v).status ≠ .awaitingApproval) := by
    rintro (hversion | hstatus)
    · exact hversion hawaits.version
    · exact hstatus hawaits.status
  rw [if_neg hcurrent]
  refine (surely_bind _ _).mpr (bank_surely hawaits horg ?_)
  rw [if_neg Bool.true_eq_false_eq_False]
  refine (surely_bind _ _).mpr (surely_mono (fun view w db h => ⟨h, fun _ => False.elim⟩)
    (fun _ _ _ h => h) (hrecord t hkey))

end Deciding

section Authorizing

variable {cfg : Config} {time : Time} {db : Db} {R : Failure → Db → Db → Prop}
  {request : ApprovalRequest} {id sessionId : Id} {member : Membership} {session : Session}
  {t : Time}

/-- The caller that the member's session stands for. -/
def memberAuth (id sessionId : Id) (member : Membership) : AuthContext :=
  ⟨member.userId, id, sessionId, member.organizationId, member.role⟩

theorem membership_answer (hmember : Db.membership db id = some member) (c : Nat) :
    answer cfg c db (.findMembership (memberAuth id sessionId member).membershipId
      (memberAuth id sessionId member).organizationId (memberAuth id sessionId member).userId) =
        some (if member.status = .active ∧ member.role ∈ approverRoles then some member
          else none) := by
  show some (rowWhere _ (Db.membership db id)) = _
  rw [hmember, rowWhere, Option.filter_some]
  simp [memberAuth]

theorem authorize_ok {Q : Time → Db → Db → Prop}
    (hmember : Db.membership db id = some member)
    (heligible : Eligible db request id member)
    (hsession : Db.session db sessionId = some session)
    (hholder : session.organizationId = member.organizationId ∧ session.userId = member.userId)
    (hlive : session.revokedAt = none ∧ time < session.expiresAt)
    (hstepUp : session.stepUpVerifiedAt = some t ∧ time - cfg.stepUpTtlMilliseconds ≤ t)
    (hQ : ∀ w, Defaults db w → Q t w db) :
    (authorize cfg (memberAuth id sessionId member) request).surely (engineAt cfg time)
      (fun _ => False) Q R [] db := by
  obtain ⟨horg, hactive, hrole, hduties⟩ := heligible
  have hfound : ∀ w, Defaults db w → ∀ c, answer cfg c (w ++ db) (.findSession sessionId
      member.organizationId member.userId time (time - cfg.stepUpTtlMilliseconds)) =
        some (some session) := by
    intro w hw c
    have hrow : Log.row (.session sessionId) (w ++ db) = some session :=
      (hw.row (k := .session sessionId) nofun).trans hsession
    show some (rowWhere _ (Log.row (.session sessionId) (w ++ db))) = _
    rw [hrow, rowWhere, Option.filter_some, if_pos]
    refine decide_eq_true ⟨hholder.1, hholder.2, hlive.1, hlive.2, ?_⟩
    rw [hstepUp.1]
    exact decide_eq_true hstepUp.2
  refine (surely_bind _ _).mpr (read_surely _ (membership_answer hmember) ?_)
  rw [if_pos ⟨hactive, hrole⟩]
  refine (surely_bind _ _).mpr ?_
  refine (surely_bind _ _).mpr (policy_defaults_surely .nil fun w hw => ?_)
  refine (surely_bind _ _).mpr ((surely_require _ _).mpr ⟨fun _ => ?_, fun hnot => ?_⟩)
  · refine (surely_bind _ _).mpr (now_surely ?_)
    refine (surely_bind _ _).mpr (now_surely ?_)
    refine (surely_bind _ _).mpr (read_surely (some session) (hfound w hw) ?_)
    refine (surely_orThrow _ _).mpr ⟨fun verifiedAt hverified => ?_, ?_⟩
    · obtain rfl : t = verifiedAt := Option.some.inj (hstepUp.1.symm.trans hverified)
      exact hQ w hw
    · intro hnone
      cases hnone.symm.trans hstepUp.1
  · refine absurd ?_ hnot
    rw [show (memberAuth id sessionId member).organizationId = request.organizationId from horg]
    exact hduties

/-- Who is not eligible is not authorized. -/
theorem authorize_fails {Q : Time → Db → Db → Prop}
    (hmember : Db.membership db id = some member)
    (horg : member.organizationId = request.organizationId)
    (hnot : ¬ Eligible db request id member) (hR : ∀ e w, R e w db) :
    (authorize cfg (memberAuth id sessionId member) request).surely (engineAt cfg time)
      (fun _ => False) Q R [] db := by
  refine (surely_bind _ _).mpr (read_surely _ (membership_answer hmember) ?_)
  split
  · rename_i hactive
    have hduties : (policyOf db member.organizationId).requireSeparationOfDuties = true ∧
        request.initiatedByMembershipId = (memberAuth id sessionId member).membershipId := by
      by_contra hduties
      rw [horg] at hduties
      exact hnot ⟨horg, hactive.1, hactive.2, hduties⟩
    refine (surely_bind _ _).mpr ?_
    refine (surely_bind _ _).mpr (policy_defaults_surely .nil fun w _ => ?_)
    exact (surely_bind _ _).mpr ((surely_require _ _).mpr
      ⟨fun hfree => absurd hduties hfree, fun _ => hR _ _⟩)
  · exact (surely_bind _ _).mpr (hR _ _)

end Authorizing

section Recording

variable {cfg : Config} {time : Time} {w db : Db} {R : Failure → Db → Db → Prop}
  {auth : AuthContext} {requestId id : Id} {request : ApprovalRequest} {v : Invoice}
  {d : ApprovalDecision}

theorem createDecision_ok {Q : Unit → Db → Db → Prop} (hchecks : decisionChecks d = true)
    (hrow : Key.decision d.approvalRequestId d.decidedByMembershipId ∉ (w ++ db).keys)
    (hkey : Key.unique (.decisionKey d.organizationId d.idempotencyKeyHash) ∉ (w ++ db).keys)
    (hQ : Q () (⟨.decision d.approvalRequestId d.decidedByMembershipId, d⟩ ::
      ⟨.unique (.decisionKey d.organizationId d.idempotencyKeyHash), ()⟩ :: w) db) :
    (createDecision d).surely (engineAt cfg time) (fun _ => False) Q R w db := by
  refine (surely_tryCatch _ _).mpr (write_surely ()
    [⟨.decision d.approvalRequestId d.decidedByMembershipId, d⟩,
      ⟨.unique (.decisionKey d.organizationId d.idempotencyKeyHash), ()⟩] nofun (fun c => ?_) hQ)
  show Except.map _ (insertChecked (w ++ db)
    (.decision d.approvalRequestId d.decidedByMembershipId) d _ _ _) = _
  have hfree : ¬ (Key.decision d.approvalRequestId d.decidedByMembershipId ∈ (w ++ db).keys ∨
      ∃ u ∈ [UniqueIndex.decisionKey d.organizationId d.idempotencyKeyHash],
        Key.unique u ∈ (w ++ db).keys) := by
    rintro (hmem | ⟨u, hu, hmem⟩)
    · exact hrow hmem
    · rw [List.mem_singleton.mp hu] at hmem
      exact hkey hmem
  rw [insertChecked, if_pos hchecks, insertRow, if_neg hfree]
  rfl

/-- A membership decides once. -/
theorem createDecision_taken {Q : Unit → Db → Db → Prop} (hchecks : decisionChecks d = true)
    (hrow : Key.decision d.approvalRequestId d.decidedByMembershipId ∈ (w ++ db).keys)
    (hR : ∀ e w, R e w db) :
    (createDecision d).surely (engineAt cfg time) (fun _ => False) Q R w db := by
  refine (surely_tryCatch _ _).mpr (write_refused .uniqueViolation nofun (fun c => ?_) (hR _ _))
  show Except.map _ (insertChecked (w ++ db)
    (.decision d.approvalRequestId d.decidedByMembershipId) d _ _ _) = _
  rw [insertChecked, if_pos hchecks, insertRow, if_pos (.inl hrow)]
  rfl

/-- The request can be shown over the view, and the membership has decided on it. -/
structure Decided (requestId id : Id) (request : ApprovalRequest) (view : Db) : Prop where
  row : ∃ r, Db.request view requestId = some r ∧ r.organizationId = request.organizationId ∧
    r.invoiceId = request.invoiceId ∧ r.riskAssessmentId = request.riskAssessmentId
  invoice : ∃ v, Db.invoice view request.invoiceId = some v ∧
    v.organizationId = request.organizationId
  risk : (Db.risk view request.riskAssessmentId).isSome = true
  decision : (Db.decision view requestId id).isSome = true

theorem Decided.audit {view : Db} (h : Decided requestId id request view) (c : Id)
    (a : AuditEvent) :
    Decided requestId id request (⟨.audit c, a⟩ :: view) := by
  have hkeep : ∀ k : Key, k ≠ .audit c → Log.row k (⟨.audit c, a⟩ :: view) = Log.row k view :=
    fun k hk => Log.row_cons_ne _ _ hk
  obtain ⟨⟨r, hr, hsame⟩, ⟨v, hv, horg⟩, hrisk, hdecision⟩ := h
  refine ⟨⟨r, (hkeep (.request requestId) Key.noConfusion).trans hr, hsame⟩,
    ⟨v, (hkeep (.invoice request.invoiceId) Key.noConfusion).trans hv, horg⟩, ?_, ?_⟩
  · exact (congrArg Option.isSome (hkeep (.risk request.riskAssessmentId)
      Key.noConfusion)).trans hrisk
  · exact (congrArg Option.isSome (hkeep (.decision requestId id) Key.noConfusion)).trans hdecision

/-- A decision and its index entry hide no other row. -/
theorem row_recorded (hw : Defaults db w) {k : Key} (hdecision : ∀ r m, k ≠ .decision r m)
    (hunique : ∀ u, k ≠ .unique u) (hpolicy : ∀ o, k ≠ .policy o) (d : ApprovalDecision)
    (u : UniqueIndex) :
    Log.row k (⟨.decision requestId id, d⟩ :: ⟨.unique u, ()⟩ :: w ++ db) = Log.row k db := by
  refine (Log.row_cons_ne _ _ (hdecision requestId id)).trans ?_
  exact (Log.row_cons_ne _ _ (hunique u)).trans (hw.row hpolicy)

/-- The rows that `complete` writes. -/
def completedRequest (requestId : Id) (request : ApprovalRequest)
    (outcome : ApprovalDecisionOutcome) (completedAt : Time) : Sigma Val :=
  ⟨.request requestId, (RequestChange.completed outcome completedAt).apply request⟩

def decidedInvoice (request : ApprovalRequest) (v : Invoice) (outcome : ApprovalDecisionOutcome) :
    Sigma Val :=
  ⟨.invoice request.invoiceId, (InvoiceChange.decided outcome).apply v⟩

def completed (requestId : Id) (request : ApprovalRequest) (v : Invoice)
    (outcome : ApprovalDecisionOutcome) (completedAt : Time) : Db :=
  [decidedInvoice request v outcome, completedRequest requestId request outcome completedAt]

theorem completed_decided {outcome : ApprovalDecisionOutcome}
    (h : Decided requestId id request (w ++ db))
    (horg : v.organizationId = request.organizationId) :
    Decided requestId id request (completed requestId request v outcome time ++ w ++ db) := by
  have hrequest : Db.request (completed requestId request v outcome time ++ w ++ db) requestId =
      some ((RequestChange.completed outcome time).apply request) := by
    simp [completed, decidedInvoice, completedRequest, Db.request, Log.row_cons_ne]
  have hrisk : Db.risk (completed requestId request v outcome time ++ w ++ db)
      request.riskAssessmentId = Db.risk (w ++ db) request.riskAssessmentId := by
    simp [completed, decidedInvoice, completedRequest, Db.risk, Log.row_cons_ne]
  have hdecision : Db.decision (completed requestId request v outcome time ++ w ++ db) requestId
      id = Db.decision (w ++ db) requestId id := by
    simp [completed, decidedInvoice, completedRequest, Db.decision, Log.row_cons_ne]
  refine ⟨⟨_, hrequest, rfl, rfl, rfl⟩, ⟨(InvoiceChange.decided outcome).apply v, ?_, horg⟩, ?_, ?_⟩
  · simp [completed, decidedInvoice, completedRequest, Db.invoice]
  · rw [hrisk]
    exact h.risk
  · rw [hdecision]
    exact h.decision

theorem performUpdate_completed {outcome : ApprovalDecisionOutcome} {view : Db}
    (hrow : Db.request view requestId = some request) (hpending : request.status = .pending)
    (hchecks : requestChecks request = true) (c : Nat) :
    performUpdate c view (.updateRequest requestId (.completed outcome time)) =
      .ok (1, [completedRequest requestId request outcome time]) := by
  have htrigger : validateApprovalRequestUpdate request
      ((RequestChange.completed outcome time).apply request) = true :=
    decide_eq_true (.inl hpending)
  have hnew : requestChecks ((RequestChange.completed outcome time).apply request) = true := hchecks
  have hadmitted : changeRequest (.completed outcome time) request =
      .ok ((RequestChange.completed outcome time).apply request) := by
    simp [changeRequest, admitted, htrigger, hnew]
  show updateRow view (.request requestId) _ _ = _
  rw [updateRow, show Log.row (.request requestId) view = some request from hrow]
  show Except.map _ (changeRequest (.completed outcome time) request) = _
  rw [hadmitted]
  rfl

/-- The trigger on invoices sees the request that was completed just before. -/
theorem performUpdate_decided {outcome : ApprovalDecisionOutcome} {view : Db}
    (hinvoice : Db.invoice view request.invoiceId = some v)
    (horg : v.organizationId = request.organizationId)
    (hversion : v.version = request.invoiceVersion)
    (hchecks : invoiceChecks v = true) (c : Nat) :
    performUpdate c (completedRequest requestId request outcome time :: view)
        (.updateInvoice request.invoiceId (.decided outcome)) =
      .ok (1, [decidedInvoice request v outcome]) := by
  have hrow : Log.row (.invoice request.invoiceId)
      (completedRequest requestId request outcome time :: view) =
        Log.row (.invoice request.invoiceId) view := Log.row_cons_ne _ _ Key.noConfusion
  have hguard : guardInvoiceApproval (completedRequest requestId request outcome time :: view)
      request.invoiceId v ((InvoiceChange.decided outcome).apply v) = true := by
    cases outcome with
    | reject => rfl
    | approve =>
        refine (Bool.or_eq_true _ _).mpr (.inr (List.any_eq_true.mpr
          ⟨(requestId, (RequestChange.completed .approve time).apply request), ?_, ?_⟩))
        · exact Db.mem_requests.mpr (Log.row_cons_self _ _ _)
        · exact decide_eq_true ⟨horg.symm, rfl, hversion.symm, rfl⟩
  have hnew : invoiceChecks ((InvoiceChange.decided outcome).apply v) = true := hchecks
  have hadmitted : changeInvoice (completedRequest requestId request outcome time :: view)
      request.invoiceId (.decided outcome) v = .ok ((InvoiceChange.decided outcome).apply v) := by
    simp [changeInvoice, admitted, hguard, hnew, InvoiceChange.setsContract]
  show updateRow _ (.invoice request.invoiceId) _ _ = _
  rw [updateRow, hrow, show Log.row (.invoice request.invoiceId) view = some v from hinvoice]
  show Except.map _ (changeInvoice _ request.invoiceId (.decided outcome) v) = _
  rw [hadmitted]
  rfl

/-- A pending request is completed, with its invoice. -/
theorem complete_surely {outcome : ApprovalDecisionOutcome} {Q : Unit → Db → Db → Prop}
    (hrow : Db.request (w ++ db) requestId = some request) (hpending : request.status = .pending)
    (hchecks : requestChecks request = true)
    (hinvoice : Db.invoice (w ++ db) request.invoiceId = some v)
    (horg : v.organizationId = request.organizationId)
    (hversion : v.version = request.invoiceVersion)
    (hvchecks : invoiceChecks v = true)
    (hQ : Q () (completed requestId request v outcome time ++ w) db) :
    (complete requestId request outcome).surely (engineAt cfg time) (fun _ => False) Q R w db := by
  refine (surely_bind _ _).mpr (now_surely ?_)
  refine (surely_bind _ _).mpr (write_surely (1 : Nat) _ nofun
    (performUpdate_completed hrow hpending hchecks) ?_)
  refine (surely_bind _ _).mpr ((surely_require _ _).mpr
    ⟨fun _ => ?_, fun h => absurd Nat.one_ne_zero h⟩)
  refine (surely_bind _ _).mpr (write_surely (1 : Nat) _ nofun
    (performUpdate_decided hinvoice horg hversion hvchecks) ?_)
  exact (surely_require _ _).mpr ⟨fun _ => hQ, fun h => absurd Nat.one_ne_zero h⟩

theorem settle_surely {outcome : ApprovalDecisionOutcome} {Q : Unit → Db → Db → Prop}
    (hrow : Db.request (w ++ db) requestId = some request) (hpending : request.status = .pending)
    (hchecks : requestChecks request = true)
    (hinvoice : Db.invoice (w ++ db) request.invoiceId = some v)
    (horg : v.organizationId = request.organizationId)
    (hversion : v.version = request.invoiceVersion)
    (hvchecks : invoiceChecks v = true) (hdecided : Decided requestId id request (w ++ db))
    (hQ : ∀ w', Decided requestId id request (w' ++ db) → Q () w' db) :
    (settle auth requestId request outcome).surely (engineAt cfg time) (fun _ => False) Q R w
      db := by
  have hcomplete : (complete requestId request outcome).surely (engineAt cfg time)
      (fun _ => False) Q R w db :=
    complete_surely hrow hpending hchecks hinvoice horg hversion hvchecks
      (hQ _ (completed_decided hdecided horg))
  cases outcome with
  | reject => exact hcomplete
  | approve =>
      refine (surely_bind _ _).mpr (read_surely (q := .countApprovals _ _ _) _ (fun _ => rfl) ?_)
      split
      · exact hcomplete
      · exact hQ w hdecided

/-- A view of a request that has been decided on. -/
theorem present_surely {Q : ApprovalView → Db → Db → Prop}
    (horg : auth.organizationId = request.organizationId)
    (hdecided : Decided requestId id request (w ++ db))
    (hQ : ∀ view w', (Db.decision (w' ++ db) requestId id).isSome = true → Q view w' db) :
    (do
      let found ← query (.findRequest auth.organizationId requestId)
      let updated ← orThrow found .recordNotFound
      let details ← requestDetails requestId updated
      let eligible ← eligibleApprovers auth.organizationId updated
      return approvalView details eligible : Program ApprovalView).surely (engineAt cfg time)
        (fun _ => False) Q R w db := by
  obtain ⟨⟨r, hr, hrorg, hrinvoice, hrrisk⟩, ⟨v', hv', hvorg⟩, hrisk, hdecision⟩ := hdecided
  refine (surely_bind _ _).mpr (read_surely (some r) (fun c => ?_) ?_)
  · show some (rowWhere _ (Db.request (w ++ db) requestId)) = _
    rw [hr, rowWhere, Option.filter_some, if_pos (decide_eq_true (hrorg.trans horg.symm))]
  refine (surely_bind _ _).mpr ?_
  refine (surely_bind _ _).mpr (details_surely (fun _ _ _ _ _ _ => ?_) ?_)
  · refine (surely_bind _ _).mpr (approvers_surely fun w' ids hrows _ => hQ _ w' ?_)
    rcases hrows with rfl | ⟨-, rfl⟩
    · exact hdecision
    · have hsame : Log.row (.decision requestId id) (⟨.policy auth.organizationId, defaultPolicy⟩ ::
          (w ++ db)) = Log.row (.decision requestId id) (w ++ db) :=
        Log.row_cons_ne _ _ Key.noConfusion
      exact (congrArg Option.isSome hsame).trans hdecision
  · rw [hrinvoice, hrorg, hrrisk]
    rintro (hmissing | hnone)
    · exact absurd hvorg (hmissing v' hv')
    · rw [hnone] at hrisk
      cases hrisk

end Recording

section Members

variable {cfg : Config} {time : Time} {db : Db} {requestId id sessionId : Id}
  {request : ApprovalRequest} {v : Invoice} {dto : ApprovalDecisionDto} {member : Membership}
  {session : Session} {t : Time} {keyHash : Digest}

/-- The member's session is live, and its step-up is fresh. -/
structure Fresh (cfg : Config) (time : Time) (db : Db) (sessionId : Id) (member : Membership)
    (session : Session) (t : Time) : Prop where
  row : Db.session db sessionId = some session
  holder : session.organizationId = member.organizationId ∧ session.userId = member.userId
  live : session.revokedAt = none ∧ time < session.expiresAt
  stepUp : session.stepUpVerifiedAt = some t ∧ time - cfg.stepUpTtlMilliseconds ≤ t

theorem newDecision_checks (hchecks : requestChecks request = true)
    (hreason : 10 ≤ (trimSpaces (trim dto.reason)).length) {verifiedAt createdAt : Time} :
    decisionChecks (newDecision (memberAuth id sessionId member) requestId request dto keyHash
      verifiedAt createdAt) = true := by
  have hversion : 0 < request.version := (of_decide_eq_true hchecks).2.1
  exact decide_eq_true ⟨hversion, hreason⟩

/-- An eligible member that has not decided records its decision. -/
theorem record_ok (hawaits : Awaits db requestId request v)
    (hrisk : (Db.risk db request.riskAssessmentId).isSome = true)
    (hchecks : requestChecks request = true) (hvchecks : invoiceChecks v = true)
    (hmember : Db.membership db id = some member) (heligible : Eligible db request id member)
    (hfresh : Fresh cfg time db sessionId member session t)
    (hreason : 10 ≤ (trimSpaces (trim dto.reason)).length)
    (hkey : Key.unique (.decisionKey request.organizationId keyHash) ∉ db.keys)
    (hundecided : Db.decision db requestId id = none) :
    (record cfg (memberAuth id sessionId member) requestId request dto keyHash).surely
      (engineAt cfg time) (fun _ => False)
      (fun _ w db => (Db.decision (w ++ db) requestId id).isSome = true) (fun _ _ _ => False) []
      db := by
  refine (surely_bind _ _).mpr (authorize_ok hmember heligible hfresh.row hfresh.holder hfresh.live
    hfresh.stepUp fun w hw => ?_)
  have hrow : Key.decision requestId id ∉ (w ++ db).keys :=
    Log.row_eq_none.mp ((hw.row (k := .decision requestId id) nofun).trans hundecided)
  have hindex : Key.unique (.decisionKey member.organizationId keyHash) ∉ (w ++ db).keys := by
    rw [heligible.1]
    exact Log.row_eq_none.mp ((hw.row (k := .unique _) nofun).trans (Log.row_eq_none.mpr hkey))
  refine (surely_bind _ _).mpr (now_surely ((surely_bind _ _).mpr
    (createDecision_ok (newDecision_checks hchecks hreason) hrow hindex ?_)))
  have hrequest := fun d u => (@row_recorded w db requestId id hw (.request requestId)
    nofun nofun nofun d u).trans hawaits.row
  have hinvoice := fun d u => (@row_recorded w db requestId id hw (.invoice request.invoiceId)
    nofun nofun nofun d u).trans hawaits.invoice
  have hassessed := fun d u => (congrArg Option.isSome (@row_recorded w db requestId id hw
    (.risk request.riskAssessmentId)
    nofun nofun nofun d u)).trans hrisk
  refine (surely_bind _ _).mpr (settle_surely (hrequest _ _) hawaits.pending hchecks (hinvoice _ _)
    hawaits.organization hawaits.version hvchecks ⟨⟨request, hrequest _ _, rfl, rfl, rfl⟩,
      ⟨v, hinvoice _ _, hawaits.organization⟩, hassessed _ _, ?_⟩
        fun w' (hdecided : Decided requestId id request (w' ++ db)) => ?_)
  · exact congrArg Option.isSome (Log.row_cons_self (Key.decision requestId id) _ _)
  · refine (surely_bind _ _).mpr (audit_surely fun c a => ?_)
    exact present_surely heligible.1 (hdecided.audit c a) fun _ _ hsome => hsome

/-- A member that is not eligible, or has decided, records nothing. -/
theorem record_refused {Q : ApprovalView → Db → Db → Prop} {R : Failure → Db → Db → Prop}
    (hchecks : requestChecks request = true) (hmember : Db.membership db id = some member)
    (horg : member.organizationId = request.organizationId)
    (hfresh : Fresh cfg time db sessionId member session t)
    (hreason : 10 ≤ (trimSpaces (trim dto.reason)).length)
    (hrefused : ¬ Eligible db request id member ∨ Db.decision db requestId id ≠ none)
    (hR : ∀ e w, R e w db) :
    (record cfg (memberAuth id sessionId member) requestId request dto keyHash).surely
      (engineAt cfg time) (fun _ => False) Q R [] db := by
  by_cases heligible : Eligible db request id member
  · have hdecided := hrefused.resolve_left (not_not_intro heligible)
    refine (surely_bind _ _).mpr (authorize_ok hmember heligible hfresh.row hfresh.holder
      hfresh.live hfresh.stepUp fun w hw => ?_)
    refine (surely_bind _ _).mpr (now_surely ((surely_bind _ _).mpr
      (createDecision_taken (newDecision_checks hchecks hreason) ?_ hR)))
    by_contra hmem
    exact hdecided ((hw.row (k := .decision requestId id) nofun).symm.trans
      (Log.row_eq_none.mpr hmem))
  · exact (surely_bind _ _).mpr (authorize_fails hmember horg heligible hR)

/-- A call of a member that is not eligible, or has decided, does not return. -/
theorem decide_refused {idempotencyKey : Option Text} (hawaits : Awaits db requestId request v)
    (hrisk : (Db.risk db request.riskAssessmentId).isSome = true)
    (hchecks : requestChecks request = true) (hmember : Db.membership db id = some member)
    (horg : member.organizationId = request.organizationId)
    (hfresh : Fresh cfg time db sessionId member session t)
    (hproper : Proper cfg db request dto idempotencyKey)
    (hrefused : ¬ Eligible db request id member ∨ Db.decision db requestId id ≠ none) :
    (decide cfg (memberAuth id sessionId member) requestId dto idempotencyKey).surely
      (engineAt cfg time) (fun _ => False) (fun _ _ _ => False) (fun _ _ _ => True) [] db :=
  decide_surely hawaits hrisk hproper horg fun _ _ =>
    record_refused hchecks hmember horg hfresh hproper.reason hrefused fun _ _ => trivial

/-- A call of an eligible member that has not decided returns and is recorded. -/
theorem decide_recorded {idempotencyKey : Option Text} (hawaits : Awaits db requestId request v)
    (hrisk : (Db.risk db request.riskAssessmentId).isSome = true)
    (hchecks : requestChecks request = true) (hvchecks : invoiceChecks v = true)
    (hmember : Db.membership db id = some member)
    (hfresh : Fresh cfg time db sessionId member session t)
    (hproper : Proper cfg db request dto idempotencyKey) (heligible : Eligible db request id member)
    (hundecided : Db.decision db requestId id = none) :
    (decide cfg (memberAuth id sessionId member) requestId dto idempotencyKey).surely
      (engineAt cfg time) (fun _ => False)
      (fun _ _ db => (Db.decision db requestId id).isSome = true) (fun _ _ _ => False) [] db := by
  obtain ⟨t', hkey, hindex, -⟩ := hproper.key
  refine decide_surely hawaits hrisk hproper heligible.1 fun t hnormalized => ?_
  obtain rfl : t' = t := Option.some.inj (hkey.symm.trans hnormalized)
  exact record_ok hawaits hrisk hchecks hvchecks hmember heligible hfresh hproper.reason hindex
    hundecided

/-- A decision is recorded for an eligible member that the session guard admits, once. -/
theorem records_iff {sessions : Identity.Config} {idb : Identity.Db} {accessToken : Text}
    {s : Identity.Session} {idempotencyKey : Option Text} (hawaits : Awaits db requestId request v)
    (hrisk : (Db.risk db request.riskAssessmentId).isSome = true)
    (hchecks : requestChecks request = true) (hvchecks : invoiceChecks v = true)
    (hmember : Db.membership db id = some member)
    (horg : member.organizationId = request.organizationId) (hsame : SameRows idb db)
    (hholds : Holds cfg sessions time idb accessToken member sessionId s)
    (hproper : Proper cfg db request dto idempotencyKey) :
    Records cfg sessions time idb db accessToken requestId dto idempotencyKey id ↔
      Eligible db request id member ∧ MayDecide time idb db requestId id member := by
  obtain ⟨validUntil, hrow⟩ := hsame.membership id member hmember
  obtain ⟨t, hverified, hrecent⟩ := hholds.stepUp
  have hfresh : Fresh cfg time db sessionId member
      ⟨s.organizationId, s.userId, s.revokedAt, s.expiresAt, s.stepUpVerifiedAt⟩ t := by
    refine ⟨?_, ⟨hholds.organization, hholds.user⟩, hholds.live, hverified, hrecent⟩
    rw [hsame.session, hholds.row]
    rfl
  have hcaller := authenticate_surely hrow hholds
  constructor
  · rintro ⟨context, idb', hauthenticated, view, db', hdecided, hnone, -⟩
    obtain ⟨⟨huser, -, hvalid⟩, hcontext⟩ := hauthenticated.satisfies
      (S := fun r _ => ∀ context, r = .ok context → Admits time idb member ∧
        caller context = memberAuth id sessionId member)
      (surely_mono (fun context w db h context' heq => by cases heq; exact h)
        (fun e w db _ context' heq => by cases heq) hcaller) context rfl
    refine ⟨?_, huser, hvalid, hnone⟩
    by_contra hnot
    rw [hcontext] at hdecided
    have hrefused := decide_refused hawaits hrisk hchecks hmember horg hfresh hproper (.inl hnot)
    exact hdecided.satisfies (S := fun r _ => ∀ view, r = .ok view → False)
      (surely_mono (fun _ _ _ h => h.elim) (fun e w db _ view heq => by cases heq) hrefused)
        view rfl
  · rintro ⟨heligible, huser, hvalid, hnone⟩
    have hadmits : Admits time idb member := ⟨huser, heligible.2.1, hvalid⟩
    obtain ⟨r, idb', hauthenticated⟩ := exists_completes hcaller
    obtain ⟨context, rfl, hcontext⟩ := hauthenticated.satisfies
      (S := fun r _ => ∃ context, r = .ok context ∧ caller context = memberAuth id sessionId member)
      (surely_mono (fun context w db h => ⟨context, rfl, h.2⟩)
        (fun e w db h => absurd hadmits h) hcaller)
    have hrecorded := decide_recorded hawaits hrisk hchecks hvchecks hmember hfresh hproper
      heligible hnone
    obtain ⟨r, db', hdecided⟩ := exists_completes hrecorded
    obtain ⟨view, rfl, hsome⟩ := hdecided.satisfies
      (S := fun r db => ∃ view, r = .ok view ∧ (Db.decision db requestId id).isSome = true)
      (surely_mono (fun view w db h => ⟨view, rfl, h⟩) (fun e w db h => h.elim) hrecorded)
    rw [← hcontext] at hdecided
    exact ⟨context, idb', hauthenticated, view, db', hdecided, hnone, hsome⟩

end Members

section Reachable

variable {cfg : Config} {ok : System → SystemAction → Prop} {s₀ s : System} {db rows : Db}

/-- The constraints of requests and invoices. -/
def passes : (k : Key) → Val k → Bool
  | .request _, r => requestChecks r
  | .invoice _, v => invoiceChecks v
  | _, _ => true

def Passing : Transition Val := fun k _ v => passes k v = true

theorem performUpdate_request {choice : Nat} {u : Update} {out : u.Out} {id : Id}
    {r : ApprovalRequest} (h : performUpdate choice db u = .ok (out, rows))
    (hr : (⟨.request id, r⟩ : Sigma Val) ∈ rows) : requestChecks r = true := by
  have hwrote : Wrote db u out rows := performUpdate_ok h
  have hk : Key.request id ∈ rows.keys := List.mem_map_of_mem (f := Sigma.fst) hr
  have htarget := hwrote.target hk rfl
  cases u with
  | insertRequest request =>
      obtain ⟨a, ha, heq⟩ := map_ok h
      cases heq
      obtain ⟨hchecks, hinserted⟩ := insertChecked_ok ha
      rw [hinserted.rows_eq] at hr
      rcases List.mem_cons.mp hr with heq | hr
      · cases heq
        exact hchecks
      · obtain ⟨u, -, heq⟩ := List.mem_map.mp hr
        cases heq
  | updateRequest id' c =>
      cases updateRow_ok h with
      | missed _ => cases hr
      | wrote old new hrow happlies hchange =>
          cases List.mem_singleton.mp hr
          obtain ⟨rfl, -⟩ := changeRequest_ok hchange
          exact admitted_checks hchange
  | _ => cases htarget

theorem engine_passes {q : Stmt} {choice : Nat} {out : Out q}
    (h : engine cfg q choice db = some (.ok (out, rows))) : ∀ x ∈ rows, passes x.1 x.2 = true := by
  rintro ⟨k, v⟩ hx
  cases k with
  | invoice id => exact engine_checks h _ hx
  | request id =>
      cases q with
      | read q =>
          obtain ⟨o, -, heq⟩ := Option.map_eq_some_iff.mp h
          cases heq
          cases hx
      | write u => exact performUpdate_request (Option.some.inj h) hx
      | call c =>
          have hinternal := reply_internal h (List.mem_map_of_mem (f := Sigma.fst) hx)
          cases hinternal
  | _ => rfl

theorem passing_append (hrows : ∀ x ∈ rows, passes x.1 x.2 = true) (hc : Log.Chain Passing db) :
    Log.Chain Passing (rows ++ db) := by
  induction rows with
  | nil => exact hc
  | cons x rows ih =>
      rw [List.cons_append, Log.chain_cons]
      exact ⟨hrows x List.mem_cons_self, ih fun y hy => hrows y (List.mem_cons_of_mem _ hy)⟩

/-- Whatever the programs do, requests and invoices pass their constraints. -/
theorem passing (cfg : Config) : Discipline (machine cfg) (fun _ => .free) Passing where
  program op := Prog.wp_unconditional _ _ _
  legal q c view out rows hrun hc := passing_append (engine_passes hrun) hc
  answers _ _ _ _ _ _ _ := trivial
  external db rows hext hc := by
    refine passing_append (fun x hx => ?_) hc
    have houtside := hext.1 x hx
    obtain ⟨k, v⟩ := x
    cases k with
    | request id => cases houtside
    | invoice id => cases houtside
    | _ => rfl

theorem reachable_passes (hprocs : s₀.procs = []) (hstart : ∀ x ∈ s₀.db, passes x.1 x.2 = true)
    (h : Run (machine cfg) ok s₀ s) {k : Key} {v : Val k} (hv : Log.row k s.db = some v) :
    passes k v = true := by
  have hchain : Log.Chain Passing s₀.db := by
    have hrows := @passing_append [] s₀.db hstart Log.chain_nil
    rwa [List.append_nil] at hrows
  have hreached := (Run.consistent (passing cfg) (Idle.consistent ⟨hchain, hprocs⟩) h).chain
  exact hreached.current (P := fun k v => passes k v = true) (fun _ _ _ hnew _ => hnew) hv

/-- The list and the rule agree on a membership exactly when being eligible implies that it may
decide. -/
theorem approvers_agree_iff (cfg : Config) (sessions : Identity.Config) (h₀ : Idle Legal s₀)
    (hstart : ∀ x ∈ s₀.db, passes x.1 x.2 = true) (hrun : Run (machine cfg) ok s₀ s) (time : Time)
    {idb : Identity.Db} (hsame : SameRows idb s.db) {viewer : AuthContext} {requestId : Id}
    {request : ApprovalRequest} {v : Invoice} (hawaits : Awaits s.db requestId request v)
    {view : ApprovalView} (hview : Shown cfg time s.db viewer requestId view) {id : Id}
    {member : Membership} (hmember : Db.membership s.db id = some member)
    (horg : member.organizationId = request.organizationId) {accessToken : Text} {sessionId : Id}
    {session : Identity.Session}
    (hholds : Holds cfg sessions time idb accessToken member sessionId session)
    {dto : ApprovalDecisionDto} {idempotencyKey : Option Text}
    (hproper : Proper cfg s.db request dto idempotencyKey) :
    (id ∈ view.eligibleApprovers ↔
        Records cfg sessions time idb s.db accessToken requestId dto idempotencyKey id) ↔
      (Eligible s.db request id member → MayDecide time idb s.db requestId id member) := by
  obtain ⟨rfl, hpresents⟩ := hview.presents hawaits.row
  have hchecks : requestChecks view.request = true :=
    reachable_passes h₀.procs hstart hrun hawaits.row
  have hvchecks : invoiceChecks v = true := reachable_passes h₀.procs hstart hrun hawaits.invoice
  have hlisted : id ∈ view.eligibleApprovers ↔ Eligible s.db view.request id member := by
    rw [hpresents.listed]
    constructor
    · rintro ⟨member', hrow, heligible⟩
      cases hmember.symm.trans hrow
      exact heligible
    · exact fun heligible => ⟨member, hmember, heligible⟩
  rw [hlisted, records_iff hawaits hpresents.complete.risk hchecks hvchecks hmember horg hsame
    hholds hproper]
  exact iff_self_and

end Reachable

section Sample

def memberSession (user : Id) : Identity.Session where
  userId := user
  organizationId := 1
  tokenFamilyId := user
  refreshTokenHash := user
  csrfTokenHash := 0
  metadata := ⟨none, none⟩
  rotationCounter := 0
  stepUpVerifiedAt := some 10
  lastUsedAt := 0
  expiresAt := 1000000
  revokedAt := none
  createdAt := 0

/-- The members of the sample tenant, the second of which has this status as a user. -/
def membersDb (status : Identity.UserStatus) : Identity.Db :=
  [⟨.user 2, ⟨['b'], ['B'], status⟩⟩, ⟨.membership 1 1, ⟨1, .owner, .active, none⟩⟩,
    ⟨.membership 1 2, ⟨2, .owner, .active, none⟩⟩, ⟨.membership 1 3, ⟨3, .owner, .active, none⟩⟩,
    ⟨.session 1, memberSession 1⟩, ⟨.session 2, memberSession 2⟩, ⟨.session 3, memberSession 3⟩]

theorem membersDb_same (status : Identity.UserStatus) :
    SameRows (membersDb status) pendingStart.db where
  membership id m hm := by
    have hmem := Log.mem_of_row hm
    simp only [pendingStart, pendingDb, sampleDb, List.tail_cons, List.mem_cons, Sigma.mk.injEq,
      reduceCtorEq, false_and, List.not_mem_nil, or_false, false_or, Key.membership.injEq] at hmem
    obtain ⟨rfl, heq⟩ | ⟨rfl, heq⟩ | ⟨rfl, heq⟩ := hmem
    · cases heq
      exact ⟨none, rfl⟩
    · cases heq
      exact ⟨none, rfl⟩
    · cases heq
      exact ⟨none, rfl⟩
  session id := by
    by_cases hone : id = 1
    · subst hone
      rfl
    by_cases htwo : id = 2
    · subst htwo
      rfl
    by_cases hthree : id = 3
    · subst hthree
      rfl
    have hnone : Db.session pendingStart.db id = none := by
      refine Log.row_eq_none.mpr ?_
      simp [pendingStart, pendingDb, sampleDb, List.keys, hone, htwo, hthree]
    have hnone' : Identity.Db.session (membersDb status) id = none := by
      refine Log.row_eq_none.mpr ?_
      simp [membersDb, List.keys, hone, htwo, hthree]
    rw [hnone, hnone']
    rfl

theorem pending_awaits : Awaits pendingStart.db 1 pendingRequest pendingInvoice where
  row := rfl
  pending := rfl
  invoice := rfl
  organization := rfl
  version := rfl
  status := rfl
  bank vendorId h := by
    cases h
    exact ⟨1, sampleBank, rfl, by decide⟩

theorem pending_proper :
    Proper sampleConfig pendingStart.db pendingRequest (sampleDecision .approve)
      (sampleKey 'b') where
  version := rfl
  reason := by decide
  key := ⟨List.replicate 16 'b', by decide, by decide, by decide⟩

/-- The access token of the second member. -/
def secondToken : Text := [2, 2, 1, 1000].map Char.ofNat

theorem second_holds (status : Identity.UserStatus) :
    Holds sampleConfig Identity.sampleConfig 100 (membersDb status) secondToken (sampleMember 2) 2
      (memberSession 2) where
  token := ⟨1000, by decide, by decide⟩
  row := rfl
  user := rfl
  organization := rfl
  live := ⟨rfl, by decide⟩
  stepUp := ⟨10, rfl, by decide⟩

theorem pending_passes : ∀ x ∈ pendingStart.db, passes x.1 x.2 = true := by decide

theorem pending_eligible : Eligible pendingStart.db pendingRequest 2 (sampleMember 2) :=
  ⟨rfl, rfl, by decide, by decide⟩

theorem pending_served : Served pendingStart.db (sampleAuth 1) 1 pendingRequest :=
  ⟨rfl, rfl, ⟨pendingInvoice, rfl, rfl⟩, rfl⟩

/-- An owner whose user is disabled is listed, and cannot decide. -/
theorem disabled_user_listed : ∃ view,
    Shown sampleConfig 100 pendingStart.db (sampleAuth 1) 1 view ∧ 2 ∈ view.eligibleApprovers ∧
      ¬ Records sampleConfig Identity.sampleConfig 100 (membersDb .disabled) pendingStart.db
        secondToken 1 (sampleDecision .approve) (sampleKey 'b') 2 := by
  obtain ⟨view, hview⟩ := @Served.shown sampleConfig 100 _ _ _ _ pending_served
  obtain ⟨hrequest, hpresents⟩ := hview.presents pending_awaits.row
  refine ⟨view, hview, ?_, fun hrecords => ?_⟩
  · rw [hpresents.listed, hrequest]
    exact ⟨sampleMember 2, rfl, pending_eligible⟩
  · have hmay := (records_iff pending_awaits rfl (by decide) (by decide) rfl rfl
      (membersDb_same .disabled) (second_holds .disabled) pending_proper).mp hrecords
    exact absurd hmay.2.1 (by decide)

/-- While the user is active the list and the rule agree on it. -/
theorem active_user_agrees : ∃ view,
    Shown sampleConfig 100 pendingStart.db (sampleAuth 1) 1 view ∧
      ((2 ∈ view.eligibleApprovers ↔
          Records sampleConfig Identity.sampleConfig 100 (membersDb .active) pendingStart.db
            secondToken 1 (sampleDecision .approve) (sampleKey 'b') 2) ↔
        (Eligible pendingStart.db pendingRequest 2 (sampleMember 2) →
          MayDecide 100 (membersDb .active) pendingStart.db 1 2 (sampleMember 2))) := by
  obtain ⟨view, hview⟩ := @Served.shown sampleConfig 100 _ _ _ _ pending_served
  have hrun : Run (machine sampleConfig) (fun _ _ => True) pendingStart pendingStart := .refl
  exact ⟨view, hview, approvers_agree_iff sampleConfig Identity.sampleConfig pendingStart_idle
    pending_passes hrun 100 (membersDb_same .active) pending_awaits hview rfl rfl
    (second_holds .active) pending_proper⟩

end Sample

end BlocTrust.ApprovalsService
