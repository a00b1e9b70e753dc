import BlocTrust.Identity.SessionService
import BlocTrust.Legal
import BlocTrust.ReadCommitted.Solo

/-!
Who is shown as an approver, and who can approve.
`eligibleApprovers` asks for the role, the status and the separation of duties.  A decision also
needs a session, which is admitted only for an active user whose membership has not run out, and
a membership decides once.  The list and the rule agree on a membership exactly when being listed
implies these three.
-/
namespace BlocTrust.ApprovalsService

open ReadCommitted Prog

section Views

def get (auth : AuthContext) (requestId : Id) : Program ApprovalView :=
  transaction do
    let found ← query (.findRequest auth.organizationId requestId)
    let request ← orThrow found approvalNotFound
    let details ← requestDetails requestId request
    let eligible ← eligibleApprovers auth.organizationId request
    return approvalView details eligible

/-- The views of a page of requests; `list` shows the hundred newest ones. -/
def list (auth : AuthContext) (page : List (Id × ApprovalRequest)) : Program (List ApprovalView) :=
  transaction do
    let requests ← each (fun entry => requestDetails entry.1 entry.2) page
    each (fun details => do
      let eligible ← eligibleApprovers auth.organizationId details.request
      return approvalView details eligible) requests

end Views

section Calls

/-- A call that is made at a time, while the clock shows it and new identifiers are free. -/
def engineAt (cfg : Config) (time : Time) : Engine Val Out Failure
  | .call .clock, _, view => engine cfg (.call .clock) time view
  | .write (.insertAudit a), choice, view =>
      if Key.audit choice ∈ view.keys then none
      else engine cfg (.write (.insertAudit a)) choice view
  | s, choice, view => engine cfg s choice view

/-- The same for the statements of `SessionService`. -/
def sessionsAt (time : Time) : Engine Identity.Val Identity.Out Identity.Failure
  | .call .clock, _, view => Identity.tables.engine Identity.client (.call .clock) time view
  | s, choice, view => Identity.tables.engine Identity.client s choice view

variable (cfg : Config) (sessions : Identity.Config) (time : Time)

/-- A view of the request that `get` or `list` returns. -/
def Shown (db : Db) (auth : AuthContext) (requestId : Id) (view : ApprovalView) : Prop :=
  (∃ db', (get auth requestId).Completes (engineAt cfg time) (fun _ => False) [] db (.ok view)
    db') ∨
  ∃ page views db', (∀ x ∈ page, Db.request db x.1 = some x.2 ∧
      x.2.organizationId = auth.organizationId) ∧
    (list auth page).Completes (engineAt cfg time) (fun _ => False) [] db (.ok views) db' ∧
      view ∈ views ∧ view.id = requestId

/-- The caller whom the session guard hands on. -/
def caller (context : Identity.AuthContext) : AuthContext :=
  ⟨context.userId, context.membershipId, context.sessionId, context.organizationId, context.role⟩

/-- The holder of the access token is let in, and its decision is recorded. -/
def Records (idb : Identity.Db) (db : Db) (accessToken : Text) (requestId : Id)
    (dto : ApprovalDecisionDto) (idempotencyKey : Option Text) (membershipId : Id) : Prop :=
  ∃ context idb', (Identity.SessionService.authenticateAccessToken sessions accessToken).Completes
      (sessionsAt time) (fun _ => False) [] idb (.ok context) idb' ∧
    ∃ view db', (decide cfg (caller context) requestId dto idempotencyKey).Completes
        (engineAt cfg time) (fun _ => False) [] db (.ok view) db' ∧
      Db.decision db requestId membershipId = none ∧
        (Db.decision db' requestId membershipId).isSome = true

/-- The two services read the same memberships and sessions. -/
structure SameRows (idb : Identity.Db) (db : Db) : Prop where
  membership : ∀ id m, Db.membership db id = some m →
    ∃ validUntil, Identity.Db.membership idb m.organizationId m.userId =
      some ⟨id, m.role, m.status, validUntil⟩
  session : ∀ id, Db.session db id = (Identity.Db.session idb id).map fun s =>
    ⟨s.organizationId, s.userId, s.revokedAt, s.expiresAt, s.stepUpVerifiedAt⟩

/-- The token is for a live session of the member, with a fresh step-up. -/
structure Holds (idb : Identity.Db) (accessToken : Text) (member : Membership) (sessionId : Id)
    (s : Identity.Session) : Prop where
  token : ∃ expiresAt, sessions.openAccessToken accessToken =
    some ⟨sessionId, member.userId, member.organizationId, expiresAt⟩ ∧ time < expiresAt
  row : Identity.Db.session idb sessionId = some s
  user : s.userId = member.userId
  organization : s.organizationId = member.organizationId
  live : s.revokedAt = none ∧ time < s.expiresAt
  stepUp : ∃ t, s.stepUpVerifiedAt = some t ∧ time - cfg.stepUpTtlMilliseconds ≤ t

/-- The request is pending and not stale. -/
structure Awaits (db : Db) (requestId : Id) (request : ApprovalRequest) (v : Invoice) : Prop where
  row : Db.request db requestId = some request
  pending : request.status = .pending
  invoice : Db.invoice db request.invoiceId = some v
  organization : v.organizationId = request.organizationId
  version : v.version = request.invoiceVersion
  status : v.status = .awaitingApproval
  bank : ∀ vendorId, v.vendorId = some vendorId →
    ∃ id b, request.vendorBankAccountVersionId = some id ∧
      greatest (·.2.versionNumber) (db.banks.filter fun (_, b) =>
        b.organizationId = request.organizationId ∧ b.vendorId = vendorId) = [(id, b)]

/-- The decision names the request's version, gives a reason, and has a key of its own. -/
structure Proper (db : Db) (request : ApprovalRequest) (dto : ApprovalDecisionDto)
    (idempotencyKey : Option Text) : Prop where
  version : dto.approvalVersion = request.version
  reason : 10 ≤ (trimSpaces (trim dto.reason)).length
  key : ∃ t, normalizedKey idempotencyKey = some t ∧
    Key.unique (.decisionKey request.organizationId (cfg.sha256 (utf8 t))) ∉ db.keys ∧
    ∀ x ∈ db.decisions, x.2.organizationId = request.organizationId →
      x.2.idempotencyKeyHash ≠ cfg.sha256 (utf8 t)

/-- The risk policy that the organization has, or would be given. -/
def policyOf (db : Db) (organizationId : Id) : OrganizationRiskPolicy :=
  (Db.policy db organizationId).getD defaultPolicy

/-- The role, the status and the separation of duties. -/
def Eligible (db : Db) (request : ApprovalRequest) (id : Id) (member : Membership) : Prop :=
  member.organizationId = request.organizationId ∧ member.status = .active ∧
    member.role ∈ approverRoles ∧
      ¬ ((policyOf db request.organizationId).requireSeparationOfDuties = true ∧
        request.initiatedByMembershipId = id)

/-- The user is active, the membership has not run out, and it has not decided yet. -/
def MayDecide (idb : Identity.Db) (db : Db) (requestId id : Id) (member : Membership) : Prop :=
  (Identity.Db.user idb member.userId).any (·.status = .active) = true ∧
    ((Identity.Db.membership idb member.organizationId member.userId).bind (·.validUntil)).all
      (time < ·) = true ∧
    Db.decision db requestId id = none

end Calls

section Rules

variable {cfg : Config} {time : Time} {w db : Db} {R : Failure → Db → Db → Prop}

theorem read_surely {q : Query} {Q : q.Out → Db → Db → Prop} (out : q.Out)
    (hanswer : ∀ c, answer cfg c (w ++ db) q = some out) (hQ : Q out w db) :
    (query q).surely (engineAt cfg time) (fun _ => False) Q R w db :=
  surely_fixed out [] (fun c => congrArg (Option.map fun out => Except.ok (out, [])) (hanswer c)) hQ

theorem now_surely {Q : Time → Db → Db → Prop} (hQ : Q time w db) :
    now.surely (engineAt cfg time) (fun _ => False) Q R w db :=
  surely_fixed time [] (fun _ => rfl) hQ

/-- The clock and the identifiers of audit events apart, statements run as they do. -/
theorem engineAt_write {u : Update} (hu : ∀ a, u ≠ .insertAudit a) (c : Nat) (view : Db) :
    engineAt cfg time (.write u) c view = some (performUpdate c view u) := by
  cases u with
  | insertAudit a => exact absurd rfl (hu a)
  | _ => rfl

theorem write_surely {u : Update} {Q : u.Out → Db → Db → Prop} (out : u.Out) (rows : Db)
    (hu : ∀ a, u ≠ .insertAudit a)
    (hwrite : ∀ c, performUpdate c (w ++ db) u = .ok (out, rows)) (hQ : Q out (rows ++ w) db) :
    (update u).surely (engineAt cfg time) (fun _ => False) Q R w db :=
  surely_fixed out rows (fun c => by rw [engineAt_write hu, hwrite]) hQ

theorem write_refused {u : Update} {Q : u.Out → Db → Db → Prop} (e : Failure)
    (hu : ∀ a, u ≠ .insertAudit a)
    (hwrite : ∀ c, performUpdate c (w ++ db) u = .error e) (hR : R e [] db) :
    (update u).surely (engineAt cfg time) (fun _ => False) Q R w db :=
  surely_refused e (fun c => by rw [engineAt_write hu, hwrite]) hR

theorem mem_sortBy {α : Type} {key : α → Nat} {as : List α} {a : α} :
    a ∈ sortBy key as ↔ a ∈ as := by
  have hinsert : ∀ (b : α) (bs : List α), a ∈ sortBy.insert key b bs ↔ a = b ∨ a ∈ bs := by
    intro b bs
    induction bs with
    | nil => simp [sortBy.insert]
    | cons c cs ih =>
        unfold sortBy.insert
        split
        · simp
        · rw [List.mem_cons, ih, List.mem_cons]
          tauto
  induction as with
  | nil => rfl
  | cons b bs ih => exact (hinsert b _).trans ((or_congr_right ih).trans List.mem_cons.symm)

/-- Rows that give organizations the default policy. -/
def Defaults (db w : Db) : Prop :=
  ∀ s ∈ w, ∃ organizationId, Db.policy db organizationId = none ∧
    s = ⟨.policy organizationId, defaultPolicy⟩

theorem Defaults.nil : Defaults db [] := fun _ hs => absurd hs List.not_mem_nil

theorem Defaults.row (h : Defaults db w) {k : Key} (hk : ∀ o, k ≠ .policy o) :
    Log.row k (w ++ db) = Log.row k db := by
  refine Log.row_append_of_not_mem _ fun hmem => ?_
  obtain ⟨s, hs, rfl⟩ := List.mem_map.mp hmem
  obtain ⟨o, -, rfl⟩ := h s hs
  exact hk o rfl

theorem Defaults.policyOf (h : Defaults db w) (organizationId : Id) :
    policyOf (w ++ db) organizationId = policyOf db organizationId := by
  unfold ApprovalsService.policyOf Db.policy
  cases hrow : Log.row (.policy organizationId) w with
  | none => rw [Log.row_append, hrow, Option.none_or]
  | some p =>
      rw [Log.row_append_of_row _ hrow]
      obtain ⟨o, hnone, heq⟩ := h _ (Log.mem_of_row hrow)
      cases heq
      rw [show Log.row (.policy organizationId) db = none from hnone]
      rfl

theorem Defaults.cons (h : Defaults db w) {organizationId : Id}
    (hnone : Db.policy (w ++ db) organizationId = none) :
    Defaults db (⟨.policy organizationId, defaultPolicy⟩ :: w) := by
  intro s hs
  rcases List.mem_cons.mp hs with rfl | hs
  · refine ⟨organizationId, ?_, rfl⟩
    have hrow := hnone
    rw [Db.policy, Log.row_append, Option.or_eq_none_iff] at hrow
    exact hrow.2
  · exact h s hs

theorem policy_surely {organizationId : Id} {Q : OrganizationRiskPolicy → Db → Db → Prop}
    (hfound : Q (policyOf (w ++ db) organizationId) w db)
    (hcreated : Db.policy (w ++ db) organizationId = none →
      Q (policyOf (w ++ db) organizationId) (⟨.policy organizationId, defaultPolicy⟩ :: w) db) :
    (policy organizationId).surely (engineAt cfg time) (fun _ => False) Q R w db := by
  refine (surely_bind _ _).mpr (read_surely (Db.policy (w ++ db) organizationId) (fun _ => rfl) ?_)
  cases hrow : Db.policy (w ++ db) organizationId with
  | some existing =>
      have heq : policyOf (w ++ db) organizationId = existing := by rw [policyOf, hrow]; rfl
      exact heq ▸ hfound
  | none =>
      have heq : policyOf (w ++ db) organizationId = defaultPolicy := by rw [policyOf, hrow]; rfl
      refine write_surely defaultPolicy [⟨.policy organizationId, defaultPolicy⟩] nofun ?_ ?_
      · intro c
        have hfresh : Key.policy organizationId ∉ (w ++ db).keys := Log.row_eq_none.mp hrow
        show Except.map _ (insertRow (w ++ db) _ _ []) = _
        rw [insertRow, if_neg (by simpa using hfresh)]
        rfl
      · exact heq ▸ hcreated hrow

theorem policy_defaults_surely {organizationId : Id} {Q : OrganizationRiskPolicy → Db → Db → Prop}
    (hw : Defaults db w) (hQ : ∀ w', Defaults db w' → Q (policyOf db organizationId) w' db) :
    (policy organizationId).surely (engineAt cfg time) (fun _ => False) Q R w db := by
  refine policy_surely ?_ fun hnone => ?_
  · rw [hw.policyOf]
    exact hQ w hw
  · rw [hw.policyOf]
    exact hQ _ (hw.cons hnone)

/-- The relations of a request are read, or one of them is missing. -/
theorem details_surely {id : Id} {request : ApprovalRequest} {Q : RequestDetails → Db → Db → Prop}
    (hQ : ∀ v risk decisions, Db.invoice (w ++ db) request.invoiceId = some v →
      v.organizationId = request.organizationId →
      Db.risk (w ++ db) request.riskAssessmentId = some risk →
      Q ⟨id, request, summary request.invoiceId v, risk, decisions⟩ w db)
    (hR : (∀ v, Db.invoice (w ++ db) request.invoiceId = some v →
      v.organizationId ≠ request.organizationId) ∨
        Db.risk (w ++ db) request.riskAssessmentId = none → R .recordNotFound w db) :
    (requestDetails id request).surely (engineAt cfg time) (fun _ => False) Q R w db := by
  refine (surely_bind _ _).mpr (read_surely (q := .findInvoice _ _) _ (fun _ => rfl) ?_)
  refine (surely_bind _ _).mpr ((surely_orThrow _ _).mpr ⟨fun v hv => ?_, fun hnone => ?_⟩)
  · obtain ⟨hv, horg⟩ := Option.filter_eq_some_iff.mp hv
    have horg : v.organizationId = request.organizationId := of_decide_eq_true horg
    refine (surely_bind _ _).mpr (read_surely (q := .findRisk _) _ (fun _ => rfl) ?_)
    refine (surely_bind _ _).mpr ((surely_orThrow _ _).mpr ⟨fun risk hrisk => ?_, fun hnone => ?_⟩)
    · refine (surely_bind _ _).mpr (read_surely (q := .findDecisions _) _ (fun _ => rfl) ?_)
      exact hQ v risk _ hv horg hrisk
    · exact hR (.inr hnone)
  · refine hR (.inl fun v hv horg => ?_)
    have hfound : rowWhere (fun v : Invoice => v.organizationId = request.organizationId)
        (Db.invoice (w ++ db) request.invoiceId) = none := hnone
    rw [hv] at hfound
    exact Option.filter_eq_none_iff.mp hfound v rfl (decide_eq_true horg)

/-- The identifiers that the query for approvers finds. -/
theorem mem_findApprovers {organizationId m : Id} {exclude : Option Id} {ids : List Id} {c : Nat}
    {view : Db} (h : answer cfg c view (.findApprovers organizationId exclude) = some ids) :
    m ∈ ids ↔ ∃ member, Db.membership view m = some member ∧
      member.organizationId = organizationId ∧ member.status = .active ∧
        member.role ∈ approverRoles ∧ some m ≠ exclude := by
  cases h
  rw [List.mem_map]
  constructor
  · rintro ⟨⟨id, member⟩, hmem, rfl⟩
    obtain ⟨hrow, hcondition⟩ := List.mem_filter.mp (mem_sortBy.mp hmem)
    refine ⟨member, ?_, of_decide_eq_true hcondition⟩
    simpa [Db.memberships, Db.membership, Log.mem_table] using hrow
  · rintro ⟨member, hrow, hcondition⟩
    refine ⟨(m, member), mem_sortBy.mpr (List.mem_filter.mpr ⟨?_, decide_eq_true hcondition⟩), rfl⟩
    simpa [Db.memberships, Db.membership, Log.mem_table] using hrow

/-- The approvers are answered over the rows as they are, and at most a policy is created. -/
theorem approvers_surely {organizationId : Id} {request : ApprovalRequest}
    {Q : List Id → Db → Db → Prop}
    (hQ : ∀ w' ids, w' = w ∨ Db.policy (w ++ db) organizationId = none ∧
        w' = ⟨.policy organizationId, defaultPolicy⟩ :: w →
      answer cfg 0 (w' ++ db) (.findApprovers organizationId
        (if (policyOf (w ++ db) organizationId).requireSeparationOfDuties
          then some request.initiatedByMembershipId else none)) = some ids → Q ids w' db) :
    (eligibleApprovers organizationId request).surely (engineAt cfg time) (fun _ => False) Q R w
      db := by
  refine (surely_bind _ _).mpr (policy_surely ?_ fun hnone => ?_)
  · exact read_surely (q := .findApprovers _ _) _ (fun _ => rfl) (hQ _ _ (.inl rfl) rfl)
  · exact read_surely (q := .findApprovers _ _) _ (fun _ => rfl) (hQ _ _ (.inr ⟨hnone, rfl⟩) rfl)

/-- The membership is listed for the request. -/
def Listed (db : Db) (request : ApprovalRequest) (id : Id) : Prop :=
  ∃ member, Db.membership db id = some member ∧ Eligible db request id member

theorem eligible_surely {request : ApprovalRequest} {Q : List Id → Db → Db → Prop}
    (hw : Defaults db w)
    (hQ : ∀ w' ids, Defaults db w' → (∀ m, m ∈ ids ↔ Listed db request m) → Q ids w' db) :
    (eligibleApprovers request.organizationId request).surely (engineAt cfg time)
      (fun _ => False) Q R w db := by
  refine approvers_surely fun w' ids hrows hids => hQ w' ids ?_ fun m => ?_
  · rcases hrows with rfl | ⟨hnone, rfl⟩
    · exact hw
    · exact hw.cons hnone
  · have hw' : Defaults db w' := by
      rcases hrows with rfl | ⟨hnone, rfl⟩
      · exact hw
      · exact hw.cons hnone
    rw [mem_findApprovers hids, hw.policyOf]
    have hmember : Db.membership (w' ++ db) m = Db.membership db m := hw'.row nofun
    rw [hmember]
    unfold Listed Eligible
    refine exists_congr fun member => and_congr_right fun _ => and_congr_right fun _ =>
      and_congr_right fun _ => and_congr_right fun _ => ?_
    split
    · simp [*, eq_comm]
    · simp [*]

end Rules

section Lists

variable {cfg : Config} {time : Time} {db : Db} {auth : AuthContext}

/-- The invoice and the risk assessment of the details are on record. -/
structure Complete (db : Db) (details : RequestDetails) : Prop where
  invoice : ∃ v, Db.invoice db details.request.invoiceId = some v ∧
    v.organizationId = details.request.organizationId
  risk : (Db.risk db details.request.riskAssessmentId).isSome = true

/-- A view lists the eligible ones, and nothing is missing. -/
structure Presents (db : Db) (view : ApprovalView) : Prop where
  listed : ∀ m, m ∈ view.eligibleApprovers ↔ Listed db view.request m
  complete : Complete db view.toRequestDetails

/-- The caller can see the request, and its relations are on record. -/
structure Served (db : Db) (auth : AuthContext) (requestId : Id) (request : ApprovalRequest) :
    Prop where
  row : Db.request db requestId = some request
  organization : request.organizationId = auth.organizationId
  invoice : ∃ v, Db.invoice db request.invoiceId = some v ∧
    v.organizationId = request.organizationId
  risk : (Db.risk db request.riskAssessmentId).isSome = true

theorem get_surely {requestId : Id} :
    (get auth requestId).surely (engineAt cfg time) (fun _ => False)
      (fun view _ _ => Db.request db requestId = some view.request ∧ Presents db view)
      (fun _ _ _ => ∀ request, ¬ Served db auth requestId request) [] db := by
  refine (surely_transaction _).mpr ?_
  refine (surely_bind _ _).mpr (read_surely (q := .findRequest _ _) _ (fun _ => rfl) ?_)
  refine (surely_bind _ _).mpr ((surely_orThrow _ _).mpr
    ⟨fun request hfound => ?_, fun hnone => ?_⟩)
  · obtain ⟨hrow, horg⟩ := Option.filter_eq_some_iff.mp hfound
    have horg : request.organizationId = auth.organizationId := of_decide_eq_true horg
    refine (surely_bind _ _).mpr (details_surely (fun v risk decisions hv hvorg hrisk => ?_) ?_)
    · refine (surely_bind _ _).mpr ?_
      rw [← horg]
      refine eligible_surely .nil fun w' ids _ hids => ⟨⟨hrow, hids, ⟨v, hv, hvorg⟩, ?_⟩, nofun⟩
      exact Option.isSome_iff_exists.mpr ⟨risk, hrisk⟩
    · intro hmissing request' hserved
      cases hrow.symm.trans hserved.row
      rcases hmissing with hother | hnone
      · obtain ⟨v, hv, hvorg⟩ := hserved.invoice
        exact hother v hv hvorg
      · have hrisk := hserved.risk
        rw [show Db.risk db request.riskAssessmentId = none from hnone] at hrisk
        cases hrisk
  · intro request hserved
    have hfound : rowWhere (fun r : ApprovalRequest => r.organizationId = auth.organizationId)
        (Db.request db requestId) = none := hnone
    rw [hserved.row] at hfound
    exact Option.filter_eq_none_iff.mp hfound request rfl (decide_eq_true hserved.organization)

/-- What can be served is shown. -/
theorem Served.shown {requestId : Id} {request : ApprovalRequest}
    (h : Served db auth requestId request) : ∃ view, Shown cfg time db auth requestId view := by
  obtain ⟨r, db', hget⟩ := exists_completes (@get_surely cfg time db auth requestId)
  obtain ⟨view, rfl⟩ := hget.satisfies (S := fun r _ => ∃ view, r = .ok view)
    (surely_mono (fun view _ _ _ => ⟨view, rfl⟩) (fun e _ _ hnot => absurd h (hnot request))
      get_surely)
  exact ⟨view, .inl ⟨db', hget⟩⟩

theorem each_details_surely {page : List (Id × ApprovalRequest)}
    {Q : List RequestDetails → Db → Db → Prop} {R : Failure → Db → Db → Prop}
    (hQ : ∀ requests : List RequestDetails, requests.map (fun d => (d.id, d.request)) = page →
      (∀ d ∈ requests, Complete db d) → Q requests [] db) (hR : ∀ e, R e [] db) :
    (each (fun entry => requestDetails entry.1 entry.2) page).surely (engineAt cfg time)
      (fun _ => False) Q R [] db := by
  induction page generalizing Q with
  | nil => exact hQ [] rfl fun d hd => absurd hd List.not_mem_nil
  | cons entry page ih =>
      rw [each, surely_bind]
      refine details_surely (fun v risk decisions hv hvorg hrisk => ?_) fun _ => hR _
      rw [surely_bind]
      refine ih fun requests hmap hcomplete => ?_
      refine hQ _ (by rw [List.map_cons, hmap]) ?_
      rw [List.forall_mem_cons]
      exact ⟨⟨⟨v, hv, hvorg⟩, Option.isSome_iff_exists.mpr ⟨risk, hrisk⟩⟩, hcomplete⟩

theorem each_views_surely {requests : List RequestDetails} {w : Db}
    {Q : List ApprovalView → Db → Db → Prop} {R : Failure → Db → Db → Prop} (hw : Defaults db w)
    (horg : ∀ d ∈ requests, d.request.organizationId = auth.organizationId)
    (hcomplete : ∀ d ∈ requests, Complete db d)
    (hQ : ∀ views w', (∀ view ∈ views, Presents db view ∧ view.toRequestDetails ∈ requests) →
      Q views w' db) :
    (each (fun details => do
      let eligible ← eligibleApprovers auth.organizationId details.request
      return approvalView details eligible) requests).surely (engineAt cfg time)
        (fun _ => False) Q R w db := by
  induction requests generalizing Q w with
  | nil => exact hQ [] w fun view hview => absurd hview List.not_mem_nil
  | cons d requests ih =>
      rw [each, surely_bind, surely_bind, ← horg d (.head _)]
      refine eligible_surely hw fun w' ids hw' hids => ?_
      rw [horg d (.head _)]
      refine (surely_bind _ _).mpr ?_
      refine ih hw' (fun d' hd' => horg d' (.tail _ hd'))
        (fun d' hd' => hcomplete d' (.tail _ hd')) fun views w'' hviews => ?_
      refine hQ _ w'' ?_
      rw [List.forall_mem_cons]
      refine ⟨⟨⟨hids, hcomplete d (.head _)⟩, .head _⟩, fun view hview => ?_⟩
      exact ⟨(hviews view hview).1, .tail _ (hviews view hview).2⟩

/-- What is shown lists the eligible ones. -/
theorem Shown.presents {requestId : Id} {request : ApprovalRequest} {view : ApprovalView}
    (h : Shown cfg time db auth requestId view) (hrow : Db.request db requestId = some request) :
    view.request = request ∧ Presents db view := by
  rcases h with ⟨db', hget⟩ | ⟨page, views, db', hpage, hlist, hview, hid⟩
  · have hspec := hget.satisfies (S := fun r _ => ∀ view, r = .ok view →
      Db.request db requestId = some view.request ∧ Presents db view)
      (surely_mono (fun view w db' h view' heq => by cases heq; exact h)
        (fun e w db' _ view' heq => by cases heq) get_surely)
    obtain ⟨hfound, hpresents⟩ := hspec view rfl
    exact ⟨Option.some.inj (hfound.symm.trans hrow), hpresents⟩
  · have hsurely : (list auth page).surely (engineAt cfg time) (fun _ => False)
        (fun views _ _ => ∀ view ∈ views, Presents db view ∧ (view.id, view.request) ∈ page)
        (fun _ _ _ => True) [] db := by
      refine (surely_transaction _).mpr ((surely_bind _ _).mpr ?_)
      refine each_details_surely (fun requests hmap hcomplete => ?_) fun _ => trivial
      have hin : ∀ d ∈ requests, (d.id, d.request) ∈ page := fun d hd =>
        hmap ▸ List.mem_map_of_mem hd
      refine each_views_surely .nil (fun d hd => (hpage _ (hin d hd)).2) hcomplete
        fun views w' hviews => ⟨fun view hview => ?_, nofun⟩
      exact ⟨(hviews view hview).1, hin _ (hviews view hview).2⟩
    have hspec := hlist.satisfies (S := fun r _ => ∀ views, r = .ok views →
      ∀ view ∈ views, Presents db view ∧ (view.id, view.request) ∈ page)
      (surely_mono (fun views w db' h views' heq => by cases heq; exact h)
        (fun e w db' _ views' heq => by cases heq) hsurely)
    obtain ⟨hpresents, hmem⟩ := hspec views rfl view hview
    refine ⟨?_, hpresents⟩
    have hfound := (hpage _ hmem).1
    rw [hid] at hfound
    exact Option.some.inj (hfound.symm.trans hrow)

end Lists

section Sessions

variable {cfg : Config} {sessions : Identity.Config} {time : Time} {idb : Identity.Db} {db : Db}

theorem session_read_surely {q : Identity.Query} {Q : q.Out → Identity.Db → Identity.Db → Prop}
    {R : Identity.Failure → Identity.Db → Identity.Db → Prop} (out : q.Out)
    (hanswer : ∀ c, Identity.answer c idb q = some out) (hQ : Q out [] idb) :
    (Identity.read q).surely (sessionsAt time) (fun _ => False) Q R [] idb :=
  surely_auto_fixed out
    (fun c => congrArg (Option.map fun out => Except.ok (out, [])) (hanswer c)) hQ

theorem session_clock_surely {Q : Time → Identity.Db → Identity.Db → Prop}
    {R : Identity.Failure → Identity.Db → Identity.Db → Prop} (hQ : Q time [] idb) :
    (Identity.external .clock).surely (sessionsAt time) (fun _ => False) Q R [] idb :=
  surely_auto_fixed time (fun _ => rfl) hQ

/-- The user and the membership admit the session. -/
def Admits (time : Time) (idb : Identity.Db) (member : Membership) : Prop :=
  (Identity.Db.user idb member.userId).any (·.status = .active) = true ∧
    member.status = .active ∧
    ((Identity.Db.membership idb member.organizationId member.userId).bind (·.validUntil)).all
      (time < ·) = true

/-- The membership that the check returns, if any. -/
theorem admits_iff {id : Id} {member : Membership} {validUntil : Option Time}
    (hmember : Identity.Db.membership idb member.organizationId member.userId =
      some ⟨id, member.role, member.status, validUntil⟩) (x : Identity.Membership) :
    Identity.SessionService.admits time (Identity.Db.user idb member.userId)
        (Identity.Db.membership idb member.organizationId member.userId) = some x ↔
      Admits time idb member ∧ x = ⟨id, member.role, member.status, validUntil⟩ := by
  unfold Admits
  rw [hmember]
  cases Identity.Db.user idb member.userId with
  | none => simp [Identity.SessionService.admits]
  | some user =>
      simp only [Identity.SessionService.admits, Option.any_some, Option.bind_some,
        decide_eq_true_eq]
      split
      · simp [*, eq_comm]
      · simp_all

/-- A good token is let in exactly when the user and the membership admit it. -/
theorem authenticate_surely {accessToken : Text} {id sessionId : Id} {member : Membership}
    {s : Identity.Session} {validUntil : Option Time}
    (hmember : Identity.Db.membership idb member.organizationId member.userId =
      some ⟨id, member.role, member.status, validUntil⟩)
    (hholds : Holds cfg sessions time idb accessToken member sessionId s) :
    (Identity.SessionService.authenticateAccessToken sessions accessToken).surely
      (sessionsAt time) (fun _ => False)
      (fun context _ _ => Admits time idb member ∧
        caller context = ⟨member.userId, id, sessionId, member.organizationId, member.role⟩)
      (fun _ _ _ => ¬ Admits time idb member) [] idb := by
  obtain ⟨expiresAt, htoken, hlater⟩ := hholds.token
  unfold Identity.SessionService.authenticateAccessToken Identity.SessionService.verifyAccessToken
  rw [htoken]
  refine (surely_bind _ _).mpr ((surely_bind _ _).mpr ?_)
  refine (surely_bind _ _).mpr (session_clock_surely ?_)
  refine (surely_bind _ _).mpr ((surely_require _ _).mpr
    ⟨fun _ => ?_, fun hnot => absurd hlater hnot⟩)
  refine (surely_bind _ _).mpr (session_read_surely (some s) (fun _ => congrArg some hholds.row) ?_)
  refine (surely_bind _ _).mpr ?_
  refine (surely_bind _ _).mpr (session_clock_surely ?_)
  refine (surely_bind _ _).mpr ((surely_require _ _).mpr ⟨fun _ => ?_, fun hnot => ?_⟩)
  · rw [hholds.user, hholds.organization]
    refine (surely_bind _ _).mpr (session_read_surely (q := .findUser _) _ (fun _ => rfl) ?_)
    refine (surely_bind _ _).mpr
      (session_read_surely (q := .findMembership _ _) _ (fun _ => rfl) ?_)
    refine (surely_bind _ _).mpr (session_clock_surely ?_)
    refine (surely_bind _ _).mpr ((surely_orThrow _ _).mpr
      ⟨fun x hx => ?_, fun hnone hadmits => ?_⟩)
    · obtain ⟨hadmits, rfl⟩ := (admits_iff hmember x).mp hx
      exact ⟨hadmits, rfl⟩
    · have hsome := (admits_iff hmember _).mpr ⟨hadmits, rfl⟩
      cases hnone.symm.trans hsome
  · exact absurd ⟨hholds.user, hholds.organization, hholds.live.1, hholds.live.2⟩ hnot

end Sessions

end BlocTrust.ApprovalsService
