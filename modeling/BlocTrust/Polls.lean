import BlocTrust.ApproverAgreement
import BlocTrust.Transparency

/-!
Members who decide one after the other.
`Standing` is what the votes on a request amount to, without the database: an approval counts
towards the quorum, a rejection ends the matter, and nothing counts after the end.  Calls of
eligible members that are made one after the other follow it, from wherever the run of the system
has left the request, and each call is answered.
-/
namespace BlocTrust.ApprovalsService

open ReadCommitted Prog

/-- A request that collects approvals, or is settled. -/
inductive Standing
  | pending (approvals : Nat)
  | settled (outcome : ApprovalDecisionOutcome)
  deriving DecidableEq, Repr

namespace Standing

def isPending : Standing → Bool
  | pending _ => true
  | settled _ => false

/-- One approval more, or the end. -/
def vote (required : Nat) : Standing → ApprovalDecisionOutcome → Standing
  | pending n, .approve => if required ≤ n + 1 then settled .approve else pending (n + 1)
  | pending _, .reject => settled .reject
  | settled outcome, _ => settled outcome

/-- Which of the votes still find the request pending. -/
def counts (required : Nat) : Standing → List ApprovalDecisionOutcome → List Bool
  | _, [] => []
  | standing, outcome :: outcomes =>
      standing.isPending :: counts required (standing.vote required outcome) outcomes

def tally (required : Nat) (standing : Standing) (outcomes : List ApprovalDecisionOutcome) :
    Standing := outcomes.foldl (vote required) standing

variable {required n : Nat} {outcomes : List ApprovalDecisionOutcome}

theorem vote_last (h : required ≤ n + 1) :
    (pending n).vote required .approve = settled .approve := if_pos h

theorem vote_early (h : ¬ required ≤ n + 1) :
    (pending n).vote required .approve = pending (n + 1) := if_neg h

theorem tally_settled (outcome : ApprovalDecisionOutcome) :
    tally required (settled outcome) outcomes = settled outcome := by
  induction outcomes with
  | nil => rfl
  | cons o outcomes ih => exact ih

/-- As many approvals as are missing make the quorum, and one when none is missing. -/
theorem tally_approves (happrove : ∀ o ∈ outcomes, o = .approve) (hsome : outcomes ≠ [])
    (hquorum : required ≤ n + outcomes.length) :
    tally required (pending n) outcomes = settled .approve := by
  induction outcomes generalizing n with
  | nil => exact absurd rfl hsome
  | cons o outcomes ih =>
      obtain rfl : o = .approve := happrove o List.mem_cons_self
      rw [tally, List.foldl_cons]
      by_cases hlast : required ≤ n + 1
      · rw [vote_last hlast]
        exact tally_settled .approve
      · rw [vote_early hlast]
        rw [List.length_cons] at hquorum
        apply ih (fun o ho => happrove o (List.mem_cons_of_mem _ ho))
        · intro hnil
          rw [hnil, List.length_nil] at hquorum
          omega
        · omega

end Standing

section Rows

variable {db w : Db} {requestId : Id} {request : ApprovalRequest} {v : Invoice}
  {d : ApprovalDecision} {k : Key}

/-- The decisions that `settle` counts. -/
def approvals (db : Db) (requestId : Id) (request : ApprovalRequest) : Nat :=
  (db.decisions.filter fun (_, d) => d.organizationId = request.organizationId ∧
    d.approvalRequestId = requestId ∧ d.approvalVersion = request.version ∧
      d.outcome = .approve).length

/-- The rows and index entries that a call with this decision can write. -/
def touches (requestId : Id) (request : ApprovalRequest) (d : ApprovalDecision) : Key → Bool
  | .policy _ | .audit _ => true
  | .decision r m => r = requestId ∧ m = d.decidedByMembershipId
  | .unique index => index = .decisionKey d.organizationId d.idempotencyKeyHash
  | .request r => r = requestId
  | .invoice i => i = request.invoiceId
  | _ => false

/-- The decision is on record, and the rows of others are as they were. -/
structure Voted (requestId : Id) (request : ApprovalRequest) (d : ApprovalDecision) (w db : Db) :
    Prop where
  rows : ∀ s ∈ w, touches requestId request d s.1 = true
  policy : ∀ o, policyOf (w ++ db) o = policyOf db o
  decision : Db.decision (w ++ db) requestId d.decidedByMembershipId = some d

theorem Voted.row (h : Voted requestId request d w db) (hk : touches requestId request d k = false) :
    Log.row k (w ++ db) = Log.row k db := by
  refine Log.row_append_of_not_mem _ fun hmem => ?_
  obtain ⟨s, hs, rfl⟩ := List.mem_map.mp hmem
  rw [h.rows s hs] at hk
  cases hk

theorem Voted.risk (h : Voted requestId request d w db) (id : Id) :
    Db.risk (w ++ db) id = Db.risk db id := h.row (k := .risk id) rfl

theorem Voted.cons (h : Voted requestId request d w db) {s : Sigma Val}
    (hs : touches requestId request d s.1 = true) (hpolicy : ∀ o, s.1 ≠ .policy o)
    (hdecision : ∀ r m, s.1 ≠ .decision r m) : Voted requestId request d (s :: w) db where
  rows := by
    intro x hx
    rcases List.mem_cons.mp hx with rfl | hx
    · exact hs
    · exact h.rows x hx
  policy o := by
    have hrow : Db.policy (s :: (w ++ db)) o = Db.policy (w ++ db) o :=
      Log.row_cons_ne _ _ (hpolicy o).symm
    rw [List.cons_append, policyOf, hrow]
    exact h.policy o
  decision := (Log.row_cons_ne _ _ (hdecision _ _).symm).trans h.decision

/-- A policy that was missing is created as it would be read. -/
theorem Voted.default (h : Voted requestId request d w db) {o : Id}
    (hnone : Db.policy (w ++ db) o = none) :
    Voted requestId request d (⟨.policy o, defaultPolicy⟩ :: w) db where
  rows := by
    intro x hx
    rcases List.mem_cons.mp hx with rfl | hx
    · rfl
    · exact h.rows x hx
  policy o' := by
    rw [← h.policy o']
    by_cases ho : o' = o
    · subst ho
      have hrow : Db.policy (⟨.policy o', defaultPolicy⟩ :: (w ++ db)) o' = some defaultPolicy :=
        Log.row_cons_self ..
      rw [List.cons_append, policyOf, policyOf, hrow, hnone]
      rfl
    · have hrow : Db.policy (⟨.policy o, defaultPolicy⟩ :: (w ++ db)) o' = Db.policy (w ++ db) o' :=
        Log.row_cons_ne _ _ fun heq => ho (Key.policy.inj heq)
      rw [List.cons_append, policyOf, hrow]
      rfl
  decision := (Log.row_cons_ne _ _ Key.noConfusion).trans h.decision

theorem length_filter_decisions {older newer : Db} {r m : Id} (hfresh : Db.decision older r m = none)
    (hd : Db.decision newer r m = some d)
    (hrest : ∀ r' m', (r', m') ≠ (r, m) →
      Log.row (.decision r' m') newer = Log.row (.decision r' m') older)
    (p : (Id × Id) × ApprovalDecision → Bool) :
    (newer.decisions.filter p).length =
      (older.decisions.filter p).length + if p ((r, m), d) then 1 else 0 := by
  unfold Db.decisions
  apply Log.length_filter_table (i := (r, m))
  · exact hfresh
  · exact hd
  · exact fun j hj => hrest j.1 j.2 hj
  · exact fun _ => rfl

/-- The decision is counted when it approves. -/
theorem Voted.approvals (h : Voted requestId request d w db)
    (hfresh : Db.decision db requestId d.decidedByMembershipId = none)
    (hof : d.organizationId = request.organizationId ∧ d.approvalRequestId = requestId ∧
      d.approvalVersion = request.version) :
    approvals (w ++ db) requestId request =
      approvals db requestId request + if d.outcome = .approve then 1 else 0 := by
  have hcount := length_filter_decisions hfresh h.decision (fun r m hne => h.row ?_)
    fun x => x.2.organizationId = request.organizationId ∧ x.2.approvalRequestId = requestId ∧
      x.2.approvalVersion = request.version ∧ x.2.outcome = .approve
  · refine hcount.trans (congrArg (_ + ·) ?_)
    simp [hof]
  · exact decide_eq_false fun hsame => hne (Prod.ext_iff.mpr hsame)

/-- What the rows of the request and its invoice show. -/
def Shows (requestId : Id) (request : ApprovalRequest) (v : Invoice) : Standing → Db → Prop
  | .pending _, db =>
      Db.request db requestId = some request ∧ Db.invoice db request.invoiceId = some v
  | .settled outcome, db =>
      (∃ completedAt, Db.request db requestId =
        some ((RequestChange.completed outcome completedAt).apply request)) ∧
      Db.invoice db request.invoiceId = some ((InvoiceChange.decided outcome).apply v)

/-- Where the request stands in the database. -/
def Stands (requestId : Id) (request : ApprovalRequest) (v : Invoice) : Standing → Db → Prop
  | .pending n, db => Awaits db requestId request v ∧ approvals db requestId request = n
  | .settled outcome, db => Shows requestId request v (.settled outcome) db

theorem Shows.cons {standing : Standing} {s : Sigma Val}
    (h : Shows requestId request v standing db) (hrequest : ∀ r, s.1 ≠ .request r)
    (hinvoice : ∀ i, s.1 ≠ .invoice i) : Shows requestId request v standing (s :: db) := by
  have hr : Db.request (s :: db) requestId = Db.request db requestId :=
    Log.row_cons_ne _ _ (hrequest _).symm
  have hi : Db.invoice (s :: db) request.invoiceId = Db.invoice db request.invoiceId :=
    Log.row_cons_ne _ _ (hinvoice _).symm
  cases standing with
  | pending n => exact ⟨hr.trans h.1, hi.trans h.2⟩
  | settled outcome =>
      obtain ⟨⟨completedAt, hrow⟩, hv⟩ := h
      exact ⟨⟨completedAt, hr.trans hrow⟩, hi.trans hv⟩

/-- The request that is shown is the one in question, and so is its invoice. -/
theorem Shows.rows {standing : Standing} (h : Shows requestId request v standing db)
    (horg : v.organizationId = request.organizationId) :
    (∃ r, Db.request db requestId = some r ∧ r.organizationId = request.organizationId ∧
      r.invoiceId = request.invoiceId ∧ r.riskAssessmentId = request.riskAssessmentId) ∧
    ∃ v', Db.invoice db request.invoiceId = some v' ∧
      v'.organizationId = request.organizationId := by
  cases standing with
  | pending n => exact ⟨⟨request, h.1, rfl, rfl, rfl⟩, v, h.2, horg⟩
  | settled outcome =>
      obtain ⟨⟨completedAt, hrow⟩, hv⟩ := h
      exact ⟨⟨_, hrow, rfl, rfl, rfl⟩, _, hv, horg⟩

/-- While nothing has ended it, the request awaits decisions as before. -/
theorem Voted.awaits (h : Voted requestId request d w db) (ha : Awaits db requestId request v)
    (hrow : Db.request (w ++ db) requestId = some request)
    (hinvoice : Db.invoice (w ++ db) request.invoiceId = some v) :
    Awaits (w ++ db) requestId request v where
  row := hrow
  pending := ha.pending
  invoice := hinvoice
  organization := ha.organization
  version := ha.version
  status := ha.status
  bank vendorId hvendor := by
    have hbanks : Db.banks (w ++ db) = Db.banks db := by
      unfold Db.banks
      apply Log.table_append_of_others
      · exact fun _ => rfl
      intro s hs
      have htouches := h.rows s hs
      generalize s.1 = k at htouches
      cases k with
      | bank id => cases htouches
      | _ => rfl
    rw [hbanks]
    exact ha.bank vendorId hvendor

end Rows
section Calls

variable {cfg : Config} {time : Time} {db w : Db} {R : Failure → Db → Db → Prop}
  {auth : AuthContext} {requestId id sessionId : Id} {request : ApprovalRequest} {v : Invoice}
  {d : ApprovalDecision} {dto : ApprovalDecisionDto} {member : Membership} {session : Session}
  {t : Time} {keyHash : Digest} {standing : Standing} {n : Nat}

/-- How far the writes of a deciding transaction have come. -/
structure Stage (requestId : Id) (request : ApprovalRequest) (v : Invoice) (d : ApprovalDecision)
    (standing : Standing) (w db : Db) : Prop extends Voted requestId request d w db where
  shows : Shows requestId request v standing (w ++ db)

theorem Stage.audit (h : Stage requestId request v d standing w db) (i : Id) (a : AuditEvent) :
    Stage requestId request v d standing (⟨.audit i, a⟩ :: w) db where
  toVoted := h.toVoted.cons rfl (fun _ => Key.noConfusion) fun _ _ => Key.noConfusion
  shows := h.shows.cons (fun _ => Key.noConfusion) fun _ => Key.noConfusion

theorem Stage.default (h : Stage requestId request v d standing w db) {o : Id}
    (hnone : Db.policy (w ++ db) o = none) :
    Stage requestId request v d standing (⟨.policy o, defaultPolicy⟩ :: w) db where
  toVoted := h.toVoted.default hnone
  shows := h.shows.cons (fun _ => Key.noConfusion) fun _ => Key.noConfusion

theorem Stage.complete (h : Stage requestId request v d standing w db)
    (outcome : ApprovalDecisionOutcome) (completedAt : Time) :
    Stage requestId request v d (.settled outcome)
      (completed requestId request v outcome completedAt ++ w) db where
  toVoted := by
    have hrequest := h.toVoted.cons (s := completedRequest requestId request outcome completedAt)
      (decide_eq_true rfl) (fun _ => Key.noConfusion) fun _ _ => Key.noConfusion
    exact hrequest.cons (s := decidedInvoice request v outcome) (decide_eq_true rfl)
      (fun _ => Key.noConfusion) fun _ _ => Key.noConfusion
  shows := by
    refine ⟨⟨completedAt, ?_⟩, Log.row_cons_self ..⟩
    exact (Log.row_cons_ne _ _ Key.noConfusion).trans (Log.row_cons_self ..)

/-- When all is written, the request stands where the vote has taken it. -/
theorem Stage.stands (hawaits : Awaits db requestId request v)
    (hundecided : Db.decision db requestId d.decidedByMembershipId = none)
    (hof : d.organizationId = request.organizationId ∧ d.approvalRequestId = requestId ∧
      d.approvalVersion = request.version)
    (h : Stage requestId request v d ((Standing.pending (approvals db requestId request)).vote
      request.requiredDecisions d.outcome) w db) :
    Stands requestId request v ((Standing.pending (approvals db requestId request)).vote
      request.requiredDecisions d.outcome) (w ++ db) := by
  have hshows := h.shows
  have hcount := h.toVoted.approvals hundecided hof
  cases houtcome : d.outcome with
  | reject =>
      rw [houtcome] at hshows
      exact hshows
  | approve =>
      rw [houtcome] at hshows
      rw [if_pos houtcome] at hcount
      by_cases hlast : request.requiredDecisions ≤ approvals db requestId request + 1
      · rw [Standing.vote_last hlast] at hshows ⊢
        exact hshows
      · rw [Standing.vote_early hlast] at hshows ⊢
        exact ⟨h.toVoted.awaits hawaits hshows.1 hshows.2, hcount⟩

/-- The last approval that is needed completes the request, and so does a rejection. -/
theorem settle_stage {Q : Unit → Db → Db → Prop} (hawaits : Awaits db requestId request v)
    (hchecks : requestChecks request = true) (hvchecks : invoiceChecks v = true)
    (horg : auth.organizationId = request.organizationId)
    (h : Stage requestId request v d (.pending n) w db)
    (hcount : d.outcome = .approve → approvals (w ++ db) requestId request = n + 1)
    (hQ : ∀ w', Stage requestId request v d
      ((Standing.pending n).vote request.requiredDecisions d.outcome) w' db → Q () w' db) :
    (settle auth requestId request d.outcome).surely (engineAt cfg time) (fun _ => False) Q R w
      db := by
  obtain ⟨hrow, hinvoice⟩ := h.shows
  have hcomplete : ∀ outcome, (Standing.pending n).vote request.requiredDecisions d.outcome =
      .settled outcome → (complete requestId request outcome).surely (engineAt cfg time)
        (fun _ => False) Q R w db := by
    intro outcome hvote
    refine complete_surely hrow hawaits.pending hchecks hinvoice hawaits.organization
      hawaits.version hvchecks (hQ _ ?_)
    rw [hvote]
    exact h.complete outcome time
  cases houtcome : d.outcome with
  | reject => exact hcomplete .reject (by rw [houtcome]; rfl)
  | approve =>
      refine (surely_bind _ _).mpr (read_surely (q := .countApprovals _ _ _)
        (approvals (w ++ db) requestId request) (fun _ => ?_) ?_)
      · rw [horg]
        rfl
      rw [hcount houtcome]
      by_cases hlast : request.requiredDecisions ≤ n + 1
      · rw [if_pos hlast]
        exact hcomplete .approve (by rw [houtcome, Standing.vote_last hlast])
      · rw [if_neg hlast]
        refine hQ w ?_
        rw [houtcome, Standing.vote_early hlast]
        exact ⟨h.toVoted, h.shows⟩

/-- The view that a call returns takes nothing but a policy that was missing. -/
theorem present_stage {Q : ApprovalView → Db → Db → Prop}
    (horg : auth.organizationId = request.organizationId)
    (hvorg : v.organizationId = request.organizationId)
    (hrisk : (Db.risk db request.riskAssessmentId).isSome = true)
    (h : Stage requestId request v d standing w db)
    (hQ : ∀ view w', Stage requestId request v d standing w' db → Q view w' db) :
    (do
      let found ← query (.findRequest auth.organizationId requestId)
      let updated ← orThrow found .recordNotFound
      let details ← requestDetails requestId updated
      let eligible ← eligibleApprovers auth.organizationId updated
      return approvalView details eligible : Program ApprovalView).surely (engineAt cfg time)
        (fun _ => False) Q R w db := by
  obtain ⟨⟨r, hr, hrorg, hrinvoice, hrrisk⟩, ⟨v', hv', hv'org⟩⟩ := h.shows.rows hvorg
  have hrisk' : (Db.risk (w ++ db) r.riskAssessmentId).isSome = true := by
    rw [hrrisk, h.toVoted.risk]
    exact hrisk
  refine (surely_bind _ _).mpr (read_surely (some r) (request_answer hr (hrorg.trans horg.symm)) ?_)
  refine (surely_bind _ _).mpr ((surely_bind _ _).mpr (related_surely (by rw [hrinvoice, hv'])
    (hv'org.trans hrorg.symm) hrisk' fun risk decisions => ?_))
  refine (surely_bind _ _).mpr (approvers_surely fun w' ids hrows _ => hQ _ w' ?_)
  rcases hrows with rfl | ⟨hnone, rfl⟩
  · exact h
  · exact h.default hnone

/-- The rows of a recorded decision. -/
theorem recorded_voted (hw : Defaults db w) (hrequest : d.approvalRequestId = requestId) :
    Voted requestId request d (⟨.decision d.approvalRequestId d.decidedByMembershipId, d⟩ ::
      ⟨.unique (.decisionKey d.organizationId d.idempotencyKeyHash), ()⟩ :: w) db where
  rows s hs := by
    rcases List.mem_cons.mp hs with rfl | hs
    · exact decide_eq_true ⟨hrequest, rfl⟩
    rcases List.mem_cons.mp hs with rfl | hs
    · exact decide_eq_true rfl
    obtain ⟨o, -, rfl⟩ := hw s hs
    rfl
  policy o := by
    have hkept : Db.policy (⟨.decision d.approvalRequestId d.decidedByMembershipId, d⟩ ::
        ⟨.unique (.decisionKey d.organizationId d.idempotencyKeyHash), ()⟩ :: (w ++ db)) o =
          Db.policy (w ++ db) o :=
      (Log.row_cons_ne _ _ Key.noConfusion).trans (Log.row_cons_ne _ _ Key.noConfusion)
    rw [← hw.policyOf o, policyOf, policyOf, ← hkept]
    rfl
  decision := by
    rw [← hrequest]
    exact Log.row_cons_self ..

/-- An eligible member that has not decided has its decision counted. -/
theorem record_stage (hawaits : Awaits db requestId request v)
    (hrisk : (Db.risk db request.riskAssessmentId).isSome = true)
    (hchecks : requestChecks request = true) (hvchecks : invoiceChecks v = true)
    (hmember : Db.membership db id = some member) (heligible : Eligible db request id member)
    (hfresh : Fresh cfg time db sessionId member session t)
    (hreason : 10 ≤ (trimSpaces (trim dto.reason)).length)
    (hkey : Key.unique (.decisionKey request.organizationId keyHash) ∉ db.keys)
    (hundecided : Db.decision db requestId id = none) :
    (record cfg (memberAuth id sessionId member) requestId request dto keyHash).surely
      (engineAt cfg time) (fun _ => False)
      (fun _ w db' => db' = db ∧ Stage requestId request v
        (newDecision (memberAuth id sessionId member) requestId request dto keyHash t time)
        ((Standing.pending (approvals db requestId request)).vote request.requiredDecisions
          dto.outcome) w db) (fun _ _ _ => False) [] db := by
  refine (surely_bind _ _).mpr (authorize_ok hmember heligible hfresh.row hfresh.holder hfresh.live
    hfresh.stepUp fun w hw => ?_)
  have hrow : Key.decision requestId id ∉ (w ++ db).keys :=
    Log.row_eq_none.mp
      ((hw.row (k := .decision requestId id) fun _ => Key.noConfusion).trans hundecided)
  have hindex : Key.unique (.decisionKey member.organizationId keyHash) ∉ (w ++ db).keys := by
    rw [heligible.1]
    exact Log.row_eq_none.mp ((hw.row (k := .unique _) fun _ => Key.noConfusion).trans
      (Log.row_eq_none.mpr hkey))
  refine (surely_bind _ _).mpr (now_surely ((surely_bind _ _).mpr
    (createDecision_ok (newDecision_checks hchecks hreason) hrow hindex ?_)))
  generalize hd : newDecision (memberAuth id sessionId member) requestId request dto keyHash
    t time = d
  have hof : d.organizationId = request.organizationId ∧ d.approvalRequestId = requestId ∧
      d.approvalVersion = request.version := by
    rw [← hd]
    exact ⟨heligible.1, rfl, rfl⟩
  have houtcome : d.outcome = dto.outcome := by rw [← hd]; rfl
  have hid : d.decidedByMembershipId = id := by rw [← hd]; rfl
  have hstage : Stage requestId request v d (.pending (approvals db requestId request))
      (⟨.decision d.approvalRequestId d.decidedByMembershipId, d⟩ ::
        ⟨.unique (.decisionKey d.organizationId d.idempotencyKeyHash), ()⟩ :: w) db := by
    refine ⟨recorded_voted hw hof.2.1, ?_⟩
    rw [hof.2.1]
    refine ⟨?_, ?_⟩
    · exact (row_recorded hw (fun _ _ => Key.noConfusion) (fun _ => Key.noConfusion)
        (fun _ => Key.noConfusion) d _).trans hawaits.row
    · exact (row_recorded hw (fun _ _ => Key.noConfusion) (fun _ => Key.noConfusion)
        (fun _ => Key.noConfusion) d _).trans hawaits.invoice
  have hcount : d.outcome = .approve → approvals (⟨.decision d.approvalRequestId
      d.decidedByMembershipId, d⟩ :: ⟨.unique (.decisionKey d.organizationId d.idempotencyKeyHash),
        ()⟩ :: w ++ db) requestId request = approvals db requestId request + 1 := by
    intro happrove
    refine (hstage.toVoted.approvals (hid ▸ hundecided) hof).trans ?_
    rw [if_pos happrove]
  rw [← houtcome]
  refine (surely_bind _ _).mpr (settle_stage hawaits hchecks hvchecks heligible.1 hstage hcount
    fun w' h => ?_)
  refine (surely_bind _ _).mpr (audit_surely fun c a => ?_)
  exact present_stage heligible.1 hawaits.organization hrisk (h.audit c a) fun _ _ h => ⟨rfl, h⟩

/-- A call that finds the request pending returns, and is counted. -/
theorem decide_counted {idempotencyKey : Option Text} (hawaits : Awaits db requestId request v)
    (hrisk : (Db.risk db request.riskAssessmentId).isSome = true)
    (hchecks : requestChecks request = true) (hvchecks : invoiceChecks v = true)
    (hmember : Db.membership db id = some member) (heligible : Eligible db request id member)
    (hfresh : Fresh cfg time db sessionId member session t)
    (hproper : Proper cfg db request dto idempotencyKey)
    (hundecided : Db.decision db requestId id = none) :
    (decide cfg (memberAuth id sessionId member) requestId dto idempotencyKey).surely
      (engineAt cfg time) (fun _ => False)
      (fun _ _ db' => ∃ t' w, normalizedKey idempotencyKey = some t' ∧ db' = w ++ db ∧
        Stage requestId request v (newDecision (memberAuth id sessionId member) requestId request
          dto (cfg.sha256 (utf8 t')) t time)
          ((Standing.pending (approvals db requestId request)).vote request.requiredDecisions
            dto.outcome) w db) (fun _ _ _ => False) [] db := by
  obtain ⟨t', hkey, hindex, -⟩ := hproper.key
  refine decide_surely hawaits hrisk hproper heligible.1 fun t'' hnormalized => ?_
  obtain rfl : t' = t'' := Option.some.inj (hkey.symm.trans hnormalized)
  refine surely_mono (fun view w db' h => ?_) (fun _ _ _ h => h) (record_stage hawaits hrisk
    hchecks hvchecks hmember heligible hfresh hproper.reason hindex hundecided)
  obtain ⟨rfl, hstage⟩ := h
  exact ⟨t', w, hkey, rfl, hstage⟩

/-- What a call is told that finds the request settled. -/
def tooLate : Failure := .conflict "APPROVAL_REQUEST_NOT_PENDING"

/-- A call that comes too late is told so, and changes nothing. -/
theorem decide_late {idempotencyKey : Option Text} {outcome : ApprovalDecisionOutcome}
    (h : Shows requestId request v (.settled outcome) db)
    (hvorg : v.organizationId = request.organizationId)
    (hrisk : (Db.risk db request.riskAssessmentId).isSome = true)
    (horg : auth.organizationId = request.organizationId)
    (hproper : Proper cfg db request dto idempotencyKey) :
    (decide cfg auth requestId dto idempotencyKey).surely (engineAt cfg time) (fun _ => False)
      (fun _ _ _ => False)
      (fun e _ db' => e = tooLate ∧ db' = db) [] db := by
  obtain ⟨⟨completedAt, hrow⟩, hinvoice⟩ := h
  obtain ⟨t, hkey, -, hunused⟩ := hproper.key
  generalize hr : (RequestChange.completed outcome completedAt).apply request = r at hrow
  have hsame : r.organizationId = request.organizationId ∧ r.invoiceId = request.invoiceId ∧
      r.riskAssessmentId = request.riskAssessmentId ∧ r.status ≠ .pending := by
    rw [← hr]
    refine ⟨rfl, rfl, rfl, ?_⟩
    cases outcome <;> exact ApprovalRequestStatus.noConfusion
  obtain ⟨hrorg, hrinvoice, hrrisk, hended⟩ := hsame
  unfold decide idempotencyKeyHash
  rw [hkey]
  refine (surely_bind _ _).mpr ((surely_bind _ _).mpr ?_)
  refine (surely_bind _ _).mpr ((surely_transaction _).mpr ?_)
  refine (surely_bind _ _).mpr (read_surely none
    (unused_answer fun x hx hsame => hunused x hx (hsame.trans horg)) ?_)
  refine (surely_bind _ _).mpr (read_surely (some r)
    (request_answer hrow (hrorg.trans horg.symm)) ?_)
  refine (surely_bind _ _).mpr ((surely_bind _ _).mpr (related_surely
    (v := (InvoiceChange.decided outcome).apply v) (by rw [hrinvoice]; exact hinvoice)
    (hvorg.trans hrorg.symm) (by rw [hrrisk]; exact hrisk) fun risk decisions => ?_))
  exact (surely_bind _ _).mpr ((surely_require _ _).mpr
    ⟨fun hpending => absurd hpending hended, fun _ => ⟨rfl, rfl⟩⟩)

end Calls
section Ballots

/-- A member, the session that it calls from, and its call. -/
structure Ballot where
  id : Id
  member : Membership
  sessionId : Id
  session : Session
  verifiedAt : Time
  time : Time
  dto : ApprovalDecisionDto
  idempotencyKey : Option Text

namespace Ballot

def auth (b : Ballot) : AuthContext := memberAuth b.id b.sessionId b.member

def op (requestId : Id) (b : Ballot) : Op := .decide b.auth requestId b.dto b.idempotencyKey

def keyHash (cfg : Config) (b : Ballot) : Option Digest :=
  (normalizedKey b.idempotencyKey).map fun t => cfg.sha256 (utf8 t)

/-- Two members, who choose two keys. -/
def Apart (cfg : Config) (b b' : Ballot) : Prop := b.id ≠ b'.id ∧ b.keyHash cfg ≠ b'.keyHash cfg

/-- The member is eligible and has not decided, its step-up is fresh when it calls, and the call is
proper. -/
structure Fit (cfg : Config) (requestId : Id) (request : ApprovalRequest) (db : Db) (b : Ballot) :
    Prop where
  member : Db.membership db b.id = some b.member
  eligible : Eligible db request b.id b.member
  fresh : Fresh cfg b.time db b.sessionId b.member b.session b.verifiedAt
  proper : Proper cfg db request b.dto b.idempotencyKey
  undecided : Db.decision db requestId b.id = none

end Ballot

variable {cfg : Config} {db w db' : Db} {requestId : Id} {request : ApprovalRequest} {v : Invoice}
  {b b' : Ballot} {bs : List Ballot} {standing : Standing} {d : ApprovalDecision}

/-- The vote of one member leaves the others as fit as they were. -/
theorem Ballot.Fit.voted (h : b.Fit cfg requestId request db) (hw : Voted requestId request d w db)
    (hid : b.id ≠ d.decidedByMembershipId) (hhash : b.keyHash cfg ≠ some d.idempotencyKeyHash) :
    b.Fit cfg requestId request (w ++ db) where
  member := (hw.row (k := .membership b.id) rfl).trans h.member
  eligible := by
    obtain ⟨horg, hactive, hrole, hduties⟩ := h.eligible
    refine ⟨horg, hactive, hrole, ?_⟩
    rw [hw.policy]
    exact hduties
  fresh :=
    { row := (hw.row (k := .session b.sessionId) rfl).trans h.fresh.row
      holder := h.fresh.holder
      live := h.fresh.live
      stepUp := h.fresh.stepUp }
  proper := by
    obtain ⟨t, hkey, hindex, hunused⟩ := h.proper.key
    have hother : cfg.sha256 (utf8 t) ≠ d.idempotencyKeyHash := by
      intro hsame
      rw [Ballot.keyHash, hkey, ← hsame] at hhash
      exact hhash rfl
    refine ⟨h.proper.version, h.proper.reason, t, hkey, ?_, fun x hx horg => ?_⟩
    · have huntouched : touches requestId request d
          (.unique (.decisionKey request.organizationId (cfg.sha256 (utf8 t)))) = false :=
        decide_eq_false fun hsame => hother (UniqueIndex.decisionKey.inj hsame).2
      exact Log.row_eq_none.mp ((hw.row huntouched).trans (Log.row_eq_none.mpr hindex))
    · obtain ⟨⟨r, m⟩, d'⟩ := x
      have hrow : Db.decision (w ++ db) r m = some d' := Db.mem_decisions.mp hx
      by_cases htouched : r = requestId ∧ m = d.decidedByMembershipId
      · obtain ⟨rfl, rfl⟩ := htouched
        cases hw.decision.symm.trans hrow
        exact hother.symm
      · have hold : Db.decision db r m = some d' :=
          (hw.row (k := .decision r m) (decide_eq_false htouched)).symm.trans hrow
        exact hunused _ (Db.mem_decisions.mpr hold) horg
  undecided := by
    refine (hw.row (k := .decision requestId b.id) (decide_eq_false fun hboth => ?_)).trans
      h.undecided
    exact hid hboth.2

/-- One call, made by itself, moves the standing by one vote, or comes too late. -/
structure Follows (cfg : Config) (requestId : Id) (request : ApprovalRequest) (v : Invoice)
    (standing : Standing) (b : Ballot) (db db' : Db) (r : Except Failure ApprovalView) : Prop where
  answered : r.isOk = standing.isPending
  late : standing.isPending = false → r = .error tooLate ∧ db' = db
  stands : Stands requestId request v (standing.vote request.requiredDecisions b.dto.outcome) db'
  risk : (Db.risk db' request.riskAssessmentId).isSome = true
  fit : ∀ b' : Ballot, b'.Fit cfg requestId request db → b'.Apart cfg b →
    b'.Fit cfg requestId request db'

theorem ballot_follows (hstands : Stands requestId request v standing db)
    (horg : v.organizationId = request.organizationId)
    (hrisk : (Db.risk db request.riskAssessmentId).isSome = true)
    (hchecks : requestChecks request = true) (hvchecks : invoiceChecks v = true)
    (hfit : b.Fit cfg requestId request db) :
    (decide cfg b.auth requestId b.dto b.idempotencyKey).surely (engineAt cfg b.time)
      (fun _ => False) (fun view _ => (Follows cfg requestId request v standing b db · (.ok view)))
      (fun e _ => (Follows cfg requestId request v standing b db · (.error e))) [] db := by
  cases standing with
  | pending n =>
      obtain ⟨hawaits, rfl⟩ := hstands
      refine surely_mono (fun view _ db' h => ?_) (fun _ _ _ h => h.elim) (decide_counted hawaits
        hrisk hchecks hvchecks hfit.member hfit.eligible hfit.fresh hfit.proper hfit.undecided)
      obtain ⟨t, w, hkey, rfl, hstage⟩ := h
      have hvoted := hstage.toVoted
      refine ⟨rfl, Bool.noConfusion,
        hstage.stands hawaits hfit.undecided ⟨hfit.eligible.1, rfl, rfl⟩, ?_,
        fun b' hfit' hapart => hfit'.voted hvoted hapart.1 fun hsame => ?_⟩
      · rw [hvoted.risk]
        exact hrisk
      · refine hapart.2 (hsame.trans ?_)
        rw [Ballot.keyHash, hkey]
        rfl
  | settled outcome =>
      refine surely_mono (fun _ _ _ h => h.elim) (fun e _ db' h => ?_) (decide_late hstands horg
        hrisk hfit.eligible.1 hfit.proper)
      obtain ⟨rfl, rfl⟩ := h
      exact ⟨rfl, fun _ => ⟨rfl, rfl⟩, hstands, hrisk, fun _ h _ => h⟩

/-- The calls of the members, each made by itself when the one before it has ended. -/
inductive Polled (cfg : Config) (requestId : Id) :
    Db → List Ballot → List (Except Failure ApprovalView) → Db → Prop
  | nil (db : Db) : Polled cfg requestId db [] [] db
  | cons {db db' db'' : Db} {b : Ballot} {bs : List Ballot} {r : Except Failure ApprovalView}
      {rs : List (Except Failure ApprovalView)}
      (hcall : (decide cfg b.auth requestId b.dto b.idempotencyKey).Completes
        (engineAt cfg b.time) (fun _ => False) [] db r db')
      (hrest : Polled cfg requestId db' bs rs db'') :
      Polled cfg requestId db (b :: bs) (r :: rs) db''

theorem call_follows {r : Except Failure ApprovalView}
    (hstands : Stands requestId request v standing db)
    (horg : v.organizationId = request.organizationId)
    (hrisk : (Db.risk db request.riskAssessmentId).isSome = true)
    (hchecks : requestChecks request = true) (hvchecks : invoiceChecks v = true)
    (hfit : b.Fit cfg requestId request db)
    (hcall : (decide cfg b.auth requestId b.dto b.idempotencyKey).Completes
      (engineAt cfg b.time) (fun _ => False) [] db r db') :
    Follows cfg requestId request v standing b db db' r :=
  hcall.satisfies (S := fun r db' => Follows cfg requestId request v standing b db db' r)
    (ballot_follows hstands horg hrisk hchecks hvchecks hfit)

/-- The members can be polled. -/
theorem exists_polled (hstands : Stands requestId request v standing db)
    (horg : v.organizationId = request.organizationId)
    (hrisk : (Db.risk db request.riskAssessmentId).isSome = true)
    (hchecks : requestChecks request = true) (hvchecks : invoiceChecks v = true)
    (hfit : ∀ b ∈ bs, b.Fit cfg requestId request db)
    (hapart : bs.Pairwise fun b b' => b'.Apart cfg b) :
    ∃ rs db', Polled cfg requestId db bs rs db' := by
  induction bs generalizing standing db with
  | nil => exact ⟨[], db, .nil db⟩
  | cons b bs ih =>
      obtain ⟨hfirst, hothers⟩ := List.pairwise_cons.mp hapart
      obtain ⟨r, db₁, hcall⟩ := exists_completes (ballot_follows hstands horg hrisk hchecks hvchecks
        (hfit b List.mem_cons_self))
      have hfollows := call_follows hstands horg hrisk hchecks hvchecks
        (hfit b List.mem_cons_self) hcall
      obtain ⟨rs, db', hrest⟩ := ih hfollows.stands hfollows.risk
        (fun b' hb' => hfollows.fit b' (hfit b' (List.mem_cons_of_mem _ hb')) (hfirst b' hb'))
        hothers
      exact ⟨r :: rs, db', .cons hcall hrest⟩

/-- The answers and the request follow the tally, and members who have not voted are as fit as they
were. -/
structure Tallied (cfg : Config) (requestId : Id) (request : ApprovalRequest) (v : Invoice)
    (standing : Standing) (bs : List Ballot) (rs : List (Except Failure ApprovalView))
    (db db' : Db) : Prop where
  answered : rs.map Except.isOk =
    standing.counts request.requiredDecisions (bs.map (·.dto.outcome))
  stands : Stands requestId request v
    (standing.tally request.requiredDecisions (bs.map (·.dto.outcome))) db'
  risk : (Db.risk db' request.riskAssessmentId).isSome = true
  fit : ∀ b' : Ballot, b'.Fit cfg requestId request db → (∀ b ∈ bs, b'.Apart cfg b) →
    b'.Fit cfg requestId request db'

/-- By induction on the members, as each call leaves the later ones fit. -/
theorem polled_follows {rs : List (Except Failure ApprovalView)}
    (hstands : Stands requestId request v standing db)
    (horg : v.organizationId = request.organizationId)
    (hrisk : (Db.risk db request.riskAssessmentId).isSome = true)
    (hchecks : requestChecks request = true) (hvchecks : invoiceChecks v = true)
    (hfit : ∀ b ∈ bs, b.Fit cfg requestId request db)
    (hapart : bs.Pairwise fun b b' => b'.Apart cfg b) (h : Polled cfg requestId db bs rs db') :
    Tallied cfg requestId request v standing bs rs db db' := by
  induction h generalizing standing with
  | nil db => exact ⟨rfl, hstands, hrisk, fun _ h _ => h⟩
  | cons hcall hrest ih =>
      rename_i db db₁ db₂ b bs r rs
      obtain ⟨hfirst, hothers⟩ := List.pairwise_cons.mp hapart
      have hfollows := call_follows hstands horg hrisk hchecks hvchecks
        (hfit b List.mem_cons_self) hcall
      have hrest := ih hfollows.stands hfollows.risk
        (fun b' hb' => hfollows.fit b' (hfit b' (List.mem_cons_of_mem _ hb')) (hfirst b' hb'))
        hothers
      refine ⟨?_, hrest.stands, hrest.risk, fun b' hfit' hapart' => hrest.fit b' ?_ ?_⟩
      · rw [List.map_cons, hfollows.answered, hrest.answered]
        rfl
      · exact hfollows.fit b' hfit' (hapart' b List.mem_cons_self)
      · exact fun b'' hb'' => hapart' b'' (List.mem_cons_of_mem _ hb'')

theorem polled_append {bs' : List Ballot} {rs : List (Except Failure ApprovalView)}
    (h : Polled cfg requestId db (bs ++ bs') rs db') :
    ∃ rs₁ rs₂ db₁, rs = rs₁ ++ rs₂ ∧ Polled cfg requestId db bs rs₁ db₁ ∧
      Polled cfg requestId db₁ bs' rs₂ db' := by
  induction bs generalizing db rs with
  | nil => exact ⟨[], rs, db, rfl, .nil db, h⟩
  | cons b bs ih =>
      cases h with
      | cons hcall hrest =>
          obtain ⟨rs₁, rs₂, db₁, rfl, hfirst, hsecond⟩ := ih hrest
          exact ⟨_ :: rs₁, rs₂, db₁, rfl, .cons hcall hfirst, hsecond⟩

/-- Once the request is settled, the calls are too late. -/
theorem polled_late {rs : List (Except Failure ApprovalView)} {outcome : ApprovalDecisionOutcome}
    (hstands : Stands requestId request v (.settled outcome) db)
    (horg : v.organizationId = request.organizationId)
    (hrisk : (Db.risk db request.riskAssessmentId).isSome = true)
    (hchecks : requestChecks request = true) (hvchecks : invoiceChecks v = true)
    (hfit : ∀ b ∈ bs, b.Fit cfg requestId request db) (h : Polled cfg requestId db bs rs db') :
    (∀ r ∈ rs, r = .error tooLate) ∧ db' = db := by
  induction h with
  | nil db => exact ⟨fun r hr => absurd hr List.not_mem_nil, rfl⟩
  | cons hcall hrest ih =>
      rename_i db db₁ db₂ b bs r rs
      obtain ⟨rfl, rfl⟩ := (call_follows hstands horg hrisk hchecks hvchecks
        (hfit b List.mem_cons_self) hcall).late rfl
      obtain ⟨hlate, hsame⟩ := ih hstands hrisk fun b' hb' => hfit b' (List.mem_cons_of_mem _ hb')
      refine ⟨fun r hr => ?_, hsame⟩
      rcases List.mem_cons.mp hr with rfl | hr
      · rfl
      · exact hlate r hr

end Ballots
section Runs

variable {cfg : Config} {ok : System → SystemAction → Prop} {s₀ s : System} {db db' : Db}
  {requestId : Id} {request : ApprovalRequest} {v : Invoice} {n : Nat} {bs : List Ballot}
  {rs : List (Except Failure ApprovalView)}

/-- Calls of `decide` are started, and go on. -/
def deciding (_ : System) : SystemAction → Prop
  | .start (.decide _ _ _ _) | .exec _ _ => True
  | _ => False

/-- Processes that have made the calls of the members, and ended with these answers. -/
def Called (requestId : Id) (bs : List Ballot) (rs : List (Except Failure ApprovalView))
    (ps : List Process) : Prop :=
  ps.map (·.op) = bs.map (Ballot.op requestId) ∧
    ps.map (·.prog) = rs.map fun r => ended (r.map Response.approval)

/-- A time and free identifiers are answers that the database and the clock can give. -/
theorem engineAt_possible (time : Time) (q : Stmt) (c : Nat) (view : Db)
    (r : Except Failure (Out q × Db)) (h : engineAt cfg time q c view = some r) :
    ∃ c', engine cfg q c' view = some r := by
  cases q with
  | read q => exact ⟨c, h⟩
  | call x =>
      cases x with
      | clock => exact ⟨time, h⟩
      | _ => exact ⟨c, h⟩
  | write u =>
      cases u with
      | insertAudit a =>
          by_cases hused : Key.audit c ∈ view.keys
          · cases (if_pos hused).symm.trans h
          · exact ⟨c, (if_neg hused).symm.trans h⟩
      | _ => exact ⟨c, h⟩

def decides : Op → Bool
  | .decide _ _ _ _ => true
  | _ => false

theorem decides_closes {op : Op} (hop : decides op = true) : (program cfg op).Closes := by
  cases op with
  | decide auth requestId dto key =>
      rw [program]
      refine closes_bind ?_ fun _ => closes_pure _
      unfold decide idempotencyKeyHash
      refine closes_bind (closes_bind (closes_orThrow _ _) fun _ => closes_pure _) fun _ => ?_
      exact closes_bind (closes_transaction _) fun _ => closes_orThrow _ _
  | _ => cases hop

/-- From where no transaction is open, polling the members is a run of the system: each call is a
process of its own, which ends with the answer, and the others stay where they are. -/
theorem Polled.run (h : Polled cfg requestId db bs rs db') (hprocs : s₀.procs = [])
    (hrun : Run (machine cfg) ok s₀ s) (hdb : s.db = db)
    (hquiet : ∀ (j : Nat) p, s.procs[j]? = some p → p.current = []) :
    ∃ t ps, Run (machine cfg) deciding s t ∧ t.db = db' ∧ t.procs = s.procs ++ ps ∧
      Called requestId bs rs ps := by
  have hwhole : Run (machine cfg) (fun _ _ => True) s₀ s := hrun.mono fun _ _ _ => trivial
  clear hrun
  induction h generalizing s with
  | nil db => exact ⟨s, [], .refl, hdb, (List.append_nil _).symm, rfl, rfl⟩
  | cons hcall hrest ih =>
      rename_i db db₁ db₂ b bs r rs
      let p₀ : Process := ⟨b.op requestId, program cfg (b.op requestId), [], []⟩
      have hstart : Step (machine cfg) s (.start (b.op requestId)) ⟨s.db, s.procs ++ [p₀]⟩ :=
        .start _
      have hlone : Lone (⟨s.db, s.procs ++ [p₀]⟩ : System) s.procs.length p₀ p₀.prog [] db := by
        refine ⟨List.getElem?_concat_length, rfl, rfl, hdb, fun j p hp hj => ?_⟩
        rcases getElem?_concat_cases hp with rfl | hp
        · rfl
        · exact hquiet j p hp
      have hcompletes := (hcall.mono (engineAt_possible b.time)).bind_pure Response.approval
      obtain ⟨t, p, w, hgoes, hend, hop, ht⟩ := completes_run (M := machine cfg) hcompletes hlone
      have hcall : Run (machine cfg) deciding s t := by
        refine (Run.step .refl trivial hstart).trans (hgoes.mono fun u a ha => ?_)
        rcases ha with ⟨c, rfl⟩ | ⟨e, he, -⟩
        · trivial
        · exact he.elim
      have hreached : Run (machine cfg) (fun _ _ => True) s₀ t :=
        hwhole.trans (hcall.mono fun _ _ _ => trivial)
      have hended : p.prog.finished = true := by
        rw [hend.prog]
        cases r <;> rfl
      have hclosed : p.current = [] :=
        hreached.closed (fun _ => decides_closes) hprocs hend.proc (by rw [hop]; rfl) hended
      have hquiet' : ∀ (j : Nat) p, t.procs[j]? = some p → p.current = [] := by
        intro j p' hp'
        by_cases hj : j = s.procs.length
        · subst hj
          cases hend.proc.symm.trans hp'
          exact hclosed
        · exact hend.others j p' hp' hj
      obtain ⟨t', ps, hrest, hdb', hps, hops, hprogs⟩ := ih hend.db hquiet' hreached
      replace ht : t.procs = s.procs ++ [p] := by
        rw [ht]
        exact List.set_append_right s.procs.length p (Nat.le_refl _) |>.trans (by simp)
      refine ⟨t', p :: ps, hcall.trans hrest, hdb', ?_, ?_, ?_⟩
      · rw [hps, ht, List.append_assoc]
        rfl
      · rw [List.map_cons, List.map_cons, hop, hops]
      · rw [List.map_cons, List.map_cons, hend.prog, hprogs]

/-- From every state that a run has reached with no transaction open, members who are fit to decide
can be polled in any order.  Each call is answered as the standing of the request says, and the
request and its invoice end up where the tally of the votes is; calls after the end are too late
and leave the database as it was.  As many approvals as are missing approve the invoice. -/
theorem polls_follow_tally (cfg : Config) (h₀ : Idle Legal s₀) (hk : Keyed s₀.db)
    (hstart : ∀ x ∈ s₀.db, passes x.1 x.2 = true) (hrun : Run (machine cfg) ok s₀ s)
    (hquiet : ∀ (j : Nat) p, s.procs[j]? = some p → p.current = [])
    (hawaits : Awaits s.db requestId request v)
    (hfit : ∀ b ∈ bs, b.Fit cfg requestId request s.db)
    (hapart : bs.Pairwise fun b b' => b'.Apart cfg b) :
    (∃ rs db', Polled cfg requestId s.db bs rs db') ∧
    ∀ rs db', Polled cfg requestId s.db bs rs db' →
      (∃ t ps, Run (machine cfg) deciding s t ∧ t.db = db' ∧ t.procs = s.procs ++ ps ∧
        Called requestId bs rs ps) ∧
      rs.map Except.isOk = (Standing.pending (approvals s.db requestId request)).counts
        request.requiredDecisions (bs.map (·.dto.outcome)) ∧
      Stands requestId request v ((Standing.pending (approvals s.db requestId request)).tally
        request.requiredDecisions (bs.map (·.dto.outcome))) db' ∧
      (∀ bs₁ bs₂ outcome, bs = bs₁ ++ bs₂ →
        (Standing.pending (approvals s.db requestId request)).tally request.requiredDecisions
          (bs₁.map (·.dto.outcome)) = .settled outcome →
        ∃ rs₁ rs₂, rs = rs₁ ++ rs₂ ∧ Polled cfg requestId s.db bs₁ rs₁ db' ∧
          ∀ r ∈ rs₂, r = .error tooLate) ∧
      ((∀ b ∈ bs, b.dto.outcome = .approve) → bs ≠ [] →
        request.requiredDecisions ≤ approvals s.db requestId request + bs.length →
          Db.invoice db' request.invoiceId = some { v with status := .approved }) := by
  have hstands : Stands requestId request v (.pending (approvals s.db requestId request)) s.db :=
    ⟨hawaits, rfl⟩
  obtain ⟨a, ha, -⟩ := (keyed cfg h₀ hk hrun).risk requestId request hawaits.row
  have hrisk : (Db.risk s.db request.riskAssessmentId).isSome = true := by rw [ha]; rfl
  have hchecks : requestChecks request = true :=
    reachable_passes h₀.procs hstart hrun hawaits.row
  have hvchecks : invoiceChecks v = true := reachable_passes h₀.procs hstart hrun hawaits.invoice
  have horg := hawaits.organization
  refine ⟨exists_polled hstands horg hrisk hchecks hvchecks hfit hapart, fun rs db' hpolled => ?_⟩
  have htallied := polled_follows hstands horg hrisk hchecks hvchecks hfit hapart hpolled
  refine ⟨hpolled.run h₀.procs hrun rfl hquiet, htallied.answered, htallied.stands, ?_,
    fun happrove hsome hquorum => ?_⟩
  · rintro bs₁ bs₂ outcome rfl hsettled
    obtain ⟨hapart₁, -, hacross⟩ := List.pairwise_append.mp hapart
    obtain ⟨rs₁, rs₂, db₁, rfl, hfirst, hsecond⟩ := polled_append hpolled
    have hdone := polled_follows hstands horg hrisk hchecks hvchecks
      (fun b hb => hfit b (List.mem_append_left _ hb)) hapart₁ hfirst
    have hend := hdone.stands
    rw [hsettled] at hend
    obtain ⟨hlate, rfl⟩ := polled_late hend horg hdone.risk hchecks hvchecks
      (fun b hb => hdone.fit b (hfit b (List.mem_append_right _ hb))
        fun b' hb' => hacross b' hb' b hb) hsecond
    exact ⟨rs₁, rs₂, rfl, hfirst, hlate⟩
  · have htally : (Standing.pending (approvals s.db requestId request)).tally
        request.requiredDecisions (bs.map (·.dto.outcome)) = .settled .approve := by
      apply Standing.tally_approves
      · intro o ho
        obtain ⟨b, hb, rfl⟩ := List.mem_map.mp ho
        exact happrove b hb
      · exact fun hnil => hsome (List.map_eq_nil_iff.mp hnil)
      · rw [List.length_map]
        exact hquorum
    have hend := htallied.stands
    rw [htally] at hend
    exact hend.2

end Runs
section Sample

/-- The ballot of an owner of the sample tenant. -/
def sampleBallot (m : Id) (c : Char) (outcome : ApprovalDecisionOutcome) : Ballot :=
  ⟨m, sampleMember m, m, sampleSession m, 10, 100, sampleDecision outcome, sampleKey c⟩

theorem pendingDb_keyed : Keyed pendingDb where
  contract i w hw := by
    refine contracted_of_none ?_
    simp only [pendingDb, sampleDb, List.tail_cons, List.mem_cons, List.not_mem_nil,
      or_false] at hw
    simp_all [pendingInvoice, sampleInvoice]
  document id r hr := by
    have hid : id = 1 := by
      have hkey := Log.mem_keys_of_row hr
      simpa [pendingDb, sampleDb, List.keys] using hkey
    subst hid
    cases hr
    exact ⟨sampleDocument, rfl, rfl⟩
  invoice id r hr := by
    have hid : id = 1 := by
      have hkey := Log.mem_keys_of_row hr
      simpa [pendingDb, sampleDb, List.keys] using hkey
    subst hid
    cases hr
    exact ⟨pendingInvoice, rfl, rfl⟩
  risk id r hr := by
    have hid : id = 1 := by
      have hkey := Log.mem_keys_of_row hr
      simpa [pendingDb, sampleDb, List.keys] using hkey
    subst hid
    cases hr
    exact ⟨pendingAssessment, rfl, rfl⟩
  request r m d hd := by
    have hkey := Log.mem_keys_of_row hd
    simp [pendingDb, sampleDb, List.keys] at hkey

theorem sampleBallot_fit {m : Id} {c : Char} (outcome : ApprovalDecisionOutcome)
    (hm : m = 2 ∨ m = 3) (hc : c = 'b' ∨ c = 'c') :
    (sampleBallot m c outcome).Fit sampleConfig 1 pendingRequest pendingStart.db := by
  have hrows : Db.membership pendingStart.db m = some (sampleMember m) ∧
      Db.session pendingStart.db m = some (sampleSession m) ∧
      Eligible pendingStart.db pendingRequest m (sampleMember m) := by
    rcases hm with rfl | rfl <;> exact ⟨rfl, rfl, rfl, rfl, by decide, by decide⟩
  have hreason : 10 ≤ (trimSpaces (trim (sampleDecision outcome).reason)).length := by
    show 10 ≤ (trimSpaces (trim (List.replicate 12 'x'))).length
    decide
  have hlive : (100 : Time) < 1000000 := by decide
  have hrecent : 100 - sampleConfig.stepUpTtlMilliseconds ≤ 10 := by decide
  refine ⟨hrows.1, hrows.2.2, ⟨hrows.2.1, ⟨rfl, rfl⟩, ⟨rfl, hlive⟩, rfl, hrecent⟩,
    ⟨rfl, hreason, ?_⟩, ?_⟩
  · have hkeys : ∀ c ∈ ['b', 'c'], ∃ t, normalizedKey (sampleKey c) = some t ∧
        Key.unique (.decisionKey 1 (sampleConfig.sha256 (utf8 t))) ∉ pendingStart.db.keys := by
      intro c hc
      refine ⟨List.replicate 16 c, ?_⟩
      rcases List.mem_pair.mp hc with rfl | rfl <;> decide
    obtain ⟨t, hkey, hindex⟩ := hkeys c (List.mem_pair.mpr hc)
    refine ⟨t, hkey, hindex, fun x hx => ?_⟩
    have hnone : Db.decisions pendingStart.db = [] := by decide
    rw [hnone] at hx
    exact absurd hx List.not_mem_nil
  · rcases hm with rfl | rfl <;> rfl

theorem sampleBallots_fit (outcome outcome' : ApprovalDecisionOutcome) :
    (∀ b ∈ [sampleBallot 3 'c' outcome, sampleBallot 2 'b' outcome'],
      b.Fit sampleConfig 1 pendingRequest pendingStart.db) ∧
    [sampleBallot 3 'c' outcome, sampleBallot 2 'b' outcome'].Pairwise
      fun b b' => b'.Apart sampleConfig b := by
  have htwo : (2 : Nat) ≠ 3 := by decide
  refine ⟨fun b hb => ?_, List.pairwise_pair.mpr ⟨htwo, ?_⟩⟩
  · rcases List.mem_pair.mp hb with rfl | rfl
    · exact sampleBallot_fit outcome (.inr rfl) (.inr rfl)
    · exact sampleBallot_fit outcome' (.inl rfl) (.inl rfl)
  · have hhashes : (sampleBallot 2 'b' .approve).keyHash sampleConfig ≠
        (sampleBallot 3 'c' .approve).keyHash sampleConfig := by decide
    exact hhashes

/-- The first of two approvals leaves the request pending, and the second approves the invoice;
after a rejection an approval comes too late. -/
theorem polls_follow_tally_sample :
    (∃ t rs, Run (machine sampleConfig) deciding pendingStart t ∧
      Called 1 [sampleBallot 3 'c' .approve, sampleBallot 2 'b' .approve] rs t.procs ∧
      rs.map Except.isOk = [true, true] ∧
      (Db.invoice t.db 1).map (·.status) = some .approved) ∧
    ∃ t r, Run (machine sampleConfig) deciding pendingStart t ∧
      Called 1 [sampleBallot 3 'c' .reject, sampleBallot 2 'b' .approve] [r, .error tooLate]
        t.procs ∧
      Polled sampleConfig 1 pendingStart.db [sampleBallot 3 'c' .reject] [r] t.db ∧
      (Db.invoice t.db 1).map (·.status) = some .rejected := by
  have hrun : Run (machine sampleConfig) (fun _ _ => True) pendingStart pendingStart := .refl
  have hpoll := fun outcome outcome' => polls_follow_tally sampleConfig pendingStart_idle
    pendingDb_keyed pending_passes hrun (fun j p hp => by cases hp) pending_awaits
    (sampleBallots_fit outcome outcome').1 (sampleBallots_fit outcome outcome').2
  constructor
  · obtain ⟨⟨rs, db', hpolled⟩, hall⟩ := hpoll .approve .approve
    obtain ⟨⟨t, ps, hgoes, rfl, hps, hcalled⟩, hanswers, -, -, happroves⟩ := hall rs db' hpolled
    have happroved : Db.invoice t.db 1 = some { pendingInvoice with status := .approved } := by
      refine happroves (fun b hb => ?_) (List.cons_ne_nil _ _) (by decide)
      rcases List.mem_pair.mp hb with rfl | rfl <;> rfl
    refine ⟨t, rs, hgoes, hps ▸ hcalled, hanswers, ?_⟩
    rw [happroved]
    rfl
  · obtain ⟨⟨rs, db', hpolled⟩, hall⟩ := hpoll .reject .approve
    obtain ⟨⟨t, ps, hgoes, rfl, hps, hcalled⟩, hanswers, hstands, hlate, -⟩ := hall rs db' hpolled
    obtain ⟨rs₁, rs₂, rfl, hfirst, herrors⟩ := hlate [sampleBallot 3 'c' .reject] _ .reject rfl rfl
    have hlengths := congrArg List.length hanswers
    obtain ⟨r, rfl⟩ : ∃ r, rs₁ = [r] := by
      cases hfirst with
      | cons hcall hrest =>
          cases hrest
          exact ⟨_, rfl⟩
    obtain ⟨r', rfl⟩ : ∃ r', rs₂ = [r'] := by
      rw [List.length_map, List.length_append] at hlengths
      exact List.length_eq_one_iff.mp (Nat.add_left_cancel (n := 1) hlengths)
    rw [herrors r' List.mem_cons_self] at hcalled
    refine ⟨t, r, hgoes, hps ▸ hcalled, hfirst, ?_⟩
    rw [show Db.invoice t.db 1 = _ from hstands.2]
    rfl

end Sample
end BlocTrust.ApprovalsService
