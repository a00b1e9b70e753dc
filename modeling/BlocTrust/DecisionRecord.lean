import BlocTrust.ReadCommitted.Outcomes
import BlocTrust.Ledger
import BlocTrust.Tenant

/-!
What a successful decision leaves on record.
`decide` looks its idempotency key up first and returns what it finds for the request; only
where nothing is found does it record a decision of the caller.  The caller's decision is on
record after a normal return exactly when a decision found under the key stands for one of
the caller with the same outcome.
-/
namespace BlocTrust

open ReadCommitted Prog ApprovalsService

/-- No decision is among the calls. -/
def NoDecision (calls : Calls Out) : Prop := ∀ d, ¬ Did calls (.insertDecision d) ()

/-- The caller has a decision with this outcome. -/
def OnRecord (db : Db) (id membership : Id) (outcome : ApprovalDecisionOutcome) : Prop :=
  ∃ d, Db.decision db id membership = some d ∧ d.outcome = outcome

section Program

variable (cfg : Config) (auth : AuthContext) (id : Id) (dto : ApprovalDecisionDto) (hash : Digest)

/-- `decide` after the lookup of its key. -/
def afterLookup : Option ApprovalDecision → Program (Option ApprovalView)
  | some replay => do
      let found ← query (.findRequest auth.organizationId replay.approvalRequestId)
      let request ← orThrow found .recordNotFound
      let details ← requestDetails replay.approvalRequestId request
      require (replay.approvalRequestId = id) idempotencyConflict
      return some (approvalView details [])
  | none => decideNew cfg auth id dto hash

/-- The rest of the call, after its transaction is open. -/
def answerCall (body : Program (Option ApprovalView)) : Program Response :=
  (transaction body >>= fun result => orThrow result staleApproval) >>= fun v =>
    pure (.approval v)

/-- `decide` from the answer of the lookup on. -/
def lookedUp : Except Failure (Option ApprovalDecision) → Program Response
  | .ok replay => answerCall (afterLookup cfg auth id dto hash replay)
  | .error e => .rollback (.fail e)

variable {cfg auth id dto hash}

theorem program_decide {key : Option Text} {t : Text} (h : normalizedKey key = some t) :
    program cfg (.decide auth id dto key) =
      .stmt (.read (.findDecisionByKey auth.organizationId (cfg.sha256 (utf8 t))))
        (lookedUp cfg auth id dto (cfg.sha256 (utf8 t))) := by
  rw [program, ApprovalsService.decide, idempotencyKeyHash, h]
  refine congrArg (Prog.stmt _) (funext fun r => ?_)
  rcases r with e | _ | replay <;> rfl

theorem program_invalid {key : Option Text} (h : normalizedKey key = none) :
    program cfg (.decide auth id dto key) = .fail (.unprocessable "IDEMPOTENCY_KEY_REQUIRED") := by
  rw [program, ApprovalsService.decide, idempotencyKeyHash, h]
  rfl

/-- The statements that record no decision. -/
def Unrecorded : Stmt → Prop
  | .write (.insertDecision _) => False
  | _ => True

theorem NoDecision.of_unrecorded {cur cur' : Calls Out} (h : NoDecision cur)
    (hnew : ∀ c ∈ cur', c ∈ cur ∨ Unrecorded c.1) : NoDecision cur' := by
  intro d hd
  rcases hnew _ hd with hold | hnone
  · exact h d hold
  · exact hnone

theorem query_plain (q : Query) : (query q).Plain Unrecorded := (plain_sql _).mpr trivial

theorem requestDetails_reads {P : Stmt → Prop} (hP : ∀ q, P (.read q)) (id : Id)
    (r : ApprovalRequest) : (requestDetails id r).Plain P := by
  have hquery : ∀ q : Query, (query q).Plain P := fun q => (plain_sql _).mpr (hP q)
  refine (hquery _).bind fun found => (plain_orThrow _ _).bind fun v => ?_
  refine (hquery _).bind fun found => (plain_orThrow _ _).bind fun a => ?_
  exact (hquery _).bind fun ds => plain_pure _

theorem requestDetails_plain (id : Id) (r : ApprovalRequest) :
    (requestDetails id r).Plain Unrecorded := requestDetails_reads (fun _ => trivial) id r

theorem policy_plain (org : Id) : (policy org).Plain Unrecorded := by
  refine (query_plain _).bind fun found => ?_
  cases found with
  | some existing => exact plain_pure _
  | none => exact (plain_sql _).mpr trivial

theorem invalidate_plain (id : Id) (r : ApprovalRequest) (reason : String) :
    (invalidate id r reason).Plain Unrecorded := by
  refine Plain.bind ((plain_sql _).mpr trivial) fun n => ?_
  exact Plain.bind ((plain_sql _).mpr trivial) fun m => plain_pure _

theorem bankIsCurrent_plain (org : Id) (r : ApprovalRequest) (vendorId : Option Id) :
    (bankIsCurrent org r vendorId).Plain Unrecorded := by
  cases vendorId with
  | none => exact plain_pure _
  | some vendor =>
      refine (query_plain _).bind fun latest => ?_
      cases latest <;> exact plain_pure _

theorem authorize_plain (r : ApprovalRequest) : (authorize cfg auth r).Plain Unrecorded := by
  refine (query_plain _).bind fun found => (plain_orThrow _ _).bind fun m => ?_
  refine (policy_plain _).bind fun p => (plain_require _ _).bind fun _ => ?_
  refine Plain.bind ((plain_sql _).mpr trivial) fun checked => ?_
  refine Plain.bind ((plain_sql _).mpr trivial) fun current => ?_
  exact (query_plain _).bind fun session => plain_orThrow _ _

theorem complete_plain (r : ApprovalRequest) (outcome : ApprovalDecisionOutcome) :
    (complete id r outcome).Plain Unrecorded := by
  refine Plain.bind ((plain_sql _).mpr trivial) fun t => ?_
  refine Plain.bind ((plain_sql _).mpr trivial) fun n => (plain_require _ _).bind fun _ => ?_
  exact Plain.bind ((plain_sql _).mpr trivial) fun m => plain_require _ _

theorem settle_plain (r : ApprovalRequest) (outcome : ApprovalDecisionOutcome) :
    (settle auth id r outcome).Plain Unrecorded := by
  cases outcome with
  | reject => exact complete_plain r .reject
  | approve =>
      refine (query_plain _).bind fun n => ?_
      split
      · exact complete_plain r .approve
      · exact plain_pure _

theorem writeAudit_plain (action entity : String) (i : Id) (reason : Option Text) :
    (writeAudit auth action entity i reason).Plain Unrecorded := (plain_sql _).mpr trivial

theorem eligibleApprovers_plain (org : Id) (r : ApprovalRequest) :
    (eligibleApprovers org r).Plain Unrecorded :=
  (policy_plain _).bind fun _ => query_plain _

/-- The caller's decision with the outcome of the body is among the calls. -/
def Decided (auth : AuthContext) (id : Id) (outcome : ApprovalDecisionOutcome)
    (calls : Calls Out) : Prop :=
  ∃ d, Did calls (.insertDecision d) () ∧ d.approvalRequestId = id ∧
    d.decidedByMembershipId = auth.membershipId ∧ d.outcome = outcome

/-- What a body of the transaction has done when it returns. -/
def Returns (auth : AuthContext) (id : Id) (outcome : ApprovalDecisionOutcome)
    (result : Option ApprovalView) (past cur : Calls Out) : Prop :=
  past = [] ∧ (result.isSome = true → Decided auth id outcome cur) ∧
    (result = none → NoDecision cur)

theorem record_returns (r : ApprovalRequest) (cur : Calls Out) :
    (record cfg auth id r dto hash).wp .free
      (fun _ past cur => past = [] ∧ Decided auth id dto.outcome cur) (fun _ past _ => past = [])
      [] cur := by
  refine (wp_bind _ _).mpr (wp_mono (fun verifiedAt past cur hQ => ?_) (fun _ _ _ hR => hR)
    ((authorize_plain r).wp [] cur))
  obtain ⟨rfl, -, -⟩ := hQ
  have hnow : (now : Program Time).Plain Unrecorded := (plain_sql _).mpr trivial
  refine (wp_bind _ _).mpr (wp_mono (fun createdAt past cur hQ => ?_) (fun _ _ _ hR => hR)
    (hnow.wp [] cur))
  obtain ⟨rfl, -, -⟩ := hQ
  refine (wp_bind _ _).mpr ?_
  have hcreate : ∀ d (cur : Calls Out), (createDecision d).wp .free
      (fun _ past cur' => past = [] ∧ Did cur' (.insertDecision d) ()) (fun _ past _ => past = [])
      [] cur := by
    intro d cur
    refine (wp_tryCatch _ _).mpr ⟨trivial, fun out _ => ⟨rfl, List.mem_cons_self⟩, fun e => ?_⟩
    show (if e = Failure.uniqueViolation then _ else _ : Program Unit).wp _ _ _ _ _
    split <;> rfl
  refine wp_mono (fun _ past cur' hQ => ?_) (fun _ _ _ hR => hR) (hcreate _ _)
  obtain ⟨rfl, hdid⟩ := hQ
  have hrest : ∀ {α : Type} {p : Program α}, p.Plain Unrecorded → p.wp .free
      (fun _ past cur => past = [] ∧ Decided auth id dto.outcome cur) (fun _ past _ => past = [])
      [] cur' := by
    intro α p hp
    refine wp_mono (fun _ past cur hQ => ?_) (fun _ _ _ hR => hR) (hp.wp [] cur')
    exact ⟨hQ.1, _, hQ.2.1 hdid, rfl, rfl, rfl⟩
  refine hrest ((settle_plain r dto.outcome).bind fun _ => (writeAudit_plain _ _ _ _).bind fun _ => ?_)
  refine (query_plain _).bind fun found => (plain_orThrow _ _).bind fun updated => ?_
  refine (requestDetails_plain id updated).bind fun details => ?_
  exact (eligibleApprovers_plain _ updated).bind fun eligible => plain_pure _

theorem decideNew_returns {cur : Calls Out} (hcur : NoDecision cur) :
    (decideNew cfg auth id dto hash).wp .free (Returns auth id dto.outcome)
      (fun _ past _ => past = []) [] cur := by
  have hquiet : ∀ {α : Type} {p : Program α} {f : α → Program (Option ApprovalView)}
      {cur : Calls Out}, p.Plain Unrecorded → NoDecision cur →
      (∀ a cur, NoDecision cur → (f a).wp .free (Returns auth id dto.outcome)
        (fun _ past _ => past = []) [] cur) →
      (p >>= f).wp .free (Returns auth id dto.outcome) (fun _ past _ => past = []) [] cur := by
    intro α p f cur hp hnone hf
    refine (wp_bind _ _).mpr (wp_mono (fun a past cur' hQ => ?_) (fun _ _ _ hR => hR) (hp.wp [] cur))
    obtain ⟨rfl, -, hnew⟩ := hQ
    exact hf a cur' (hnone.of_unrecorded hnew)
  have hstale : ∀ (r : ApprovalRequest) reason cur, NoDecision cur →
      (do invalidate id r reason; return none : Program (Option ApprovalView)).wp .free
        (Returns auth id dto.outcome) (fun _ past _ => past = []) [] cur :=
    fun r reason cur hnone => hquiet (invalidate_plain id r reason) hnone fun _ _ hnone =>
      ⟨rfl, nofun, fun _ => hnone⟩
  refine hquiet (query_plain _) hcur fun found cur hnone => ?_
  refine hquiet (plain_orThrow _ _) hnone fun request cur hnone => ?_
  refine hquiet (requestDetails_plain id request) hnone fun details cur hnone => ?_
  refine hquiet (plain_require _ _) hnone fun _ cur hnone => ?_
  refine hquiet (plain_require _ _) hnone fun _ cur hnone => ?_
  split
  · exact hstale request _ cur hnone
  · refine hquiet (bankIsCurrent_plain _ _ _) hnone fun current cur hnone => ?_
    split
    · exact hstale request _ cur hnone
    · refine (wp_bind _ _).mpr (wp_mono (fun _ past cur hQ => ?_) (fun _ _ _ hR => hR)
        (record_returns request cur))
      exact ⟨hQ.1, fun _ => hQ.2, nofun⟩

theorem replay_returns (replay : ApprovalDecision) (cur : Calls Out) :
    (afterLookup cfg auth id dto hash (some replay)).wp .free
      (fun result past _ => past = [] ∧ result.isSome = true ∧ replay.approvalRequestId = id)
      (fun _ past _ => past = []) [] cur := by
  have hquiet : ∀ {α : Type} {p : Program α} {f : α → Program (Option ApprovalView)}
      {Q : Option ApprovalView → Calls Out → Calls Out → Prop} {cur : Calls Out},
      p.Plain Unrecorded → (∀ a cur, (f a).wp .free Q (fun _ past _ => past = []) [] cur) →
      (p >>= f).wp .free Q (fun _ past _ => past = []) [] cur := by
    intro α p f Q cur hp hf
    refine (wp_bind _ _).mpr (wp_mono (fun a past cur' hQ => ?_) (fun _ _ _ hR => hR) (hp.wp [] cur))
    obtain ⟨rfl, -⟩ := hQ
    exact hf a cur'
  refine hquiet (query_plain _) fun found cur => hquiet (plain_orThrow _ _) fun request cur => ?_
  refine hquiet (requestDetails_plain _ request) fun details cur => ?_
  exact (wp_bind _ _).mpr ((wp_require _ _).mpr ⟨fun hid => ⟨rfl, rfl, hid⟩, fun _ => rfl⟩)

theorem answerCall_wp {body : Program (Option ApprovalView)} {cur : Calls Out}
    {Q : Calls Out → Prop} (h : body.wp .free (fun result past cur => past = [] ∧
      (result.isSome = true → Q cur) ∧ (result = none → NoDecision cur))
      (fun _ past _ => past = []) [] cur) :
    (answerCall body).wp .free (fun _ past _ => Q past) (fun _ past _ => NoDecision past) [] cur := by
  have hempty : NoDecision [] := fun _ hd => List.not_mem_nil hd
  refine (wp_bind _ _).mpr ((wp_bind _ _).mpr ((wp_transaction _).mpr ?_))
  refine wp_mono (fun result past cur hQ => ?_) (fun _ past _ hR => hR ▸ hempty) h
  obtain ⟨rfl, hsome, hnone⟩ := hQ
  refine ⟨trivial, ?_, fun _ => hempty⟩
  rw [List.append_nil]
  cases result with
  | none => exact hnone rfl
  | some v => exact hsome rfl

/-- However the lookup is answered, a call that throws has recorded nothing. -/
theorem lookedUp_wp (answer : Except Failure (Option ApprovalDecision)) {cur : Calls Out}
    (hcur : NoDecision cur) :
    (lookedUp cfg auth id dto hash answer).wp .free
      (fun _ past _ => ∃ replay, answer = .ok replay ∧
        ((replay = none → Decided auth id dto.outcome past) ∧
          ∀ d, replay = some d → d.approvalRequestId = id))
      (fun _ past _ => NoDecision past) [] cur := by
  rcases answer with e | _ | replay
  · exact fun _ hd => List.not_mem_nil hd
  · refine answerCall_wp (wp_mono (fun result past cur hQ => ?_) (fun _ _ _ hR => hR)
      (decideNew_returns hcur))
    exact ⟨hQ.1, fun hs => ⟨none, rfl, fun _ => hQ.2.1 hs, nofun⟩, hQ.2.2⟩
  · refine answerCall_wp (wp_mono (fun result past cur hQ => ?_) (fun _ _ _ hR => hR)
      (replay_returns replay cur))
    obtain ⟨hpast, hsome, hid⟩ := hQ
    refine ⟨hpast, fun _ => ⟨some replay, rfl, nofun, ?_⟩, fun hnone => ?_⟩
    · rintro d ⟨rfl⟩
      exact hid
    · rw [hnone] at hsome
      cases hsome

end Program

section Keys

/-- A key stands for one decision of the organization. -/
structure KeyedOnce (db : Db) : Prop where
  indexed : ∀ r m d, Db.decision db r m = some d →
    Key.unique (.decisionKey d.organizationId d.idempotencyKeyHash) ∈ db.keys
  single : ∀ r m r' m' d d', Db.decision db r m = some d → Db.decision db r' m' = some d' →
    d.organizationId = d'.organizationId → d.idempotencyKeyHash = d'.idempotencyKeyHash → d = d'

/-- Keys stand for one decision, and what a call has recorded is there. -/
def recorded : Account Val Out Op where
  inv := KeyedOnce
  fact _ c db := ∀ d, c = ⟨.write (.insertDecision d), ()⟩ →
    Db.decision db d.approvalRequestId d.decidedByMembershipId = some d

variable {cfg : Config} {db : Db} {p : Process}

/-- The key of a decision is taken by the transaction that records it. -/
theorem inserted_key (h : ProcOk (machine cfg) (conduct cfg) Legal db p) {d : ApprovalDecision}
    (hd : Did p.calls (.insertDecision d) ()) :
    Key.unique (.decisionKey d.organizationId d.idempotencyKeyHash) ∉ db.keys ∧
      Key.unique (.decisionKey d.organizationId d.idempotencyKeyHash) ∈ p.writes.keys := by
  obtain ⟨new, older, rows, base, hcur, hwrote, -⟩ := did_event h hd
  cases hwrote with
  | insertDecision hinserted =>
      have hfree := hinserted.unique _ (List.mem_singleton.mpr rfl)
      have hkey : Key.unique (.decisionKey d.organizationId d.idempotencyKeyHash) ∈ rows.keys := by
        rw [hinserted.rows_eq]
        exact List.mem_cons_of_mem _ List.mem_cons_self
      obtain ⟨since, hdb, hlocked⟩ := h.since _ (mem_of_event hcur)
      refine ⟨fun hmem => ?_, written_key hcur hkey⟩
      rw [hdb, Log.keys_append, List.mem_append] at hmem
      rcases hmem with hnew | hold
      · exact hlocked _ hkey hnew
      · rw [Log.keys_append, List.mem_append] at hfree
        exact hfree (.inr hold)

theorem KeyedOnce.commit (h : ProcOk (machine cfg) (conduct cfg) Legal db p)
    (hinv : KeyedOnce db) : KeyedOnce (p.writes ++ db) := by
  constructor
  · intro r m d hd
    rw [Log.keys_append, List.mem_append]
    rcases commit_decision h hd with hold | hins
    · exact .inr (hinv.indexed r m d hold)
    · exact .inl (inserted_key h hins.did).2
  · intro r m r' m' d d' hd hd' horg hhash
    rcases commit_decision h hd with hold | hins <;>
      rcases commit_decision h hd' with hold' | hins'
    · exact hinv.single r m r' m' d d' hold hold' horg hhash
    · have hkey := hinv.indexed r m d hold
      rw [horg, hhash] at hkey
      exact absurd hkey (inserted_key h hins'.did).1
    · have hkey := hinv.indexed r' m' d' hold'
      rw [← horg, ← hhash] at hkey
      exact absurd hkey (inserted_key h hins.did).1
    · have honce : ∀ {d d' : ApprovalDecision} past cur,
          (conduct cfg p.op).before past cur (.write (.insertDecision d)) →
          ¬ Did cur (.insertDecision d') () := by
        intro d d' past cur hb
        obtain ⟨-, -, -, -, -, hnone⟩ := conduct_insertDecision hb
        exact hnone d'
      have hsame := same_update h hins.did hins'.did honce honce
      cases hsame
      rfl

theorem KeyedOnce.outside {rows : Db} (hext : (machine cfg).external db rows)
    (hinv : KeyedOnce db) : KeyedOnce (rows ++ db) := by
  have hdecision : ∀ r m, Db.decision (rows ++ db) r m = Db.decision db r m :=
    fun r m => external_row hext rfl
  constructor
  · intro r m d hd
    rw [hdecision] at hd
    rw [Log.keys_append, List.mem_append]
    exact .inr (hinv.indexed r m d hd)
  · simpa only [hdecision] using hinv.single

theorem recorded_sound {ok : System → SystemAction → Prop} {s₀ : System} :
    recorded.Sound (machine cfg) (conduct cfg) Legal ok s₀ where
  refl _ := trivial
  trans _ _ _ _ _ := trivial
  keep _ _ _ _ hs hc _ hf d hd := decision_later hc hs (hf d hd)
  commit _ _ _ _ _ _ _ hok _ hinv := by
    refine ⟨hinv.commit hok, trivial, fun e he d hd => ?_⟩
    exact Log.row_append_of_row _ (did_insertDecision hok (List.mem_map.mpr ⟨e, he, hd⟩))
  external _ _ _ hext hinv := ⟨hinv.outside hext, trivial⟩

theorem anyOf_only {α : Type} {candidates : List α} {a : α} (hmem : a ∈ candidates)
    (honly : ∀ b ∈ candidates, b = a) : anyOf 0 candidates = some (some a) := by
  cases candidates with
  | nil => exact absurd hmem List.not_mem_nil
  | cons b rest =>
      rw [honly b List.mem_cons_self]
      rfl

/-- The lookup of a decision's key finds that decision. -/
theorem lookup_finds (hinv : KeyedOnce db) {r m : Id} {d : ApprovalDecision}
    (hd : Db.decision db r m = some d) :
    answer cfg 0 db (.findDecisionByKey d.organizationId d.idempotencyKeyHash) = some (some d) := by
  have hmem : d ∈ (db.decisions.filter fun e => e.2.organizationId = d.organizationId ∧
      e.2.idempotencyKeyHash = d.idempotencyKeyHash).map Prod.snd :=
    List.mem_map.mpr ⟨((r, m), d), List.mem_filter.mpr
      ⟨Db.mem_decisions.mpr hd, decide_eq_true ⟨rfl, rfl⟩⟩, rfl⟩
  have honly : ∀ d' ∈ (db.decisions.filter fun e => e.2.organizationId = d.organizationId ∧
      e.2.idempotencyKeyHash = d.idempotencyKeyHash).map Prod.snd, d' = d := by
    intro d' hd'
    obtain ⟨⟨⟨r', m'⟩, x⟩, hx, rfl⟩ := List.mem_map.mp hd'
    obtain ⟨hx, hcond⟩ := List.mem_filter.mp hx
    obtain ⟨horg, hhash⟩ := of_decide_eq_true hcond
    exact hinv.single r' m' r m x d (Db.mem_decisions.mp hx) hd horg hhash
  exact anyOf_only hmem honly

end Keys

section Runs

variable {cfg : Config} {ok : System → SystemAction → Prop} {s₀ s : System}

theorem KeyedOnce.of_clear {db : Db} (h : Clear db) : KeyedOnce db where
  indexed r m d hd := by
    rw [h.decisions] at hd
    cases hd
  single r m r' m' d d' hd := by
    rw [h.decisions] at hd
    cases hd

theorem recorded_respects : recorded.Respects (E := Failure) (R := Response) ok :=
  ⟨fun _ _ _ => trivial, fun _ _ _ _ _ _ _ _ _ => trivial⟩

theorem keyedOnce_run (h₀ : Idle Legal s₀) (hclear : Clear s₀.db) (h : Run (machine cfg) ok s₀ s) :
    KeyedOnce s.db :=
  (recorded_sound.run recorded_respects (discipline cfg) h₀ (.of_clear hclear) h).1

/-- A decision that a call has recorded is there. -/
theorem recorded_run (h₀ : Idle Legal s₀) (hclear : Clear s₀.db) (h : Run (machine cfg) ok s₀ s)
    {i : Nat} {p : Process} (hp : s.procs[i]? = some p) {d : ApprovalDecision}
    (hd : Did p.past (.insertDecision d) ()) :
    Db.decision s.db d.approvalRequestId d.decidedByMembershipId = some d :=
  ((recorded_sound.run recorded_respects (discipline cfg) h₀ (.of_clear hclear) h).2 i p hp).fact
    _ hd d rfl

end Runs

/-- The call is not aborted from outside, whatever else happens. -/
def notKilled (i : Nat) (_ : System) (a : SystemAction) : Prop := ∀ e, a ≠ .kill i e

/-- A call of `decide` in process `i` whose next step is its first keeps its word: when it
throws it has recorded nothing, and when it returns the caller's decision is on record. -/
structure KeepsRecord (cfg : Config) (s : System) (i : Nat) (auth : AuthContext) (id : Id)
    (outcome : ApprovalDecisionOutcome) : Prop where
  throws : ∀ t p e, Run (machine cfg) (notKilled i) s t → t.procs[i]? = some p →
    p.prog = .fail e → NoDecision p.past
  returns : ∀ c s' t p response, Step (machine cfg) s (.exec i c) s' →
    Run (machine cfg) (notKilled i) s' t → t.procs[i]? = some p → p.prog = .ret response →
    OnRecord t.db id auth.membershipId outcome

/-- A decision found under the key on this request is worth one of the caller's own. -/
def KeyIsOwn (cfg : Config) (db : Db) (auth : AuthContext) (id : Id) (key : Option Text)
    (outcome : ApprovalDecisionOutcome) : Prop :=
  ∀ t, normalizedKey key = some t → ∀ r m d, Db.decision db r m = some d →
    d.organizationId = auth.organizationId → d.idempotencyKeyHash = cfg.sha256 (utf8 t) →
    d.approvalRequestId = id → OnRecord db id auth.membershipId outcome

section Call

variable {cfg : Config} {s s' t : System} {i : Nat} {auth : AuthContext} {id : Id}
  {dto : ApprovalDecisionDto} {key : Option Text} {hash : Digest}

theorem engine_read {db : Db} {q : Query} {out : q.Out} {c : Nat}
    (h : answer cfg c db q = some out) :
    (machine cfg).engine (.read q) c db = some (.ok (out, [])) := by
  show (answer cfg c db q).map _ = _
  rw [h]
  rfl

variable (cfg) in
theorem Stands.answerCall {q : Query} {body : Program (Option ApprovalView)} {next} {o : q.Out}
    {c : Nat} (h : Stands s i (answerCall body)) (hbody : body = .stmt (.read q) next)
    (hanswer : answer cfg c s.db q = some o) :
    ∃ s', Step (machine cfg) s (.exec i c) s' ∧ s'.db = s.db ∧
      Stands s' i (BlocTrust.answerCall (next (.ok o))) := by
  subst hbody
  exact Stands.read h (engine_read hanswer)

variable (cfg) in
theorem Stands.answered {body : Program (Option ApprovalView)} {view : ApprovalView}
    (h : Stands s i (BlocTrust.answerCall body)) (hbody : body = .ret (some view)) :
    ∃ s' p, Step (machine cfg) s (.exec i 0) s' ∧ s'.db = s.db ∧ s'.procs[i]? = some p ∧
      p.prog = .ret (.approval view) := by
  subst hbody
  obtain ⟨s', hstep, hdb, p, hp, hq, -⟩ := Stands.commit (M := machine cfg) h
  exact ⟨s', p, hstep, hdb, hp, hq⟩

/-- A call that finds a decision on its request returns, whoever has made that decision. -/
theorem replay_returns_alone {d : ApprovalDecision} {r : ApprovalRequest} {v : Invoice}
    {a : RiskAssessment} (h : Stands s i (lookedUp cfg auth id dto hash (.ok (some d))))
    (hid : d.approvalRequestId = id) (hr : Db.request s.db id = some r)
    (horg : r.organizationId = auth.organizationId) (hv : Db.invoice s.db r.invoiceId = some v)
    (hvorg : v.organizationId = r.organizationId) (ha : Db.risk s.db r.riskAssessmentId = some a) :
    ∃ t p response, Run (machine cfg) (notKilled i) s t ∧ t.db = s.db ∧ t.procs[i]? = some p ∧
      p.prog = .ret response := by
  have hallowed : ∀ (s : System) c, notKilled i s (.exec i c) := fun _ _ _ h => nomatch h
  subst hid
  obtain ⟨s₁, hstep₁, hdb₁, h₁⟩ := Stands.answerCall cfg (c := 0) (o := some r) h rfl (by
    show some (rowWhere _ _) = _
    rw [rowWhere_eq_some.mpr ⟨hr, decide_eq_true horg⟩])
  obtain ⟨s₂, hstep₂, hdb₂, h₂⟩ := Stands.answerCall cfg (c := 0) (o := some v) h₁ rfl (by
    show some (rowWhere _ _) = _
    rw [hdb₁, rowWhere_eq_some.mpr ⟨hv, decide_eq_true hvorg⟩])
  obtain ⟨s₃, hstep₃, hdb₃, h₃⟩ := Stands.answerCall cfg (c := 0) (o := some a) h₂ rfl (by
    show some (Db.risk s₂.db r.riskAssessmentId) = _
    rw [hdb₂, hdb₁, ha])
  obtain ⟨s₄, hstep₄, hdb₄, h₄⟩ := Stands.answerCall cfg (c := 0) h₃ rfl rfl
  obtain ⟨s₅, p, hstep₅, hdb₅, hp, hq⟩ := Stands.answered cfg h₄ (by
    show (require _ _).andThen _ _ = _
    rw [require, if_pos rfl]
    rfl)
  refine ⟨s₅, p, _, ?_, ?_, hp, hq⟩
  · exact .step (.step (.step (.step (.step .refl (hallowed _ _) hstep₁) (hallowed _ _) hstep₂)
      (hallowed _ _) hstep₃) (hallowed _ _) hstep₄) (hallowed _ _) hstep₅
  · rw [hdb₅, hdb₄, hdb₃, hdb₂, hdb₁]

/-- Whatever its key is, a call that throws has recorded nothing. -/
theorem program_wp : (program cfg (.decide auth id dto key)).wp .free (fun _ _ _ => True)
    (fun _ past _ => NoDecision past) [] [] := by
  have hempty : NoDecision [] := fun _ hd => List.not_mem_nil hd
  cases hvalid : normalizedKey key with
  | none =>
      rw [program_invalid hvalid]
      exact hempty
  | some text =>
      have hlookup : ∀ out, NoDecision [⟨.read (.findDecisionByKey auth.organizationId
          (cfg.sha256 (utf8 text))), out⟩] := by
        intro out d hd
        cases List.mem_singleton.mp hd
      rw [program_decide hvalid]
      exact ⟨trivial,
        fun out _ => wp_mono (fun _ _ _ _ => trivial) (fun _ _ _ hR => hR)
          (lookedUp_wp (.ok out) (hlookup out)),
        fun e => wp_mono (fun _ _ _ _ => trivial) (fun _ _ _ hR => hR) (lookedUp_wp (.error e) hempty)⟩

/-- What the first step of a call promises. -/
theorem first_promises {text : Text}
    (hp : s.procs[i]? = some ⟨.decide auth id dto key, .stmt (.read (.findDecisionByKey
      auth.organizationId (cfg.sha256 (utf8 text)))) (lookedUp cfg auth id dto
        (cfg.sha256 (utf8 text))), [], []⟩) {c : Nat} (hs : Step (machine cfg) s (.exec i c) s') :
    Promised (fun (_ : Response) past _ => Decided auth id dto.outcome past ∨ ∃ d r m,
      Db.decision s.db r m = some d ∧ d.organizationId = auth.organizationId ∧
        d.idempotencyKeyHash = cfg.sha256 (utf8 text) ∧ d.approvalRequestId = id)
      (fun _ past _ => NoDecision past) s' i := by
  have hlt := (List.getElem?_eq_some_iff.mp hp).1
  cases hs with
  | answer _ _ p q next out rows hp' hq hrun hfree =>
      cases hp.symm.trans hp'
      cases hq
      intro p' hp''
      rw [Sys.set, List.getElem?_set_self hlt] at hp''
      cases hp''
      have hnone : NoDecision [⟨.read (.findDecisionByKey auth.organizationId
          (cfg.sha256 (utf8 text))), out⟩] := by
        intro d hd
        cases List.mem_singleton.mp hd
      refine wp_mono (fun _ past _ hQ => ?_) (fun _ _ _ hR => hR) (lookedUp_wp (.ok out) hnone)
      obtain ⟨replay, heq, hfresh, hfound⟩ := hQ
      cases heq
      cases out with
      | none => exact .inl (hfresh rfl)
      | some d =>
          obtain ⟨answered, hanswer, hsame⟩ := Option.map_eq_some_iff.mp hrun
          cases hsame
          obtain ⟨⟨⟨r, m⟩, d'⟩, hmem, rfl⟩ := List.mem_map.mp (mem_of_anyOf hanswer)
          obtain ⟨hmem, hcond⟩ := List.mem_filter.mp hmem
          obtain ⟨horg, hhash⟩ := of_decide_eq_true hcond
          exact .inr ⟨d', r, m, Db.mem_decisions.mp hmem, horg, hhash, hfound d' rfl⟩
  | refuse _ _ p q next e hp' hq hrun =>
      cases hp.symm.trans hp'
      cases hq
      intro p' hp''
      rw [Sys.set, List.getElem?_set_self hlt] at hp''
      cases hp''
      exact fun _ hd => List.not_mem_nil hd
  | commit _ _ p next hp' hq =>
      cases hp.symm.trans hp'
      cases hq
  | rollback _ _ p next hp' hq =>
      cases hp.symm.trans hp'
      cases hq

theorem not_notKilled (s : System) (e : Failure) : ¬ notKilled i s (.kill i e) :=
  fun hn => hn e rfl

/-- A call that throws has recorded nothing. -/
theorem throws_undecided (hp : s.procs[i]? = some ⟨.decide auth id dto key,
    program cfg (.decide auth id dto key), [], []⟩) {p : Process} {e : Failure}
    (hrun : Run (machine cfg) (notKilled i) s t) (hp' : t.procs[i]? = some p)
    (hfail : p.prog = .fail e) : NoDecision p.past := by
  have hstart : Promised (fun (_ : Response) _ _ => True) (fun _ past _ => NoDecision past) s i := by
    intro q hq
    cases hp.symm.trans hq
    exact program_wp
  have hlt := (List.getElem?_eq_some_iff.mp hp).1
  have hwp := hrun.promised not_notKilled hlt hstart p hp'
  rw [hfail] at hwp
  exact hwp

/-- A call that keeps its word with a key that is taken finds the caller's decision. -/
theorem keeps_own (hchain : Log.Chain Legal s.db) (hledger : Ledger s.db)
    (hkeyed : KeyedOnce s.db) {text : Text}
    (hp : s.procs[i]? = some ⟨.decide auth id dto key, .stmt (.read (.findDecisionByKey
      auth.organizationId (cfg.sha256 (utf8 text)))) (lookedUp cfg auth id dto
        (cfg.sha256 (utf8 text))), [], []⟩)
    (hkeeps : KeepsRecord cfg s i auth id dto.outcome) {r m : Id} {d : ApprovalDecision}
    (hd : Db.decision s.db r m = some d) (horg : d.organizationId = auth.organizationId)
    (hhash : d.idempotencyKeyHash = cfg.sha256 (utf8 text)) (hid : d.approvalRequestId = id) :
    OnRecord s.db id auth.membershipId dto.outcome := by
  have hkeys := decision_keys hchain hd
  obtain ⟨q, hq, hdorg, -⟩ := hledger.decided r m d hd
  obtain ⟨v, hv, hvorg⟩ := hledger.billed r q hq
  obtain ⟨a, ha, -⟩ := hledger.assessed r q hq
  have hfinds : answer cfg 0 s.db (.findDecisionByKey d.organizationId d.idempotencyKeyHash) =
      some (some d) := lookup_finds hkeyed hd
  rw [horg, hhash] at hfinds
  obtain ⟨s', hstep, hdb, hat⟩ := Stands.read ⟨_, hp, rfl, rfl⟩ (engine_read hfinds)
  rw [← hdb] at hq hv ha
  have hreq : r = id := hkeys.1.symm.trans hid
  obtain ⟨t, p, response, hreturns, hdb', hp', hret⟩ := replay_returns_alone hat hid
    (hreq ▸ hq) (hdorg.symm.trans horg) hv hvorg ha
  have hrecord := hkeeps.returns 0 s' t p response hstep hreturns hp' hret
  rw [hdb', hdb] at hrecord
  exact hrecord

end Call

/-- In every state that a run from a tenant without approvals reaches, a new call of `decide`
keeps its word in all interleavings exactly when its key is free or is the caller's own. -/
theorem decision_on_record (cfg : Config) {ok : System → SystemAction → Prop} {s₀ s : System}
    (h₀ : Idle Legal s₀) (hclear : Clear s₀.db) (h : Run (machine cfg) ok s₀ s) {i : Nat}
    {auth : AuthContext} {id : Id} {dto : ApprovalDecisionDto} {key : Option Text}
    (hp : s.procs[i]? = some ⟨.decide auth id dto key, program cfg (.decide auth id dto key),
      [], []⟩) :
    KeepsRecord cfg s i auth id dto.outcome ↔ KeyIsOwn cfg s.db auth id key dto.outcome := by
  have hkeyed := keyedOnce_run h₀ hclear h
  have hlt := (List.getElem?_eq_some_iff.mp hp).1
  cases hvalid : normalizedKey key with
  | none =>
      refine ⟨fun _ t ht => ?_, fun _ => ⟨fun t p e => throws_undecided hp, fun c s' t p _ hs => ?_⟩⟩
      · rw [hvalid] at ht
        cases ht
      · rw [program_invalid hvalid] at hp
        cases hs with
        | answer _ _ p q next out rows hp' hq => cases hp.symm.trans hp'; cases hq
        | refuse _ _ p q next e hp' hq => cases hp.symm.trans hp'; cases hq
        | commit _ _ p next hp' hq => cases hp.symm.trans hp'; cases hq
        | rollback _ _ p next hp' hq => cases hp.symm.trans hp'; cases hq
  | some text =>
      have hfirst := hp
      rw [program_decide hvalid] at hp
      constructor
      · intro hkeeps text' ht r m d hd horg hhash hid
        rw [hvalid] at ht
        cases ht
        have hledger := ledger_run h₀ (.of_empty hclear.requests hclear.decisions) h
        have hchain := (Run.consistent (discipline cfg) h₀.consistent h).chain
        exact keeps_own hchain hledger hkeyed hp hkeeps hd horg hhash hid
      · intro hown
        refine ⟨fun t p e => throws_undecided hfirst, fun c s' t p response hs hrun hp' hret => ?_⟩
        have hlt' : i < s'.procs.length := hlt.trans_le hs.length_le
        have hpromise := hrun.promised not_notKilled hlt' (first_promises hp hs) p hp'
        rw [hret] at hpromise
        have hall : Run (machine cfg) (fun _ _ => True) s₀ t :=
          (Run.step (h.mono fun _ _ _ => trivial) trivial hs).trans (hrun.mono fun _ _ _ => trivial)
        rcases hpromise with ⟨d, hdid, rfl, hmember, houtcome⟩ | ⟨d, r, m, hd, horg, hhash, hid⟩
        · have hfact := recorded_run h₀ hclear hall hp' hdid
          rw [hmember] at hfact
          exact ⟨d, hfact, houtcome⟩
        · obtain ⟨d', hd', houtcome⟩ := hown text hvalid r m d hd horg hhash hid
          exact ⟨d', decision_later (Run.consistent (discipline cfg) h₀.consistent hall).chain
            (hs.suffix.trans hrun.suffix) hd', houtcome⟩

section Sample

/-- The system with a new call. -/
def withCall (cfg : Config) (s : System) (op : Op) : System :=
  { s with procs := s.procs ++ [⟨op, program cfg op, [], []⟩] }

theorem withCall_new {cfg : Config} {s : System} {op : Op} {i : Nat} (h : s.procs.length = i) :
    (withCall cfg s op).procs[i]? = some ⟨op, program cfg op, [], []⟩ := by
  subst h
  exact List.getElem?_concat_length

/-- Owner `m` decides on the approved request, under the key of its approval. -/
def decideAgain (m : Id) : Op := .decide (sampleAuth m) 0 (sampleDecision .approve) (sampleKey 'b')

/-- The owner who has approved the request calls again. -/
theorem decision_on_record_sample : ∃ s, Run (machine sampleConfig)
    (Account.permitted (fun _ => True) always) sampleStart s ∧
      KeepsRecord sampleConfig (withCall sampleConfig s (decideAgain 2)) 2 (sampleAuth 2) 0
        .approve := by
  obtain ⟨s, hrun, hcheck⟩ := exists_run (M := machine sampleConfig) (s := sampleStart) approvedRun
    (fun s => s.procs.length = 2 && (Db.decision s.db 0 2).any (·.outcome = .approve))
    permitted_always (by decide +kernel)
  obtain ⟨hlength, hdecision⟩ := Bool.and_eq_true_iff.mp hcheck
  obtain ⟨d, hd, houtcome⟩ := (Option.any_eq_true _ _).mp hdecision
  have hcall : Run (machine sampleConfig) (Account.permitted (fun _ => True) always) sampleStart
      (withCall sampleConfig s (decideAgain 2)) :=
    .step hrun (permitted_always _ _ rfl) (.start (decideAgain 2))
  refine ⟨s, hrun, (decision_on_record sampleConfig sampleStart_idle sampleStart_clear hcall
    (withCall_new (of_decide_eq_true hlength))).mpr ?_⟩
  exact fun _ _ _ _ _ _ _ _ _ => ⟨d, hd, of_decide_eq_true houtcome⟩

/-- The process has returned. -/
def hasReturned (p : Process) : Bool :=
  match p.prog with
  | .ret _ => true
  | _ => false

def killsNothing (_ : System) : SystemAction → Bool
  | .kill _ _ => false
  | _ => true

theorem notKilled_of_killsNothing {i : Nat} (s : System) (a : SystemAction)
    (h : killsNothing s a = true) : notKilled i s a := by
  rintro e rfl
  cases h

/-- Another owner uses the key and is told of an approval that is not its own. -/
theorem replayed_by_another : ∃ s, Run (machine sampleConfig)
    (Account.permitted (fun _ => True) always) sampleStart s ∧
      ¬ KeepsRecord sampleConfig (withCall sampleConfig s (decideAgain 3)) 2 (sampleAuth 3) 0
        .approve := by
  obtain ⟨s, hrun, hcheck⟩ := exists_run (M := machine sampleConfig) (s := sampleStart) approvedRun
    (fun s => (step (machine sampleConfig) (withCall sampleConfig s (decideAgain 3)) (.exec 2 0)).any
      fun s' => (perform (machine sampleConfig) killsNothing (execs 2 [0, 0, 0, 0, 0]) s').any
        fun t => (t.procs[2]?).any hasReturned && (Db.decision t.db 0 3).isNone)
    permitted_always (by decide +kernel)
  obtain ⟨s', hstep, hcheck⟩ := (Option.any_eq_true _ _).mp hcheck
  obtain ⟨t, ht, hcheck⟩ := (Option.any_eq_true _ _).mp hcheck
  obtain ⟨hreturned, hnone⟩ := Bool.and_eq_true_iff.mp hcheck
  obtain ⟨p, hp, hret⟩ := (Option.any_eq_true _ _).mp hreturned
  refine ⟨s, hrun, fun hkeeps => ?_⟩
  unfold hasReturned at hret
  split at hret
  · rename_i response hprog
    have hrest := run_of_perform (notKilled_of_killsNothing (i := 2)) ht
    obtain ⟨d, hd, -⟩ := hkeeps.returns 0 s' t p response (step_sound hstep) hrest hp hprog
    have hd : Db.decision t.db 0 3 = some d := hd
    rw [hd] at hnone
    cases hnone
  · cases hret

end Sample
end BlocTrust
