import BlocTrust.Knowledge
import BlocTrust.Tenant

/-!
What is approved is what was assessed.
Every write of an invoice's content or of its lines makes a new version.  Where the approval
of a request is written over the version that the request is for, content and lines are
those of the submission, and the assessment is about their total.
-/
namespace BlocTrust

open ReadCommitted

/-- An approval is written over the version of the invoice that its request is for. -/
def approvesItsVersion : Op → Calls Out → List (Event Val Out) → Log Val → Stmt → Prop
  | _, _, es, db, .write (.updateInvoice i (.decided .approve)) => ∀ v, Db.invoice db i = some v →
      ∀ org id r, Saw (es.map Event.call) (.findRequest org id) (some r) → r.invoiceId = i →
        v.version = r.invoiceVersion
  | _, _, _, _, _ => True

/-- Versions do not go back, and an invoice at the same version has the same lines. -/
def SameLines (older newer : Db) : Prop :=
  ∀ i v, Db.invoice older i = some v → ∃ w, Db.invoice newer i = some w ∧ v.version ≤ w.version ∧
    (w.version = v.version → Db.lines newer i = Db.lines older i)

theorem SameLines.refl (db : Db) : SameLines db db :=
  fun _ v hv => ⟨v, hv, Nat.le_refl _, fun _ => rfl⟩

theorem SameLines.trans {a b c : Db} (h : SameLines a b) (h' : SameLines b c) :
    SameLines a c := by
  intro i v hv
  obtain ⟨w, hw, hle, hlines⟩ := h i v hv
  obtain ⟨u, hu, hle', hlines'⟩ := h' i w hw
  refine ⟨u, hu, hle.trans hle', fun hversion => ?_⟩
  rw [hlines' (by omega), hlines (by omega)]

def contents : Account Val Out Op where
  guard := approvesItsVersion
  rel := SameLines

section Commit

variable {cfg : Config} {db : Db} {p : Process} {i id : Id} {v w : Invoice}

theorem SameLines.commit (h : ProcOk (machine cfg) (conduct cfg) Legal db p) :
    SameLines db (p.writes ++ db) := by
  intro i v hv
  obtain ⟨w, hw, hlater⟩ := commit_later h (k := .invoice i) hv
  have hlater : InvoiceLater v w := hlater
  refine ⟨w, hw, hlater.version, fun hversion => ?_⟩
  rcases commit_lines h with hsame | ⟨auth, dto, e, -, hdid⟩
  · exact hsame
  · obtain ⟨v', w', hch, hw'⟩ := did_updateInvoice h hdid Nat.one_ne_zero
    have hold : v' = v := Option.some.inj (hch.committed.symm.trans hv)
    have hnew : w' = w := Option.some.inj (hw'.symm.trans hw)
    have hbump : w.version = v.version + 1 := by
      rw [← hnew, hch.result, hold]
      rfl
    omega

theorem SameLines.outside {rows : Db} (hext : (machine cfg).external db rows) :
    SameLines db (rows ++ db) := by
  intro i v hv
  have hrow : Db.invoice (rows ++ db) i = Db.invoice db i := external_row hext rfl
  have hlines : Log.row (.lines i) (rows ++ db) = Log.row (.lines i) db := external_row hext rfl
  refine ⟨v, hrow.trans hv, Nat.le_refl _, fun _ => ?_⟩
  rw [Db.lines, Db.lines, hlines]

theorem contents_sound {ok : System → SystemAction → Prop} {s₀ : System} :
    contents.Sound (machine cfg) (conduct cfg) Legal ok s₀ where
  refl := SameLines.refl
  trans _ _ _ := SameLines.trans
  keep _ _ _ _ _ _ _ _ := trivial
  commit _ _ _ _ _ _ _ hok _ _ := ⟨trivial, .commit hok, fun _ _ => trivial⟩
  external _ _ _ hext _ := ⟨trivial, .outside hext⟩

/-- A row of the services changes at the commit of a transaction. -/
theorem changed_by_commit {ok : System → SystemAction → Prop} {s₀ s s' : System} {a : SystemAction}
    (h₀ : Idle Legal s₀) (h : Run (machine cfg) ok s₀ s) (hs : Step (machine cfg) s a s') {k : Key}
    (hk : outside k = false) (hne : Log.row k s'.db ≠ Log.row k s.db) :
    ∃ (j c : Nat) (p : Process) (next : _), a = .exec j c ∧ s.procs[j]? = some p ∧
      p.prog = .commit next ∧ s'.db = p.writes ++ s.db ∧
      ProcOk (machine cfg) (conduct cfg) Legal s.db p := by
  have hcons := Run.consistent (discipline cfg) h₀.consistent h
  cases hs.effect with
  | quiet hdb hprocs => exact absurd (by rw [hdb]) hne
  | answered j c p q next out rows hp hq hrun => exact absurd rfl hne
  | committed j c p next hp hq => exact ⟨j, c, p, next, rfl, hp, hq, rfl, hcons.proc j p hp⟩
  | outside rows hext => exact absurd (external_row hext hk) hne

/-- The decider whose commit approves an invoice has written over its request's version. -/
theorem approved_version (h : ProcOk (machine cfg) (conduct cfg) Legal db p)
    (hobs : contents.Observed db p) {auth : AuthContext} {dto : ApprovalsService.ApprovalDecisionDto}
    {key : Option Text} (hop : p.op = .decide auth id dto key) {r : ApprovalRequest}
    (hr : Db.request db id = some r)
    (hopen : ∀ v, Db.invoice db i = some v → v.status ≠ .approved)
    (hw : Db.invoice (p.writes ++ db) i = some w) (happroved : w.status = .approved) :
    ∃ v, Db.invoice db i = some v ∧ SameContent v w ∧ v.version = r.invoiceVersion ∧
      w.version = v.version := by
  rcases commit_invoice h hw with ⟨-, hold⟩ | hins | ⟨c, v, hch⟩
  · exact absurd happroved (hopen w hold)
  · rw [hins.status] at happroved
    cases happroved
  · have hclosed := hopen v hch.committed
    have hresult := hch.result
    obtain ⟨newer, older, rows, base, hcur, hbase, -, hbefore⟩ := hch.event
    have hguard := hobs.guard newer _ older hcur
    rw [hop] at hbefore
    cases c with
    | decided outcome =>
        obtain ⟨-, r₁, v₁, t, n, hready, hi, -⟩ := hbefore
        have hseen := hready.ready.request
        obtain ⟨-, q, hq, hlater⟩ := saw_request h (calls_subset_of_event hcur hseen)
        obtain ⟨q', hq', hlater'⟩ := commit_later h (k := .request id) hr
        have hlater' : RequestLater r q' := hlater'
        have hsame : q = q' := Option.some.inj (hq.symm.trans hq')
        have hversion : r₁.invoiceVersion = r.invoiceVersion := by
          rw [← hlater.invoiceVersion, hsame, hlater'.invoiceVersion]
        cases outcome with
        | approve =>
            have hbound := hguard v hbase auth.organizationId id r₁ hseen hi.symm
            rw [hresult]
            exact ⟨v, hch.committed, ⟨rfl, rfl, rfl, rfl, rfl, rfl, rfl, rfl, rfl, rfl⟩,
              hbound.trans hversion, rfl⟩
        | reject =>
            rw [hresult] at happroved
            cases happroved
    | returned version =>
        rw [hresult] at happroved
        cases happroved
    | _ => exact hbefore.elim

/-- A submission leaves its invoice at the request's version, with the content that its
assessment is about. -/
theorem submitted_assessed (h : ProcOk (machine cfg) (conduct cfg) Legal db p) {next}
    (hq : p.prog = .commit next) {r : ApprovalRequest} (hins : InsertsRequest db p id r) :
    ∃ v a, Db.invoice (p.writes ++ db) r.invoiceId = some v ∧ v.version = r.invoiceVersion ∧
      Db.risk (p.writes ++ db) r.riskAssessmentId = some a ∧
      a.evaluation.facts.totalAmount = v.totalAmount := by
  obtain ⟨v, bankId, hch, hversion, -, hnew⟩ := hins.submitted h hq
  obtain ⟨auth, dto, w, v', vendorId, bank, a, riskId, version, hash, -, hrisk, hassesses, hr, -,
    hold, hcontent⟩ := hins.read h hq
  have hsame : v' = v := Option.some.inj (hold.symm.trans hch.committed)
  subst hsame
  refine ⟨_, a, hnew, hversion.symm, ?_, hassesses.total.trans hcontent.totalAmount.symm⟩
  rw [hr]
  exact did_insertRisk h hrisk

end Commit

/-- The step from `s` to `s'` commits the submission that makes the request. -/
structure Submitted (cfg : Config) (s s' : System) (id : Id) (r : ApprovalRequest) : Prop where
  step : ∃ a, Step (machine cfg) s a s'
  fresh : Db.request s.db id = none
  request : Db.request s'.db id = some r

/-- The step from `s` to `s'` commits a decision on the request that approves the invoice. -/
structure ApprovedBy (cfg : Config) (s s' : System) (id i : Id) (w : Invoice) : Prop where
  decider : ∃ j n p next auth dto key, Step (machine cfg) s (.exec j n) s' ∧
    s.procs[j]? = some p ∧ p.prog = .commit next ∧ p.op = .decide auth id dto key
  before : ∀ v, Db.invoice s.db i = some v → v.status ≠ .approved
  invoice : Db.invoice s'.db i = some w
  status : w.status = .approved

/-- The invoice is what it was in `s`, and the assessment is about its total. -/
def AsAssessed (s s' : System) (r : ApprovalRequest) (w : Invoice) : Prop :=
  ∃ v a, Db.invoice s.db r.invoiceId = some v ∧ SameContent v w ∧
    Db.lines s'.db r.invoiceId = Db.lines s.db r.invoiceId ∧
    Db.risk s'.db r.riskAssessmentId = some a ∧ a.evaluation.facts.totalAmount = w.totalAmount

/-- In every run whose approvals are written over the version of their request, an invoice is
approved as it was submitted and assessed. -/
theorem approved_as_assessed (cfg : Config) {s₀ a b c d : System} (h₀ : Idle Legal s₀)
    (h : Run (machine cfg) (Account.permitted (fun _ => True) approvesItsVersion) s₀ a) {id : Id}
    {r : ApprovalRequest} (hsubmit : Submitted cfg a b id r)
    (h' : Run (machine cfg) (Account.permitted (fun _ => True) approvesItsVersion) b c)
    {w : Invoice} (happrove : ApprovedBy cfg c d id r.invoiceId w) : AsAssessed b d r w := by
  have hrespects : contents.Respects (E := Failure) (R := Response)
      (Account.permitted (fun _ => True) approvesItsVersion) := contents.respects_permitted
  -- both steps are commits, which the condition does not restrict
  have hcommit : ∀ {s : System} {j n : Nat} {p : Process} {next}, s.procs[j]? = some p →
      p.prog = .commit next →
      Account.permitted (fun _ => True) approvesItsVersion s (.exec j n) := by
    intro s j n p next hp hq p' q' next' hp' hq'
    cases hp.symm.trans hp'
    cases hq.symm.trans hq'
  obtain ⟨x, hstep⟩ := hsubmit.step
  have hne : Log.row (.request id) b.db ≠ Log.row (.request id) a.db := by
    have hb : Log.row (.request id) b.db = some r := hsubmit.request
    have ha : Log.row (.request id) a.db = none := hsubmit.fresh
    rw [hb, ha]
    exact nofun
  obtain ⟨j, n, p, next, rfl, hp, hq, hdb, hok⟩ := changed_by_commit h₀ h hstep rfl hne
  have hb := Run.step h (hcommit hp hq) hstep
  have hr := hsubmit.request
  rw [hdb] at hr
  have hins : InsertsRequest a.db p id r := by
    rcases commit_request hok hr with ⟨-, hold⟩ | hins | ⟨change, q, hch⟩
    · rw [hsubmit.fresh] at hold
      cases hold
    · exact hins
    · have hold := hch.committed
      rw [hsubmit.fresh] at hold
      cases hold
  obtain ⟨v, assessment, hv, hversion, hrisk, htotal⟩ := submitted_assessed hok hq hins
  rw [← hdb] at hv hrisk
  obtain ⟨j', n', p', next', auth, dto, key, hstep', hp', hq', hop⟩ := happrove.decider
  have hc := hb.trans h'
  have hd := Run.step h' (hcommit hp' hq') hstep'
  obtain ⟨-, hobs⟩ := contents_sound.run hrespects (discipline cfg) h₀ trivial hc
  have hcons := Run.consistent (discipline cfg) h₀.consistent hc
  have hok' := hcons.proc j' p' hp'
  have hdb' := hstep'.committed hp' hq'
  have hchain := (Run.consistent (discipline cfg) h₀.consistent (hb.trans hd)).chain
  obtain ⟨q, hq, hlater⟩ := request_later hcons.chain (Run.suffix h') hsubmit.request
  have hnew := happrove.invoice
  rw [hdb'] at hnew
  obtain ⟨u, hu, -, hbound, hkept⟩ := approved_version hok' (hobs j' p' hp') hop hq
    happrove.before hnew happrove.status
  have hsame : w.version = v.version := by
    rw [hkept, hbound, hlater.invoiceVersion, hversion]
  obtain ⟨w', hw', hvw⟩ := invoice_later hchain (Run.suffix hd) hv
  have hcontent : SameContent v w := by
    have heq := Option.some.inj (hw'.symm.trans happrove.invoice)
    exact heq ▸ hvw.content (heq ▸ hsame)
  have hlines : Db.lines d.db r.invoiceId = Db.lines b.db r.invoiceId := by
    obtain ⟨u, hu, -, hlines⟩ := contents_sound.related hrespects (discipline cfg) h₀ trivial hb hd
      r.invoiceId v hv
    have heq := Option.some.inj (hu.symm.trans happrove.invoice)
    exact hlines (heq ▸ hsame)
  exact ⟨v, assessment, hv, hcontent, hlines, risk_later hchain (Run.suffix hd) hrisk,
    htotal.trans hcontent.totalAmount.symm⟩

section Sample

/-- The process is about to commit a decision on the request. -/
def commitsDecision (id : Id) (p : Process) : Bool :=
  match p.prog, p.op with
  | .commit _, .decide _ id' _ _ => id' = id
  | _, _ => false

theorem commitsDecision_spec {id : Id} {p : Process} (h : commitsDecision id p = true) :
    ∃ next auth dto key, p.prog = .commit next ∧ p.op = .decide auth id dto key := by
  unfold commitsDecision at h
  split at h
  · rename_i next auth id' dto key hprog hop
    have hid := of_decide_eq_true h
    subst hid
    exact ⟨next, auth, dto, key, hprog, hop⟩
  · cases h

/-- After the submission by a step from `a` to `b`, the actions `mid` lead to the commit of
process `k` that approves the invoice. -/
def approves (allow : System → SystemAction → Bool) (mid : List SystemAction) (k : Nat) (id : Id)
    (final : System → System → ApprovalRequest → Invoice → Bool) (a b : System) : Bool :=
  (Db.request a.db id).isNone && (Db.request b.db id).any fun r =>
    (perform (machine sampleConfig) allow mid b).any fun c =>
      (c.procs[k]?).any (commitsDecision id) &&
        ((Db.invoice c.db r.invoiceId).all (·.status ≠ .approved) &&
          (step (machine sampleConfig) c (.exec k 0)).any fun d =>
            (Db.invoice d.db r.invoiceId).any fun w =>
              decide (w.status = .approved) && final b d r w)

theorem approves_spec {ok : System → SystemAction → Prop} {allow : System → SystemAction → Bool}
    (hok : ∀ s a, allow s a = true → ok s a) {mid : List SystemAction} {k : Nat} {id : Id}
    {final : System → System → ApprovalRequest → Invoice → Bool} {a b : System} {x : SystemAction}
    (hstep : Step (machine sampleConfig) a x b) (h : approves allow mid k id final a b = true) :
    ∃ c d r w, Submitted sampleConfig a b id r ∧ Run (machine sampleConfig) ok b c ∧
      ApprovedBy sampleConfig c d id r.invoiceId w ∧ final b d r w = true := by
  obtain ⟨hfresh, h⟩ := Bool.and_eq_true_iff.mp h
  obtain ⟨r, hr, h⟩ := (Option.any_eq_true _ _).mp h
  obtain ⟨c, hc, h⟩ := (Option.any_eq_true _ _).mp h
  obtain ⟨hdecider, h⟩ := Bool.and_eq_true_iff.mp h
  obtain ⟨hopen, h⟩ := Bool.and_eq_true_iff.mp h
  obtain ⟨d, hd, h⟩ := (Option.any_eq_true _ _).mp h
  obtain ⟨w, hw, h⟩ := (Option.any_eq_true _ _).mp h
  obtain ⟨hstatus, hfinal⟩ := Bool.and_eq_true_iff.mp h
  obtain ⟨p, hp, hdecides⟩ := (Option.any_eq_true _ _).mp hdecider
  obtain ⟨next, auth, dto, key, hq, hop⟩ := commitsDecision_spec hdecides
  have hbefore : ∀ v, Db.invoice c.db r.invoiceId = some v → v.status ≠ .approved := by
    intro v hv
    rw [hv] at hopen
    exact of_decide_eq_true hopen
  exact ⟨c, d, r, w, ⟨⟨x, hstep⟩, Option.isNone_iff_eq_none.mp hfresh, hr⟩, run_of_perform hok hc,
    ⟨⟨k, 0, p, next, auth, dto, key, step_sound hd, hp, hq, hop⟩, hbefore, hw,
      of_decide_eq_true hstatus⟩, hfinal⟩

/-- A decision that the transaction has read about names the version that is there. -/
def readsVersion (db : Db) (i : Id) : Event Val Out → Bool
  | ⟨.read (.findRequest _ _), some r, _, _⟩ =>
      (Db.invoice db i).all fun v => v.version = r.invoiceVersion
  | _ => true

def approvesRead (s : System) : SystemAction → Bool
  | .exec j _ => (s.procs[j]?).all fun p => match p.prog with
      | .stmt (.write (.updateInvoice i (.decided .approve))) _ =>
          p.current.all (readsVersion s.db i)
      | _ => true
  | _ => true

theorem permitted_of_approvesRead (s : System) (a : SystemAction) (h : approvesRead s a = true) :
    Account.permitted (fun _ => True) approvesItsVersion s a := by
  cases a with
  | exec j n =>
      intro p q next hp hq
      simp only [approvesRead, hp, Option.all_some, hq] at h
      unfold approvesItsVersion
      split
      · intro v hv org id r hsaw _
        obtain ⟨e, he, hcall⟩ := List.mem_map.mp hsaw
        have hread := List.all_eq_true.mp h e he
        obtain ⟨st, out, rows, base⟩ := e
        cases hcall
        simpa [readsVersion, hv] using hread
      · trivial
  | start op => trivial
  | fault i e => trivial
  | kill i e => trivial
  | env rows => trivial

theorem approved_as_assessed_sample : ∃ a b c d r w, Submitted sampleConfig a b 0 r ∧
    ApprovedBy sampleConfig c d 0 r.invoiceId w ∧ AsAssessed b d r w := by
  obtain ⟨a, b, hrun, -, hstep, hcheck⟩ := exists_step (M := machine sampleConfig)
    (s := sampleStart)
    (.start (.submit (sampleAuth 1) 1 ⟨1⟩ (sampleKey 'a')) :: (submission 0).dropLast) (.exec 0 0)
    (approves approvesRead
      (.start (.decide (sampleAuth 2) 0 (sampleDecision .approve) (sampleKey 'b')) ::
        (approval 1).dropLast) 1 0 fun _ _ _ _ => true)
    permitted_of_approvesRead (by decide +kernel)
  obtain ⟨c, d, r, w, hsubmit, hrun', happrove, -⟩ :=
    approves_spec permitted_of_approvesRead hstep hcheck
  exact ⟨a, b, c, d, r, w, hsubmit, happrove,
    approved_as_assessed sampleConfig sampleStart_idle hrun hsubmit hrun' happrove⟩

/-- The sample tenant with a second vendor and its bank account. -/
def twoVendorsDb : Db :=
  ⟨.vendor 2, ⟨1⟩⟩ :: ⟨.bank 2, { sampleBank with vendorId := 2 }⟩ ::
    ⟨.unique (.bankVersion 1 2 1), ()⟩ :: sampleDb

def twoVendorsStart : System := ⟨twoVendorsDb, []⟩

theorem twoVendorsStart_idle : Idle Legal twoVendorsStart := by
  refine idle_of_first (by decide) fun s hs => ?_
  simp only [twoVendorsDb, sampleDb, List.mem_cons, List.not_mem_nil, or_false] at hs
  rcases hs with rfl | rfl | rfl | rfl | rfl | rfl | rfl | rfl | rfl | rfl | rfl | rfl | rfl |
    rfl | rfl | rfl <;> trivial

def decideOn (id version : Nat) (m : Id) (outcome : ApprovalDecisionOutcome) (c : Char) :
    SystemAction :=
  .start (.decide (sampleAuth m) id { sampleDecision outcome with approvalVersion := version }
    (sampleKey c))

def changeBank (vendorId : Id) : SystemAction :=
  .start (.addBankVersion (sampleAuth 3) vendorId ⟨[], none, [], []⟩)

/-- Both bank changes have scanned the pending requests when the first submission is made. -/
def scannedBanks : List SystemAction :=
  changeBank 1 :: execs 0 [0, 0, 11, 0] ++ changeBank 2 :: execs 1 [0, 0, 12, 0] ++
    .start (.submit (sampleAuth 1) 1 ⟨1⟩ (sampleKey 'a')) :: (submission 2).dropLast

/-- Two requests are orphaned by the freezes while their deciders wait, the second after the
invoice has gone to the other vendor; a third is approved, and then the deciders go on. -/
def threeRounds : List SystemAction :=
  decideOn 2 1 2 .approve 'b' :: execs 3 (List.replicate 7 0) ++ execs 0 [0, 0, 50, 0] ++
    .start (.update (sampleAuth 1) 1 { sampleEdit 3 200 with vendorId := .given 2 }) ::
    execs 4 (List.replicate 9 0 ++ [51, 0]) ++
    .start (.submit (sampleAuth 1) 1 ⟨4⟩ (sampleKey 'c')) :: submission 5 ++
    decideOn 5 2 2 .reject 'd' :: execs 6 (List.replicate 7 0) ++ execs 1 [0, 0, 52, 0] ++
    .start (.submit (sampleAuth 1) 1 ⟨6⟩ (sampleKey 'e')) :: submission 7 ++
    decideOn 7 3 2 .approve 'f' ::
    execs 8 (List.replicate 14 0 ++ [81] ++ List.replicate 7 0) ++
    decideOn 7 3 3 .approve 'g' :: approval 9 ++
    execs 6 (List.replicate 9 0 ++ [83] ++ List.replicate 7 0) ++
    execs 3 (List.replicate 10 0 ++ [84] ++ List.replicate 6 0)

theorem approved_unassessed : Idle Legal twoVendorsStart ∧ ∃ a b c d r w,
    Run (machine sampleConfig) (Account.permitted (·.isApi = true) always) twoVendorsStart a ∧
      Submitted sampleConfig a b 2 r ∧
      Run (machine sampleConfig) (Account.permitted (·.isApi = true) always) b c ∧
      ApprovedBy sampleConfig c d 2 r.invoiceId w ∧ ¬ AsAssessed b d r w := by
  obtain ⟨a, b, hrun, -, hstep, hcheck⟩ := exists_step (M := machine sampleConfig)
    (s := twoVendorsStart) scannedBanks (.exec 2 0)
    (approves (Account.screened Op.isApi (fun _ _ => true)) threeRounds 3 2 fun b _ r w =>
      (Db.invoice b.db r.invoiceId).all fun v => v.totalAmount ≠ w.totalAmount)
    (permitted_starts Op.isApi) (by decide +kernel)
  obtain ⟨c, d, r, w, hsubmit, hrun', happrove, hchanged⟩ :=
    approves_spec (permitted_starts Op.isApi) hstep hcheck
  refine ⟨twoVendorsStart_idle, a, b, c, d, r, w, hrun, hsubmit, hrun', happrove, ?_⟩
  rintro ⟨v, assessment, hv, hcontent, -⟩
  rw [hv] at hchanged
  exact of_decide_eq_true hchanged hcontent.totalAmount.symm

end Sample
end BlocTrust
