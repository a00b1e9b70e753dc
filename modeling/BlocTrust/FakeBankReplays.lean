import BlocTrust.FakeBankService
import BlocTrust.ReadCommitted.Rely
import Mathlib.Logic.ExistsUnique

/-!
Deliveries of one message.
As long as no delivery looks its event up while another one has found nothing and has not ended,
the first one records the message and all others answer that it is a duplicate.
-/
namespace BlocTrust.FakeBank

open ReadCommitted Prog

section Messages

structure Message where
  payload : FakeBankPayload
  timestamp : Text
  signature : Text

namespace Message

def event (m : Message) : Text × Text :=
  (uuid m.payload.organizationId, uuid m.payload.eventId)

def key (m : Message) : Key := .delivery m.event.1 m.event.2

def lookup (m : Message) : Query := .findDelivery m.payload.organizationId m.payload.eventId

end Message

/-- A delivery of the message. -/
def Op.Delivers (op : Op) (m : Message) : Prop :=
  op.payload = m.payload ∧ op.timestamp = some m.timestamp ∧ op.signature = some m.signature

variable (cfg : Config) (m : Message)

def Message.hash : Text := payloadHash cfg m.payload m.timestamp

/-- The message is validly signed and arrives within the window. -/
def Accepts (now : Time) : Prop :=
  ∃ secret, cfg.secret.filter (fun secret => !secret.isEmpty) = some secret ∧
    verifyFakeBankWebhook cfg.hmac cfg.localeCompare m.payload.toJson (some m.timestamp)
      (some m.signature) secret now 300 = true

/-- An audit event that reports the event. -/
def Reports (event : Text × Text) (a : AuditEvent) : Prop :=
  a.action = "FAKE_BANK_STATUS_RECEIVED" ∧ a.organizationId = event.1 ∧ a.entityId = event.2

/-- A row that records a delivery of the message. -/
def Message.Stores (d : FakeBankWebhookDelivery) : Prop :=
  d = { vendorId := uuid m.payload.vendorId
        bankAccountVersionId := uuid m.payload.bankAccountVersionId
        status := m.payload.status
        payloadHash := m.hash cfg
        providerTimestamp := providerTimestamp m.timestamp
        processedAt := d.processedAt }

/-- The account is on record, and the event is not. -/
structure Unrecorded (s₀ : System) : Prop where
  procs : s₀.procs = []
  rows : s₀.db.NodupKeys
  account : ∃ a, Log.row (.bankAccount (uuid m.payload.bankAccountVersionId)) s₀.db = some a ∧
    a.organizationId = uuid m.payload.organizationId ∧ a.vendorId = uuid m.payload.vendorId
  fresh : m.key ∉ s₀.db.keys
  unreported : ∀ id a, Log.row (.audit id) s₀.db = some a → ¬ Reports m.event a

/-- Every delivery of the event is one of the message, accepted and not disturbed. -/
def delivers (s : System) : SystemAction → Prop
  | .start op => op.event = m.event → op.Delivers m ∧ Accepts cfg m op.now
  | .fault i _ => ∀ p, s.procs[i]? = some p → p.op.event ≠ m.event
  | .kill i _ => ∀ p, s.procs[i]? = some p → p.op.event ≠ m.event
  | _ => True

/-- The process has looked the event up in vain, in a transaction that has not ended. -/
def Underway (p : Process) : Prop := ⟨Stmt.read m.lookup, none⟩ ∈ p.calls

/-- The process is about to look the event up. -/
def LooksUp (p : Process) : Prop := ∃ next, p.prog = .stmt (Stmt.read m.lookup) next

/-- Moreover, no delivery looks the event up while another one is underway. -/
def separate (s : System) (a : SystemAction) : Prop :=
  delivers cfg m s a ∧ ∀ i c, a = .exec i c → ∀ p, s.procs[i]? = some p → LooksUp m p →
    ∀ q ∈ s.procs, ¬ Underway m q

end Messages

section Programs

variable {α : Type} {s : Stmt}

/-- A transaction after an answer. -/
def resume (f : Out s → Program α) : Except Failure (Out s) → Program α
  | .ok out => transaction (f out)
  | .error e => .rollback (.fail e)

theorem transaction_sql (f : Out s → Program α) :
    transaction (sql s >>= f) = .stmt s (resume f) := by
  refine congrArg (Prog.stmt s) (funext fun r => ?_)
  cases r with
  | ok out => rfl
  | error e => rfl

/-- A row of the event, or of an account. -/
def Concerns (event : Text × Text) : Sigma Val → Prop
  | ⟨.delivery o e, _⟩ => (o, e) = event
  | ⟨.bankAccount _, _⟩ => True
  | ⟨.audit _, a⟩ => Reports event a

/-- A statement that writes no row of the event. -/
def Elsewhere (event : Text × Text) : Stmt → Prop
  | .read _ => True
  | .insertDelivery o e _ _ _ _ _ => (uuid o, uuid e) ≠ event
  | .insertAudit a => ¬ Reports event a

theorem elsewhere_rows {event : Text × Text} (h : Elsewhere event s) {c : Nat} {view rows : Db}
    {out : Out s} (hrun : engine s c view = some (.ok (out, rows))) :
    ∀ r ∈ rows, ¬ Concerns event r := by
  cases s with
  | read q =>
      obtain ⟨o, -, heq⟩ := Option.map_eq_some_iff.mp hrun
      cases heq
      simp
  | insertDelivery o e v b st hash sent =>
      simp only [engine] at hrun
      split at hrun
      · cases hrun
      · split at hrun
        · cases hrun
          intro r hr
          rw [List.mem_singleton] at hr
          subst hr
          exact h
        · cases hrun
  | insertAudit a =>
      simp only [engine] at hrun
      split at hrun
      · cases hrun
      · cases hrun
        intro r hr
        rw [List.mem_singleton] at hr
        subst hr
        exact h

theorem process_elsewhere (cfg : Config) (op : Op) {event : Text × Text} (h : op.event ≠ event) :
    ((machine cfg).program op).Issues (Elsewhere event) := by
  have hreport : ∀ b, (report op.payload b).Issues (Elsewhere event) := by
    intro b
    refine (issues_sql ?_).bind fun _ => trivial
    rintro ⟨-, horg, hevent⟩
    exact h (Prod.ext horg hevent)
  have hstore : ∀ hash sent b, (store op.payload hash sent b).Issues (Elsewhere event) :=
    fun hash sent b => Issues.bind (issues_sql (P := Elsewhere event) h) fun _ => hreport b
  have hreceive : ∀ hash sent, (receive op.payload hash sent).Issues (Elsewhere event) := by
    intro hash sent
    refine (issues_sql trivial).bind fun found => (issues_orThrow _ _).bind fun id => ?_
    exact (issues_sql trivial).bind fun previous => hstore _ _ _
  refine (issues_orThrow _ _).bind fun secret => ?_
  refine Issues.bind ?_ fun _ => ?_
  · unfold require
    split
    · trivial
    · trivial
  refine Issues.transaction ((issues_sql trivial).bind fun stored => ?_)
  cases stored with
  | none => exact hreceive _ _
  | some stored =>
      show (replay _ stored).Issues _
      unfold replay
      split
      · trivial
      · trivial

end Programs

section Stages

variable (cfg : Config) (m : Message)

/-- A delivery that has found nothing, and what it has written. -/
inductive Receiving : Program FakeBankResponse → Db → Prop
  | found : Receiving (transaction
      (receive m.payload (m.hash cfg) (providerTimestamp m.timestamp))) []
  | account (id : Text) : Receiving (transaction
      (compareStatus m.payload (m.hash cfg) (providerTimestamp m.timestamp) id)) []
  | compared (b : Bool) : Receiving (transaction
      (store m.payload (m.hash cfg) (providerTimestamp m.timestamp) b)) []
  | stored (b : Bool) (d : FakeBankWebhookDelivery) (hd : m.Stores cfg d) :
      Receiving (transaction (report m.payload b)) [⟨m.key, d⟩]
  | reported (b : Bool) (d : FakeBankWebhookDelivery) (hd : m.Stores cfg d) (id : Id) :
      Receiving (finish ⟨true, false, b⟩) [⟨.audit id, statusReceived m.payload b⟩, ⟨m.key, d⟩]

inductive Stage
  | ready | underway | recorded | duplicate

def IsRead (c : Sigma Out) : Prop := ∃ q out, c = ⟨Stmt.read q, out⟩

/-- Where a delivery of the message stands. -/
inductive At (p : Process) : Stage → Prop
  | ready (hprog : p.prog = transaction
        (FakeBank.record m.payload (m.hash cfg) (providerTimestamp m.timestamp)))
      (hcurrent : p.current = []) (hpast : p.past = []) : At p .ready
  | underway (h : Receiving cfg m p.prog p.writes) (hseen : Underway m p) : At p .underway
  | recorded (b : Bool) (hprog : p.prog = .ret ⟨true, false, b⟩) : At p .recorded
  | duplicate (hprog : p.prog = finish ⟨true, true, false⟩ ∨ p.prog = .ret ⟨true, true, false⟩)
      (hwrites : p.writes = []) (hpast : ∀ c ∈ p.calls ++ p.past, IsRead c) : At p .duplicate

variable {cfg m} {prog : Program FakeBankResponse} {w db : Db}

/-- The first account of the database is that of the message. -/
def HasAccount (m : Message) (db : Db) : Prop :=
  ∃ a, Log.row (.bankAccount (uuid m.payload.bankAccountVersionId)) db = some a ∧
    a.organizationId = uuid m.payload.organizationId ∧ a.vendorId = uuid m.payload.vendorId

theorem program_of_delivers {op : Op} (h : op.Delivers m) (hnow : Accepts cfg m op.now) :
    (machine cfg).program op = transaction
      (FakeBank.record m.payload (m.hash cfg) (providerTimestamp m.timestamp)) := by
  obtain ⟨hpayload, htimestamp, hsignature⟩ := h
  obtain ⟨secret, hsecret, hverify⟩ := hnow
  show FakeBankService.process cfg op.payload op.timestamp op.signature op.now = _
  unfold FakeBankService.process
  rw [hpayload, htimestamp, hsignature, hsecret]
  show (require _ _ >>= fun _ => _) = _
  rw [require, if_pos hverify]
  rfl

/-- A statement of such a delivery is answered, and leads to the next stage. -/
theorem Receiving.answered (h : Receiving cfg m prog w) (haccount : HasAccount m db)
    (hfresh : m.key ∉ db.keys) {q : Stmt} {next} (hq : prog = .stmt q next) {c : Nat} {r}
    (hrun : engine q c (w ++ db) = some r) :
    ∃ out rows, r = .ok (out, rows) ∧ Receiving cfg m (next (.ok out)) (rows ++ w) := by
  obtain ⟨a, ha, horg, hvendor⟩ := haccount
  cases h with
  | found =>
      have heq := (transaction_sql _).symm.trans hq
      cases heq
      have hfound : answer c ([] ++ db) (.findBankAccount m.payload.bankAccountVersionId
          m.payload.organizationId m.payload.vendorId) =
            some (some (uuid m.payload.bankAccountVersionId)) := by
        simp [answer, ha, horg, hvendor, Option.filter]
      simp only [engine, hfound, Option.map_some] at hrun
      cases hrun
      exact ⟨some _, [], rfl, .account _⟩
  | account id =>
      have heq := (transaction_sql _).symm.trans hq
      cases heq
      obtain ⟨o, -, rfl⟩ := Option.map_eq_some_iff.mp hrun
      exact ⟨o, [], rfl, .compared _⟩
  | compared b =>
      have heq := (transaction_sql _).symm.trans hq
      cases heq
      simp only [engine, List.nil_append, ha] at hrun
      rw [if_neg (show Key.delivery (uuid m.payload.organizationId) (uuid m.payload.eventId) ∉
        db.keys from hfresh)] at hrun
      simp only [Option.any_some, horg, decide_true, if_true] at hrun
      cases hrun
      exact ⟨(), _, rfl, .stored b _ rfl⟩
  | stored b d hd =>
      have heq := (transaction_sql _).symm.trans hq
      cases heq
      simp only [engine] at hrun
      split at hrun
      · cases hrun
      · cases hrun
        exact ⟨(), _, rfl, .reported b d hd c⟩
  | reported b d hd id => cases hq

/-- It waits for an answer, or it has written both rows and commits. -/
theorem Receiving.shape (h : Receiving cfg m prog w) : (∃ q next, prog = .stmt q next) ∨
    ∃ b d id, m.Stores cfg d ∧ prog = finish ⟨true, false, b⟩ ∧
      w = [⟨.audit id, statusReceived m.payload b⟩, ⟨m.key, d⟩] := by
  cases h with
  | found => exact .inl ⟨_, _, transaction_sql _⟩
  | account id => exact .inl ⟨_, _, transaction_sql _⟩
  | compared b => exact .inl ⟨_, _, transaction_sql _⟩
  | stored b d hd => exact .inl ⟨_, _, transaction_sql _⟩
  | reported b d hd id => exact .inr ⟨b, d, id, hd, rfl, rfl⟩

end Stages

section Rows

variable {m : Message} {db rows : Db}

/-- Rows are added under new keys, and none of them is changed. -/
def Inserted : Transition Val := fun _ old _ => old = none

theorem chain_inserted (h : ∀ k ∈ rows.keys, k ∉ db.keys) (hn : rows.NodupKeys)
    (hdb : Log.Chain Inserted db) : Log.Chain Inserted (rows ++ db) := by
  induction rows with
  | nil => exact hdb
  | cons r rows ih =>
      obtain ⟨hr, hn⟩ := List.nodupKeys_cons.mp hn
      have hnew : r.1 ∉ (rows ++ db : Db).keys := by
        rw [Log.keys_append, List.mem_append, not_or]
        exact ⟨hr, h r.1 (List.mem_cons_self ..)⟩
      rw [List.cons_append]
      exact ⟨Log.row_eq_none.mpr hnew, ih (fun k hk => h k (List.mem_cons_of_mem _ hk)) hn⟩

/-- The keys of a legal addition are new. -/
theorem keys_new (h : Log.Chain Inserted (rows ++ db)) : ∀ k ∈ rows.keys, k ∉ db.keys := by
  induction rows with
  | nil => simp
  | cons r rows ih =>
      intro k hk
      rcases List.mem_cons.mp hk with rfl | hk
      · intro hmem
        have hnone : Log.row r.1 (rows ++ db) = none := h.1
        refine Log.row_eq_none.mp hnone ?_
        rw [Log.keys_append]
        exact List.mem_append_right _ hmem
      · exact ih h.2 k hk

theorem engine_legal (q : Stmt) (c : Nat) (view : Db) (out : Out q) (rows : Db)
    (h : engine q c view = some (.ok (out, rows))) (hview : Log.Chain Inserted view) :
    Log.Chain Inserted (rows ++ view) := by
  cases q with
  | read q =>
      obtain ⟨o, -, heq⟩ := Option.map_eq_some_iff.mp h
      cases heq
      exact hview
  | insertDelivery o e v b st hash sent =>
      simp only [engine] at h
      split at h
      · cases h
      · rename_i hnew
        split at h
        · cases h
          exact ⟨Log.row_eq_none.mpr hnew, hview⟩
        · cases h
  | insertAudit a =>
      simp only [engine] at h
      split at h
      · cases h
      · rename_i hnew
        cases h
        exact ⟨Log.row_eq_none.mpr hnew, hview⟩

theorem discipline (cfg : Config) : Discipline (machine cfg) (fun _ => .free) Inserted where
  program _ := wp_unconditional _ _ _
  legal := engine_legal
  answers _ _ _ _ _ _ _ := trivial
  external db rows h hdb :=
    chain_inserted (fun k hk => by
      obtain ⟨r, hr, rfl⟩ := List.mem_map.mp hk
      exact (h.2 r hr).2) h.1 hdb

/-- A row of an extended database is an old one or an added one. -/
theorem row_cases {k : Key} {v : Val k} (h : Log.row k (rows ++ db) = some v) :
    Log.row k db = some v ∨ ⟨k, v⟩ ∈ rows := by
  rw [Log.row_append] at h
  cases hrow : Log.row k rows with
  | none =>
      rw [hrow, Option.none_or] at h
      exact .inl h
  | some u =>
      rw [hrow, Option.some_or] at h
      exact .inr (Log.mem_of_row (hrow.trans h))

theorem row_kept {k : Key} {v : Val k} (hnew : ∀ k ∈ rows.keys, k ∉ db.keys)
    (h : Log.row k db = some v) : Log.row k (rows ++ db) = some v := by
  rw [Log.row_append_of_not_mem _ fun hk => hnew k hk (Log.mem_keys_of_row h), h]

/-- Rows that other services and the deliveries of other events add. -/
structure Unconcerned (m : Message) (db rows : Db) : Prop where
  new : ∀ k ∈ rows.keys, k ∉ db.keys
  delivery : m.key ∉ rows.keys
  audit : ∀ id a, ⟨.audit id, a⟩ ∈ rows → ¬ Reports m.event a

theorem Unconcerned.of_elsewhere (hnew : ∀ k ∈ rows.keys, k ∉ db.keys)
    (h : ∀ r ∈ rows, ¬ Concerns m.event r) : Unconcerned m db rows := by
  refine ⟨hnew, fun hk => ?_, fun id a ha => h _ ha⟩
  obtain ⟨r, hr, heq⟩ := List.mem_map.mp hk
  obtain ⟨k, v⟩ := r
  replace heq : k = m.key := heq
  subst heq
  exact h _ hr rfl

theorem Unconcerned.of_external {cfg : Config} (h : (machine cfg).external db rows) :
    Unconcerned m db rows := by
  refine ⟨fun k hk => ?_, fun hk => ?_, fun id a ha hreports => ?_⟩
  · obtain ⟨r, hr, rfl⟩ := List.mem_map.mp hk
    exact (h.2 r hr).2
  · obtain ⟨r, hr, heq⟩ := List.mem_map.mp hk
    obtain ⟨k, v⟩ := r
    replace heq : k = m.key := heq
    subst heq
    cases (h.2 _ hr).1
  · have hout := (h.2 _ ha).1
    rw [outside, hreports.1] at hout
    cases hout

theorem HasAccount.extend (h : HasAccount m db) (hnew : ∀ k ∈ rows.keys, k ∉ db.keys) :
    HasAccount m (rows ++ db) := by
  obtain ⟨a, ha, hfields⟩ := h
  exact ⟨a, row_kept hnew ha, hfields⟩

/-- Nothing about the event is on record. -/
structure Absent (m : Message) (db : Db) : Prop where
  fresh : m.key ∉ db.keys
  unreported : ∀ id a, Log.row (.audit id) db = some a → ¬ Reports m.event a

/-- The message is recorded and reported once. -/
structure Recorded (cfg : Config) (m : Message) (db : Db) : Prop where
  stored : ∃ d, Log.row m.key db = some d ∧ m.Stores cfg d
  reported : ∃! id, ∃ a, Log.row (.audit id) db = some a ∧ Reports m.event a

theorem Absent.extend (h : Absent m db) (hrows : Unconcerned m db rows) :
    Absent m (rows ++ db) := by
  refine ⟨?_, fun id a ha => ?_⟩
  · rw [Log.keys_append, List.mem_append, not_or]
    exact ⟨hrows.delivery, h.fresh⟩
  · rcases row_cases ha with ha | ha
    · exact h.unreported id a ha
    · exact hrows.audit id a ha

theorem Recorded.extend {cfg : Config} (h : Recorded cfg m db) (hrows : Unconcerned m db rows) :
    Recorded cfg m (rows ++ db) := by
  obtain ⟨d, hd, hstores⟩ := h.stored
  obtain ⟨id, ⟨a, ha, hreports⟩, hunique⟩ := h.reported
  refine ⟨⟨d, row_kept hrows.new hd, hstores⟩, id, ⟨a, row_kept hrows.new ha, hreports⟩, ?_⟩
  rintro id' ⟨a', ha', hreports'⟩
  rcases row_cases ha' with ha' | ha'
  · exact hunique id' ⟨a', ha', hreports'⟩
  · exact absurd hreports' (hrows.audit id' a' ha')

/-- The rows of the first delivery record the message. -/
theorem Absent.record {cfg : Config} (h : Absent m db) {b : Bool} {d : FakeBankWebhookDelivery}
    (hd : m.Stores cfg d) {id : Id} : Recorded cfg m
      ([⟨.audit id, statusReceived m.payload b⟩, ⟨m.key, d⟩] ++ db) := by
  refine ⟨⟨d, ?_, hd⟩, id, ⟨statusReceived m.payload b, ?_, rfl, rfl, rfl⟩, ?_⟩
  · rw [List.cons_append, Log.row_cons_ne _ _ (by rintro ⟨⟩)]
    exact Log.row_cons_self ..
  · rw [List.cons_append]
    exact Log.row_cons_self ..
  · rintro id' ⟨a', ha', hreports'⟩
    rcases row_cases ha' with ha' | ha'
    · exact absurd hreports' (h.unreported id' a' ha')
    · rcases List.mem_cons.mp ha' with heq | hmem
      · cases heq
        rfl
      · have heq := List.mem_singleton.mp hmem
        cases heq

end Rows

section Invariant

variable (cfg : Config) (m : Message)

/-- A delivery of another event. -/
structure Aside (p : Process) : Prop where
  issues : p.prog.Issues (Elsewhere m.event)
  writes : ∀ r ∈ p.writes, ¬ Concerns m.event r

/-- Where a delivery may stand before the message is recorded, and after delivery `k` has recorded
it. -/
def Allowed : Option Nat → Nat → Stage → Prop
  | none, _, stage => stage = .ready ∨ stage = .underway
  | some k, i, stage =>
      (i = k ∧ stage = .recorded) ∨ (i ≠ k ∧ (stage = .ready ∨ stage = .duplicate))

def OnRecord (db : Db) : Option Nat → Prop
  | none => Absent m db
  | some _ => Recorded cfg m db

structure Inv (s : System) (k : Option Nat) : Prop where
  account : HasAccount m s.db
  rows : OnRecord cfg m s.db k
  stage : ∀ (i : Nat) p, s.procs[i]? = some p → p.op.event = m.event →
    ∃ stage, At cfg m p stage ∧ Allowed k i stage
  aside : ∀ (i : Nat) p, s.procs[i]? = some p → p.op.event ≠ m.event → Aside m p
  lone : k = none → ∀ (i j : Nat) p q, s.procs[i]? = some p → s.procs[j]? = some q →
    p.op.event = m.event → q.op.event = m.event → Underway m p → Underway m q → i = j
  first : ∀ i, k = some i → ∃ p, s.procs[i]? = some p ∧ p.op.event = m.event

variable {cfg m} {s s' : System} {k : Option Nat} {i : Nat} {p p' : Process}

theorem not_underway_ready (h : At cfg m p .ready) : ¬ Underway m p := by
  cases h with
  | ready hprog hcurrent hpast =>
      unfold Underway Proc.calls
      rw [hcurrent]
      exact List.not_mem_nil

/-- A process goes on, over the same database. -/
theorem Inv.set (h : Inv cfg m s k) (hp : s.procs[i]? = some p) (hop : p'.op = p.op)
    (hstage : p.op.event = m.event → ∃ stage, At cfg m p' stage ∧ Allowed k i stage ∧
      (stage = .underway → ∀ (j : Nat) q, j ≠ i → s.procs[j]? = some q →
        q.op.event = m.event → ¬ Underway m q))
    (haside : p.op.event ≠ m.event → Aside m p') : Inv cfg m (s.set i p') k where
  account := h.account
  rows := h.rows
  stage j q hq hevent := by
    rcases getElem?_set_cases hq with ⟨rfl, rfl⟩ | ⟨-, hq⟩
    · obtain ⟨stage, hat, hallowed, -⟩ := hstage (hop ▸ hevent)
      exact ⟨stage, hat, hallowed⟩
    · exact h.stage j q hq hevent
  aside j q hq hevent := by
    rcases getElem?_set_cases hq with ⟨rfl, rfl⟩ | ⟨-, hq⟩
    · exact haside (hop ▸ hevent)
    · exact h.aside j q hq hevent
  lone hk j j' q q' hq hq' hevent hevent' hunder hunder' := by
    -- nobody else is underway beside the process that goes on
    have hother : ∀ (l : Nat) u, l ≠ i → s.procs[l]? = some u → u.op.event = m.event →
        p'.op.event = m.event → Underway m p' → ¬ Underway m u := by
      intro l u hl hu hevent hevent' hunder
      obtain ⟨stage, hat, hallowed, halone⟩ := hstage (hop ▸ hevent')
      subst hk
      rcases hallowed with rfl | rfl
      · exact absurd hunder (not_underway_ready hat)
      · exact halone rfl l u hl hu hevent
    rcases getElem?_set_cases hq with ⟨rfl, rfl⟩ | ⟨hj, hold⟩
    · rcases getElem?_set_cases hq' with ⟨rfl, rfl⟩ | ⟨hj', hold'⟩
      · rfl
      · exact absurd hunder' (hother j' q' hj' hold' hevent' hevent hunder)
    · rcases getElem?_set_cases hq' with ⟨rfl, rfl⟩ | ⟨hj', hold'⟩
      · exact absurd hunder (hother j q hj hold hevent hevent' hunder')
      · exact h.lone hk j j' q q' hold hold' hevent hevent' hunder hunder'
  first j hk := by
    obtain ⟨q, hq, hevent⟩ := h.first j hk
    by_cases hij : i = j
    · subst hij
      rw [hp] at hq
      cases hq
      have hlt := (List.getElem?_eq_some_iff.mp hp).1
      exact ⟨p', List.getElem?_set_self hlt, hop ▸ hevent⟩
    · exact ⟨q, by rw [← hq]; exact List.getElem?_set_ne hij, hevent⟩

/-- Rows that do not concern the event are committed. -/
theorem Inv.extend (h : Inv cfg m s k) {rows : Db} (hrows : Unconcerned m s.db rows) :
    Inv cfg m { s with db := rows ++ s.db } k where
  account := h.account.extend hrows.new
  rows := by
    have hold := h.rows
    cases k with
    | none => exact hold.extend hrows
    | some k => exact hold.extend hrows
  stage := h.stage
  aside := h.aside
  lone := h.lone
  first := h.first

/-- A delivery arrives. -/
theorem Inv.push (h : Inv cfg m s k) {op : Op}
    (hop : op.event = m.event → op.Delivers m ∧ Accepts cfg m op.now) :
    Inv cfg m { s with procs := s.procs ++ [⟨op, (machine cfg).program op, [], []⟩] } k where
  account := h.account
  rows := h.rows
  stage i p hp hevent := by
    by_cases hi : i < s.procs.length
    · rw [List.getElem?_append_left hi] at hp
      exact h.stage i p hp hevent
    · rcases getElem?_concat_cases hp with rfl | hold
      · obtain ⟨hdelivers, haccepts⟩ := hop hevent
        refine ⟨.ready, .ready (program_of_delivers hdelivers haccepts) rfl rfl, ?_⟩
        cases k with
        | none => exact .inl rfl
        | some k =>
            refine .inr ⟨?_, .inl rfl⟩
            obtain ⟨q, hq, -⟩ := h.first k rfl
            have hlt := (List.getElem?_eq_some_iff.mp hq).1
            omega
      · exact absurd (List.getElem?_eq_some_iff.mp hold).1 hi
  aside i p hp hevent := by
    rcases getElem?_concat_cases hp with rfl | hp
    · exact ⟨process_elsewhere cfg op hevent, fun r hr => absurd hr List.not_mem_nil⟩
    · exact h.aside i p hp hevent
  lone hk i j p q hp hq hevent hevent' hunder hunder' := by
    rcases getElem?_concat_cases hp with rfl | hp
    · exact absurd hunder List.not_mem_nil
    · rcases getElem?_concat_cases hq with rfl | hq
      · exact absurd hunder' List.not_mem_nil
      · exact h.lone hk i j p q hp hq hevent hevent' hunder hunder'
  first i hk := by
    obtain ⟨p, hp, hevent⟩ := h.first i hk
    have hlt := (List.getElem?_eq_some_iff.mp hp).1
    exact ⟨p, by rw [← hp]; exact List.getElem?_append_left hlt, hevent⟩

/-- The statement of a delivery is answered. -/
theorem At.answered {stage : Stage} {db : Db} (h : At cfg m p stage) (haccount : HasAccount m db)
    (hrows : OnRecord cfg m db k) (hallowed : Allowed k i stage) {q : Stmt} {next}
    (hq : p.prog = .stmt q next) {c : Nat} {r} (hrun : engine q c (p.writes ++ db) = some r) :
    ∃ out rows, r = .ok (out, rows) ∧ ∃ stage',
      At cfg m (p.push (next (.ok out)) ⟨q, out, rows, db⟩) stage' ∧ Allowed k i stage' ∧
      (stage' = .underway → LooksUp m p ∨ Underway m p) := by
  cases h with
  | ready hprog hcurrent hpast =>
      have hwrites : p.writes = [] := by
        unfold Proc.writes
        rw [hcurrent]
        rfl
      have hlooks : LooksUp m p := ⟨_, hprog.trans (transaction_sql _)⟩
      have heq := (transaction_sql _).symm.trans (hprog.symm.trans hq)
      cases heq
      rw [hwrites, List.nil_append] at hrun
      cases k with
      | none =>
          have hnone : Log.row m.key db = none := Log.row_eq_none.mpr hrows.fresh
          have hfound : answer c db m.lookup = some none := congrArg some hnone
          rw [engine, show answer c db _ = some none from hfound] at hrun
          cases hrun
          refine ⟨none, [], rfl, .underway, .underway ?_ (List.mem_cons_self ..), .inr rfl,
            fun _ => .inl hlooks⟩
          show Receiving cfg m _ (([] : Db) ++ p.writes)
          rw [hwrites]
          exact .found
      | some l =>
          obtain ⟨d, hd, hstores⟩ := hrows.stored
          have hfound : answer c db m.lookup = some (some d) := congrArg some hd
          rw [engine, show answer c db _ = some (some d) from hfound] at hrun
          cases hrun
          have hne : i ≠ l := by
            rcases hallowed with ⟨-, hstage⟩ | ⟨hne, -⟩
            · cases hstage
            · exact hne
          refine ⟨some d, [], rfl, .duplicate, .duplicate (.inl ?_) ?_ ?_, .inr ⟨hne, .inr rfl⟩,
            fun hstage => by cases hstage⟩
          · show transaction (replay (m.hash cfg) d) = _
            have hhash : d.payloadHash = m.hash cfg := by rw [hstores]
            have hreplay : FakeBank.replay (m.hash cfg) d = pure ⟨true, true, false⟩ := by
              unfold FakeBank.replay
              exact if_neg (not_not_intro hhash)
            rw [hreplay]
            rfl
          · show ([] : Db) ++ p.writes = []
            rw [hwrites]
            rfl
          · intro e he
            rcases List.mem_append.mp he with he | he
            · unfold Proc.calls Proc.push at he
              rw [hcurrent] at he
              exact ⟨_, _, List.mem_singleton.mp he⟩
            · rw [show (p.push _ _).past = p.past from rfl, hpast] at he
              cases he
  | underway hreceiving hseen =>
      cases k with
      | none =>
          obtain ⟨out, rows, rfl, hnext⟩ := hreceiving.answered haccount hrows.fresh hq hrun
          exact ⟨out, rows, rfl, .underway, .underway hnext (List.mem_cons_of_mem _ hseen),
            .inr rfl, fun _ => .inr hseen⟩
      | some l =>
          rcases hallowed with ⟨-, hstage⟩ | ⟨-, hstage | hstage⟩
          · cases hstage
          · cases hstage
          · cases hstage
  | recorded b hprog => cases hprog.symm.trans hq
  | duplicate hprog hwrites hpast =>
      rcases hprog with hprog | hprog
      · cases hprog.symm.trans hq
      · cases hprog.symm.trans hq

/-- A delivery waits for an answer, commits or has returned: it never rolls back, and has not
failed. -/
theorem At.shape {stage : Stage} (h : At cfg m p stage) : (∃ q next, p.prog = .stmt q next) ∨
    (∃ next, p.prog = .commit next) ∨ ∃ r, p.prog = .ret r := by
  cases h with
  | ready hprog hcurrent hpast => exact .inl ⟨_, _, hprog.trans (transaction_sql _)⟩
  | underway hreceiving hseen =>
      rcases hreceiving.shape with hstmt | ⟨b, d, id, -, hprog, -⟩
      · exact .inl hstmt
      · exact .inr (.inl ⟨_, hprog⟩)
  | recorded b hprog => exact .inr (.inr ⟨_, hprog⟩)
  | duplicate hprog hwrites hpast =>
      rcases hprog with hprog | hprog
      · exact .inr (.inl ⟨_, hprog⟩)
      · exact .inr (.inr ⟨_, hprog⟩)

/-- The commit of a delivery records the message, or changes nothing. -/
theorem Inv.commit (h : Inv cfg m s k) (hp : s.procs[i]? = some p) (hevent : p.op.event = m.event)
    {next} (hq : p.prog = .commit next) :
    ∃ k', Inv cfg m ⟨p.writes ++ s.db, s.procs.set i (p.close (next (.ok ())))⟩ k' := by
  obtain ⟨stage, hat, hallowed⟩ := h.stage i p hp hevent
  cases hat with
  | ready hprog hcurrent hpast => cases (transaction_sql _).symm.trans (hprog.symm.trans hq)
  | recorded b hprog => cases hprog.symm.trans hq
  | duplicate hprog hwrites hpast =>
      rcases hprog with hprog | hprog
      · have hfinish := hprog.symm.trans hq
        cases hfinish
        rw [hwrites]
        refine ⟨k, h.set hp rfl (fun _ => ⟨.duplicate, .duplicate (.inr rfl) rfl ?_, hallowed,
          fun hstage => by cases hstage⟩) fun hne => absurd hevent hne⟩
        exact hpast
      · cases hprog.symm.trans hq
  | underway hreceiving hseen =>
      cases k with
      | some l =>
          rcases hallowed with ⟨-, hstage⟩ | ⟨-, hstage | hstage⟩
          · cases hstage
          · cases hstage
          · cases hstage
      | none =>
          rcases hreceiving.shape with ⟨q, next', hprog⟩ | ⟨b, d, id, hd, hprog, hwrites⟩
          · cases hprog.symm.trans hq
          · have hfinish := hprog.symm.trans hq
            cases hfinish
            have hlt := (List.getElem?_eq_some_iff.mp hp).1
            have hrecorded : Recorded cfg m (p.writes ++ s.db) := by
              rw [hwrites]
              exact Absent.record h.rows hd
            refine ⟨some i, ?_, hrecorded, ?_, ?_, fun hk => (by cases hk), ?_⟩
            · obtain ⟨a, ha, hfields⟩ := h.account
              refine ⟨a, ?_, hfields⟩
              rw [hwrites, List.cons_append, Log.row_cons_ne _ _ (by rintro ⟨⟩), List.cons_append,
                Log.row_cons_ne _ _ (by rintro ⟨⟩)]
              exact ha
            · intro j q hj hevent'
              rcases getElem?_set_cases hj with ⟨rfl, rfl⟩ | ⟨hne, hj⟩
              · exact ⟨.recorded, .recorded b rfl, .inl ⟨rfl, rfl⟩⟩
              · obtain ⟨stage, hat, hallowed'⟩ := h.stage j q hj hevent'
                rcases hallowed' with rfl | rfl
                · exact ⟨.ready, hat, .inr ⟨hne, .inl rfl⟩⟩
                · -- two deliveries would be underway
                  cases hat with
                  | underway hreceiving' hseen' =>
                      exact absurd (h.lone rfl j i q p hj hp hevent' hevent hseen' hseen) hne
            · intro j q hj hevent'
              rcases getElem?_set_cases hj with ⟨rfl, rfl⟩ | ⟨hne, hj⟩
              · exact absurd hevent hevent'
              · exact h.aside j q hj hevent'
            · rintro j hj
              cases hj
              exact ⟨_, List.getElem?_set_self hlt, hevent⟩

theorem Aside.drop {prog : Program FakeBankResponse} (h : prog.Issues (Elsewhere m.event)) :
    Aside m (p.drop prog) :=
  ⟨h, fun _ hr => absurd hr List.not_mem_nil⟩

/-- One step of a run in which the deliveries are kept apart. -/
theorem Inv.step (h : Inv cfg m s k) (hc : Consistent (machine cfg) (fun _ => .free) Inserted s)
    {a : SystemAction} (hok : separate cfg m s a) (hs : Step (machine cfg) s a s') :
    ∃ k', Inv cfg m s' k' := by
  have hdrop : ∀ (j : Nat) (q : Process) prog, s.procs[j]? = some q → q.op.event ≠ m.event →
      prog.Issues (Elsewhere m.event) → ∃ k', Inv cfg m (s.set j (q.drop prog)) k' := by
    intro j q prog hq hevent hissues
    exact ⟨k, h.set hq rfl (fun heq => absurd heq hevent) fun _ => .drop hissues⟩
  cases hs with
  | start op => exact ⟨k, h.push hok.1⟩
  | answer i c p q next out rows hp hq hrun hfree =>
      refine ⟨k, h.set hp rfl (fun hevent => ?_) fun hevent => ?_⟩
      · obtain ⟨stage, hat, hallowed⟩ := h.stage i p hp hevent
        obtain ⟨out', rows', heq, stage', hat', hallowed', hunder⟩ :=
          hat.answered h.account h.rows hallowed hq hrun
        cases heq
        refine ⟨stage', hat', hallowed', fun hstage j u hj hu huevent => ?_⟩
        rcases hunder hstage with hlooks | hseen
        · exact hok.2 i c rfl p hp hlooks u (List.mem_of_getElem? hu)
        · intro hseen'
          cases k with
          | none => exact hj (h.lone rfl j i u p hu hp huevent hevent hseen' hseen)
          | some l =>
              subst hstage
              rcases hallowed' with ⟨-, hstage⟩ | ⟨-, hstage | hstage⟩
              · cases hstage
              · cases hstage
              · cases hstage
      · obtain ⟨hissues, hwrites⟩ := h.aside i p hp hevent
        rw [hq] at hissues
        refine ⟨hissues.2 _, fun r hr => ?_⟩
        rcases List.mem_append.mp hr with hr | hr
        · exact elsewhere_rows hissues.1 hrun r hr
        · exact hwrites r hr
  | refuse i c p q next e hp hq hrun =>
      by_cases hevent : p.op.event = m.event
      · obtain ⟨stage, hat, hallowed⟩ := h.stage i p hp hevent
        obtain ⟨out', rows', heq, -⟩ := hat.answered h.account h.rows hallowed hq hrun
        cases heq
      · have hissues := (h.aside i p hp hevent).issues
        rw [hq] at hissues
        exact hdrop i p _ hp hevent (hissues.2 _)
  | commit i c p next hp hq =>
      by_cases hevent : p.op.event = m.event
      · exact h.commit hp hevent hq
      · obtain ⟨hissues, hwrites⟩ := h.aside i p hp hevent
        rw [hq] at hissues
        have hrows : Unconcerned m s.db p.writes :=
          .of_elsewhere (keys_new (hc.proc i p hp).view) hwrites
        exact ⟨k, (h.extend hrows).set hp rfl (fun heq => absurd heq hevent) fun _ =>
          ⟨hissues _, fun r hr => absurd hr List.not_mem_nil⟩⟩
  | rollback i c p next hp hq =>
      by_cases hevent : p.op.event = m.event
      · obtain ⟨stage, hat, -⟩ := h.stage i p hp hevent
        rcases hat.shape with ⟨q, next', hprog⟩ | ⟨next', hprog⟩ | ⟨r, hprog⟩
        · cases hprog.symm.trans hq
        · cases hprog.symm.trans hq
        · cases hprog.symm.trans hq
      · have hissues := (h.aside i p hp hevent).issues
        rw [hq] at hissues
        exact hdrop i p _ hp hevent hissues
  | fault i p q next e hp hq =>
      have hevent := hok.1 p hp
      have hissues := (h.aside i p hp hevent).issues
      rw [hq] at hissues
      exact hdrop i p _ hp hevent (hissues.2 _)
  | faultCommit i p next e hp hq =>
      have hevent := hok.1 p hp
      have hissues := (h.aside i p hp hevent).issues
      rw [hq] at hissues
      exact hdrop i p _ hp hevent (hissues _)
  | kill i p e hp => exact hdrop i p _ hp (hok.1 p hp) trivial
  | env rows hext hfree => exact ⟨k, h.extend (.of_external hext)⟩

end Invariant

section Runs

variable {cfg : Config} {m : Message} {s₀ s : System}

theorem Inv.start (h : Unrecorded m s₀) : Inv cfg m s₀ none := by
  have hnone : ∀ i : Nat, s₀.procs[i]? = none := by simp [h.procs]
  refine ⟨h.account, ⟨h.fresh, h.unreported⟩, ?_, ?_, ?_, fun i hk => (by cases hk)⟩
  · intro i p hp
    rw [hnone i] at hp
    cases hp
  · intro i p hp
    rw [hnone i] at hp
    cases hp
  · intro _ i j p q hp
    rw [hnone i] at hp
    cases hp

theorem Inv.run (h₀ : Unrecorded m s₀) (hrun : Run (machine cfg) (separate cfg m) s₀ s) :
    ∃ k, Inv cfg m s k := by
  have hidle : Idle Inserted s₀ := ⟨.of_nodup h₀.rows fun _ _ => rfl, h₀.procs⟩
  refine hrun.invariant (I := fun s => ∃ k, Inv cfg m s k) ⟨none, .start h₀⟩ ?_
  rintro u a v hu ⟨k, hk⟩ hok hs
  exact hk.step (hu.consistent (discipline cfg) hidle.consistent) hok hs

/-- Where a delivery stands that has returned. -/
theorem Inv.returned {s : System} {k : Option Nat} (h : Inv cfg m s k) {i : Nat} {p : Process}
    {r : FakeBankResponse} (hp : s.procs[i]? = some p) (hevent : p.op.event = m.event)
    (hprog : p.prog = .ret r) :
    (r = ⟨true, true, false⟩ ∧ (∀ c ∈ p.past, IsRead c) ∧ k ≠ none ∧ k ≠ some i) ∨
      ∃ b, r = ⟨true, false, b⟩ ∧ k = some i := by
  obtain ⟨stage, hat, hallowed⟩ := h.stage i p hp hevent
  cases hat with
  | ready hstart hcurrent hpast => cases (transaction_sql _).symm.trans (hstart.symm.trans hprog)
  | underway hreceiving hseen =>
      rcases hreceiving.shape with ⟨q, next, hstart⟩ | ⟨b, d, id, -, hstart, -⟩
      · cases hstart.symm.trans hprog
      · cases hstart.symm.trans hprog
  | recorded b hdone =>
      cases hdone.symm.trans hprog
      cases k with
      | none => rcases hallowed with hstage | hstage <;> cases hstage
      | some l =>
          rcases hallowed with ⟨rfl, -⟩ | ⟨-, hstage | hstage⟩
          · exact .inr ⟨b, rfl, rfl⟩
          · cases hstage
          · cases hstage
  | duplicate hdone hwrites hpast =>
      rcases hdone with hdone | hdone
      · cases hdone.symm.trans hprog
      · cases hdone.symm.trans hprog
        cases k with
        | none => rcases hallowed with hstage | hstage <;> cases hstage
        | some l =>
            rcases hallowed with ⟨-, hstage⟩ | ⟨hne, -⟩
            · cases hstage
            · refine .inl ⟨rfl, fun c hc => hpast c (List.mem_append_right _ hc),
                Option.some_ne_none l, fun heq => ?_⟩
              exact hne (Option.some.inj heq).symm

/-- No delivery fails; one that has returned answers that it is a duplicate and has only read, or
it is the one that has recorded the message, of which there is exactly one. -/
theorem replays_are_noops (h₀ : Unrecorded m s₀)
    (hrun : Run (machine cfg) (separate cfg m) s₀ s) :
    (∀ (i : Nat) p, s.procs[i]? = some p → p.op.event = m.event →
      (∀ e, p.prog ≠ .fail e) ∧ ∀ r, p.prog = .ret r →
        (r = ⟨true, true, false⟩ ∧ ∀ c ∈ p.past, IsRead c) ∨ ∃ b, r = ⟨true, false, b⟩) ∧
    ((∃ (i : Nat) (p : Process) (r : FakeBankResponse), s.procs[i]? = some p ∧
        p.op.event = m.event ∧ p.prog = .ret r) →
      (∃ d, Log.row m.key s.db = some d ∧ m.Stores cfg d) ∧
      (∃! id, ∃ a, Log.row (.audit id) s.db = some a ∧ Reports m.event a) ∧
      ∃! i : Nat, ∃ (p : Process) (b : Bool), s.procs[i]? = some p ∧ p.op.event = m.event ∧
        p.prog = .ret ⟨true, false, b⟩) := by
  obtain ⟨k, h⟩ := Inv.run h₀ hrun
  refine ⟨fun i p hp hevent => ⟨?_, fun r hprog => ?_⟩, ?_⟩
  · intro e hfail
    obtain ⟨stage, hat, -⟩ := h.stage i p hp hevent
    rcases hat.shape with ⟨q, next, hprog⟩ | ⟨next, hprog⟩ | ⟨r, hprog⟩
    · cases hprog.symm.trans hfail
    · cases hprog.symm.trans hfail
    · cases hprog.symm.trans hfail
  · rcases h.returned hp hevent hprog with ⟨hr, hreads, -⟩ | ⟨b, hr, -⟩
    · exact .inl ⟨hr, hreads⟩
    · exact .inr ⟨b, hr⟩
  · rintro ⟨i, p, r, hp, hevent, hprog⟩
    have hsome : ∃ l, k = some l := by
      rcases h.returned hp hevent hprog with ⟨-, -, hk, -⟩ | ⟨b, -, hk⟩
      · exact Option.ne_none_iff_exists'.mp hk
      · exact ⟨i, hk⟩
    obtain ⟨l, rfl⟩ := hsome
    refine ⟨h.rows.stored, h.rows.reported, l, ?_, ?_⟩
    · obtain ⟨q, hq, hqevent⟩ := h.first l rfl
      obtain ⟨stage, hat, hallowed⟩ := h.stage l q hq hqevent
      rcases hallowed with ⟨-, rfl⟩ | ⟨hne, -⟩
      · cases hat with
        | recorded b hdone => exact ⟨q, b, hq, hqevent, hdone⟩
      · exact absurd rfl hne
    · rintro j ⟨q, b, hq, hqevent, hdone⟩
      rcases h.returned hq hqevent hdone with ⟨heq, -⟩ | ⟨-, -, hk⟩
      · cases heq
      · exact (Option.some.inj hk).symm

end Runs

section Sample

def sampleConfig : Config where
  secret := some ['k']
  hmac := fun _ _ => ['0', '0']
  sha256 := fun _ => ['1', '1']
  localeCompare := fun a b => compare (a.map Char.toNat) (b.map Char.toNat)

def sampleMessage : Message where
  payload :=
    { eventId := ['e']
      organizationId := ['o']
      vendorId := ['v']
      bankAccountVersionId := ['b']
      status := .verified }
  timestamp := "1700000000".toList
  signature := "sha256=00".toList

def sampleDelivery : Op where
  payload := sampleMessage.payload
  timestamp := some sampleMessage.timestamp
  signature := some sampleMessage.signature
  now := 1700000100000

def sampleStart : System := ⟨[⟨.bankAccount ['b'], ⟨['o'], ['v']⟩⟩], []⟩

theorem sampleStart_unrecorded : Unrecorded sampleMessage sampleStart where
  procs := rfl
  rows := by simp [sampleStart, List.NodupKeys, List.keys]
  account := ⟨⟨['o'], ['v']⟩, rfl, rfl, rfl⟩
  fresh := by decide
  unreported id a ha := by
    have hnone : Log.row (.audit id) sampleStart.db = none :=
      Log.row_eq_none.mpr (by simp [sampleStart, List.keys])
    rw [hnone] at ha
    cases ha

theorem sampleDelivery_accepted : Accepts sampleConfig sampleMessage sampleDelivery.now :=
  ⟨['k'], rfl, by decide +kernel⟩

/-- Deliveries of the message only. -/
def onlySample (_ : System) : SystemAction → Bool
  | .start op => op = sampleDelivery
  | .exec _ _ => true
  | _ => false

theorem delivers_of_onlySample (s : System) (a : SystemAction) (h : onlySample s a = true) :
    delivers sampleConfig sampleMessage s a := by
  cases a with
  | start op =>
      intro _
      have hop : op = sampleDelivery := of_decide_eq_true h
      rw [hop]
      exact ⟨⟨rfl, rfl, rfl⟩, sampleDelivery_accepted⟩
  | exec i c => trivial
  | fault i e => cases h
  | kill i e => cases h
  | env rows => cases h

def looksUp : Program FakeBankResponse → Bool
  | .stmt (.read (.findDelivery _ _)) _ => true
  | _ => false

/-- Moreover, a lookup waits until no transaction is open. -/
def oneByOne (s : System) (a : SystemAction) : Bool :=
  onlySample s a && match a with
    | .exec i _ =>
        (s.procs[i]?.all fun p => !looksUp p.prog) || s.procs.all fun q => q.current.isEmpty
    | _ => true

theorem separate_of_oneByOne (s : System) (a : SystemAction) (h : oneByOne s a = true) :
    separate sampleConfig sampleMessage s a := by
  obtain ⟨honly, hwaits⟩ := Bool.and_eq_true_iff.mp h
  refine ⟨delivers_of_onlySample s a honly, ?_⟩
  rintro i c rfl p hp ⟨next, hprog⟩ q hq hunder
  rcases Bool.or_eq_true_iff.mp hwaits with hidle | hidle
  · rw [hp, Option.all_some, hprog] at hidle
    cases hidle
  · have hnil : q.current = [] := List.isEmpty_iff.mp (List.all_eq_true.mp hidle q hq)
    unfold Underway Proc.calls at hunder
    rw [hnil] at hunder
    cases hunder

theorem exists_ret {prog : Program FakeBankResponse} (h : prog.returned = true) :
    ∃ r, prog = .ret r := by
  cases prog with
  | ret r => exact ⟨r, rfl⟩
  | _ => cases h

theorem exists_fail {prog : Program FakeBankResponse} (h : prog.finished = true)
    (hreturned : (!prog.returned) = true) : ∃ e, prog = .fail e := by
  cases prog with
  | fail e => exact ⟨e, rfl⟩
  | ret r => cases hreturned
  | _ => cases h

/-- Two deliveries, one after the other. -/
theorem replays_are_noops_sample : ∃ s : System, s.procs.length = 2 ∧
    (∀ p ∈ s.procs, p.op.event = sampleMessage.event ∧ p.prog.returned = true) ∧
    ∃! i : Nat, ∃ (p : Process) (b : Bool), s.procs[i]? = some p ∧
      p.op.event = sampleMessage.event ∧ p.prog = .ret ⟨true, false, b⟩ := by
  obtain ⟨s, hrun, hcheck⟩ := exists_run (M := machine sampleConfig) (s := sampleStart)
    (.start sampleDelivery :: .start sampleDelivery ::
      [0, 0, 0, 0, 0, 0, 1, 1].map fun i => .exec i 0)
    (fun s => decide (s.procs.length = 2) && s.procs.all fun p =>
      decide (p.op.event = sampleMessage.event) && p.prog.returned)
    separate_of_oneByOne (by decide +kernel)
  obtain ⟨hlength, hall⟩ := Bool.and_eq_true_iff.mp hcheck
  have hreturned : ∀ p ∈ s.procs, p.op.event = sampleMessage.event ∧ p.prog.returned = true := by
    intro p hp
    obtain ⟨hevent, hprog⟩ := Bool.and_eq_true_iff.mp (List.all_eq_true.mp hall p hp)
    exact ⟨of_decide_eq_true hevent, hprog⟩
  replace hlength : s.procs.length = 2 := of_decide_eq_true hlength
  have hfirst : s.procs[0]? = some s.procs[0] := List.getElem?_eq_getElem (by omega)
  obtain ⟨hevent, hprog⟩ := hreturned _ (List.mem_of_getElem? hfirst)
  obtain ⟨r, hr⟩ := exists_ret hprog
  exact ⟨s, hlength, hreturned,
    ((replays_are_noops sampleStart_unrecorded hrun).2 ⟨0, _, r, hfirst, hevent, hr⟩).2.2⟩

/-- Two deliveries that have both looked the event up: the second one finds it taken. -/
theorem replays_collide : ¬ ∀ (cfg : Config) (m : Message) (s₀ s : System), Unrecorded m s₀ →
    Run (machine cfg) (delivers cfg m) s₀ s → ∀ (i : Nat) p, s.procs[i]? = some p →
      p.op.event = m.event → ∀ e, p.prog ≠ .fail e := by
  intro h
  obtain ⟨s, hrun, hcheck⟩ := exists_run (M := machine sampleConfig) (s := sampleStart)
    (.start sampleDelivery :: .start sampleDelivery ::
      [0, 1, 0, 0, 0, 0, 0, 1, 1, 1, 1].map fun i => .exec i 0)
    (fun s => s.procs[1]?.any fun p => decide (p.op.event = sampleMessage.event) &&
      p.prog.finished && !p.prog.returned)
    delivers_of_onlySample (by decide +kernel)
  obtain ⟨p, hp, hstands⟩ := (Option.any_eq_true _ _).mp hcheck
  obtain ⟨hboth, hnot⟩ := Bool.and_eq_true_iff.mp hstands
  obtain ⟨hevent, hfinished⟩ := Bool.and_eq_true_iff.mp hboth
  obtain ⟨e, he⟩ := exists_fail hfinished hnot
  exact h _ _ _ s sampleStart_unrecorded hrun 1 p hp (of_decide_eq_true hevent) e he

end Sample

end BlocTrust.FakeBank
