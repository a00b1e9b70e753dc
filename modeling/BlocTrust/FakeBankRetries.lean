import BlocTrust.FakeBankReplays
import BlocTrust.ReadCommitted.Solo

/-!
Deliveries that are signed anew.
The digest that tells whether an event has been seen before is taken over the timestamp and the
payload.  Deliveries of one payload, one after the other, are duplicates of the first exactly when
they carry its timestamp; with any other the event is refused as reused.
-/
namespace BlocTrust.FakeBank

open ReadCommitted Prog

section Sequences

variable (cfg : Config)

/-- What a call returned, and the database that it left. -/
abbrev Outcome := Except Failure FakeBankResponse × Db

/-- Deliveries one after the other. -/
inductive Deliveries : Db → List Op → List Outcome → Prop
  | nil (db : Db) : Deliveries db [] []
  | cons (op : Op) (ops : List Op) {db db' : Db} {r} {rs : List Outcome}
      (hop : ((machine cfg).program op).Completes engine (fun _ => False) [] db r db')
      (hops : Deliveries db' ops rs) : Deliveries db (op :: ops) ((r, db') :: rs)

/-- The delivery carries the payload, under a timestamp and a signature that are accepted. -/
def Op.Carries (op : Op) (payload : FakeBankPayload) : Prop :=
  ∃ m : Message, op.Delivers m ∧ Accepts cfg m op.now ∧ m.payload = payload

/-- The digest of a delivery. -/
def Op.hash (op : Op) : Text := payloadHash cfg op.payload (op.timestamp.getD [])

def eventKey (payload : FakeBankPayload) : Key :=
  .delivery (uuid payload.organizationId) (uuid payload.eventId)

/-- The account that a payload names is on record. -/
def NamesAccount (payload : FakeBankPayload) (db : Db) : Prop :=
  ∃ a, Log.row (.bankAccount (uuid payload.bankAccountVersionId)) db = some a ∧
    a.organizationId = uuid payload.organizationId ∧ a.vendorId = uuid payload.vendorId

def duplicate : FakeBankResponse := ⟨true, true, false⟩

def reused : Failure := .conflict "FAKE_BANK_EVENT_ID_REUSED"

end Sequences

section Calls

variable {cfg : Config} {w db db' : Db} {Q : FakeBankResponse → Db → Db → Prop}
  {R : Failure → Db → Db → Prop}

/-- A query that is answered in one way. -/
theorem surely_query {q : Query} (out : q.Out) {Q : q.Out → Db → Db → Prop}
    (hanswer : ∀ c, answer c (w ++ db) q = some out) (hQ : Q out w db) :
    (query q).surely engine (fun _ => False) Q R w db :=
  surely_fixed out [] (fun c => by rw [engine, hanswer]; rfl) hQ

/-- One of the newest deliveries can be chosen. -/
theorem exists_previous (organizationId bankAccountVersionId : Text) (view : Db) :
    ∃ c r, engine (.read (.previousStatus organizationId bankAccountVersionId)) c view =
      some r := by
  have hchoice : ∀ ds : List FakeBankWebhookDelivery, ∃ r : Except Failure (_ × Db),
      (latestStatus 0 ds).map (fun out => .ok (out, [])) = some r := by
    intro ds
    unfold latestStatus
    cases hnewest : ds.filter fun d => ds.all fun d' => decide (d'.processedAt ≤ d.processedAt) with
    | nil => exact ⟨_, rfl⟩
    | cons d rest => exact ⟨_, rfl⟩
  exact ⟨0, hchoice _⟩

/-- A delivery that carries the payload is the transaction about its event. -/
theorem program_of_carries {op : Op} {payload : FakeBankPayload} (h : op.Carries cfg payload) :
    ∃ sent, (machine cfg).program op =
      transaction (FakeBank.record payload (op.hash cfg) sent) := by
  obtain ⟨m, hdelivers, haccepts, rfl⟩ := h
  have hhash : op.hash cfg = m.hash cfg := by
    unfold Op.hash Message.hash
    rw [hdelivers.1, hdelivers.2.1]
    rfl
  rw [hhash]
  exact ⟨_, program_of_delivers hdelivers haccepts⟩

/-- An event that is on record is a duplicate under its digest, and reused under any other. -/
theorem record_stored {payload : FakeBankPayload} {hash : Text} {sent : Time}
    {stored : FakeBankWebhookDelivery} (hrow : Log.row (eventKey payload) db = some stored) :
    (transaction (FakeBank.record payload hash sent)).surely engine (fun _ => False)
      (fun a _ db' => a = duplicate ∧ stored.payloadHash = hash ∧ db' = db)
      (fun e _ db' => e = reused ∧ stored.payloadHash ≠ hash ∧ db' = db) [] db := by
  rw [surely_transaction]
  refine (surely_bind _ _).mpr (surely_query (some stored) ?_ ?_)
  · intro c
    exact congrArg some hrow
  · show (replay hash stored).surely _ _ _ _ _ _
    unfold replay
    by_cases hsame : stored.payloadHash = hash
    · rw [if_neg (not_not_intro hsame)]
      exact ⟨⟨rfl, hsame, rfl⟩, fun _ => False.elim⟩
    · rw [if_pos hsame]
      exact ⟨rfl, hsame, rfl⟩

/-- Without the account nothing is recorded. -/
theorem record_unknown {payload : FakeBankPayload} {hash : Text} {sent : Time}
    (hrow : Log.row (eventKey payload) db = none) (haccount : ¬ NamesAccount payload db) :
    (transaction (FakeBank.record payload hash sent)).surely engine (fun _ => False)
      (fun _ _ _ => False) (fun e _ db' => e = .notFound "FAKE_BANK_ACCOUNT_NOT_FOUND" ∧ db' = db)
      [] db := by
  rw [surely_transaction]
  refine (surely_bind _ _).mpr (surely_query none ?_ ?_)
  · intro c
    exact congrArg some hrow
  · show (receive payload hash sent).surely _ _ _ _ _ _
    refine (surely_bind _ _).mpr (surely_query none ?_ ?_)
    · intro c
      have hnone : ((Log.row (.bankAccount (uuid payload.bankAccountVersionId)) db).filter fun a =>
          a.organizationId = uuid payload.organizationId ∧ a.vendorId = uuid payload.vendorId) =
            none := by
        refine Option.filter_eq_none_iff.mpr fun a ha hnamed => haccount ⟨a, ha, ?_⟩
        exact of_decide_eq_true hnamed
      show some (Option.map _ _) = some none
      rw [List.nil_append, hnone]
      rfl
    · exact (surely_bind _ _).mpr ((surely_orThrow _ _).mpr ⟨nofun, fun _ => ⟨rfl, rfl⟩⟩)

/-- The response is that of a first delivery, and the writes record it under this digest. -/
def RecordsUnder (payload : FakeBankPayload) (hash : Text) (a : FakeBankResponse) (w db : Db) :
    Prop :=
  (∃ b, a = ⟨true, false, b⟩) ∧
    ∃ stored, Log.row (eventKey payload) (w ++ db) = some stored ∧ stored.payloadHash = hash

theorem report_records {payload : FakeBankPayload} {hash : Text} (b : Bool)
    {d : FakeBankWebhookDelivery} (hd : d.payloadHash = hash) :
    (report payload b).surely engine (fun _ => False) (RecordsUnder payload hash)
      (fun _ _ _ => False) [⟨eventKey payload, d⟩] db := by
  refine (surely_bind _ _).mpr (surely_answered ?_ ?_ (fun _ => False.elim))
  · obtain ⟨n, hn⟩ := exists_fresh (f := Key.audit) (fun _ _ h => Key.audit.inj h)
      (([⟨eventKey payload, d⟩] : Db) ++ db).keys
    exact ⟨n, _, if_neg hn⟩
  · intro c r hrun
    simp only [engine] at hrun
    split_ifs at hrun
    cases hrun
    refine ⟨(), _, rfl, ⟨b, rfl⟩, d, ?_, hd⟩
    have hne : eventKey payload ≠ Key.audit c := Key.noConfusion
    show Log.row (eventKey payload) (⟨Key.audit c, _⟩ :: ⟨eventKey payload, d⟩ :: db) = _
    rw [Log.row_cons_ne _ _ hne]
    exact Log.row_cons_self (eventKey payload) d db

theorem store_records {payload : FakeBankPayload} {hash : Text} {sent : Time} (b : Bool)
    (hrow : Log.row (eventKey payload) db = none) (haccount : NamesAccount payload db) :
    (store payload hash sent b).surely engine (fun _ => False) (RecordsUnder payload hash)
      (fun _ _ _ => False) [] db := by
  obtain ⟨a, ha, horg, -⟩ := haccount
  have hfresh : Key.delivery (uuid payload.organizationId) (uuid payload.eventId) ∉ db.keys :=
    Log.row_eq_none.mp hrow
  have hrun : ∀ c, engine (.insertDelivery payload.organizationId payload.eventId
      payload.vendorId payload.bankAccountVersionId payload.status hash sent) c db =
        some (.ok ((), [⟨eventKey payload, ⟨uuid payload.vendorId,
          uuid payload.bankAccountVersionId, payload.status, hash, sent, c⟩⟩])) := by
    intro c
    simp only [engine]
    rw [if_neg hfresh, ha, Option.any_some, horg]
    exact if_pos (decide_eq_true rfl)
  refine (surely_bind _ _).mpr (surely_answered ⟨0, _, hrun 0⟩ ?_
    (fun _ => False.elim))
  intro c r hr
  rw [List.nil_append, hrun c] at hr
  cases hr
  exact ⟨(), _, rfl, report_records b rfl⟩

/-- The first delivery is recorded under its digest. -/
theorem record_fresh {payload : FakeBankPayload} {hash : Text} {sent : Time}
    (hrow : Log.row (eventKey payload) db = none) (haccount : NamesAccount payload db) :
    (transaction (FakeBank.record payload hash sent)).surely engine (fun _ => False)
      (fun a _ db' => RecordsUnder payload hash a [] db') (fun _ _ _ => False) [] db := by
  rw [surely_transaction]
  refine surely_mono (Q := RecordsUnder payload hash) (R := fun _ _ _ => False)
    (fun a w db h => ⟨h, fun _ => False.elim⟩) (fun _ _ _ h => h) ?_
  refine (surely_bind _ _).mpr (surely_query none ?_ ?_)
  · intro c
    exact congrArg some hrow
  obtain ⟨a, ha, horg, hvendor⟩ := haccount
  refine (surely_bind _ _).mpr (surely_query (some (uuid payload.bankAccountVersionId)) ?_ ?_)
  · intro c
    show some (Option.map _ (Option.filter _ _)) = _
    rw [List.nil_append, ha]
    simp [Option.filter, horg, hvendor]
  · refine (surely_bind _ _).mpr ((surely_orThrow _ _).mpr ⟨?_, nofun⟩)
    rintro id ⟨⟩
    refine (surely_bind _ _).mpr (surely_answered ?_ ?_ (fun _ => False.elim))
    · exact exists_previous _ _ _
    · intro c r hr
      obtain ⟨out, -, rfl⟩ := Option.map_eq_some_iff.mp hr
      exact ⟨out, [], rfl, store_records _ hrow ⟨a, ha, horg, hvendor⟩⟩

end Calls

section Retries

variable {cfg : Config} {payload : FakeBankPayload} {db : Db} {ops rest : List Op} {first : Op}

/-- The first delivery is recorded, all later ones are duplicates and change nothing, and none of
them is refused as reused. -/
structure Idempotent (cfg : Config) (payload : FakeBankPayload) (db : Db) (ops : List Op) :
    Prop where
  completes : ∃ rs, Deliveries cfg db ops rs
  first : ∀ x rs, Deliveries cfg db ops (x :: rs) →
    (∃ b, x.1 = .ok ⟨true, false, b⟩) ∧ (Log.row (eventKey payload) x.2).isSome = true
  retries : ∀ x rs, Deliveries cfg db ops (x :: rs) → ∀ y ∈ rs, y = (.ok duplicate, x.2)
  reused : ∀ rs, Deliveries cfg db ops rs → ∀ x ∈ rs, x.1 ≠ .error reused

/-- A call about an event that is on record. -/
theorem delivery_stored {op : Op} (h : op.Carries cfg payload) {stored : FakeBankWebhookDelivery}
    (hrow : Log.row (eventKey payload) db = some stored) {r : Except Failure FakeBankResponse}
    {db' : Db} (hop : ((machine cfg).program op).Completes engine (fun _ => False) [] db r db') :
    db' = db ∧ (r = .ok duplicate ∧ stored.payloadHash = op.hash cfg ∨
      r = .error reused ∧ stored.payloadHash ≠ op.hash cfg) := by
  obtain ⟨sent, hprogram⟩ := program_of_carries h
  rw [hprogram] at hop
  refine hop.satisfies (S := fun r db' => db' = db ∧ (r = .ok duplicate ∧
    stored.payloadHash = op.hash cfg ∨ r = .error reused ∧ stored.payloadHash ≠ op.hash cfg)) ?_
  refine surely_mono ?_ ?_ (record_stored hrow)
  · rintro a w db'' ⟨rfl, hsame, rfl⟩
    exact ⟨rfl, .inl ⟨rfl, hsame⟩⟩
  · rintro e w db'' ⟨rfl, hother, rfl⟩
    exact ⟨rfl, .inr ⟨rfl, hother⟩⟩

/-- A delivery of an event that is not on record is recorded, when its account is known. -/
theorem delivery_fresh {op : Op} (h : op.Carries cfg payload)
    (hrow : Log.row (eventKey payload) db = none) {r : Except Failure FakeBankResponse}
    {db' : Db} (hop : ((machine cfg).program op).Completes engine (fun _ => False) [] db r db') :
    (NamesAccount payload db → (∃ b, r = .ok ⟨true, false, b⟩) ∧
      ∃ stored, Log.row (eventKey payload) db' = some stored ∧
        stored.payloadHash = op.hash cfg) ∧
    (¬ NamesAccount payload db → r = .error (.notFound "FAKE_BANK_ACCOUNT_NOT_FOUND")) := by
  obtain ⟨sent, hprogram⟩ := program_of_carries h
  rw [hprogram] at hop
  constructor
  · intro haccount
    refine hop.satisfies (S := fun r db' => (∃ b, r = .ok ⟨true, false, b⟩) ∧
      ∃ stored, Log.row (eventKey payload) db' = some stored ∧ stored.payloadHash = op.hash cfg) ?_
    refine surely_mono ?_ (fun _ _ _ h => h.elim) (record_fresh hrow haccount)
    rintro a w db'' ⟨⟨b, rfl⟩, hstored⟩
    exact ⟨⟨b, rfl⟩, hstored⟩
  · intro hunknown
    refine hop.satisfies (S := fun r _ => r = .error (.notFound "FAKE_BANK_ACCOUNT_NOT_FOUND")) ?_
    refine surely_mono (fun _ _ _ h => h.elim) ?_ (record_unknown hrow hunknown)
    rintro e w db'' ⟨rfl, -⟩
    rfl

theorem deliveries_stored {stored : FakeBankWebhookDelivery}
    (hrow : Log.row (eventKey payload) db = some stored) (h : ∀ op ∈ ops, op.Carries cfg payload)
    {rs : List Outcome} (hops : Deliveries cfg db ops rs) :
    (∀ y ∈ rs, y = (.ok duplicate, db)) ↔ ∀ op ∈ ops, stored.payloadHash = op.hash cfg := by
  induction hops with
  | nil db => simp
  | cons op ops hop hops ih =>
      obtain ⟨rfl, hr⟩ := delivery_stored (h op (.head _)) hrow hop
      rw [List.forall_mem_cons, List.forall_mem_cons,
        ih hrow fun op' hop' => h op' (.tail _ hop')]
      refine and_congr_left fun _ => ?_
      rcases hr with ⟨rfl, hsame⟩ | ⟨rfl, hother⟩
      · simp [hsame]
      · simp [hother]

theorem deliveries_exist {stored : FakeBankWebhookDelivery}
    (hrow : Log.row (eventKey payload) db = some stored) (h : ∀ op ∈ ops, op.Carries cfg payload) :
    ∃ rs, Deliveries cfg db ops rs := by
  induction ops with
  | nil => exact ⟨[], .nil db⟩
  | cons op ops ih =>
      obtain ⟨sent, hprogram⟩ := program_of_carries (h op (.head _))
      obtain ⟨r, db', hop⟩ := exists_completes
        (@record_stored db payload (op.hash cfg) sent stored hrow)
      rw [← hprogram] at hop
      obtain ⟨rfl, -⟩ := delivery_stored (h op (.head _)) hrow hop
      obtain ⟨rs, hrs⟩ := ih fun op' hop' => h op' (.tail _ hop')
      exact ⟨_, .cons op ops hop hrs⟩

/-- Retries are idempotent when the first delivery can be recorded and all have its digest. -/
theorem idempotent_iff_hash (h : ∀ op ∈ first :: rest, op.Carries cfg payload) :
    Idempotent cfg payload db (first :: rest) ↔
      Log.row (eventKey payload) db = none ∧ NamesAccount payload db ∧
        ∀ op ∈ rest, op.hash cfg = first.hash cfg := by
  have hfirst := h first (.head _)
  have hrest : ∀ op ∈ rest, op.Carries cfg payload := fun op hop => h op (.tail _ hop)
  constructor
  · intro hidem
    obtain ⟨rs, hrs⟩ := hidem.completes
    obtain _ | ⟨_, _, hop, hops⟩ := hrs
    rename_i db' r rs
    obtain ⟨⟨b, hr⟩, hstored⟩ := hidem.first _ _ (.cons first rest hop hops)
    replace hr : r = .ok ⟨true, false, b⟩ := hr
    have hnone : Log.row (eventKey payload) db = none := by
      cases hrow : Log.row (eventKey payload) db with
      | none => rfl
      | some stored =>
          obtain ⟨-, ⟨hdup, -⟩ | ⟨hreused, -⟩⟩ := delivery_stored hfirst hrow hop
          · cases hr.symm.trans hdup
          · cases hr.symm.trans hreused
    obtain ⟨hknown, hunknown⟩ := delivery_fresh hfirst hnone hop
    have haccount : NamesAccount payload db := by
      by_contra hno
      cases hr.symm.trans (hunknown hno)
    obtain ⟨-, stored, hrow, hhash⟩ := hknown haccount
    refine ⟨hnone, haccount, fun op hop' => ?_⟩
    have hall := (deliveries_stored hrow hrest hops).mp
      (hidem.retries _ _ (.cons first rest hop hops))
    rw [← hall op hop', hhash]
  · rintro ⟨hnone, haccount, hsame⟩
    have hstep : ∀ {r db'}, ((machine cfg).program first).Completes engine (fun _ => False) [] db
        r db' → (∃ b, r = .ok ⟨true, false, b⟩) ∧ ∃ stored,
          Log.row (eventKey payload) db' = some stored ∧
            ∀ op ∈ rest, stored.payloadHash = op.hash cfg := by
      intro r db' hop
      obtain ⟨hok, stored, hrow, hhash⟩ := (delivery_fresh hfirst hnone hop).1 haccount
      exact ⟨hok, stored, hrow, fun op hop' => hhash.trans (hsame op hop').symm⟩
    have hretries : ∀ x rs, Deliveries cfg db (first :: rest) (x :: rs) →
        ∀ y ∈ rs, y = (.ok duplicate, x.2) := by
      intro x rs hrs
      obtain _ | ⟨_, _, hop, hops⟩ := hrs
      obtain ⟨-, stored, hrow, hall⟩ := hstep hop
      exact (deliveries_stored hrow hrest hops).mpr hall
    constructor
    · obtain ⟨sent, hprogram⟩ := program_of_carries hfirst
      obtain ⟨r, db', hop⟩ := exists_completes
        (@record_fresh db payload (first.hash cfg) sent hnone haccount)
      rw [← hprogram] at hop
      obtain ⟨-, stored, hrow, -⟩ := hstep hop
      obtain ⟨rs, hrs⟩ := deliveries_exist hrow hrest
      exact ⟨_, .cons first rest hop hrs⟩
    · intro x rs hrs
      obtain _ | ⟨_, _, hop, hops⟩ := hrs
      obtain ⟨hok, stored, hrow, -⟩ := hstep hop
      exact ⟨hok, by rw [hrow]; rfl⟩
    · exact hretries
    · intro rs hrs x hx
      obtain _ | ⟨_, _, hop, hops⟩ := id hrs
      rcases List.mem_cons.mp hx with rfl | hx
      · obtain ⟨⟨b, hr⟩, -⟩ := hstep hop
        rw [hr]
        nofun
      · rw [hretries _ _ hrs x hx]
        nofun

/-- Retries are idempotent exactly when they carry the timestamp of the first delivery, provided
that no two of them collide under the hash. -/
theorem retries_idempotent_iff_same_timestamp (cfg : Config) (payload : FakeBankPayload) (db : Db)
    (first : Op) (rest : List Op) (h : ∀ op ∈ first :: rest, op.Carries cfg payload)
    (hsha : ∀ op ∈ rest, op.hash cfg = first.hash cfg → op.timestamp = first.timestamp) :
    Idempotent cfg payload db (first :: rest) ↔
      Log.row (eventKey payload) db = none ∧ NamesAccount payload db ∧
        ∀ op ∈ rest, op.timestamp = first.timestamp := by
  rw [idempotent_iff_hash h]
  refine and_congr_right fun _ => and_congr_right fun _ => ?_
  refine forall_congr' fun op => imp_congr_right fun hop => ⟨hsha op hop, fun hsame => ?_⟩
  obtain ⟨m, hm, -, hpayload⟩ := h op (.tail _ hop)
  obtain ⟨m', hm', -, hpayload'⟩ := h first (.head _)
  unfold Op.hash
  rw [hm.1, hm'.1, hpayload, hpayload', hsame]

end Retries

section Sample

/-- A digest without collisions. -/
def retryConfig : Config where
  secret := some ['k']
  hmac := fun _ _ => ['0', '0']
  sha256 := fun bytes => bytes.map fun b => Char.ofNat b.toNat
  localeCompare := fun a b => compare (a.map Char.toNat) (b.map Char.toNat)

/-- The sample message, signed anew under a timestamp. -/
def signedAt (timestamp : Text) (now : Time) : Op where
  payload := sampleMessage.payload
  timestamp := some timestamp
  signature := some (signFakeBankWebhook retryConfig.hmac retryConfig.localeCompare
    sampleMessage.payload.toJson timestamp ['k'])
  now := now

theorem signedAt_carries {timestamp : Text} {now : Time}
    (h : verifyFakeBankWebhook retryConfig.hmac retryConfig.localeCompare
      sampleMessage.payload.toJson (some timestamp) (signedAt timestamp now).signature ['k'] now
      300 = true) : (signedAt timestamp now).Carries retryConfig sampleMessage.payload :=
  ⟨⟨sampleMessage.payload, timestamp, _⟩, ⟨rfl, rfl, rfl⟩, ⟨['k'], rfl, h⟩, rfl⟩

theorem carried_once : (signedAt "1700000000".toList 1700000100000).Carries retryConfig
    sampleMessage.payload := signedAt_carries rfl

theorem carried_again : (signedAt "1700000000".toList 1700000200000).Carries retryConfig
    sampleMessage.payload := signedAt_carries rfl

theorem carried_anew : (signedAt "1700000400".toList 1700000400000).Carries retryConfig
    sampleMessage.payload := signedAt_carries rfl

/-- A retry within the window, under the same timestamp. -/
theorem same_timestamp_idempotent_iff :
    Idempotent retryConfig sampleMessage.payload sampleStart.db
        [signedAt "1700000000".toList 1700000100000, signedAt "1700000000".toList 1700000200000] ↔
      Log.row (eventKey sampleMessage.payload) sampleStart.db = none ∧
        NamesAccount sampleMessage.payload sampleStart.db ∧
        ∀ op ∈ [signedAt "1700000000".toList 1700000200000],
          op.timestamp = (signedAt "1700000000".toList 1700000100000).timestamp := by
  refine retries_idempotent_iff_same_timestamp retryConfig sampleMessage.payload sampleStart.db
    (signedAt "1700000000".toList 1700000100000) [signedAt "1700000000".toList 1700000200000]
    ?_ ?_
  · exact List.forall_mem_cons.mpr ⟨carried_once, List.forall_mem_singleton.mpr carried_again⟩
  · exact List.forall_mem_singleton.mpr fun _ => rfl

/-- A retry that is signed anew after the window is refused as reused. -/
theorem signed_anew_not_idempotent :
    ¬ Idempotent retryConfig sampleMessage.payload sampleStart.db
      [signedAt "1700000000".toList 1700000100000, signedAt "1700000400".toList 1700000400000] := by
  rw [idempotent_iff_hash (List.forall_mem_cons.mpr
    ⟨carried_once, List.forall_mem_singleton.mpr carried_anew⟩)]
  rintro ⟨-, -, hsame⟩
  have hother : (signedAt "1700000400".toList 1700000400000).hash retryConfig ≠
      (signedAt "1700000000".toList 1700000100000).hash retryConfig := by decide +kernel
  exact hother (hsame _ (.head _))

end Sample

end BlocTrust.FakeBank
