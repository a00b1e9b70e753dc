import BlocTrust.Ingestion
import BlocTrust.Tenant

/-!
The malware gate.
A document is approved only under the fingerprint of bytes that an attempt on it had
scanned with a clean verdict; a blocked one keeps nothing of its content and holds its
invoice for good.
-/
namespace BlocTrust

open ReadCommitted

theorem Uploaded.ingestion {db : Db} (h : Uploaded db) : Ingestion db where
  tracked id d hd := by
    obtain ⟨hstorage, hkey, hsha, -⟩ := h.quarantined id d hd
    obtain ⟨r, hr, horg, hstate⟩ := h.processing id d hd
    obtain ⟨v, hv, horg', hstatus⟩ := h.invoice id d hd
    refine ⟨r, v, hr, hv, horg, horg', ?_, fun _ => hstatus, fun hb => ?_⟩
    · unfold Paired
      rw [hstorage]
      exact ⟨hkey, hsha, .inl hstate⟩
    · rw [hstate] at hb
      cases hb
  owned := h.owned
  single := h.single

/-- An attempt on the document `id` had the bytes with the fingerprint `sha` scanned as clean. -/
def Cleared (cfg : Config) (s : System) (id : Id) (sha : Option Digest) : Prop :=
  ∃ (i : Nat) (p : Process) (job : InvoiceIngestJob) (final : Bool) (bytes : Bytes),
    s.procs[i]? = some p ∧ p.op = .process job final ∧ job.documentId = id ∧
      Called p.past (.scanFile bytes) true ∧ sha = some (cfg.sha256 bytes)

section Gate

variable {cfg : Config} {ok : System → SystemAction → Prop} {s₀ s s' : System}

theorem Cleared.step {a : SystemAction} (hs : Step (machine cfg) s a s') {id : Id}
    {sha : Option Digest} (h : Cleared cfg s id sha) : Cleared cfg s' id sha := by
  obtain ⟨i, p, job, final, bytes, hp, hop, hid, hscan, hsha⟩ := h
  obtain ⟨p', hp', hop', hpast⟩ := hs.past_subset hp
  exact ⟨i, p', job, final, bytes, hp', hop'.trans hop, hid, hpast hscan, hsha⟩

theorem approved_cleared (h₀ : Idle Legal s₀) (huploaded : Uploaded s₀.db)
    (h : Run (machine cfg) ok s₀ s) {id : Id} {d : Document} (hd : Db.document s.db id = some d)
    (hstate : d.storageState = .approved) : Cleared cfg s id d.sha256 := by
  refine h.invariant (I := fun s => ∀ id d, Db.document s.db id = some d →
    d.storageState = .approved → Cleared cfg s id d.sha256) ?_ ?_ id d hd hstate
  · intro id d hd hstate
    rw [(huploaded.quarantined id d hd).1] at hstate
    cases hstate
  · intro s a s' hrun ih _ hs id d hd hstate
    have hcons := Run.consistent (discipline cfg) h₀.consistent hrun
    have hkept : Db.document s.db id = some d → Cleared cfg s' id d.sha256 :=
      fun hold => (ih id d hold hstate).step hs
    cases hs.effect with
    | quiet hdb hprocs => exact hkept (hdb ▸ hd)
    | answered i c p q next out rows hp hq hrun' => exact hkept hd
    | committed i c p next hp hq =>
        have hproc := hcons.proc i p hp
        rcases commit_document hproc hd with ⟨-, hold⟩ | hinserts | ⟨change, old, hch⟩
        · exact hkept hold
        · rw [hinserts.quarantined.1] at hstate
          cases hstate
        · have hresult := hch.result
          obtain ⟨newer, older, rows, base, hcur, -, hbefore⟩ := hch.event
          obtain ⟨job, final, hop, rfl⟩ := hch.op
          rw [hop] at hbefore
          obtain ⟨-, -, -, hready⟩ := hbefore
          cases change with
          | promoted org key sha duplicate =>
              obtain ⟨-, -, -, ⟨bytes, hscan, rfl⟩, -⟩ := hready
              have hcleared : Cleared cfg s job.documentId (some (cfg.sha256 bytes)) :=
                ⟨i, p, job, final, bytes, hp, hop, rfl, hscan, rfl⟩
              have hsha : d.sha256 = some (cfg.sha256 bytes) := by
                rw [hresult]
                rfl
              rw [hsha]
              exact hcleared.step hs
          | blocked org =>
              rw [hresult] at hstate
              cases hstate
    | outside rows hext =>
        have hrow : Db.document (rows ++ s.db) id = Db.document s.db id := external_row hext rfl
        exact hkept (hrow.symm.trans hd)

theorem ingestion_respects : ingestion.Respects (E := Failure) (R := Response) ok :=
  ⟨fun _ _ _ => trivial, fun _ _ _ _ _ _ _ _ _ => trivial⟩

/-- No request is ever made for the invoice of a blocked document. -/
theorem blocked_not_submitted (h₀ : Idle Legal s₀) (huploaded : Uploaded s₀.db)
    (h : Run (machine cfg) ok s₀ s) {a : SystemAction} (hs : Step (machine cfg) s a s') {id : Id}
    {d : Document} (hd : Db.document s.db id = some d) (hstate : d.storageState = .blocked)
    {rid : Id} {r : ApprovalRequest} (hr : Db.request s'.db rid = some r)
    (hi : r.invoiceId = d.invoiceId) : ∃ q, Db.request s.db rid = some q := by
  refine ingestion_sound.each ingestion_respects (discipline cfg) h₀ huploaded.ingestion
    (Q := fun older newer => ∀ id d, Db.document older id = some d → d.storageState = .blocked →
      ∀ rid r, Db.request newer rid = some r → r.invoiceId = d.invoiceId →
        ∃ q, Db.request older rid = some q) ?_ ?_ ?_ h hs id d hd hstate rid r hr hi
  · intro db id d _ _ rid r hr _
    exact ⟨r, hr⟩
  · intro s i p next _ _ hq hok hobs hinv id d hd hstate rid r hr hi
    rcases commit_request_later hok hr with hinserts | ⟨q, hq, -⟩
    · obtain ⟨v, bankId, hch, -⟩ := hinserts.submitted hok hq
      have hold := (hch.reviewed hok (fun e he => (hobs.rel e he).reviewed) rfl).1
      obtain ⟨r', v', hr', hv', ht⟩ := hinv.tracked id d hd
      have hpaired := ht.paired
      unfold Paired at hpaired
      rw [hstate] at hpaired
      have hcommitted := hch.committed
      rw [hi] at hcommitted
      have hsame : v' = v := Option.some.inj (hv'.symm.trans hcommitted)
      rw [← hsame, ht.blocked hpaired.2.2] at hold
      cases hold
    · exact ⟨q, hq⟩
  · intro db rows _ hext _ id d _ _ rid r hr _
    have hrow : Db.request (rows ++ db) rid = Db.request db rid := external_row hext rfl
    exact ⟨r, hrow.symm.trans hr⟩

end Gate

/-- Approval needs a clean verdict on the stored fingerprint, and blocking is for good. -/
theorem malware_gate (cfg : Config) {ok : System → SystemAction → Prop} {s₀ s : System}
    (h₀ : Idle Legal s₀) (huploaded : Uploaded s₀.db) (h : Run (machine cfg) ok s₀ s) :
    (∀ id d, Db.document s.db id = some d → d.storageState = .approved →
      Cleared cfg s id d.sha256) ∧
    ∀ id d, Db.document s.db id = some d → d.storageState = .blocked →
      d.approvedObjectKey = none ∧ d.sha256 = none ∧
      ∃ v, Db.invoice s.db d.invoiceId = some v ∧ v.status = .blocked ∧
        (∀ t, Run (machine cfg) ok s t →
          (∃ d', Db.document t.db id = some d' ∧ d'.storageState = .blocked) ∧
          Db.invoice t.db d.invoiceId = some v ∧
          Db.lines t.db d.invoiceId = Db.lines s.db d.invoiceId) ∧
        ∀ a s', Step (machine cfg) s a s' → ∀ rid r, Db.request s'.db rid = some r →
          r.invoiceId = d.invoiceId → ∃ q, Db.request s.db rid = some q := by
  refine ⟨fun id d hd hstate => approved_cleared h₀ huploaded h hd hstate, fun id d hd hstate => ?_⟩
  have hinv := (ingestion_sound.run ingestion_respects (discipline cfg) h₀ huploaded.ingestion h).1
  obtain ⟨r, v, hr, hv, ht⟩ := hinv.tracked id d hd
  have hpaired := ht.paired
  unfold Paired at hpaired
  rw [hstate] at hpaired
  obtain ⟨hkey, hsha, hblocked⟩ := hpaired
  refine ⟨hkey, hsha, v, hv, ht.blocked hblocked, fun t ht' => ?_, fun a s' hs rid r hr hi =>
    blocked_not_submitted h₀ huploaded h hs hd hstate hr hi⟩
  have hrel : Ingested s.db t.db :=
    ingestion_sound.related ingestion_respects (discipline cfg) h₀ huploaded.ingestion h ht'
  obtain ⟨d', hd', hstate', -⟩ := hrel.storage id d hd (by rw [hstate]; decide)
  exact ⟨⟨d', hd', hstate'.trans hstate⟩, hrel.blocked id d v hd hstate hv⟩

section Sample

/-- The attempt on the sample document that promotes it, and one that finds it infected. -/
def promotedRun : List SystemAction := .start (.process sampleJob true) :: promotion 0 7

def infectedRun : List SystemAction :=
  .start (.process sampleJob true) :: execs 0 (List.replicate 13 0)

/-- A submission that is refused when it has read the document. -/
def refusedSubmission : List SystemAction :=
  .start (.submit (sampleAuth 1) 1 ⟨1⟩ (sampleKey 'a')) :: execs 1 (List.replicate 5 0)

theorem malware_gate_sample :
    (∃ s d, Db.document s.db 1 = some d ∧ d.storageState = .approved ∧
      Cleared sampleConfig s 1 d.sha256) ∧
    ∃ s t d v, Run (machine sampleConfig) (Account.permitted (fun _ => True) always) s t ∧
      Db.document s.db 1 = some d ∧ d.storageState = .blocked ∧ d.approvedObjectKey = none ∧
      Db.invoice s.db 1 = some v ∧ v.status = .blocked ∧ t.procs.length = 2 ∧
      Db.invoice t.db 1 = some v := by
  constructor
  · obtain ⟨s, hrun, hcheck⟩ := exists_run (M := machine sampleConfig) (s := uploadedStart)
      promotedRun (fun s => (Db.document s.db 1).any fun d => d.storageState = .approved)
      permitted_always (by decide +kernel)
    obtain ⟨d, hd, hcheck⟩ := (Option.any_eq_true _ _).mp hcheck
    have hstate : d.storageState = .approved := of_decide_eq_true hcheck
    exact ⟨s, d, hd, hstate, (malware_gate sampleConfig uploadedStart_idle uploadedStart_uploaded
      hrun).1 1 d hd hstate⟩
  · obtain ⟨s, hrun, hcheck⟩ := exists_run (M := machine sampleConfig) (s := uploadedStart)
      infectedRun (fun s => (Db.document s.db 1).any fun d => d.storageState = .blocked ∧
        d.invoiceId = 1 ∧ (perform (machine sampleConfig)
          (Account.screened (fun _ => true) fun _ _ => true) refusedSubmission s).any fun t =>
            t.procs.length = 2) permitted_always (by decide +kernel)
    obtain ⟨d, hd, hcheck⟩ := (Option.any_eq_true _ _).mp hcheck
    obtain ⟨hstate, hinvoice, hcheck⟩ := of_decide_eq_true hcheck
    obtain ⟨t, ht, hlength⟩ := (Option.any_eq_true _ _).mp hcheck
    have hlater := run_of_perform permitted_always ht
    obtain ⟨hkey, -, v, hv, hblocked, hkept, -⟩ := (malware_gate sampleConfig uploadedStart_idle
      uploadedStart_uploaded hrun).2 1 d hd hstate
    rw [hinvoice] at hv
    have hsame := (hkept t hlater).2.1
    rw [hinvoice] at hsame
    exact ⟨s, t, d, v, hlater, hd, hstate, hkey, hv, hblocked, of_decide_eq_true hlength, hsame⟩

end Sample
end BlocTrust
