import BlocTrust.Quarantine

/-!
Where approved objects come from.
Only an attempt puts an object into the approved bucket, and only after the scanner has called the
very bytes of it clean.  The key of an approved document was drawn by an attempt on that document,
so what lies under it are bytes that were scanned for this document: no hash has to be free of
collisions for that.
-/
namespace BlocTrust

open ReadCommitted Prog

section Attempts

/-- What reaches the approved bucket was scanned before. -/
def scanned : Conduct Out where
  before past _
    | .call (.putObject .approved _ bytes) => Called past (.scanFile bytes) true
    | _ => True
  due _ _ := True
  answers _ _ := True

def scannedConduct : Op → Conduct Out
  | .process _ _ => scanned
  | _ => .free

/-- Everything but a put into the approved bucket. -/
def unapproving : Stmt → Prop
  | .call (.putObject .approved _ _) => False
  | _ => True

/-- A program that keeps to it, after calls of which the committed ones are `past`. -/
def Scans {α : Type} (p : Program α) (past cur : Calls Out) : Prop :=
  p.wp scanned (fun _ _ _ => True) (fun _ _ _ => True) past cur

variable {α β : Type} {job : InvoiceIngestJob} {cfg : Config} {d : Document} {past cur : Calls Out}
  {p : Program α}

theorem Scans.bind {f : α → Program β} (h : Scans p past cur)
    (hf : ∀ a past cur, Scans (f a) past cur) : Scans (p >>= f) past cur := by
  rw [Scans, wp_bind]
  exact wp_mono (fun a past cur _ => hf a past cur) (fun _ _ _ _ => trivial) h

theorem unapproving_before {s : Stmt} (h : unapproving s) (past cur : Calls Out) :
    scanned.before past cur s := by
  unfold unapproving at h
  unfold scanned
  split at h
  · exact h.elim
  · simp only

theorem unapproving_scans (h : p.Issues unapproving) : Scans p past cur := by
  induction p generalizing past cur with
  | ret a => trivial
  | fail e => trivial
  | stmt s next ih =>
      exact ⟨unapproving_before h.1 past cur, fun out _ => ih _ (h.2 _), fun e => ih _ (h.2 _)⟩
  | commit next ih => exact ⟨trivial, ih _ (h _), fun e => ih _ (h _)⟩
  | rollback next ih => exact ih h

/-- A call, and what follows once it has been made. -/
theorem called_scans {c : External} {f : c.Out → Program β} (h : scanned.before past cur (.call c))
    (hf : ∀ out, Scans (f out) (⟨.call c, out⟩ :: cur ++ past) []) :
    Scans (external c >>= f) past cur := by
  rw [Scans, wp_bind]
  exact (wp_auto (Stmt.call c)).mpr ⟨h, fun out _ => ⟨trivial, hf out, fun _ => trivial⟩,
    fun _ => trivial⟩

/-- The copy is made of the bytes that were scanned. -/
theorem scanAndPromote_scans : Scans (InvoicePipeline.scanAndPromote job cfg d) past cur := by
  rw [InvoicePipeline.scanAndPromote]
  refine (unapproving_scans (updateProcessing_issues trivial)).bind fun _ past cur => ?_
  refine called_scans trivial fun bytes => ?_
  refine called_scans trivial fun clean => ?_
  rw [Scans, wp_ite]
  refine ⟨fun _ => ?_, fun hclean => ?_⟩
  · exact (unapproving_scans (block_issues trivial trivial trivial fun _ => trivial)).bind
      fun _ _ _ => trivial
  · refine called_scans trivial fun key => ?_
    have htrue : clean = true := by simpa using hclean
    subst htrue
    refine called_scans ?_ fun _ => ?_
    · exact List.mem_cons_of_mem _ List.mem_cons_self
    refine Scans.bind (unapproving_scans ?_) fun _ past cur => called_scans trivial fun _ => trivial
    refine (promote_issues (fun _ => trivial) trivial (fun _ => trivial) trivial).tryCatch
      fun e => ?_
    exact Issues.bind ((issues_auto trivial).tryCatch fun _ => trivial) fun _ => trivial

theorem ingest_scans : Scans (InvoicePipeline.ingest job cfg d) past cur := by
  have hrest : ∀ (file : Option Bytes) (past cur : Calls Out),
      Scans (InvoicePipeline.review job d file) past cur := by
    intro file past cur
    exact unapproving_scans (finish_issues (fun ocr => finishReview_issues trivial trivial
      fun _ => trivial) fun _ => trivial)
  rw [InvoicePipeline.ingest, Scans, wp_ite]
  refine ⟨fun _ => ?_, fun _ => ?_⟩
  · exact scanAndPromote_scans.bind hrest
  · exact (unapproving_scans (downloadApproved_issues trivial fun _ => trivial)).bind hrest

theorem process_scans (final : Bool) : Scans (program cfg (.process job final)) [] [] := by
  refine Scans.bind ?_ fun _ _ _ => trivial
  have hload : (InvoicePipeline.load job).Issues unapproving := issues_auto trivial
  rw [InvoicePipeline.process]
  refine (unapproving_scans hload).bind fun found past cur => ?_
  cases found with
  | none => trivial
  | some found =>
      obtain ⟨d, p⟩ := found
      simp only
      rw [Scans, wp_ite]
      refine ⟨fun _ => trivial, fun _ => ?_⟩
      rw [wp_tryCatch]
      refine wp_mono (fun _ _ _ _ => trivial) (fun e past cur _ => ?_) ingest_scans
      rw [wp_ite]
      refine ⟨fun _ => ?_, fun _ => ?_⟩
      · exact (unapproving_scans (manualReview_issues trivial trivial)).bind fun _ _ _ => trivial
      · exact (unapproving_scans (resetForRetry_issues (fun _ => trivial) fun _ => trivial)).bind
          fun _ _ _ => trivial

theorem scanned_discipline (cfg : Config) : Discipline (machine cfg) scannedConduct Legal where
  program op := by
    cases op with
    | process job final => exact process_scans final
    | _ => exact wp_unconditional _ _ _
  legal q c view out rows hrun hc := (engine_ok hrun).chain hc
  answers op q c view out rows hrun := by
    cases op <;> trivial
  external db rows hext _ := hext.2

end Attempts

section Runs

variable {cfg : Config} {ok : System → SystemAction → Prop} {s₀ s s' : System}

/-- The objects of the approved bucket, and the calls that were made before they were put. -/
structure Provenance (s : System) : Prop where
  put : ∀ key bytes, Db.object s.db .approved key = some bytes →
    ∃ (i : Nat) (p : Process), s.procs[i]? = some p ∧
      Called p.past (.putObject .approved key bytes) ()
  scanned : ∀ (i : Nat) p key bytes, s.procs[i]? = some p →
    Called p.past (.putObject .approved key bytes) () → Called p.past (.scanFile bytes) true

theorem Provenance.start (h₀ : Idle Legal s₀) (hobject : ∀ key, Db.object s₀.db .approved key = none) :
    Provenance s₀ := by
  refine ⟨fun key bytes hbytes => ?_, fun i p key bytes hp => ?_⟩
  · rw [hobject] at hbytes
    cases hbytes
  · simp [h₀.procs] at hp

/-- The calls of a transaction that puts an object into the approved bucket. -/
theorem scanned_of_put {db : Db} {p : Process} {key : Id} {bytes : Bytes}
    (hstored : ProcOk (machine cfg) (storageConduct cfg) Legal db p)
    (hscanned : ProcOk (machine cfg) scannedConduct Legal db p) (hop : p.op.stores = true)
    (hput : Called p.calls (.putObject .approved key bytes) ()) :
    Called p.past (.scanFile bytes) true := by
  obtain ⟨e, he, hcall⟩ := List.mem_map.mp hput
  obtain ⟨cur, -, hbefore⟩ := event_before hstored he
  obtain ⟨cur', -, hbefore'⟩ := event_before hscanned he
  obtain ⟨stmt, out, rows, base⟩ := e
  cases hcall
  cases hkind : p.op with
  | upload normalize auth dto file =>
      rw [hkind] at hbefore
      cases hbefore.1
  | process job final =>
      rw [hkind] at hbefore'
      exact hbefore'
  | _ =>
      rw [hkind] at hop
      cases hop

/-- Steps that leave the objects and the committed calls alone. -/
theorem Provenance.idle (h : Provenance s)
    (hobject : ∀ key, Db.object s'.db .approved key = Db.object s.db .approved key)
    (hback : ∀ (j : Nat) p', s'.procs[j]? = some p' → p'.past = [] ∨
      ∃ p, s.procs[j]? = some p ∧ p.past = p'.past)
    (hforth : ∀ (j : Nat) p, s.procs[j]? = some p → ∃ p', s'.procs[j]? = some p' ∧
      p'.op = p.op ∧ p.past ⊆ p'.past) : Provenance s' := by
  refine ⟨fun key bytes hbytes => ?_, fun i p' key bytes hp' hput => ?_⟩
  · obtain ⟨i, p, hp, hput⟩ := h.put key bytes (hobject key ▸ hbytes)
    obtain ⟨p', hp', -, hsub⟩ := hforth i p hp
    exact ⟨i, p', hp', hsub hput⟩
  · rcases hback i p' hp' with hnil | ⟨p, hp, hpast⟩
    · rw [hnil] at hput
      exact absurd hput List.not_mem_nil
    · rw [← hpast] at hput ⊢
      exact h.scanned i p key bytes hp hput

theorem Provenance.commit {i : Nat} {p : Process} {next : Except Failure Unit → Program Response}
    (h : Provenance s) (hp : s.procs[i]? = some p) (hq : p.prog = .commit next)
    (hstored : ProcOk (machine cfg) (storageConduct cfg) Legal s.db p)
    (hscanned : ProcOk (machine cfg) scannedConduct Legal s.db p) (hop : p.op.stores = true) :
    Provenance ⟨p.writes ++ s.db, s.procs.set i (p.close (next (.ok ())))⟩ := by
  have hself : (s.procs.set i (p.close (next (.ok ()))))[i]? = some (p.close (next (.ok ()))) :=
    List.getElem?_set_self (List.getElem?_eq_some_iff.mp hp).1
  have hkept : ∀ {key : Id} {bytes : Bytes}, Db.object s.db .approved key = some bytes →
      ∃ (j : Nat) (q : Process), (s.procs.set i (p.close (next (.ok ()))))[j]? = some q ∧
        Called q.past (.putObject .approved key bytes) () := by
    intro key bytes hbytes
    obtain ⟨j, q, hj, hput⟩ := h.put key bytes hbytes
    by_cases hji : j = i
    · subst hji
      have hsame : q = p := Option.some.inj (hj.symm.trans hp)
      subst hsame
      exact ⟨j, _, hself, List.mem_append_right _ hput⟩
    · exact ⟨j, q, (List.getElem?_set_ne (Ne.symm hji)).trans hj, hput⟩
  refine ⟨fun key bytes hbytes => ?_, fun j q key bytes hj hput => ?_⟩
  · cases commit_shift hstored hop hq with
    | still hcalls hobject => exact hkept ((hobject _ _).symm.trans hbytes)
    | put b k bytes' hcalls hbefore hwrites =>
        by_cases hsame : b = .approved ∧ k = key
        · obtain ⟨rfl, rfl⟩ := hsame
          have heq : bytes' = bytes := by
            rw [hwrites] at hbytes
            exact Option.some.inj ((object_written _ _ _).symm.trans hbytes)
          subst heq
          refine ⟨i, _, hself, List.mem_append_left _ ?_⟩
          rw [hcalls]
          exact List.mem_singleton_self _
        · rw [hwrites] at hbytes
          exact hkept ((object_kept hsame).symm.trans hbytes)
    | delete b k hcalls hbefore hwrites =>
        rw [hwrites] at hbytes
        by_cases hsame : b = .approved ∧ k = key
        · obtain ⟨rfl, rfl⟩ := hsame
          cases (object_written _ _ _).symm.trans hbytes
        · exact hkept ((object_kept hsame).symm.trans hbytes)
  · rcases closed_cases hp hj hput with ⟨-, -, hpast, hnew⟩ | ⟨q₀, hq₀, -, hsub, hold, -⟩
    · rw [hpast]
      exact List.mem_append_right _ (scanned_of_put hstored hscanned hop hnew)
    · exact hsub (h.scanned j q₀ key bytes hq₀ hold)

theorem Provenance.run (h₀ : Idle Legal s₀) (hobject : ∀ key, Db.object s₀.db .approved key = none)
    (hok : storing.Respects ok) (h : Run (machine cfg) ok s₀ s) : Provenance s := by
  refine h.invariant (Provenance.start h₀ hobject) fun u a v hrun hinv _ hs => ?_
  cases hs.effect with
  | quiet hdb hprocs =>
      refine hinv.idle (fun key => by rw [hdb]) (fun j p' hj => ?_) fun j p hp => hs.past_subset hp
      rcases hprocs j p' hj with hold | ⟨-, ⟨op, -, rfl⟩ | ⟨p, hp, -, hpast⟩⟩
      · exact .inr ⟨p', hold, rfl⟩
      · exact .inl rfl
      · exact .inr ⟨p, hp, hpast.symm⟩
  | answered i c p q next out rows hp hq hrun' =>
      refine hinv.idle (fun _ => rfl) (fun j p' hj => ?_) fun j p hp => hs.past_subset hp
      rcases getElem?_set_cases hj with ⟨rfl, rfl⟩ | ⟨-, hold⟩
      · exact .inr ⟨p, hp, rfl⟩
      · exact .inr ⟨p', hold, rfl⟩
  | committed i c p next hp hq =>
      obtain ⟨-, hstoring⟩ := storing_sound.run hok (discipline cfg) h₀ trivial hrun
      exact hinv.commit hp hq
        ((Run.consistent (storage cfg) h₀.consistent hrun).proc i p hp)
        ((Run.consistent (scanned_discipline cfg) h₀.consistent hrun).proc i p hp)
        (hstoring i p hp).allowed
  | outside rows hext =>
      exact hinv.idle
        (fun k => congrArg Option.join (external_row (k := .object .approved k) hext rfl))
        (fun j p' hj => .inr ⟨p', hj, rfl⟩) fun j p hp => hs.past_subset hp

/-- An attempt on the document `id` had these very bytes scanned as clean. -/
def ScannedFor (s : System) (id : Id) (bytes : Bytes) : Prop :=
  ∃ (i : Nat) (p : Process) (job : InvoiceIngestJob) (final : Bool), s.procs[i]? = some p ∧
    p.op = .process job final ∧ job.documentId = id ∧ Called p.past (.scanFile bytes) true

/-- The object of an approved document. -/
theorem approved_scanned (h₀ : Idle Legal s₀) (hdocument : ∀ id, Db.document s₀.db id = none)
    (hprocessing : ∀ id, Db.processing s₀.db id = none)
    (hobject : ∀ key, Db.object s₀.db .approved key = none) (hok : storing.Respects ok)
    (h : Run (machine cfg) ok s₀ s) {id : Id} {d : Document} (hd : Db.document s.db id = some d)
    (hstate : d.storageState = .approved) :
    ∃ key bytes, d.approvedObjectKey = some key ∧ d.sha256 = some (cfg.sha256 bytes) ∧
      Db.object s.db .approved key = some bytes ∧ ScannedFor s id bytes := by
  have hwarehouse := Warehouse.run h₀ hdocument hprocessing hok h
  have hkeys := KeysOwned.run h₀ (uploaded_of_empty hdocument hprocessing) h
  have hprovenance := Provenance.run h₀ hobject hok h
  obtain ⟨key, bytes, hkey, hsha, hbytes⟩ := hwarehouse.approved id d hd hstate
  obtain ⟨i, p, org, sha, duplicate, n, hp, hdrawn, hdid⟩ := hkeys.promoted id d key hd hkey
  obtain ⟨j, q, hq, hput⟩ := hprovenance.put key bytes hbytes
  have hij : i = j :=
    hkeys.single i j p q key hp hq hdrawn (hwarehouse.drawn j q .approved key bytes hq hput)
  subst hij
  have hsame : p = q := Option.some.inj (hp.symm.trans hq)
  subst hsame
  obtain ⟨-, hobserved⟩ := concerning_sound.run concerning_respects (discipline cfg) h₀ trivial h
  obtain ⟨job, final, hop, rfl⟩ := (hobserved i p hp).fact _ hdid
  exact ⟨key, bytes, hkey, hsha, hbytes, i, p, job, final, hp, hop, rfl,
    hprovenance.scanned i p key bytes hp hput⟩

end Runs
end BlocTrust
