import BlocTrust.Agreement
import BlocTrust.ObjectStore

/-!
Clean documents leave quarantine.
An attempt deletes the quarantined object in a step of its own, after it has committed the
promotion; a later attempt finds the document approved and does not come back to it.  In the
runs in which no attempt fails or is killed between the two, an approved document has no
object in quarantine once the attempts on it have ended.
-/
namespace BlocTrust

open ReadCommitted Prog

/-- The statement that promotes a document. -/
def PromotesDocument : Sigma Out → Prop
  | ⟨.write (.updateDocument _ (.promoted _ _ _ _)), _⟩ => True
  | _ => False

/-- The call that empties the place of a document in quarantine. -/
def LeavesQuarantine : Sigma Out → Prop
  | ⟨.call (.deleteObject .quarantine _), _⟩ => True
  | _ => False

def unpromoting : Stmt → Prop
  | .write (.updateDocument _ (.promoted _ _ _ _)) => False
  | _ => True

section Programs

variable {job : InvoiceIngestJob} {cfg : Config} {d : Document} {past cur : Calls Out}

theorem unpromoting_call (s : Stmt) (out : Out s) (h : unpromoting s) :
    ¬ PromotesDocument ⟨s, out⟩ := by
  intro hpromotes
  unfold PromotesDocument at hpromotes
  split at hpromotes
  · rename_i heq
    cases heq
    exact h
  · exact hpromotes

/-- What is left of an attempt that owes nothing. -/
def Released (past cur : Calls Out) : Prop := Free PromotesDocument LeavesQuarantine past cur

/-- Everything else than a promotion leaves the debts as they are. -/
theorem unpromoting_settles {α : Type} {p : Program α} (h : p.Issues unpromoting)
    (hfree : Released past cur) :
    p.settles PromotesDocument LeavesQuarantine (fun _ => Released) (fun _ => Released) past cur :=
  h.settles unpromoting_call hfree

/-- The promotion runs into debt with its commit only. -/
theorem promote_releases {key : Id} {sha : Digest} {Q : Unit → Calls Out → Calls Out → Prop}
    (hfree : Released past []) (hQ : ∀ past', Q () past' []) :
    (InvoicePipeline.promote job key sha).settles PromotesDocument LeavesQuarantine Q
      (fun _ => Released) past [] := by
  rw [InvoicePipeline.promote, settles_transaction]
  refine ⟨fun _ => ?_, fun _ _ => hfree⟩
  refine ⟨fun duplicate => ?_, fun _ _ => hfree⟩
  refine ⟨fun n => ?_, fun _ _ => hfree⟩
  refine ⟨fun m => ?_, fun _ _ => hfree⟩
  exact ⟨hQ _, fun _ _ => hfree⟩

theorem scanAndPromote_releases (hfree : Released past cur) :
    (InvoicePipeline.scanAndPromote job cfg d).settles PromotesDocument LeavesQuarantine
      (fun _ => Released) (fun _ => Released) past cur := by
  rw [InvoicePipeline.scanAndPromote, settles_bind]
  refine settles_mono (fun _ past cur hfree => ?_) (fun _ _ _ hfree => hfree)
    (unpromoting_settles (updateProcessing_issues trivial) hfree)
  rw [settles_bind]
  refine settles_mono (fun bytes past cur hfree => ?_) (fun _ _ _ hfree => hfree)
    (unpromoting_settles (issues_auto trivial) hfree)
  rw [settles_bind]
  refine settles_mono (fun clean past cur hfree => ?_) (fun _ _ _ hfree => hfree)
    (unpromoting_settles (issues_auto trivial) hfree)
  split
  · rw [settles_bind]
    exact unpromoting_settles (block_issues trivial trivial trivial fun _ => trivial) hfree
  · rw [settles_bind]
    refine settles_mono (fun key past cur hfree => ?_) (fun _ _ _ hfree => hfree)
      (unpromoting_settles (issues_auto trivial) hfree)
    rw [settles_bind]
    refine settles_auto _ (fun _ => ?_) fun hn _ => free_nil hn
    have hput : Released (⟨.call (.putObject .approved key bytes), ()⟩ :: cur ++ past) [] := by
      refine free_nil (not_owes_append hfree.1 fun c hc => ?_)
      rcases List.mem_cons.mp hc with rfl | hc
      · exact fun h => h
      · exact hfree.2 c hc
    rw [settles_bind, settles_tryCatch]
    refine settles_mono (fun _ _ _ h => h) (fun e past cur hfree => ?_)
      (promote_releases hput fun past' => ?_)
    · rw [settles_bind]
      refine settles_mono (fun _ _ _ hfree => hfree) (fun _ _ _ hfree => hfree)
        (unpromoting_settles (Issues.tryCatch (issues_auto trivial) fun _ => trivial) hfree)
    · rw [settles_bind]
      refine settles_auto _ (fun _ => ?_) fun hn _ => free_nil hn
      exact free_nil (not_owes_of_mem List.mem_cons_self trivial)

theorem ingest_releases (hfree : Released past cur) :
    (InvoicePipeline.ingest job cfg d).settles PromotesDocument LeavesQuarantine
      (fun _ => Released) (fun _ => Released) past cur := by
  have hrest : ∀ (file : Option Bytes) (past cur : Calls Out), Released past cur →
      (InvoicePipeline.review job d file).settles PromotesDocument LeavesQuarantine
            (fun _ => Released) (fun _ => Released) past cur := by
    intro file past cur hfree
    exact unpromoting_settles (finish_issues (fun ocr =>
      finishReview_issues trivial trivial fun _ => trivial) fun _ => trivial) hfree
  rw [InvoicePipeline.ingest]
  split
  · rw [settles_bind]
    exact settles_mono (fun file _ _ hfree => hrest file _ _ hfree) (fun _ _ _ hfree => hfree)
      (scanAndPromote_releases hfree)
  · rw [settles_bind]
    exact settles_mono (fun file _ _ hfree => hrest file _ _ hfree) (fun _ _ _ hfree => hfree)
      (unpromoting_settles (downloadApproved_issues trivial fun _ => trivial) hfree)

theorem process_releases (final : Bool) :
    (program cfg (.process job final)).settles PromotesDocument LeavesQuarantine
      (fun _ past _ => ¬ Owes PromotesDocument LeavesQuarantine past)
      (fun _ past _ => ¬ Owes PromotesDocument LeavesQuarantine past) [] [] := by
  rw [program, settles_bind, InvoicePipeline.process, settles_bind, InvoicePipeline.load]
  have hload : (auto (Stmt.read (.load job)) : Program _).Issues unpromoting := issues_auto trivial
  have hstart : Released [] [] := free_nil (not_owes_nil _ _)
  refine settles_mono (fun found past cur hloaded => ?_) (fun _ _ _ hfree => hfree.1)
    (unpromoting_settles hload hstart)
  cases found with
  | none => exact hloaded.1
  | some found =>
      obtain ⟨d, p⟩ := found
      simp only
      split
      · exact hloaded.1
      · rw [settles_tryCatch]
        refine settles_mono (fun _ _ _ hfree => hfree.1) (fun e past cur hfree => ?_)
          (ingest_releases hloaded)
        split
        · rw [settles_bind]
          exact settles_mono (fun _ _ _ hfree => hfree.1) (fun _ _ _ hfree => hfree.1)
            (unpromoting_settles (manualReview_issues trivial trivial) hfree)
        · rw [settles_bind]
          exact settles_mono (fun _ _ _ hfree => hfree.1) (fun _ _ _ hfree => hfree.1)
            (unpromoting_settles (resetForRetry_issues (fun _ => trivial) fun _ => trivial) hfree)

end Programs
section Runs

variable {cfg : Config} {ok : System → SystemAction → Prop} {s₀ s : System}

/-- Whose document an update concerns. -/
def Concerns (op : Op) (call : Sigma Out) (_ : Db) : Prop :=
  match call with
  | ⟨.write (.updateDocument id _), _⟩ => ∃ job final, op = .process job final ∧ id = job.documentId
  | _ => True

def concerning : Account Val Out Op where
  fact := Concerns

theorem concerning_sound : concerning.Sound (machine cfg) (conduct cfg) Legal ok s₀ where
  refl _ := trivial
  trans _ _ _ _ _ := trivial
  keep _ _ _ _ _ _ _ h := h
  commit s i p _ _ _ _ hok _ _ := by
    refine ⟨trivial, trivial, fun e he => ?_⟩
    obtain ⟨cur, -, hbefore⟩ := event_before hok he
    obtain ⟨stmt, out, rows, base⟩ := e
    show Concerns p.op ⟨stmt, out⟩ (p.writes ++ s.db)
    unfold Concerns
    split
    · rename_i id c n heq
      cases heq
      exact (conduct_updateDocument hbefore).1
    · trivial
  external _ _ _ _ _ := ⟨trivial, trivial⟩

theorem concerning_respects : concerning.Respects ok :=
  ⟨fun _ _ _ => trivial, fun _ _ _ _ _ _ _ _ _ => trivial⟩

variable (cfg) in
/-- Uploads and attempts, of which none fails or is killed between the commit of its promotion
and that of its delete. -/
def releasing (s : System) (a : SystemAction) : Prop :=
  Account.permitted (fun op => op.stores = true) always s a ∧
    undisturbed (machine cfg) (attemptOwes PromotesDocument) (attemptOwes LeavesQuarantine) s a

theorem releasing_storing : storing.Respects (releasing cfg) :=
  ⟨fun _ _ hok => hok.1, fun _ _ _ _ _ _ _ _ _ => trivial⟩

/-- In these runs an approved document has no object in quarantine when the attempts on it
have ended. -/
theorem leaves_quarantine (cfg : Config) {s₀ s : System} (h₀ : Idle Legal s₀)
    (hdocument : ∀ id, Db.document s₀.db id = none)
    (hprocessing : ∀ id, Db.processing s₀.db id = none)
    (h : Run (machine cfg) (releasing cfg) s₀ s) :
    ∀ id d, Db.document s.db id = some d → d.storageState = .approved → AtRest s id →
      Db.object s.db .quarantine d.quarantineObjectKey = none := by
  intro id d hd hstate hrest
  have hwarehouse := Warehouse.run h₀ hdocument hprocessing releasing_storing h
  obtain ⟨key, bytes, hkey, -⟩ := hwarehouse.approved id d hd hstate
  have hkeys := KeysOwned.run h₀ (uploaded_of_empty hdocument hprocessing) h
  obtain ⟨i, p, org, sha, duplicate, n, hp, -, hdid⟩ := hkeys.promoted id d key hd hkey
  obtain ⟨-, hobserved⟩ :=
    concerning_sound.run concerning_respects (discipline cfg) h₀ trivial h
  obtain ⟨job, final, hop, rfl⟩ := (hobserved i p hp).fact _ hdid
  have hsettled := h.settled h₀.procs (settling_of_attempts fun job final =>
    process_releases final) (fun _ _ hok => hok.2) hp (hrest i p job final hp hop rfl)
  by_contra hremains
  refine hsettled ⟨⟨_, hdid, by rw [hop]; trivial⟩, fun c hc hleaves => ?_⟩
  rw [hop] at hleaves
  have hleaves : LeavesQuarantine c := hleaves
  unfold LeavesQuarantine at hleaves
  split at hleaves
  · obtain ⟨hnone, d', hd', hkey'⟩ := hwarehouse.cleared i p job final _ hp hop hc
    have hsame : d' = d := Option.some.inj (hd'.symm.trans hd)
    subst hsame
    rw [hkey'] at hremains
    exact hremains hnone
  · exact hleaves

end Runs
section Sample

/-- An attempt on the document. -/
def Op.attempts (id : Id) : Op → Bool
  | .process job _ => job.documentId == id
  | _ => false

/-- An upload and an attempt that completes. -/
theorem leaves_quarantine_sample : ∃ (s : System) (d : Document) (r : DocumentProcessing),
    Db.document s.db 5 = some d ∧ Db.processing s.db 5 = some r ∧ r.state = .needsReview ∧
      d.storageState = .approved ∧
      Db.object s.db .quarantine d.quarantineObjectKey = none := by
  have hok : ∀ (s : System) (a : SystemAction), (Account.screened (·.stores) (fun _ _ => true) s a &&
      smooth (machine sampleConfig) s a) = true → releasing sampleConfig s a := by
    intro s a h
    obtain ⟨hscreened, hsmooth⟩ := Bool.and_eq_true_iff.mp h
    exact ⟨permitted_starts Op.stores s a hscreened, undisturbed_of_smooth s a hsmooth⟩
  obtain ⟨s, hrun, hcheck⟩ := exists_run (M := machine sampleConfig) (s := emptyStart)
    (.start sampleUpload :: uploadSteps 0 7 ++
      .start (.process uploadedJob true) :: promotion 1 8 ++ execs 1 [0, 0, 0, 0] ++
        finishing 1 9)
    (fun s => s.procs.all (·.prog.finished) && (Db.document s.db 5).any fun d =>
      (Db.processing s.db 5).any fun r => r.state = .needsReview ∧ d.storageState = .approved)
    hok (by decide +kernel)
  obtain ⟨hfinished, hcheck⟩ := Bool.and_eq_true_iff.mp hcheck
  obtain ⟨d, hd, hcheck⟩ := (Option.any_eq_true _ _).mp hcheck
  obtain ⟨r, hr, hcheck⟩ := (Option.any_eq_true _ _).mp hcheck
  obtain ⟨hreview, hstate⟩ := of_decide_eq_true hcheck
  exact ⟨s, d, r, hd, hr, hreview, hstate, leaves_quarantine sampleConfig emptyStart_idle
    emptyStart_document emptyStart_processing hrun 5 d hd hstate (atRest_of_finished hfinished 5)⟩

/-- The delete fails once, and the next attempt completes without it. -/
theorem remains_in_quarantine : ∃ (s : System) (d : Document) (r : DocumentProcessing)
    (bytes : Bytes),
    Run (machine sampleConfig) (Account.permitted (fun op => op.stores = true) always) emptyStart s ∧
      AtRest s 5 ∧ (∃ p, s.procs[2]? = some p ∧ p.op.attempts 5 = true ∧ p.prog.returned = true) ∧
      Db.document s.db 5 = some d ∧ Db.processing s.db 5 = some r ∧ r.state = .needsReview ∧
      d.storageState = .approved ∧
      Db.object s.db .quarantine d.quarantineObjectKey = some bytes := by
  obtain ⟨s, hrun, hcheck⟩ := exists_run (M := machine sampleConfig) (s := emptyStart)
    (.start sampleUpload :: uploadSteps 0 7 ++
      .start (.process uploadedJob false) :: promotion 1 8 ++
      [.fault 1 (.unavailable "StorageError")] ++ execs 1 [0, 0, 0] ++
      .start (.process uploadedJob false) :: resumption 2 ++ finishing 2 9)
    (fun s => s.procs.all (·.prog.finished) && (s.procs[2]?).any (fun p =>
      p.op.attempts 5 && p.prog.returned) && (Db.document s.db 5).any fun d =>
        (Db.processing s.db 5).any fun r =>
          (Db.object s.db .quarantine d.quarantineObjectKey).any fun _ =>
            r.state = .needsReview ∧ d.storageState = .approved)
    (permitted_starts Op.stores) (by decide +kernel)
  obtain ⟨hended, hcheck⟩ := Bool.and_eq_true_iff.mp hcheck
  obtain ⟨hfinished, hreturned⟩ := Bool.and_eq_true_iff.mp hended
  obtain ⟨p, hp, hreturned⟩ := (Option.any_eq_true _ _).mp hreturned
  obtain ⟨hworker, hreturned⟩ := Bool.and_eq_true_iff.mp hreturned
  obtain ⟨d, hd, hcheck⟩ := (Option.any_eq_true _ _).mp hcheck
  obtain ⟨r, hr, hcheck⟩ := (Option.any_eq_true _ _).mp hcheck
  obtain ⟨bytes, hbytes, hcheck⟩ := (Option.any_eq_true _ _).mp hcheck
  obtain ⟨hreview, hstate⟩ := of_decide_eq_true hcheck
  exact ⟨s, d, r, bytes, hrun, atRest_of_finished hfinished 5, ⟨p, hp, hworker, hreturned⟩,
    hd, hr, hreview, hstate, hbytes⟩

end Sample
end BlocTrust
