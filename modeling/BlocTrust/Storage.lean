import BlocTrust.Knowledge
import BlocTrust.WorkerPrograms

/-!
What the upload and the worker do to stored objects.
Each puts objects under a key that it has drawn, and deletes them again only as long as it
has not committed the document that refers to them; the worker deletes the quarantined
object of a document after it has promoted it.  Every such call stands by itself.
-/
namespace BlocTrust

open ReadCommitted Prog

/-- A call that puts or deletes an object. -/
def Moves : Sigma Out → Prop
  | ⟨.call (.putObject _ _ _), _⟩ => True
  | ⟨.call (.deleteObject _ _), _⟩ => True
  | _ => False

/-- No object of the bucket has been put or deleted. -/
structure Unstored (b : Bucket) (past : Calls Out) : Prop where
  put : ∀ key bytes, ¬ Called past (.putObject b key bytes) ()
  delete : ∀ key, ¬ Called past (.deleteObject b key) ()

def Inserts (past : Calls Out) : Prop := ∃ id d, Did past (.insertDocument id d) ()

def Promotes (past : Calls Out) : Prop :=
  ∃ id org key sha duplicate n, Did past (.updateDocument id (.promoted org key sha duplicate)) n

/-- A transaction that moves an object does nothing else. -/
def Apart (cur : Calls Out) : Prop := ∀ c ∈ cur, Moves c → cur = [c]

def uploadStorage : Conduct Out where
  before past _
    | .call (.putObject b key _) => b = .quarantine ∧ Called past .randomObjectKey key ∧
        Unstored b past ∧ ¬ Inserts past
    | .call (.deleteObject b key) => b = .quarantine ∧ Called past .randomObjectKey key ∧
        ¬ Inserts past
    | .write (.insertDocument _ d) => Called past .randomObjectKey d.quarantineObjectKey ∧
        (∃ bytes, Called past (.putObject .quarantine d.quarantineObjectKey bytes) ()) ∧
        (∀ key, ¬ Called past (.deleteObject .quarantine key) ()) ∧ ¬ Inserts past
    | _ => True
  due _ cur := Apart cur
  answers _ _ := True

def processStorage (cfg : Config) (job : InvoiceIngestJob) : Conduct Out where
  before past _
    | .call (.putObject b key _) => b = .approved ∧ Called past .randomObjectKey key ∧
        Unstored b past ∧ ¬ Promotes past
    | .call (.deleteObject .approved key) => Called past .randomObjectKey key ∧ ¬ Promotes past
    | .call (.deleteObject .quarantine key) => ∃ d p org approvedKey sha duplicate n,
        Saw past (.load job) (some (d, p)) ∧ key = d.quarantineObjectKey ∧
        Did past (.updateDocument job.documentId (.promoted org approvedKey sha duplicate)) n
    | .write (.updateDocument _ (.promoted _ key sha _)) => ∃ bytes,
        Called past (.putObject .approved key bytes) () ∧ sha = cfg.sha256 bytes ∧
        ∀ k, ¬ Called past (.deleteObject .approved k) ()
    | .write (.insertDocument _ _) => False
    | _ => True
  due _ cur := Apart cur
  answers _ _ := True

def storageConduct (cfg : Config) : Op → Conduct Out
  | .upload _ _ _ _ => uploadStorage
  | .process job _ => processStorage cfg job
  | _ => .free

/-- Statements that neither move objects nor make documents refer to them. -/
def inert : Stmt → Prop
  | .call (.putObject _ _ _) => False
  | .call (.deleteObject _ _) => False
  | .write (.insertDocument _ _) => False
  | .write (.updateDocument _ (.promoted _ _ _ _)) => False
  | _ => True

section Rules

variable {cfg : Config} {job : InvoiceIngestJob} {C : Conduct Out} {past cur : Calls Out}

theorem inert_still {c : Sigma Out} (h : inert c.1) : ¬ Moves c := by
  obtain ⟨s, out⟩ := c
  intro hmoves
  unfold Moves at hmoves
  split at hmoves
  · rename_i heq
    cases heq
    exact h
  · rename_i heq
    cases heq
    exact h
  · exact hmoves

theorem apart_of_still (h : ∀ c ∈ cur, ¬ Moves c) : Apart cur :=
  fun c hc hmoves => absurd hmoves (h c hc)

theorem apart_single (c : Sigma Out) : Apart [c] := by
  intro c' hc' _
  rw [List.mem_singleton.mp hc']

/-- What lets the inert statements through and asks nothing but separation of a commit. -/
structure Storing (C : Conduct Out) : Prop where
  before : ∀ s, inert s → ∀ past cur, C.before past cur s
  due : ∀ past cur, Apart cur → C.due past cur

theorem uploadStorage_storing : Storing uploadStorage := by
  refine ⟨fun s hs past cur => ?_, fun _ _ h => h⟩
  cases s with
  | call c =>
      cases c with
      | putObject b key bytes => exact hs.elim
      | deleteObject b key => exact hs.elim
      | _ => trivial
  | write u =>
      cases u with
      | insertDocument id d => exact hs.elim
      | _ => trivial
  | read q => trivial

theorem processStorage_storing : Storing (processStorage cfg job) := by
  refine ⟨fun s hs past cur => ?_, fun _ _ h => h⟩
  cases s with
  | call c =>
      cases c with
      | putObject b key bytes => exact hs.elim
      | deleteObject b key => exact hs.elim
      | _ => trivial
  | write u =>
      cases u with
      | insertDocument id d => exact hs.elim
      | updateDocument id c =>
          cases c with
          | promoted org key sha duplicate => exact hs.elim
          | blocked org => trivial
      | _ => trivial
  | read q => trivial

/-- A program of inert statements keeps either conduct. -/
theorem inert_keeps {α : Type} {p : Program α} (hC : Storing C) (h : p.Issues inert)
    (hcur : ∀ c ∈ cur, inert c.1) :
    p.wp C (fun _ => Grown inert past) (fun _ => Grown inert past) past cur :=
  h.keeps hC.before
    (fun _ _ hinert => hC.due _ _ (apart_of_still fun c hc => inert_still (hinert c hc))) hcur

/-- A statement by itself. -/
theorem alone_wp {s : Stmt} {Q : Out s → Calls Out → Calls Out → Prop}
    {R : Failure → Calls Out → Calls Out → Prop} (hC : Storing C) (hbefore : C.before past [] s)
    (hR : ∀ e, R e past []) (hQ : ∀ out, Q out (⟨s, out⟩ :: past) []) :
    (auto s : Program (Out s)).wp C Q R past [] :=
  auto_wp hbefore (fun _ => hC.due _ _ (apart_single _)) hR hQ

/-- A transaction of statements that the conduct lets through, none of which moves an object. -/
theorem transaction_wp {α : Type} {P : Stmt → Prop} {p : Program α}
    {Q : α → Calls Out → Calls Out → Prop} {R : Failure → Calls Out → Calls Out → Prop}
    (hC : Storing C) (hp : p.Plain P) (hbefore : ∀ s, P s → ∀ cur, C.before past cur s)
    (hstill : ∀ c : Sigma Out, P c.1 → ¬ Moves c) (hR : ∀ e, R e past [])
    (hQ : ∀ a cur, (∀ c ∈ cur, P c.1) → Q a (cur ++ past) []) :
    (transaction p).wp C Q R past [] := by
  rw [wp_transaction]
  refine wp_mono (fun a past' cur h => ?_) (fun e past' _ h => ?_) (hp.keeps hbefore [])
  · obtain ⟨rfl, -, hadded⟩ := h
    have hcur : ∀ c ∈ cur, P c.1 := by
      intro c hc
      rcases hadded c hc with hold | hP
      · exact absurd hold List.not_mem_nil
      · exact hP
    exact ⟨hC.due _ _ (apart_of_still fun c hc => hstill c (hcur c hc)), hQ a cur hcur, hR⟩
  · rw [h]
    exact hR e

end Rules
section Upload

variable {cfg : Config} {auth : AuthContext} {past cur : Calls Out}

/-- Inert statements, and the insertion of a document under the object key `key`. -/
def uploading (key : Id) (s : Stmt) : Prop :=
  inert s ∨ ∃ id d, s = .write (.insertDocument id d) ∧ d.quarantineObjectKey = key

theorem uploading_still {key : Id} (c : Sigma Out) (h : uploading key c.1) : ¬ Moves c := by
  rcases h with hinert | ⟨id, d, hs, -⟩
  · exact inert_still hinert
  · obtain ⟨s, out⟩ := c
    subst hs
    exact fun hmoves => hmoves

theorem assertRelationships_plain {P : Stmt → Prop} (org : Id) (vendorId contractId : Option Id)
    (hP : ∀ q, P (.read q)) :
    (InvoicesService.assertRelationships org vendorId contractId).Plain P := by
  have hvendor : (InvoicesService.assertVendor org vendorId).Plain P := by
    cases vendorId with
    | none => trivial
    | some v => exact ((plain_sql _).mpr (hP _)).bind fun vendor => plain_require _ _
  refine hvendor.bind fun _ => ?_
  cases contractId with
  | none => trivial
  | some c =>
      cases vendorId with
      | none => trivial
      | some v => exact ((plain_sql _).mpr (hP _)).bind fun contract => plain_require _ _

theorem createInvoice_plain {dto : InvoicesService.UploadInvoiceDto}
    {file : InvoicesService.UploadedFile} {validated : DocumentValidation.ValidatedDocument}
    {documentId invoiceId key : Id} :
    (InvoicesService.createInvoice cfg auth dto file validated documentId invoiceId key).Plain
      (uploading key) := by
  rw [InvoicesService.createInvoice]
  refine (assertRelationships_plain _ _ _ fun q => .inl trivial).bind fun _ => ?_
  refine ((plain_sql _).mpr (.inl trivial)).bind fun createdAt => ?_
  refine ((plain_sql _).mpr (.inl trivial)).bind fun _ => ?_
  refine ((plain_sql _).mpr (.inr ⟨documentId, _, rfl, rfl⟩)).bind fun _ => ?_
  refine ((plain_sql _).mpr (.inl trivial)).bind fun _ => ?_
  refine ((plain_sql _).mpr (.inl trivial)).bind fun found => ?_
  refine (plain_orThrow _ _).bind fun created => ?_
  refine ((plain_sql _).mpr (.inl trivial)).bind fun documents => ?_
  refine ((plain_sql _).mpr (.inl trivial)).bind fun processings => ?_
  exact ((plain_sql _).mpr (.inl trivial)).bind fun _ => trivial

/-- The upload after it has put the object under its key. -/
structure Stored (past : Calls Out) (key : Id) : Prop where
  drawn : Called past .randomObjectKey key
  put : ∃ bytes, Called past (.putObject .quarantine key bytes) ()
  kept : ∀ k, ¬ Called past (.deleteObject .quarantine k) ()
  fresh : ¬ Inserts past

theorem Stored.uploading {key : Id} (h : Stored past key) (s : Stmt) (hs : uploading key s)
    (cur : Calls Out) : uploadStorage.before past cur s := by
  rcases hs with hinert | ⟨id, d, rfl, rfl⟩
  · exact uploadStorage_storing.before s hinert past cur
  · exact ⟨h.drawn, h.put, h.kept, h.fresh⟩

theorem discard_storage {key : Id} (e : Failure) (h : Stored past key) :
    ((do
      tryCatch (external (.deleteObject .quarantine key)) fun _ => return ()
      throw e : Program InvoicesService.InvoiceView)).wp uploadStorage (fun _ _ _ => True)
        (fun _ _ _ => True) past [] := by
  rw [wp_bind, wp_tryCatch]
  exact alone_wp uploadStorage_storing ⟨rfl, h.drawn, h.fresh⟩ (fun _ => trivial) fun _ => trivial

theorem markManualReview_issues (org documentId invoiceId : Id) (code : Text) :
    (InvoicesService.markManualReview org documentId invoiceId code).Issues inert := by
  refine Issues.transaction ?_
  refine (issues_sql trivial).bind fun _ => ?_
  exact (issues_sql trivial).bind fun _ => trivial

theorem upload_storage (cfg : Config) (normalize : Text → Text) (auth : AuthContext)
    (dto : InvoicesService.UploadInvoiceDto) (file : Option InvoicesService.UploadedFile) :
    (program cfg (.upload normalize auth dto file)).wp uploadStorage
      (fun _ _ _ => True) (fun _ _ _ => True) [] [] := by
  have hC := uploadStorage_storing
  rw [program, wp_bind, InvoicesService.upload, wp_bind]
  refine orThrow_wp (fun _ _ => trivial) fun file _ => ?_
  cases InvoicesService.validateDocumentFile cfg normalize file with
  | error failure => trivial
  | ok validated =>
      simp only
      rw [wp_bind]
      refine alone_wp hC trivial (fun _ => trivial) fun documentId => ?_
      rw [wp_bind]
      refine alone_wp hC trivial (fun _ => trivial) fun invoiceId => ?_
      rw [wp_bind]
      refine alone_wp hC trivial (fun _ => trivial) fun key => ?_
      rw [wp_bind]
      refine alone_wp hC ⟨rfl, List.mem_cons_self, ⟨?_, ?_⟩, ?_⟩ (fun _ => trivial) fun _ => ?_
      · intro k bytes hcalled
        simp at hcalled
      · intro k hcalled
        simp at hcalled
      · rintro ⟨id, d, hdid⟩
        simp at hdid
      have hstored : Stored (⟨.call (.putObject .quarantine key file.bytes), ()⟩ ::
          ⟨.call .randomObjectKey, key⟩ :: ⟨.call .randomUUID, invoiceId⟩ ::
          [⟨.call .randomUUID, documentId⟩]) key := by
        refine ⟨List.mem_cons_of_mem _ List.mem_cons_self, ⟨_, List.mem_cons_self⟩, ?_, ?_⟩
        · intro k hcalled
          simp at hcalled
        · rintro ⟨id, d, hdid⟩
          simp at hdid
      rw [wp_bind, wp_tryCatch]
      refine transaction_wp hC createInvoice_plain hstored.uploading uploading_still
        (fun e => discard_storage e hstored) fun view cur _ => ?_
      rw [wp_bind, wp_tryCatch]
      refine alone_wp hC trivial (fun e => ?_) fun _ => trivial
      exact wp_mono (fun _ _ _ _ => trivial) (fun _ _ _ _ => trivial)
        (inert_keeps hC (markManualReview_issues _ _ _ _) fun c hc => absurd hc List.not_mem_nil)

end Upload
section Process

variable {cfg : Config} {job : InvoiceIngestJob} {past cur : Calls Out} {d : Document}
  {p : DocumentProcessing}

/-- No failure leaves a move open. -/
def Calm (_ : Failure) (_ cur : Calls Out) : Prop := ∀ c ∈ cur, inert c.1

theorem calm_nil (e : Failure) (past : Calls Out) : Calm e past [] :=
  fun _ hc => absurd hc List.not_mem_nil

/-- An attempt that has put the object of its document under its key. -/
structure Copied (job : InvoiceIngestJob) (past : Calls Out) (d : Document)
    (p : DocumentProcessing) (key : Id) (bytes : Bytes) : Prop where
  seen : Saw past (.load job) (some (d, p))
  drawn : Called past .randomObjectKey key
  put : Called past (.putObject .approved key bytes) ()
  kept : ∀ k, ¬ Called past (.deleteObject .approved k) ()
  fresh : ¬ Promotes past

theorem retract_storage {key : Id} {bytes : Bytes} {Q : Unit → Calls Out → Calls Out → Prop}
    (e : Failure) (h : Copied job past d p key bytes) :
    ((do
      tryCatch (external (.deleteObject .approved key)) fun _ => return ()
      throw e : Program Unit)).wp (processStorage cfg job) Q Calm past [] := by
  rw [wp_bind, wp_tryCatch]
  refine alone_wp processStorage_storing ⟨h.drawn, h.fresh⟩ (fun _ => ?_) fun _ => ?_
  · exact calm_nil e past
  · exact calm_nil e _

/-- The promotion, which undoes the copy when it fails. -/
theorem promote_storage {key : Id} {bytes : Bytes} {Q : Unit → Calls Out → Calls Out → Prop}
    {R : Failure → Calls Out → Calls Out → Prop} (h : Copied job past d p key bytes)
    (hR : ∀ e, R e past [])
    (hQ : ∀ past', past ⊆ past' → (∃ org k sha duplicate n,
      Did past' (.updateDocument job.documentId (.promoted org k sha duplicate)) n) → Q () past' []) :
    (InvoicePipeline.promote job key (cfg.sha256 bytes)).wp (processStorage cfg job) Q R past [] := by
  rw [InvoicePipeline.promote, wp_transaction, wp_bind]
  refine update_wp trivial (fun _ _ => hR _) fun _ => ?_
  rw [wp_bind]
  refine (wp_sql _).mpr ⟨trivial, fun duplicate _ => ?_, fun _ => hR _⟩
  rw [wp_bind]
  refine update_wp ⟨bytes, h.put, rfl, h.kept⟩ (fun _ _ => hR _) fun n => ?_
  rw [wp_bind]
  refine update_wp trivial (fun _ _ => hR _) fun m => ⟨apart_of_still ?_, hQ _ ?_ ?_, hR⟩
  · simp [Moves]
  · exact List.subset_append_right _ past
  · refine ⟨job.organizationId, key, cfg.sha256 bytes, duplicate, n, ?_⟩
    exact List.mem_append_left _ (List.mem_cons_of_mem _ List.mem_cons_self)

theorem scanAndPromote_storage (hl : Saw past (.load job) (some (d, p)))
    (hunstored : Unstored .approved past) (hfresh : ¬ Promotes past) :
    (InvoicePipeline.scanAndPromote job cfg d).wp (processStorage cfg job)
      (fun _ _ cur => ∀ c ∈ cur, inert c.1) Calm past [] := by
  have hC : Storing (processStorage cfg job) := processStorage_storing
  rw [InvoicePipeline.scanAndPromote, wp_bind, InvoicePipeline.progress,
    InvoicePipeline.updateProcessing, wp_bind]
  refine alone_wp hC trivial (fun e => calm_nil e past) fun n => ?_
  rw [wp_pure, wp_bind]
  refine alone_wp hC trivial (fun e => calm_nil e _) fun bytes => ?_
  rw [wp_bind]
  refine alone_wp hC trivial (fun e => calm_nil e _) fun clean => ?_
  rw [wp_ite]
  refine ⟨fun _ => ?_, fun _ => ?_⟩
  · rw [wp_bind]
    exact wp_mono (fun _ _ _ hgrown => hgrown.opened) (fun _ _ _ hgrown => hgrown.opened)
      (inert_keeps hC (block_issues trivial trivial trivial fun _ => trivial)
        fun c hc => absurd hc List.not_mem_nil)
  rw [wp_bind]
  refine alone_wp hC trivial (fun e => calm_nil e _) fun key => ?_
  rw [wp_bind]
  refine alone_wp hC ⟨rfl, List.mem_cons_self, ⟨fun k bytes' hput => ?_, fun k hdelete => ?_⟩, ?_⟩
    (fun e => calm_nil e _) fun _ => ?_
  · exact hunstored.put k bytes' (by simpa using hput)
  · exact hunstored.delete k (by simpa using hdelete)
  · rintro ⟨id, org, k, sha, duplicate, m, hdid⟩
    exact hfresh ⟨id, org, k, sha, duplicate, m, by simpa using hdid⟩
  have hcopied : Copied job (⟨.call (.putObject .approved key bytes), ()⟩ ::
      ⟨.call .randomObjectKey, key⟩ :: ⟨.call (.scanFile bytes), clean⟩ ::
      ⟨.call (.getObject .quarantine d.quarantineObjectKey), bytes⟩ ::
      ⟨.write (.updateProcessing job.documentId
        (.progressed job.organizationId .scanning 25 true none)), n⟩ :: past) d p key bytes := by
    refine ⟨?_, List.mem_cons_of_mem _ List.mem_cons_self, List.mem_cons_self, fun k hdelete => ?_, ?_⟩
    · simpa using hl
    · exact hunstored.delete k (by simpa using hdelete)
    · rintro ⟨id, org, k, sha, duplicate, m, hdid⟩
      exact hfresh ⟨id, org, k, sha, duplicate, m, by simpa using hdid⟩
  rw [wp_bind, wp_tryCatch]
  refine promote_storage hcopied (fun e => retract_storage e hcopied)
    fun past' hsub hpromoted => ?_
  obtain ⟨org, k, sha, duplicate, m, hdid⟩ := hpromoted
  rw [wp_bind]
  refine alone_wp hC ⟨d, p, org, k, sha, duplicate, m, hsub hcopied.seen, rfl, hdid⟩
    (fun e => calm_nil e past') fun _ c hc => ?_
  exact absurd hc List.not_mem_nil

theorem ingest_storage (hl : Saw past (.load job) (some (d, p)))
    (hunstored : Unstored .approved past) (hfresh : ¬ Promotes past) :
    (InvoicePipeline.ingest job cfg d).wp (processStorage cfg job) (fun _ _ _ => True) Calm
      past [] := by
  have hC : Storing (processStorage cfg job) := processStorage_storing
  have hrest : ∀ (file : Option Bytes) (past' cur' : Calls Out), (∀ c ∈ cur', inert c.1) →
      (InvoicePipeline.review job d file).wp (processStorage cfg job) (fun _ _ _ => True)
            Calm past' cur' := by
    intro file past' cur' hcur
    refine wp_mono (fun _ _ _ _ => trivial) (fun _ _ _ hgrown => hgrown.opened)
      (inert_keeps hC (finish_issues (fun ocr => finishReview_issues trivial trivial
        fun _ => trivial) fun _ => trivial) hcur)
  rw [InvoicePipeline.ingest, wp_ite]
  refine ⟨fun _ => ?_, fun _ => ?_⟩
  · rw [wp_bind]
    exact wp_mono (fun file _ _ hcur => hrest file _ _ hcur) (fun _ _ _ hcalm => hcalm)
      (scanAndPromote_storage hl hunstored hfresh)
  · rw [wp_bind]
    exact wp_mono (fun file _ _ hgrown => hrest file _ _ hgrown.opened)
      (fun _ _ _ hgrown => hgrown.opened)
      (inert_keeps hC (downloadApproved_issues trivial fun _ => trivial)
        fun c hc => absurd hc List.not_mem_nil)

theorem process_storage (final : Bool) :
    (program cfg (.process job final)).wp (processStorage cfg job)
      (fun _ _ _ => True) (fun _ _ _ => True) [] [] := by
  have hC : Storing (processStorage cfg job) := processStorage_storing
  rw [program, wp_bind, InvoicePipeline.process, wp_bind, InvoicePipeline.load]
  refine alone_wp hC trivial (fun _ => trivial) fun found => ?_
  cases found with
  | none => trivial
  | some found =>
      obtain ⟨d, p⟩ := found
      simp only
      rw [wp_ite]
      refine ⟨fun _ => trivial, fun _ => ?_⟩
      rw [wp_tryCatch]
      have hingest : (InvoicePipeline.ingest job cfg d).wp (processStorage cfg job)
          (fun _ _ _ => True) Calm [⟨.read (.load job), some (d, p)⟩] [] := by
        refine ingest_storage (p := p) List.mem_cons_self ⟨fun k bytes hput => ?_,
          fun k hdelete => ?_⟩ ?_
        · simp at hput
        · simp at hdelete
        · rintro ⟨id, org, k, sha, duplicate, m, hdid⟩
          simp at hdid
      refine wp_mono (fun _ _ _ _ => trivial) (fun e past cur hcalm => ?_) hingest
      rw [wp_ite]
      refine ⟨fun _ => ?_, fun _ => ?_⟩
      · rw [wp_bind]
        exact wp_mono (fun _ _ _ _ => trivial) (fun _ _ _ _ => trivial)
          (inert_keeps hC (manualReview_issues trivial trivial) hcalm)
      · rw [wp_bind]
        exact wp_mono (fun _ _ _ _ => trivial) (fun _ _ _ _ => trivial)
          (inert_keeps hC (resetForRetry_issues (fun _ => trivial) fun _ => trivial) hcalm)

/-- Uploads and attempts keep to it beside the conduct of the services. -/
theorem storage (cfg : Config) : Discipline (machine cfg) (storageConduct cfg) Legal where
  program op := by
    cases op with
    | upload normalize auth dto file => exact upload_storage cfg normalize auth dto file
    | process job final => exact process_storage final
    | _ => exact wp_unconditional _ _ _
  legal q c view out rows hrun hc := (engine_ok hrun).chain hc
  answers op q c view out rows hrun := by
    cases op <;> trivial
  external db rows hext _ := hext.2

end Process
end BlocTrust
