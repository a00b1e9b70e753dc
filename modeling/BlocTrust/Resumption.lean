import Mathlib.Data.Fintype.EquivFin
import BlocTrust.ReadCommitted.Alone
import BlocTrust.RowChecks

/-!
Interrupted ingestion.
An attempt can be killed between any two of its statements, and what it leaves behind is the
document in quarantine with a processing row that is still to be scanned, or the promoted
document with a parsed one.  From either an attempt that runs by itself goes through to the end,
and no trigger or constraint stops it.
-/
namespace BlocTrust

open ReadCommitted Prog

/-- The database chooses an identifier for an audit event that is not in use. -/
def unusedIds (s : Stmt) (choice : Nat) (view : Db) : Prop :=
  match s with
  | .write (.insertAudit _) => Key.audit choice ∉ view.keys
  | _ => True

/-- The scanner has found malware. -/
def Infected (calls : Calls Out) : Prop :=
  ∃ bytes, (⟨.call (.scanFile bytes), false⟩ : Sigma Out) ∈ calls

theorem not_infected_cons {calls : Calls Out} {c : Sigma Out} (h : ¬ Infected calls)
    (hc : ∀ bytes, c ≠ ⟨.call (.scanFile bytes), false⟩) : ¬ Infected (c :: calls) := by
  rintro ⟨bytes, hmem⟩
  rcases List.mem_cons.mp hmem with hfirst | hrest
  · exact hc bytes hfirst.symm
  · exact h ⟨bytes, hrest⟩

/-- The rows an attempt works on. -/
structure Working (job : InvoiceIngestJob) (d : Document) (r : DocumentProcessing) (v : Invoice)
    (db : Db) : Prop where
  document : Db.document db job.documentId = some d
  processing : Db.processing db job.documentId = some r
  invoice : Db.invoice db job.invoiceId = some v
  belongs : d.invoiceId = job.invoiceId
  documentOrg : d.organizationId = job.organizationId
  processingOrg : r.organizationId = job.organizationId
  invoiceOrg : v.organizationId = job.organizationId
  documentChecks : documentChecks d = true
  invoiceChecks : invoiceChecks v = true

section Rows

variable {job : InvoiceIngestJob} {d d' : Document} {r r' : DocumentProcessing} {v v' : Invoice}
  {db : Db}

theorem Working.other (h : Working job d r v db) {k : Key} (x : Val k)
    (hdocument : Key.document job.documentId ≠ k) (hprocessing : Key.processing job.documentId ≠ k)
    (hinvoice : Key.invoice job.invoiceId ≠ k) : Working job d r v (⟨k, x⟩ :: db) where
  document := (Log.row_cons_ne _ _ hdocument).trans h.document
  processing := (Log.row_cons_ne _ _ hprocessing).trans h.processing
  invoice := (Log.row_cons_ne _ _ hinvoice).trans h.invoice
  belongs := h.belongs
  documentOrg := h.documentOrg
  processingOrg := h.processingOrg
  invoiceOrg := h.invoiceOrg
  documentChecks := h.documentChecks
  invoiceChecks := h.invoiceChecks

theorem Working.setDocument (h : Working job d r v db) (hi : d'.invoiceId = d.invoiceId)
    (horg : d'.organizationId = d.organizationId) (hsize : d'.sizeBytes = d.sizeBytes) :
    Working job d' r v (⟨.document job.documentId, d'⟩ :: db) where
  document := Log.row_cons_self ..
  processing := (Log.row_cons_ne _ _ (by simp)).trans h.processing
  invoice := (Log.row_cons_ne _ _ (by simp)).trans h.invoice
  belongs := hi.trans h.belongs
  documentOrg := horg.trans h.documentOrg
  processingOrg := h.processingOrg
  invoiceOrg := h.invoiceOrg
  documentChecks := by
    rw [BlocTrust.documentChecks, hsize]
    exact h.documentChecks
  invoiceChecks := h.invoiceChecks

theorem Working.setProcessing (h : Working job d r v db)
    (horg : r'.organizationId = r.organizationId) :
    Working job d r' v (⟨.processing job.documentId, r'⟩ :: db) where
  document := (Log.row_cons_ne _ _ (by simp)).trans h.document
  processing := Log.row_cons_self ..
  invoice := (Log.row_cons_ne _ _ (by simp)).trans h.invoice
  belongs := h.belongs
  documentOrg := h.documentOrg
  processingOrg := horg.trans h.processingOrg
  invoiceOrg := h.invoiceOrg
  documentChecks := h.documentChecks
  invoiceChecks := h.invoiceChecks

theorem Working.setStatus (h : Working job d r v db) (status : InvoiceStatus) :
    Working job d r { v with status := status }
      (⟨.invoice job.invoiceId, { v with status := status }⟩ :: db) where
  document := (Log.row_cons_ne _ _ (by simp)).trans h.document
  processing := (Log.row_cons_ne _ _ (by simp)).trans h.processing
  invoice := Log.row_cons_self ..
  belongs := h.belongs
  documentOrg := h.documentOrg
  processingOrg := h.processingOrg
  invoiceOrg := h.invoiceOrg
  documentChecks := h.documentChecks
  invoiceChecks := h.invoiceChecks

theorem admitted_of {α : Type} {a : α} {triggers : List (Bool × String)} {checks : Bool}
    {constraint : String} (htriggers : ∀ t ∈ triggers, t.1 = true) (hchecks : checks = true) :
    admitted a triggers checks constraint = .ok a := by
  have hnone : triggers.find? (fun t => !t.1) = none := by
    rw [List.find?_eq_none]
    intro t ht
    simp [htriggers t ht]
  rw [admitted, hnone]
  exact if_pos hchecks

theorem updateRow_of {k : Key} {applies : Val k → Bool} {change : Val k → Except Failure (Val k)}
    {old new : Val k} (hrow : Log.row k db = some old) (happlies : applies old = true)
    (hchange : change old = .ok new) : updateRow db k applies change = .ok (1, [⟨k, new⟩]) := by
  simp [updateRow, hrow, happlies, hchange, Except.map]

end Rows

section Statements

variable {cfg : Config} {job : InvoiceIngestJob} {d d' : Document} {r r' : DocumentProcessing}
  {v v' : Invoice} {calls : Calls Out} {w db : Db}

def auditId : Key → Option Id
  | .audit i => some i
  | _ => none

def drawnId : Key → Option Id
  | .drawn i => some i
  | _ => none

theorem exists_unused (un : Key → Option Id) (mk : Id → Key) (hun : ∀ i, un (mk i) = some i)
    (db : Db) : ∃ i, mk i ∉ db.keys := by
  obtain ⟨i, hi⟩ := Infinite.exists_notMem_finset (db.keys.filterMap un).toFinset
  refine ⟨i, fun hk => hi ?_⟩
  rw [List.mem_toFinset]
  exact List.mem_filterMap.mpr ⟨mk i, hk, hun i⟩

theorem updateDocument_alone {c : DocumentChange} (hw : Working job d r v (w ++ db))
    (happlies : c.applies d = true) (hidentity : protectDocumentIdentity d (c.apply d) = true)
    {Q : Nat → Calls Out → Db → Db → Prop}
    (hQ : Working job (c.apply d) r v (⟨.document job.documentId, c.apply d⟩ :: (w ++ db)) →
      Q 1 (⟨.write (.updateDocument job.documentId c), 1⟩ :: calls)
        (⟨.document job.documentId, c.apply d⟩ :: w) db) :
    (update (.updateDocument job.documentId c)).alone (engine cfg) unusedIds Q calls w db := by
  have hkept : Working job (c.apply d) r v (⟨.document job.documentId, c.apply d⟩ :: (w ++ db)) := by
    cases c <;> exact hw.setDocument rfl rfl rfl
  have hchange : changeDocument c d = .ok (c.apply d) := by
    refine admitted_of (fun t ht => ?_) hkept.documentChecks
    cases List.mem_singleton.mp ht
    exact hidentity
  refine alone_answered 1 [⟨.document job.documentId, c.apply d⟩] ⟨0, trivial⟩ (fun choice _ => ?_)
    (hQ hkept)
  exact congrArg some (updateRow_of (k := .document job.documentId) hw.document happlies hchange)

theorem updateProcessing_alone {c : ProcessingChange} (hw : Working job d r v (w ++ db))
    (happlies : c.applies r = true)
    (htransition : validateDocumentProcessingTransition r.state (c.apply r).state = true)
    (hprogress : (c.apply r).progress ≤ 100) {Q : Nat → Calls Out → Db → Db → Prop}
    (hQ : Working job d (c.apply r) v (⟨.processing job.documentId, c.apply r⟩ :: (w ++ db)) →
      Q 1 (⟨.write (.updateProcessing job.documentId c), 1⟩ :: calls)
        (⟨.processing job.documentId, c.apply r⟩ :: w) db) :
    (update (.updateProcessing job.documentId c)).alone (engine cfg) unusedIds Q calls w db := by
  have hkept : Working job d (c.apply r) v
      (⟨.processing job.documentId, c.apply r⟩ :: (w ++ db)) := by
    cases c <;> exact hw.setProcessing rfl
  have hchange : changeProcessing c r = .ok (c.apply r) := by
    refine admitted_of (fun t ht => ?_) (decide_eq_true hprogress)
    cases List.mem_singleton.mp ht
    exact htransition
  refine alone_answered 1 [⟨.processing job.documentId, c.apply r⟩] ⟨0, trivial⟩
    (fun choice _ => ?_) (hQ hkept)
  exact congrArg some
    (updateRow_of (k := .processing job.documentId) hw.processing happlies hchange)

/-- Only the approval of an invoice needs a completed request. -/
theorem updateInvoice_alone {c : InvoiceChange} {status : InvoiceStatus}
    (hw : Working job d r v (w ++ db)) (happlies : c.applies v = true)
    (hresult : c.apply v = { v with status := status }) (hcontract : c.setsContract = false)
    (hstatus : status ≠ .approved) {Q : Nat → Calls Out → Db → Db → Prop}
    (hQ : Working job d r { v with status := status }
        (⟨.invoice job.invoiceId, { v with status := status }⟩ :: (w ++ db)) →
      Q 1 (⟨.write (.updateInvoice job.invoiceId c), 1⟩ :: calls)
        (⟨.invoice job.invoiceId, { v with status := status }⟩ :: w) db) :
    (update (.updateInvoice job.invoiceId c)).alone (engine cfg) unusedIds Q calls w db := by
  have hkept := hw.setStatus status
  have hchange : changeInvoice (w ++ db) job.invoiceId c v = .ok { v with status := status } := by
    rw [changeInvoice, hresult]
    refine admitted_of (fun t ht => ?_) hkept.invoiceChecks
    simp only [List.mem_cons, List.not_mem_nil, or_false] at ht
    rcases ht with rfl | rfl
    · simp [guardInvoiceApproval, hstatus]
    · simp [hcontract]
  refine alone_answered 1 [⟨.invoice job.invoiceId, { v with status := status }⟩] ⟨0, trivial⟩
    (fun choice _ => ?_) (hQ hkept)
  exact congrArg some (updateRow_of (k := .invoice job.invoiceId) hw.invoice happlies hchange)

theorem audit_alone {action : String} (hw : Working job d r v (w ++ db))
    {Q : Unit → Calls Out → Db → Db → Prop}
    (hQ : ∀ a id, Working job d r v (⟨.audit id, a⟩ :: (w ++ db)) →
      Q () (⟨.write (.insertAudit a), ()⟩ :: calls) (⟨.audit id, a⟩ :: w) db) :
    (InvoicePipeline.audit job action).alone (engine cfg) unusedIds Q calls w db := by
  have hinsert : ∀ (a : AuditEvent) (id : Id), Key.audit id ∉ (w ++ db).keys →
      engine cfg (.write (.insertAudit a)) id (w ++ db) = some (.ok ((), [⟨.audit id, a⟩])) := by
    intro a id hfresh
    have hrow : insertRow (w ++ db) (.audit id) a [] = .ok [⟨.audit id, a⟩] := by
      unfold insertRow
      rw [if_neg (by simpa using hfresh)]
      rfl
    show some ((insertRow (w ++ db) (.audit id) a []).map ((), ·)) = _
    rw [hrow]
    rfl
  obtain ⟨id, hid⟩ := exists_unused auditId Key.audit
    (fun _ => rfl) (w ++ db)
  refine alone_sql ⟨id, _, _, hid, hinsert _ id hid⟩ fun id answer hfresh hanswer => ?_
  rw [hinsert _ id hfresh] at hanswer
  cases hanswer
  exact ⟨_, _, rfl, hQ _ id (hw.other _ (by simp) (by simp) (by simp))⟩

end Statements

section Programs

variable {cfg : Config} {job : InvoiceIngestJob} {d : Document} {r : DocumentProcessing}
  {v : Invoice} {calls : Calls Out} {db : Db} {bytes : Bytes}

/-- How an attempt leaves the rows of its document. -/
def Finished (job : InvoiceIngestJob) (state : DocumentProcessingState) (status : InvoiceStatus)
    (db : Db) : Prop :=
  ∃ d r v, Working job d r v db ∧ r.state = state ∧ v.status = status

/-- A document goes to blocking in one transaction. -/
theorem block_alone (hw : Working job d r v db) (hsha : d.sha256 = none)
    (hkey : d.approvedObjectKey = none) (hr : r.state = .scanning) :
    (InvoicePipeline.block job).alone (engine cfg) unusedIds
      (fun _ calls' w db => w = [] ∧ (Infected calls → Infected calls') ∧
        Finished job .blocked .blocked db) calls [] db := by
  refine alone_transaction ?_
  refine alone_bind (updateDocument_alone hw (by exact decide_eq_true hw.documentOrg) ?_ fun hw => ?_)
  · simp [protectDocumentIdentity, hsha, hkey]
  refine alone_bind (updateProcessing_alone (w := [_]) hw (by exact decide_eq_true hw.processingOrg) ?_
    (by exact Nat.le_refl 100) fun hw => ?_)
  · rw [hr]
    rfl
  refine alone_bind (updateInvoice_alone (w := [_, _]) hw (by exact decide_eq_true hw.invoiceOrg) rfl
    rfl (by decide) fun hw => ?_)
  refine audit_alone (w := [_, _, _]) hw fun a id hw => ?_
  refine ⟨rfl, fun hinfected => ?_, _, _, _, hw, rfl, rfl⟩
  obtain ⟨bytes, hmem⟩ := hinfected
  exact ⟨bytes, by simp [hmem]⟩

theorem finishReview_alone {ocr : OcrResult} (hw : Working job d r v db) (hr : r.state = .parsed)
    (hclean : ¬ Infected calls) :
    (InvoicePipeline.finishReview job ocr).alone (engine cfg) unusedIds
      (fun _ calls w db => w = [] ∧ ¬ Infected calls ∧ Finished job .needsReview .needsReview db)
      calls [] db := by
  refine alone_transaction ?_
  refine alone_bind (updateProcessing_alone hw (by exact decide_eq_true hw.processingOrg) ?_
    (by exact Nat.le_refl 100) fun hw => ?_)
  · rw [hr]
    rfl
  refine alone_bind (updateInvoice_alone (w := [_]) hw (by exact decide_eq_true hw.invoiceOrg) rfl rfl
    (by decide) fun hw => ?_)
  refine audit_alone (w := [_, _]) hw fun a id hw => ?_
  refine ⟨rfl, ?_, _, _, _, hw, rfl, rfl⟩
  exact not_infected_cons (not_infected_cons (not_infected_cons hclean (by simp)) (by simp))
    (by simp)

theorem progress_alone {state : DocumentProcessingState} {n : Nat}
    {scan : Option DocumentScanResult} (hw : Working job d r v db)
    (htransition : validateDocumentProcessingTransition r.state state = true) (hn : n ≤ 100)
    (hclean : ¬ Infected calls) {Q : Unit → Calls Out → Db → Db → Prop}
    (hQ : ∀ r' calls, Working job d r' v (⟨.processing job.documentId, r'⟩ :: db) →
      r'.state = state → ¬ Infected calls →
        Q () calls [] (⟨.processing job.documentId, r'⟩ :: db)) :
    (InvoicePipeline.progress job state n scan).alone (engine cfg) unusedIds Q calls [] db := by
  refine alone_bind (alone_auto (updateProcessing_alone hw (by exact decide_eq_true hw.processingOrg)
    (by exact htransition) (by exact hn) fun hw => ?_))
  exact hQ _ _ hw rfl (not_infected_cons hclean (by simp))

/-- Calls outside the database leave the rows alone. -/
theorem external_alone {c : External} (out : c.Out) (rows : Db)
    {Q : c.Out → Calls Out → Db → Db → Prop}
    (hreply : ∀ choice, reply cfg choice db c = some (.ok (out, rows)))
    (hQ : Q out (⟨.call c, out⟩ :: calls) [] (rows ++ db)) :
    (external c).alone (engine cfg) unusedIds Q calls [] db := by
  refine alone_auto (alone_answered out rows ⟨0, trivial⟩ (fun choice _ => hreply choice) ?_)
  rw [List.append_nil]
  exact hQ

/-- Some choice is always possible. -/
theorem anyOf_total {α : Type} (candidates : List α) : ∃ found, anyOf 0 candidates = some found := by
  cases candidates with
  | nil => exact ⟨none, rfl⟩
  | cons a rest => exact ⟨some a, rfl⟩

/-- The promotion finds the earliest document of the same content, or none. -/
theorem findDuplicate_alone {org exclude : Id} {sha : Digest} {w : Db}
    {Q : Option Id → Calls Out → Db → Db → Prop}
    (hQ : ∀ duplicate,
      Q duplicate (⟨.read (.findDuplicate org sha exclude), duplicate⟩ :: calls) w db) :
    (query (.findDuplicate org sha exclude)).alone (engine cfg) unusedIds Q calls w db := by
  refine alone_sql ?_ fun choice answer _ hanswer => ?_
  · obtain ⟨found, hfound⟩ := anyOf_total (least (·.2.createdAt) ((w ++ db).documents.filter
      fun e => e.2.organizationId = org ∧ e.2.sha256 = some sha ∧ e.1 ≠ exclude))
    refine ⟨0, found.map Prod.fst, [], trivial, ?_⟩
    simp only [engine, answer, hfound, Option.map_some]
  · obtain ⟨duplicate, -, rfl⟩ := Option.map_eq_some_iff.mp hanswer
    exact ⟨duplicate, [], rfl, hQ duplicate⟩

theorem promote_alone {key : Id} {sha : Digest} (hw : Working job d r v db)
    (hsha : d.sha256 = none) (hkey : d.approvedObjectKey = none) (hr : r.state = .scanning)
    (hclean : ¬ Infected calls) :
    (InvoicePipeline.promote job key sha).alone (engine cfg) unusedIds
      (fun _ calls w db => w = [] ∧ ¬ Infected calls ∧
        ∃ d r, Working job d r v db ∧ r.state = .parsed) calls [] db := by
  refine alone_transaction (alone_bind ?_)
  refine alone_answered () [⟨.advisory job.organizationId sha, ()⟩] ⟨0, trivial⟩ (fun _ _ => rfl) ?_
  have hw := hw.other (k := .advisory job.organizationId sha) () (by simp) (by simp) (by simp)
  refine alone_bind (findDuplicate_alone fun duplicate => ?_)
  refine alone_bind (updateDocument_alone (w := [_]) hw (by exact decide_eq_true hw.documentOrg) ?_
    fun hw => ?_)
  · simp [protectDocumentIdentity, hsha, hkey]
  refine alone_bind (updateProcessing_alone (w := [_, _]) hw
    (by exact decide_eq_true hw.processingOrg) ?_ (by exact (by decide : 75 ≤ 100))
    fun hw => ?_)
  · rw [hr]
    rfl
  refine ⟨rfl, ?_, _, _, hw, rfl⟩
  refine not_infected_cons (not_infected_cons (not_infected_cons (not_infected_cons hclean ?_) ?_)
    ?_) ?_ <;> simp

theorem downloadApproved_alone {key : Id} (hw : Working job d r v db) (hr : r.state = .parsed)
    (hkey : d.approvedObjectKey = some key) (hobject : Db.object db .approved key = some bytes)
    (hclean : ¬ Infected calls) :
    (InvoicePipeline.downloadApproved job d).alone (engine cfg) unusedIds
      (fun file calls w db => w = [] ∧ ¬ Infected calls ∧ file ≠ none ∧
        ∃ d r, Working job d r v db ∧ r.state = .parsed) calls [] db := by
  refine alone_bind (progress_alone hw ?_ (by decide) hclean fun r' calls hw hstate hclean => ?_)
  · rw [hr]
    rfl
  rw [hkey]
  refine alone_bind ?_
  show (external (.getObject .approved key) >>= fun bytes => pure (some bytes)).alone _ _ _ _ _ _
  refine alone_bind (external_alone bytes [] (fun choice => ?_) ?_)
  · have hsame : Db.object (⟨.processing job.documentId, r'⟩ :: db) .approved key = some bytes := by
      rw [Db.object, Log.row_cons_ne _ _ (by simp)]
      exact hobject
    simp only [reply, hsame]
  · exact ⟨rfl, not_infected_cons hclean (by simp), by simp, _, _, hw, hstate⟩

/-- What the download of a file leaves for the rest of the attempt. -/
def Fetches (job : InvoiceIngestJob) (v : Invoice) (file : Option Bytes) (calls : Calls Out)
    (db : Db) : Prop :=
  match file with
  | none => Infected calls ∧ Finished job .blocked .blocked db
  | some _ => ¬ Infected calls ∧ ∃ d r, Working job d r v db ∧ r.state = .parsed

theorem scanAndPromote_alone (hw : Working job d r v db) (hsha : d.sha256 = none)
    (hkey : d.approvedObjectKey = none) (hr : r.state = .quarantined ∨ r.state = .scanning)
    (hobject : Db.object db .quarantine d.quarantineObjectKey = some bytes)
    (hclean : ¬ Infected calls) :
    (InvoicePipeline.scanAndPromote job cfg d).alone (engine cfg) unusedIds
      (fun file calls w db => w = [] ∧ Fetches job v file calls db) calls [] db := by
  refine alone_bind (progress_alone hw ?_ (by decide) hclean fun r' calls hw hstate hclean => ?_)
  · rcases hr with hr | hr <;> rw [hr] <;> rfl
  refine alone_bind (external_alone bytes [] (fun choice => ?_) ?_)
  · have hsame : Db.object (⟨.processing job.documentId, r'⟩ :: db) .quarantine
        d.quarantineObjectKey = some bytes := by
      rw [Db.object, Log.row_cons_ne _ _ (by simp)]
      exact hobject
    simp only [reply, hsame]
  have hclean := not_infected_cons (c := ⟨.call (.getObject .quarantine d.quarantineObjectKey), bytes⟩)
    hclean (by simp)
  refine alone_bind (alone_auto (alone_sql ⟨0, _, _, trivial, rfl⟩ fun choice answer _ hanswer => ?_))
  cases hanswer
  refine ⟨_, _, rfl, ?_⟩
  generalize decide (choice ≠ 0) = verdict
  cases verdict with
  | false =>
      refine alone_bind (alone_mono (fun _ calls' w db h => ?_) (block_alone hw hsha hkey hstate))
      exact ⟨h.1, h.2.1 ⟨bytes, List.mem_cons_self⟩, h.2.2⟩
  | true =>
      have hclean := not_infected_cons (c := ⟨.call (.scanFile bytes), true⟩) hclean (by simp)
      obtain ⟨key, hdrawn⟩ := exists_unused drawnId Key.drawn
        (fun _ => rfl) (⟨.processing job.documentId, r'⟩ :: db)
      refine alone_bind (alone_auto (alone_sql ⟨key, key, [⟨.drawn key, ()⟩], trivial, ?_⟩
        fun key answer _ hanswer => ?_))
      · exact if_neg hdrawn
      have hfresh : Key.drawn key ∉ (⟨.processing job.documentId, r'⟩ :: db : Db).keys := by
        intro hused
        cases (if_pos hused).symm.trans hanswer
      cases (if_neg hfresh).symm.trans hanswer
      refine ⟨_, _, rfl, ?_⟩
      have hw := hw.other (k := .drawn key) () (by simp) (by simp) (by simp)
      have hclean := not_infected_cons (c := ⟨.call .randomObjectKey, key⟩) hclean (by simp)
      refine alone_bind (external_alone () [⟨.object .approved key, some bytes⟩] (fun _ => rfl) ?_)
      have hw := hw.other (k := .object .approved key) (some bytes) (by simp) (by simp) (by simp)
      have hclean := not_infected_cons (c := ⟨.call (.putObject .approved key bytes), ()⟩) hclean
        (by simp)
      refine alone_bind (alone_tryCatch (alone_mono (fun _ calls w db h => ?_)
        (promote_alone hw hsha hkey hstate hclean)))
      obtain ⟨rfl, hclean, d', r', hw, hstate⟩ := h
      refine alone_bind (external_alone () [⟨.object .quarantine d.quarantineObjectKey, none⟩]
        (fun _ => rfl) ?_)
      exact ⟨rfl, not_infected_cons hclean (by simp), d', r',
        hw.other (k := .object .quarantine d.quarantineObjectKey) none (by simp) (by simp) (by simp),
        hstate⟩

/-- The objects and the columns that an attempt relies on, as interrupted attempts leave them. -/
structure Resumable (cfg : Config) (job : InvoiceIngestJob) (d : Document) (r : DocumentProcessing)
    (v : Invoice) (db : Db) : Prop extends Working job d r v db where
  working : r.state.done = false
  paired : Paired d r
  quarantined : d.storageState = .quarantined →
    ∃ bytes, Db.object db .quarantine d.quarantineObjectKey = some bytes
  approved : d.storageState = .approved →
    ∃ key bytes, d.approvedObjectKey = some key ∧ Db.object db .approved key = some bytes

/-- How an attempt ends: the scanner decides, and only on a document in quarantine. -/
def Resumed (job : InvoiceIngestJob) (d : Document) (calls : Calls Out) (db : Db) : Prop :=
  ¬ Infected calls ∧ Finished job .needsReview .needsReview db ∨
    Infected calls ∧ d.storageState = .quarantined ∧ Finished job .blocked .blocked db

theorem ingest_alone (h : Resumable cfg job d r v db) (hclean : ¬ Infected calls) :
    (InvoicePipeline.ingest job cfg d).alone (engine cfg) unusedIds
      (fun _ calls w db => w = [] ∧ Resumed job d calls db) calls [] db := by
  have hrest : ∀ (file : Option Bytes) (calls : Calls Out) (db : Db),
      (file = none → d.storageState = .quarantined) → Fetches job v file calls db →
      (match file with
      | none => (pure () : Program Unit)
      | some bytes => do
          let ocr ← external (.extractSuggestions bytes d.detectedMimeType)
          InvoicePipeline.finishReview job ocr).alone (engine cfg) unusedIds
            (fun _ calls w db => w = [] ∧ Resumed job d calls db) calls [] db := by
    intro file calls db hstorage hfetches
    cases file with
    | none => exact ⟨rfl, .inr ⟨hfetches.1, hstorage rfl, hfetches.2⟩⟩
    | some bytes =>
        obtain ⟨hclean, d', r', hw, hstate⟩ := hfetches
        refine alone_bind (external_alone (cfg.extractSuggestions bytes d.detectedMimeType) []
          (fun _ => rfl) ?_)
        refine alone_mono (fun _ calls w db hend => ⟨hend.1, .inl hend.2⟩)
          (finishReview_alone hw hstate (not_infected_cons hclean (by simp)))
  have hpaired := h.paired
  rw [InvoicePipeline.ingest]
  unfold Paired at hpaired
  cases hstorage : d.storageState with
  | quarantined =>
      rw [hstorage] at hpaired
      obtain ⟨hkey, hsha, hstate⟩ := hpaired
      obtain ⟨bytes, hobject⟩ := h.quarantined hstorage
      have hr : r.state = .quarantined ∨ r.state = .scanning := by
        rcases hstate with hr | hr | hr
        · exact .inl hr
        · exact .inr hr
        · have hworking := h.working
          rw [hr] at hworking
          cases hworking
      rw [if_pos rfl]
      refine alone_bind (alone_mono (fun file calls w db hend => ?_)
        (scanAndPromote_alone h.toWorking hsha hkey hr hobject hclean))
      obtain ⟨rfl, hfetches⟩ := hend
      exact hrest file calls db (fun _ => hstorage) hfetches
  | approved =>
      rw [hstorage] at hpaired
      obtain ⟨-, -, hstate⟩ := hpaired
      obtain ⟨key, bytes, hkey, hobject⟩ := h.approved hstorage
      have hr : r.state = .parsed := by
        rcases hstate with hr | hr | hr
        · exact hr
        · have hworking := h.working
          rw [hr] at hworking
          cases hworking
        · have hworking := h.working
          rw [hr] at hworking
          cases hworking
      rw [if_neg (by decide)]
      refine alone_bind (alone_mono (fun file calls w db hend => ?_)
        (downloadApproved_alone h.toWorking hr hkey hobject hclean))
      obtain ⟨rfl, hclean, hfile, d', r', hw, hstate⟩ := hend
      refine hrest file calls db (fun hnone => absurd hnone hfile) ?_
      cases file with
      | none => exact absurd rfl hfile
      | some bytes => exact ⟨hclean, d', r', hw, hstate⟩
  | blocked =>
      rw [hstorage] at hpaired
      have hworking := h.working
      rw [hpaired.2.2] at hworking
      cases hworking

theorem process_alone (h : Resumable cfg job d r v db) (final : Bool) :
    (program cfg (.process job final)).alone (engine cfg) unusedIds
      (fun _ calls w db => w = [] ∧ Resumed job d calls db) [] [] db := by
  have hload : ∀ choice, engine cfg (.read (.load job)) choice db = some (.ok (some (d, r), [])) := by
    intro choice
    have hd : rowWhere (fun d => d.invoiceId = job.invoiceId ∧ d.organizationId = job.organizationId)
        (Db.document db job.documentId) = some d :=
      rowWhere_eq_some.mpr ⟨h.document, decide_eq_true ⟨h.belongs, h.documentOrg⟩⟩
    have hr : rowWhere (·.organizationId = d.organizationId) (Db.processing db job.documentId) =
        some r :=
      rowWhere_eq_some.mpr ⟨h.processing, decide_eq_true (h.processingOrg.trans h.documentOrg.symm)⟩
    simp only [engine, answer, hd, Option.bind_eq_bind, Option.bind_some, hr]
    rfl
  rw [program, InvoicePipeline.process]
  refine alone_bind (alone_bind ?_)
  refine alone_auto (alone_answered (some (d, r)) [] ⟨0, trivial⟩ (fun choice _ => hload choice) ?_)
  have hworking : ¬ (r.state = .needsReview ∨ r.state = .manualReview ∨ r.state = .blocked) := by
    have hstate := h.working
    rintro (hr | hr | hr) <;> rw [hr] at hstate <;> cases hstate
  simp only
  rw [if_neg hworking]
  refine alone_tryCatch (alone_mono (fun _ _ _ _ hend => hend) (ingest_alone h ?_))
  refine not_infected_cons (fun hinfected => ?_) (by simp)
  obtain ⟨_, hmem⟩ := hinfected
  exact List.not_mem_nil hmem

end Programs

section Endings

variable {cfg : Config}

/-- Uploads and attempts leave no transaction open. -/
theorem stores_closes {op : Op} (hop : op.stores = true) : (program cfg op).Closes := by
  cases op with
  | upload normalize auth dto file =>
      rw [program]
      refine closes_bind ?_ fun _ => closes_pure _
      rw [InvoicesService.upload]
      refine closes_bind (closes_orThrow _ _) fun file => ?_
      cases InvoicesService.validateDocumentFile cfg normalize file with
      | error failure => exact closes_fail _
      | ok validated =>
          refine closes_bind (closes_auto _) fun documentId => ?_
          refine closes_bind (closes_auto _) fun invoiceId => ?_
          refine closes_bind (closes_auto _) fun quarantineKey => ?_
          refine closes_bind (closes_auto _) fun _ => ?_
          refine closes_bind (closes_tryCatch (closes_transaction _) fun e => ?_) fun invoice => ?_
          · exact closes_bind (closes_tryCatch (closes_auto _) fun _ => closes_pure _)
              fun _ => closes_fail _
          · exact closes_bind (closes_tryCatch (closes_auto _) fun _ => closes_transaction _)
              fun _ => closes_pure _
  | process job final =>
      rw [program]
      refine closes_bind ?_ fun _ => closes_pure _
      have hchange : ∀ (c : ProcessingChange),
          (InvoicePipeline.updateProcessing job c).Closes :=
        fun c => closes_bind (closes_auto _) fun _ => closes_pure _
      have hingest : ∀ d, (InvoicePipeline.ingest job cfg d).Closes := by
        intro d
        have hrest : ∀ file : Option Bytes, (InvoicePipeline.review job d file).Closes := by
          intro file
          cases file with
          | none => exact closes_pure _
          | some bytes => exact closes_bind (closes_auto _) fun _ => closes_transaction _
        rw [InvoicePipeline.ingest]
        split
        · refine closes_bind (closes_bind (hchange _) fun _ => ?_) hrest
          refine closes_bind (closes_auto _) fun bytes => closes_bind (closes_auto _) fun clean => ?_
          split
          · exact closes_bind (closes_transaction _) fun _ => closes_pure _
          · refine closes_bind (closes_auto _) fun key => closes_bind (closes_auto _) fun _ => ?_
            refine closes_bind (closes_tryCatch (closes_transaction _) fun e => ?_) fun _ => ?_
            · exact closes_bind (closes_tryCatch (closes_auto _) fun _ => closes_pure _)
                fun _ => closes_fail _
            · exact closes_bind (closes_auto _) fun _ => closes_pure _
        · refine closes_bind (closes_bind (hchange _) fun _ => ?_) hrest
          exact closes_bind (closes_orThrow _ _) fun key =>
            closes_bind (closes_auto _) fun _ => closes_pure _
      rw [InvoicePipeline.process]
      refine closes_bind (closes_auto _) fun loaded => ?_
      cases loaded with
      | none => exact closes_pure _
      | some found =>
          obtain ⟨d, r⟩ := found
          simp only
          split
          · exact closes_pure _
          · refine closes_tryCatch (hingest d) fun e => ?_
            split
            · refine closes_bind (closes_bind (hchange _) fun _ => ?_) fun _ => closes_fail _
              exact closes_bind (closes_auto _) fun _ => closes_pure _
            · exact closes_bind (closes_transaction _) fun _ => closes_fail _
  | _ => cases hop

end Endings

section Runs

variable {cfg : Config} {s₀ s s₁ t : System} {job : InvoiceIngestJob} {d : Document} {i : Nat}

/-- Attempt `i` goes on: nothing refuses its statements, it can be run to its end, and there
the document is settled. -/
structure GoesOn (cfg : Config) (job : InvoiceIngestJob) (d : Document) (i : Nat) (p : Process)
    (t : System) : Prop where
  proc : t.procs[i]? = some p
  accepted : ∀ q next c e, p.prog = .stmt q next → unusedIds q c (p.writes ++ t.db) →
    engine cfg q c (p.writes ++ t.db) ≠ some (.error e)
  unfailed : ∀ e, p.prog ≠ .fail e
  completes : ∃ t' p' a, Run (machine cfg) (solo unusedIds i) t t' ∧ t'.procs[i]? = some p' ∧
    p'.prog = .ret a
  settled : ∀ a, p.prog = .ret a → Resumed job d (p.calls ++ p.past) t.db

theorem goesOn_of_alone {p : Process} (h : ReadCommitted.Alone (machine cfg) unusedIds
    (fun _ calls w db => w = [] ∧ Resumed job d calls db) t i p) : GoesOn cfg job d i p t := by
  have hreturns := h.returns
  refine ⟨h.proc, fun q next c e hq hfair => ?_, fun e he => ?_, ?_, fun a ha => ?_⟩
  · rw [hq] at hreturns
    intro herror
    obtain ⟨out, rows, hok, -⟩ := hreturns.2 c _ hfair herror
    cases hok
  · rw [he] at hreturns
    exact hreturns
  · obtain ⟨t', p', a, hrun, halone, ha⟩ := h.completes
    exact ⟨t', p', a, hrun, halone.proc, ha⟩
  · rw [ha] at hreturns
    exact hreturns.2

/-- What uploads and attempts leave of a document that is not finished can be resumed. -/
theorem resumable_state (h₀ : Idle Legal s₀) (hdocument : ∀ id, Db.document s₀.db id = none)
    (hprocessing : ∀ id, Db.processing s₀.db id = none)
    (h : Run (machine cfg) (Account.permitted (fun op => op.stores = true) always) s₀ s) {id : Id}
    {r : DocumentProcessing} (hd : Db.document s.db id = some d)
    (hr : Db.processing s.db id = some r) (hworking : r.state.done = false) :
    ∃ v, Resumable cfg ⟨d.invoiceId, id, d.organizationId⟩ d r v s.db := by
  have huploaded := uploaded_of_empty hdocument hprocessing
  obtain ⟨hingestion, -⟩ :=
    ingestion_sound.run ingestion_respects (discipline cfg) h₀ huploaded.ingestion h
  obtain ⟨r', v, hr', hv, htracked⟩ := hingestion.tracked id d hd
  have hsame : r' = r := Option.some.inj (hr'.symm.trans hr)
  subst hsame
  have hwarehouse := Warehouse.run h₀ hdocument hprocessing (Account.respects_permitted storing) h
  obtain ⟨hdocumentChecks, hinvoiceChecks⟩ := uploaded_checks h₀ hdocument h hd hv
  refine ⟨v, ⟨hd, hr, hv, rfl, rfl, htracked.processing, htracked.invoice, hdocumentChecks,
    hinvoiceChecks⟩, hworking, htracked.paired, hwarehouse.quarantined id d hd, fun hstate => ?_⟩
  obtain ⟨key, bytes, hkey, -, hbytes⟩ := hwarehouse.approved id d hd hstate
  exact ⟨key, bytes, hkey, hbytes⟩

/-- After any uploads and attempts, which may have failed or been killed anywhere, the next
attempt on a document that is not finished runs through, and settles it. -/
theorem resumable_ingestion (cfg : Config) {s₀ s s₁ : System} (h₀ : Idle Legal s₀)
    (hdocument : ∀ id, Db.document s₀.db id = none)
    (hprocessing : ∀ id, Db.processing s₀.db id = none)
    (h : Run (machine cfg) (Account.permitted (fun op => op.stores = true) always) s₀ s)
    (hended : ∀ (j : Nat) p, s.procs[j]? = some p → p.prog.finished = true) {id : Id} {d : Document}
    {r : DocumentProcessing} (hd : Db.document s.db id = some d)
    (hr : Db.processing s.db id = some r) (hworking : r.state.done = false) (final : Bool)
    (hstart : Step (machine cfg) s (.start (.process ⟨d.invoiceId, id, d.organizationId⟩ final)) s₁)
    {t : System} (hsolo : Run (machine cfg) (solo unusedIds s.procs.length) s₁ t) :
    ∃ p, GoesOn cfg ⟨d.invoiceId, id, d.organizationId⟩ d s.procs.length p t := by
  have hstate : ∃ v, Resumable cfg ⟨d.invoiceId, id, d.organizationId⟩ d r v s.db :=
    resumable_state h₀ hdocument hprocessing h hd hr hworking
  obtain ⟨v, hresumable⟩ := hstate
  obtain ⟨-, hstoring⟩ := storing_sound.run (Account.respects_permitted storing) (discipline cfg)
    h₀ trivial h
  cases hstart with
  | start op =>
      have halone : ReadCommitted.Alone (machine cfg) unusedIds
          (fun _ calls w db => w = [] ∧ Resumed ⟨d.invoiceId, id, d.organizationId⟩ d calls db)
          (⟨s.db, s.procs ++ [⟨.process ⟨d.invoiceId, id, d.organizationId⟩ final,
            program cfg (.process ⟨d.invoiceId, id, d.organizationId⟩ final), [], []⟩]⟩ : System)
          s.procs.length ⟨.process ⟨d.invoiceId, id, d.organizationId⟩ final,
            program cfg (.process ⟨d.invoiceId, id, d.organizationId⟩ final), [], []⟩ := by
        refine ⟨List.getElem?_concat_length, fun j q hq hj => ?_, process_alone hresumable final⟩
        rcases getElem?_concat_cases hq with rfl | hq
        · rfl
        · exact h.closed (fun op (hop : storing.allowed op) => stores_closes hop) h₀.procs hq
            (hstoring j q hq).allowed (hended j q hq)
      obtain ⟨p, hp⟩ := halone.run hsolo
      exact ⟨p, goesOn_of_alone hp⟩

end Runs
section Sample

/-- The attempt after one that was stopped between its promotion and its delete. -/
theorem resumable_ingestion_sample : ∃ (s s₁ : System) (d : Document) (r : DocumentProcessing)
    (p : Process), Db.document s.db 5 = some d ∧ Db.processing s.db 5 = some r ∧
      d.storageState = .approved ∧ r.state = .parsed ∧
      Step (machine sampleConfig) s (.start (.process ⟨d.invoiceId, 5, d.organizationId⟩ false)) s₁ ∧
      GoesOn sampleConfig ⟨d.invoiceId, 5, d.organizationId⟩ d s.procs.length p s₁ := by
  obtain ⟨s, hrun, hcheck⟩ := exists_run (M := machine sampleConfig) (s := emptyStart)
    (.start sampleUpload :: uploadSteps 0 7 ++
      .start (.process uploadedJob false) :: promotion 1 8 ++
      [.fault 1 (.unavailable "StorageError")] ++ execs 1 [0, 0, 0])
    (fun s => s.procs.all (·.prog.finished) && (Db.document s.db 5).any fun d =>
      (Db.processing s.db 5).any fun r => d.storageState = .approved ∧ r.state = .parsed)
    (permitted_starts Op.stores) (by decide +kernel)
  obtain ⟨hfinished, hcheck⟩ := Bool.and_eq_true_iff.mp hcheck
  obtain ⟨d, hd, hcheck⟩ := (Option.any_eq_true _ _).mp hcheck
  obtain ⟨r, hr, hcheck⟩ := (Option.any_eq_true _ _).mp hcheck
  obtain ⟨hstate, hparsed⟩ := of_decide_eq_true hcheck
  have hended : ∀ (j : Nat) p, s.procs[j]? = some p → p.prog.finished = true :=
    fun j p hp => List.all_eq_true.mp hfinished p (List.mem_of_getElem? hp)
  obtain ⟨p, hp⟩ := resumable_ingestion sampleConfig emptyStart_idle emptyStart_document
    emptyStart_processing hrun hended hd hr (by rw [hparsed]; rfl) false (.start _) .refl
  exact ⟨s, _, d, r, p, hd, hr, hstate, hparsed, .start _, hp⟩

end Sample
end BlocTrust
