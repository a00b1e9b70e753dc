import BlocTrust.Provenance
import BlocTrust.SignedTokens

/-!
Downloads of approved documents.
`issueDownload` hands out a token, `download` checks it, looks the document up once more and fetches
its object after that transaction has committed.  In between uploads and attempts go on; they never
take the object of an approved document away, so a token that is presented in time is honoured
unless the database or the storage is out of reach, and what it opens are the bytes that were
scanned for the document.
-/
namespace BlocTrust.InvoicesService

open ReadCommitted

section Source

/-- What `writeAudit` stores of an act on a document. -/
structure DocumentAudit where
  organizationId : Id
  actorMembershipId : Id
  action : String
  entityType : String
  entityId : Id
  invoiceId : Id
  mimeType : Text
  deriving DecidableEq, Repr

inductive DownloadFailure
  | token (error : Tokens.TokenError)
  | failed (error : Failure)
  deriving DecidableEq, Repr

structure IssuedDownload where
  token : Text
  expiresInSeconds : Nat
  deriving DecidableEq, Repr

structure Download where
  bytes : Bytes
  mimeType : Text
  filename : Text
  deriving DecidableEq, Repr

/-- What the transaction of a request, and the fetch of the object, fail with. -/
structure Outages where
  database : Option String
  storage : Option String
  deriving DecidableEq, Repr

variable (cfg : Config) (k : Tokens.Keys) (auth : AuthContext) (documentId : Id)

def isApproved (organizationId : Id) (d : Document) : Bool :=
  d.organizationId = organizationId ∧ d.storageState = .approved ∧ d.approvedObjectKey ≠ none

def approvedDocument (db : Db) (organizationId documentId : Id) : Except Failure Document :=
  match rowWhere (isApproved organizationId) (db.document documentId) with
  | some document => .ok document
  | none => .error notFound

def documentAudit (action : String) (d : Document) : DocumentAudit where
  organizationId := auth.organizationId
  actorMembershipId := auth.membershipId
  action := action
  entityType := "DOCUMENT"
  entityId := documentId
  invoiceId := d.invoiceId
  mimeType := d.detectedMimeType

/-- The audit rows that the request commits, and its result.  Ids are spelled as the database
spells them. -/
def issueDownload (outage : Option String) (now : Time) (db : Db) :
    List DocumentAudit × Except DownloadFailure IssuedDownload :=
  match outage with
  | some e => ([], .error (.failed (.unavailable e)))
  | none =>
      match approvedDocument db auth.organizationId documentId with
      | .error e => ([], .error (.failed e))
      | .ok document =>
          ([documentAudit auth documentId "DOCUMENT_DOWNLOAD_AUTHORIZED" document],
            .ok
              { token := Tokens.DownloadTokenService.issue k (cfg.uuidText documentId)
                  (cfg.uuidText auth.organizationId) 60 now
                expiresInSeconds := 60 })

/-- A connection that breaks and a status that is not 2xx reject the promise. -/
def getObject (outage : Option String) (db : Db) (key : Option Id) : Except Failure Bytes :=
  match outage with
  | some e => .error (.unavailable e)
  | none =>
      match key.bind (db.object .approved) with
      | some bytes => .ok bytes
      | none => .error (.unavailable "Object storage request failed with status 404.")

def response (document : Document) : Except Failure Bytes → Except DownloadFailure Download
  | .ok stream => .ok ⟨stream, document.detectedMimeType, document.originalFilename⟩
  | .error e => .error (.failed e)

/-- The transaction runs on `db`; the object is fetched when the database is `later`. -/
def download (token : Option Text) (outages : Outages) (now : Time) (db later : Db) :
    List DocumentAudit × Except DownloadFailure Download :=
  match Tokens.DownloadTokenService.verify k token (cfg.uuidText documentId)
      (cfg.uuidText auth.organizationId) now with
  | .error e => ([], .error (.token e))
  | .ok () =>
      match outages.database with
      | some e => ([], .error (.failed (.unavailable e)))
      | none =>
          match approvedDocument db auth.organizationId documentId with
          | .error e => ([], .error (.failed e))
          | .ok found =>
              -- the row is committed before the storage is asked
              ([documentAudit auth documentId "DOCUMENT_DOWNLOADED" found],
                response found (getObject outages.storage later found.approvedObjectKey))

end Source

section Lookups

variable {cfg : Config} {k : Tokens.Keys} {auth : AuthContext} {db later : Db}
  {organizationId documentId : Id} {d : Document} {token : Option Text} {now : Time}
  {outages : Outages} {outage : Option String}

theorem approvedDocument_ok : approvedDocument db organizationId documentId = .ok d ↔
    Db.document db documentId = some d ∧ isApproved organizationId d = true := by
  unfold approvedDocument
  split
  · rename_i document hfound
    obtain ⟨hrow, happroved⟩ := rowWhere_eq_some.mp hfound
    refine ⟨fun h => ?_, fun h => ?_⟩
    · cases h
      exact ⟨hrow, happroved⟩
    · exact congrArg Except.ok (Option.some.inj (hrow.symm.trans h.1))
  · rename_i hnone
    refine ⟨fun h => ?_, fun h => ?_⟩
    · cases h
    · rw [rowWhere_eq_some.mpr h] at hnone
      cases hnone

theorem isApproved_iff : isApproved organizationId d = true ↔
    d.organizationId = organizationId ∧ d.storageState = .approved ∧ d.approvedObjectKey ≠ none := by
  simp [isApproved]

/-- An issued token is one of the token service, for a document that was found. -/
theorem issueDownload_ok {audits : List DocumentAudit} {issued : IssuedDownload}
    (h : issueDownload cfg k auth documentId outage now db = (audits, .ok issued)) :
    ∃ d, approvedDocument db auth.organizationId documentId = .ok d ∧
      issued.token = Tokens.DownloadTokenService.issue k (cfg.uuidText documentId)
        (cfg.uuidText auth.organizationId) 60 now := by
  unfold issueDownload at h
  split at h
  · cases h
  · split at h
    · cases h
    · rename_i document hfound
      cases h
      exact ⟨document, hfound, rfl⟩

theorem issueDownload_found (h : approvedDocument db auth.organizationId documentId = .ok d) :
    issueDownload cfg k auth documentId none now db =
      ([documentAudit auth documentId "DOCUMENT_DOWNLOAD_AUTHORIZED" d],
        .ok ⟨Tokens.DownloadTokenService.issue k (cfg.uuidText documentId)
          (cfg.uuidText auth.organizationId) 60 now, 60⟩) := by
  simp only [issueDownload, h]

/-- The transaction of the download is reached, goes through and finds the document. -/
def Finds (cfg : Config) (k : Tokens.Keys) (auth : AuthContext) (documentId : Id)
    (token : Option Text) (outages : Outages) (now : Time) (db : Db) (d : Document) : Prop :=
  Tokens.DownloadTokenService.verify k token (cfg.uuidText documentId)
    (cfg.uuidText auth.organizationId) now = .ok () ∧
  outages.database = none ∧ approvedDocument db auth.organizationId documentId = .ok d

/-- The audit row is there as soon as the token is accepted and the document is found. -/
theorem download_found (h : Finds cfg k auth documentId token outages now db d) :
    download cfg k auth documentId token outages now db later =
      ([documentAudit auth documentId "DOCUMENT_DOWNLOADED" d],
        response d (getObject outages.storage later d.approvedObjectKey)) := by
  obtain ⟨hverify, hdatabase, hfound⟩ := h
  simp only [download, hverify, hdatabase, hfound]

theorem download_audited
    (h : (download cfg k auth documentId token outages now db later).1 ≠ []) :
    ∃ d, Finds cfg k auth documentId token outages now db d := by
  unfold download at h
  split at h
  · exact absurd rfl h
  · rename_i hverify
    split at h
    · exact absurd rfl h
    · rename_i hdatabase
      split at h
      · exact absurd rfl h
      · rename_i found hfound
        exact ⟨found, hverify, hdatabase, hfound⟩

theorem download_ok {file : Download}
    (h : (download cfg k auth documentId token outages now db later).2 = .ok file) :
    (download cfg k auth documentId token outages now db later).1 ≠ [] := by
  unfold download at h ⊢
  split at h
  · cases h
  · split at h
    · cases h
    · split at h
      · cases h
      · exact List.cons_ne_nil _ _

/-- An object that is there is served unless the storage fails. -/
theorem response_ok {key : Id} {bytes : Bytes} {file : Download}
    (hkey : d.approvedObjectKey = some key) (hbytes : Db.object later .approved key = some bytes) :
    response d (getObject outage later d.approvedObjectKey) = .ok file ↔
      outage = none ∧ file = ⟨bytes, d.detectedMimeType, d.originalFilename⟩ := by
  cases outage with
  | some e => simp [response, getObject]
  | none => simp [response, getObject, hkey, hbytes, eq_comm]

end Lookups

section Runs

variable {cfg : Config} {k : Tokens.Keys} {ok : System → SystemAction → Prop} {s₀ s t u : System}
  {auth auth' : AuthContext} {id : Id} {d : Document} {token : Option Text} {now now' : Time}

/-- Approved documents stay approved, under the same key and fingerprint. -/
theorem approvedDocument_stays (h₀ : Idle Legal s₀) (huploaded : Uploaded s₀.db)
    (hs : Run (machine cfg) ok s₀ s) (ht : Run (machine cfg) ok s t) {organizationId : Id}
    (hd : approvedDocument s.db organizationId id = .ok d) :
    ∃ d', approvedDocument t.db organizationId id = .ok d' ∧
      d'.approvedObjectKey = d.approvedObjectKey ∧ d'.sha256 = d.sha256 := by
  obtain ⟨hrow, happroved⟩ := approvedDocument_ok.mp hd
  obtain ⟨horg, hstate, hkey⟩ := isApproved_iff.mp happroved
  have hchain := (Run.consistent (discipline cfg) h₀.consistent (hs.trans ht)).chain
  obtain ⟨d', hrow', hlater⟩ := document_later hchain ht.suffix hrow
  have hingested : Ingested s.db t.db :=
    ingestion_sound.related ingestion_respects (discipline cfg) h₀ huploaded.ingestion hs ht
  obtain ⟨d'', hrow'', hstate', -⟩ := hingested.storage id d hrow (by rw [hstate]; decide)
  have hsame : d'' = d' := Option.some.inj (hrow''.symm.trans hrow')
  subst hsame
  have hkey' := hlater.approvedObjectKey hkey
  have hfound : isApproved organizationId d'' = true := by
    refine isApproved_iff.mpr ⟨hlater.organizationId.trans horg, hstate'.trans hstate, ?_⟩
    rw [hkey']
    exact hkey
  have hcleared := approved_cleared h₀ huploaded hs hrow hstate
  obtain ⟨i, p, job, final, bytes, -, -, -, -, hsha⟩ := hcleared
  refine ⟨d'', approvedDocument_ok.mpr ⟨hrow', hfound⟩, hkey', hlater.sha256 ?_⟩
  rw [hsha]
  exact Option.some_ne_none _

/-- The object of a document that was found is still there when it is fetched. -/
theorem object_stays (h₀ : Idle Legal s₀) (hdocument : ∀ id, Db.document s₀.db id = none)
    (hprocessing : ∀ id, Db.processing s₀.db id = none)
    (hobject : ∀ key, Db.object s₀.db .approved key = none) (hok : storing.Respects ok)
    (ht : Run (machine cfg) ok s₀ t) (hu : Run (machine cfg) ok t u) {organizationId : Id}
    (hd : approvedDocument t.db organizationId id = .ok d) :
    ∃ key bytes, d.approvedObjectKey = some key ∧ d.sha256 = some (cfg.sha256 bytes) ∧
      Db.object u.db .approved key = some bytes ∧ ScannedFor u id bytes := by
  have huploaded := uploaded_of_empty hdocument hprocessing
  obtain ⟨d', hd', hkey, hsha⟩ := approvedDocument_stays h₀ huploaded ht hu hd
  obtain ⟨hrow, happroved⟩ := approvedDocument_ok.mp hd'
  rw [← hkey, ← hsha]
  exact approved_scanned h₀ hdocument hprocessing hobject hok (ht.trans hu) hrow
    (isApproved_iff.mp happroved).2.1

/-- What a download has served. -/
structure Served (cfg : Config) (k : Tokens.Keys) (auth : AuthContext) (id : Id)
    (token : Option Text) (now : Time) (db : Db) (s : System) (audits : List DocumentAudit)
    (file : Download) : Prop where
  document : ∃ d, approvedDocument db auth.organizationId id = .ok d ∧
    audits = [documentAudit auth id "DOCUMENT_DOWNLOADED" d] ∧
    d.sha256 = some (cfg.sha256 file.bytes) ∧ file.mimeType = d.detectedMimeType ∧
    file.filename = d.originalFilename
  scanned : ScannedFor s id file.bytes
  issued : ∀ calls, Tokens.Unforged k calls (token.getD []) → ∃ (ttl : Int) (issued : Time),
    .issue (cfg.uuidText id) (cfg.uuidText auth.organizationId) ttl issued ∈ calls ∧
      (now : Int) ≤ issued + ttl * 1000

/-- A download that serves has left its row, and the storage has answered it. -/
theorem download_serves (h₀ : Idle Legal s₀) (hdocument : ∀ id, Db.document s₀.db id = none)
    (hprocessing : ∀ id, Db.processing s₀.db id = none)
    (hobject : ∀ key, Db.object s₀.db .approved key = none) (hok : storing.Respects ok)
    (ht : Run (machine cfg) ok s₀ t) (hu : Run (machine cfg) ok t u) {outages : Outages}
    {file : Download} (h : (download cfg k auth id token outages now t.db u.db).2 = .ok file) :
    (download cfg k auth id token outages now t.db u.db).1 ≠ [] ∧ outages.storage = none ∧
      Served cfg k auth id token now t.db u
        (download cfg k auth id token outages now t.db u.db).1 file := by
  obtain ⟨d, hfinds⟩ := download_audited (download_ok h)
  obtain ⟨key, bytes, hkey, hsha, hbytes, hscanned⟩ :=
    object_stays h₀ hdocument hprocessing hobject hok ht hu hfinds.2.2
  rw [download_found hfinds] at h ⊢
  obtain ⟨hstorage, rfl⟩ := (response_ok hkey hbytes).mp h
  exact ⟨List.cons_ne_nil _ _, hstorage, ⟨d, hfinds.2.2, rfl, hsha, rfl, rfl⟩, hscanned,
    fun calls hunforged => Tokens.download_sound hunforged hfinds.1⟩

/-- While uploads and attempts go on, a download leaves an audit row exactly if its token is
accepted and its transaction finds the document, and then serves it unless the storage fails; it
serves nothing but scanned bytes under a token that was issued for them, and is not refused in the
minute after its token was issued. -/
theorem downloads_served (cfg : Config) (hk : ∀ key bytes, k.hmac key bytes ≠ [])
    (h₀ : Idle Legal s₀) (hdocument : ∀ id, Db.document s₀.db id = none)
    (hprocessing : ∀ id, Db.processing s₀.db id = none)
    (hobject : ∀ key, Db.object s₀.db .approved key = none)
    (hs : Run (machine cfg) (Account.permitted (fun op => op.stores = true) always) s₀ s)
    (ht : Run (machine cfg) (Account.permitted (fun op => op.stores = true) always) s t)
    (hu : Run (machine cfg) (Account.permitted (fun op => op.stores = true) always) t u) :
    (∀ auth id token outages now,
      ((download cfg k auth id token outages now t.db u.db).1 ≠ [] ↔
        ∃ d, Finds cfg k auth id token outages now t.db d) ∧
      ((∃ file, (download cfg k auth id token outages now t.db u.db).2 = .ok file) ↔
        (download cfg k auth id token outages now t.db u.db).1 ≠ [] ∧ outages.storage = none)) ∧
    (∀ auth id token outages now audits file,
      download cfg k auth id token outages now t.db u.db = (audits, .ok file) →
        Served cfg k auth id token now t.db u audits file) ∧
    ∀ (auth auth' : AuthContext) id outage (now now' : Time) audits issued,
      issueDownload cfg k auth id outage now s.db = (audits, .ok issued) →
        auth'.organizationId = auth.organizationId → now' ≤ now + 60000 →
          ∃ d audit file, approvedDocument s.db auth.organizationId id = .ok d ∧
            d.sha256 = some (cfg.sha256 file.bytes) ∧
            download cfg k auth' id (some issued.token) ⟨none, none⟩ now' t.db u.db =
              ([audit], .ok file) := by
  have hok : storing.Respects (Account.permitted (E := Failure) (R := Response)
      (fun op => op.stores = true) always) := Account.respects_permitted storing
  have hstays : ∀ {organizationId id : Id} {d : Document},
      approvedDocument t.db organizationId id = .ok d → ∃ key bytes,
        d.approvedObjectKey = some key ∧ d.sha256 = some (cfg.sha256 bytes) ∧
          Db.object u.db .approved key = some bytes ∧ ScannedFor u id bytes :=
    fun hd => object_stays h₀ hdocument hprocessing hobject hok (hs.trans ht) hu hd
  have hserves : ∀ {auth : AuthContext} {id : Id} {token outages now} {file : Download},
      (download cfg k auth id token outages now t.db u.db).2 = .ok file →
        (download cfg k auth id token outages now t.db u.db).1 ≠ [] ∧ outages.storage = none ∧
          Served cfg k auth id token now t.db u
            (download cfg k auth id token outages now t.db u.db).1 file :=
    fun h => download_serves h₀ hdocument hprocessing hobject hok (hs.trans ht) hu h
  refine ⟨fun auth id token outages now => ⟨⟨download_audited, ?_⟩, ?_, ?_⟩,
    fun auth id token outages now audits file h => ?_,
    fun auth auth' id outage now now' audits issued h horg hnow => ?_⟩
  · rintro ⟨d, hfinds⟩
    rw [download_found hfinds]
    exact List.cons_ne_nil _ _
  · rintro ⟨file, hfile⟩
    obtain ⟨haudited, hstorage, -⟩ := hserves hfile
    exact ⟨haudited, hstorage⟩
  · rintro ⟨haudited, hstorage⟩
    obtain ⟨d, hfinds⟩ := download_audited haudited
    obtain ⟨key, bytes, hkey, -, hbytes, -⟩ := hstays hfinds.2.2
    rw [download_found hfinds]
    exact ⟨_, (response_ok hkey hbytes).mpr ⟨hstorage, rfl⟩⟩
  · obtain ⟨-, -, hserved⟩ := hserves (congrArg Prod.snd h)
    rwa [h] at hserved
  · obtain ⟨d, hd, htoken⟩ := issueDownload_ok h
    obtain ⟨d', hd', -, hsha'⟩ :=
      approvedDocument_stays h₀ (uploaded_of_empty hdocument hprocessing) hs ht hd
    obtain ⟨key, bytes, hkey, hsha, hbytes, -⟩ := hstays hd'
    have hverify : Tokens.DownloadTokenService.verify k (some issued.token) (cfg.uuidText id)
        (cfg.uuidText auth'.organizationId) now' = .ok () := by
      rw [htoken, horg]
      have hfresh : (now' : Int) ≤ now + 60 * 1000 := by exact_mod_cast hnow
      exact Tokens.download_fresh hk hfresh
    rw [← horg] at hd'
    have hfinds : Finds cfg k auth' id (some issued.token) ⟨none, none⟩ now' t.db d' :=
      ⟨hverify, rfl, hd'⟩
    refine ⟨d, _, ⟨bytes, d'.detectedMimeType, d'.originalFilename⟩, hd, hsha'.symm.trans hsha,
      (download_found hfinds).trans (Prod.ext rfl ?_)⟩
    exact (response_ok hkey hbytes).mpr ⟨rfl, rfl⟩

end Runs

section Sample

theorem emptyStart_object (key : Id) : Db.object emptyStart.db .approved key = none := by
  have hnone : Log.row (.object .approved key) emptyStart.db = none :=
    Log.row_eq_none.mpr (by simp [emptyStart, sampleDb, List.keys])
  rw [Db.object, hnone]
  rfl

/-- One owner asks for the token of an uploaded document, another one uses it a minute later, and
once more when the storage is out of reach, which leaves an audit row too. -/
theorem downloads_served_sample : ∃ (s : System) (issued : IssuedDownload) (audit : DocumentAudit)
    (file : Download),
    (issueDownload sampleConfig Tokens.sampleKeys (sampleAuth 1) 5 none 0 s.db).2 = .ok issued ∧
      download sampleConfig Tokens.sampleKeys (sampleAuth 2) 5 (some issued.token) ⟨none, none⟩ 60000
        s.db s.db = ([audit], .ok file) ∧ ScannedFor s 5 file.bytes ∧
      (download sampleConfig Tokens.sampleKeys (sampleAuth 2) 5 (some issued.token)
        ⟨none, some "ECONNREFUSED"⟩ 60000 s.db s.db).1 ≠ [] ∧
      ¬ ∃ file, (download sampleConfig Tokens.sampleKeys (sampleAuth 2) 5 (some issued.token)
        ⟨none, some "ECONNREFUSED"⟩ 60000 s.db s.db).2 = .ok file := by
  obtain ⟨s, hrun, hcheck⟩ := exists_run (M := machine sampleConfig) (s := emptyStart)
    (.start sampleUpload :: uploadSteps 0 7 ++
      .start (.process uploadedJob true) :: promotion 1 8)
    (fun s => (rowWhere (isApproved 1) (Db.document s.db 5)).isSome) (permitted_starts Op.stores)
    (by decide +kernel)
  obtain ⟨d, hd⟩ := Option.isSome_iff_exists.mp hcheck
  have hfound : approvedDocument s.db (sampleAuth 1).organizationId 5 = .ok d :=
    approvedDocument_ok.mpr (rowWhere_eq_some.mp hd)
  have hissue : issueDownload sampleConfig Tokens.sampleKeys (sampleAuth 1) 5 none 0 s.db = _ :=
    issueDownload_found hfound
  obtain ⟨haudits, hserved, hfresh⟩ := downloads_served (k := Tokens.sampleKeys) sampleConfig
    (fun _ _ => List.cons_ne_nil _ _) emptyStart_idle emptyStart_document emptyStart_processing
    emptyStart_object hrun .refl .refl
  obtain ⟨-, audit, file, -, -, hdownload⟩ :=
    hfresh (sampleAuth 1) (sampleAuth 2) 5 none 0 60000 _ _ hissue rfl (by decide)
  obtain ⟨hrow, -⟩ := (haudits _ _ _ _ _).2.mp ⟨file, congrArg Prod.snd hdownload⟩
  obtain ⟨d', hverify, -, hd'⟩ := (haudits _ _ _ _ _).1.mp hrow
  refine ⟨s, _, audit, file, congrArg Prod.snd hissue, hdownload,
    (hserved _ _ _ _ _ _ _ hdownload).scanned, ?_, fun hfile => ?_⟩
  · exact (haudits _ _ _ _ _).1.mpr ⟨d', hverify, rfl, hd'⟩
  · cases ((haudits _ _ _ _ _).2.mp hfile).2

end Sample
end BlocTrust.InvoicesService
