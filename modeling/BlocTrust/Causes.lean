import BlocTrust.Commits

/-!
Which call changes a row, and what it has seen by then.
For each table with `UPDATE`s: the change of a row that a commit makes, and the call that
makes it together with the answers it was given.
-/
namespace BlocTrust

open ReadCommitted

variable {cfg : Config} {db : Db} {p : Process} {op : Op} {past cur : Calls Out}

section Invoices

variable {i : Id} {c : InvoiceChange} {old new : Invoice}

/-- The transaction of `p` changes the committed invoice `old` by the update `c`. -/
structure ChangesInvoice (cfg : Config) (db : Db) (p : Process) (i : Id) (c : InvoiceChange)
    (old new : Invoice) : Prop where
  committed : Db.invoice db i = some old
  applies : c.applies old = true
  result : new = c.apply old
  did : Did p.calls (.updateInvoice i c) 1
  event : ∃ newer older rows base,
    p.current = newer ++ ⟨.write (.updateInvoice i c), (1 : Nat), rows, base⟩ :: older ∧
      Db.invoice base i = some old ∧
      guardInvoiceApproval (writes older ++ base) i old new = true ∧
      (conduct cfg p.op).before p.past (older.map Event.call) (.write (.updateInvoice i c))

/-- The transaction of `p` inserts an invoice: it is an upload. -/
structure InsertsInvoice (db : Db) (p : Process) (i : Id) (v : Invoice) : Prop where
  fresh : Key.invoice i ∉ db.keys
  status : v.status = .processing
  version : v.version = 1
  did : Did p.calls (.insertInvoice i v) ()
  op : ∃ normalize auth dto file, p.op = .upload normalize auth dto file ∧
    v.organizationId = auth.organizationId

theorem conduct_insertInvoice {v : Invoice}
    (h : (conduct cfg op).before past cur (.write (.insertInvoice i v))) :
    v.status = .processing ∧ v.version = 1 ∧ ∃ normalize auth dto file,
      op = .upload normalize auth dto file ∧ v.organizationId = auth.organizationId := by
  cases op with
  | upload normalize auth dto file =>
      exact ⟨h.2.1, h.2.2.1, normalize, auth, dto, file, rfl, h.1⟩
  | _ => exact h.elim

theorem conduct_updateInvoice
    (h : (conduct cfg op).before past cur (.write (.updateInvoice i c))) :
    InvoiceUntouched cur i := by
  cases op with
  | submit auth id dto key => exact h.2.1
  | decide auth r dto key =>
      cases c with
      | decided outcome => exact h.1
      | returned version => exact h.1
      | _ => exact h.elim
  | updatePolicy auth dto => exact h.elim
  | upload normalize auth dto file => exact h.2.1
  | update auth id dto => exact h.2.1
  | addBankVersion auth v dto => exact h.2.1
  | process job final => exact h.2.1

/-- An upload changes an invoice in another transaction than the one that inserts it. -/
theorem conduct_updateInvoice_insert
    (h : (conduct cfg op).before past cur (.write (.updateInvoice i c)))
    {normalize : Text → Text} {auth : AuthContext} {dto : InvoicesService.UploadInvoiceDto}
    {file : Option InvoicesService.UploadedFile} (hop : op = .upload normalize auth dto file)
    (j : Id) (v : Invoice) : ¬ Did cur (.insertInvoice j v) () := by
  subst hop
  exact h.2.2.1 j v

variable {n : Nat} {newer older : List (Event Val Out)} {rows base : Db}

/-- An update of an invoice is the first to write it in its transaction. -/
theorem invoice_first (h : ProcOk (machine cfg) (conduct cfg) Legal db p)
    (hcur : p.current = newer ++ ⟨.write (.updateInvoice i c), n, rows, base⟩ :: older)
    (hbefore : (conduct cfg p.op).before p.past (older.map Event.call)
      (.write (.updateInvoice i c))) : Key.invoice i ∉ (writes older).keys := by
  refine first_write h hcur rfl fun newer' older' u' out' rows' base' hcur' hbefore' hdid => ?_
  cases u' with
  | insertInvoice id v =>
      obtain ⟨-, -, normalize, auth, dto, file, hop, -⟩ := conduct_insertInvoice hbefore'
      exact absurd hdid (conduct_updateInvoice_insert hbefore hop id v)
  | updateInvoice id c' =>
      intro heq
      cases heq
      exact conduct_updateInvoice hbefore c' out' hdid
  | _ => exact Key.noConfusion

theorem invoice_changed (h : ProcOk (machine cfg) (conduct cfg) Legal db p)
    (hcur : p.current = newer ++ ⟨.write (.updateInvoice i c), n, rows, base⟩ :: older)
    (hbefore : (conduct cfg p.op).before p.past (older.map Event.call)
      (.write (.updateInvoice i c)))
    (hwrote : Wrote (writes older ++ base) (.updateInvoice i c) n rows)
    (hrow : Log.row (.invoice i) rows = some new) :
    n = 1 ∧ ∃ old, ChangesInvoice cfg db p i c old new := by
  have hfirst := invoice_first h hcur hbefore
  cases hwrote with
  | updateInvoice hupdated =>
      obtain ⟨rfl, old, hold, hbase, happlies, hchange⟩ := event_updated h hcur hfirst hupdated hrow
      obtain ⟨hresult, hguard⟩ := changeInvoice_ok hchange
      have hdid : Did p.calls (.updateInvoice i c) 1 := call_of_event hcur
      exact ⟨rfl, old, hold, happlies, hresult, hdid, newer, older, rows, base, hcur, hbase, hguard,
        hbefore⟩

/-- The invoices after a commit. -/
theorem commit_invoice (h : ProcOk (machine cfg) (conduct cfg) Legal db p)
    (hnew : Db.invoice (p.writes ++ db) i = some new) :
    (Key.invoice i ∉ p.writes.keys ∧ Db.invoice db i = some new) ∨ InsertsInvoice db p i new ∨
      ∃ c old, ChangesInvoice cfg db p i c old new := by
  rcases commit_cases h rfl hnew with hold | ⟨u, out, newer, older, rows, base, hw⟩
  · exact .inl hold
  have htarget := hw.target
  cases u with
  | insertInvoice id v =>
      cases htarget
      cases hw.wrote with
      | insertInvoice hinserted =>
          obtain ⟨rfl, hfresh⟩ := hw.inserted hinserted
          obtain ⟨hstatus, hversion, hop⟩ := conduct_insertInvoice hw.before
          exact .inr (.inl ⟨hfresh, hstatus, hversion, hw.did, hop⟩)
  | updateInvoice id c =>
      cases htarget
      obtain ⟨-, old, hchanges⟩ := invoice_changed h hw.current hw.before hw.wrote hw.row
      exact .inr (.inr ⟨c, old, hchanges⟩)
  | _ => cases htarget

/-- An update that found its invoice changes it in the commit. -/
theorem did_updateInvoice (h : ProcOk (machine cfg) (conduct cfg) Legal db p)
    (hd : Did p.calls (.updateInvoice i c) n) (hn : n ≠ 0) :
    ∃ old new, ChangesInvoice cfg db p i c old new ∧ Db.invoice (p.writes ++ db) i = some new := by
  obtain ⟨newer, older, rows, base, hcur, hwrote, hbefore⟩ := did_event h hd
  have hwrites := hwrote
  cases hwrites with
  | updateInvoice hupdated =>
      cases hupdated with
      | missed _ => exact absurd rfl hn
      | wrote old new hrow happlies hchange =>
          obtain ⟨-, old', hchanges⟩ :=
            invoice_changed h hcur hbefore hwrote (Log.row_cons_self ..)
          have hkey : Key.invoice i ∈ p.writes.keys :=
            written_key hcur List.mem_cons_self
          obtain ⟨w, hw⟩ := Log.exists_row_of_mem_keys hkey
          have hfinal : Db.invoice (p.writes ++ db) i = some w := Log.row_append_of_row _ hw
          rcases commit_invoice h hfinal with ⟨hnot, -⟩ | hinserts | ⟨c', old'', hchanges'⟩
          · exact absurd hkey hnot
          · exact absurd (Log.mem_keys_of_row hchanges.committed) hinserts.fresh
          · have hsame := same_update h hd hchanges'.did
              (fun _ _ hb => conduct_updateInvoice hb c' 1)
              (fun _ _ hb => conduct_updateInvoice hb c 1)
            cases hsame
            have hold := hchanges.committed.symm.trans hchanges'.committed
            cases hold
            rw [hchanges'.result, ← hchanges.result] at hfinal
            exact ⟨old', new, hchanges, hfinal⟩

end Invoices

section Requests

variable {id : Id} {c : RequestChange} {old new : ApprovalRequest}

/-- The transaction of `p` changes the committed request `old` by the update `c`. -/
structure ChangesRequest (cfg : Config) (db : Db) (p : Process) (id : Id) (c : RequestChange)
    (old new : ApprovalRequest) : Prop where
  committed : Db.request db id = some old
  applies : c.applies old = true
  result : new = c.apply old
  frozen : old.status = .pending ∨ new.status = old.status
  did : Did p.calls (.updateRequest id c) 1
  event : ∃ newer older rows base,
    p.current = newer ++ ⟨.write (.updateRequest id c), (1 : Nat), rows, base⟩ :: older ∧
      Db.request base id = some old ∧
      (conduct cfg p.op).before p.past (older.map Event.call) (.write (.updateRequest id c))

/-- The transaction of `p` inserts a request: it is a submission. -/
structure InsertsRequest (db : Db) (p : Process) (id : Id) (r : ApprovalRequest) : Prop where
  fresh : Key.request id ∉ db.keys
  did : Did p.calls (.insertRequest r) id
  op : ∃ auth i dto key, p.op = .submit auth i dto key ∧
    ∃ cur, cur ⊆ p.calls ∧ RequestReady auth i dto cur r

theorem conduct_insertRequest {r : ApprovalRequest}
    (h : (conduct cfg op).before past cur (.write (.insertRequest r))) :
    ∃ auth i dto key, op = .submit auth i dto key ∧ RequestReady auth i dto cur r := by
  cases op with
  | submit auth i dto key => exact ⟨auth, i, dto, key, rfl, h⟩
  | _ => exact h.elim

theorem conduct_updateRequest
    (h : (conduct cfg op).before past cur (.write (.updateRequest id c))) :
    RequestUntouched cur id ∧ ∀ auth i dto key, op ≠ .submit auth i dto key := by
  cases op with
  | decide auth r dto key =>
      cases c with
      | invalidated reason => exact ⟨h.2.1, fun _ _ _ _ => Op.noConfusion⟩
      | completed outcome t => exact ⟨h.2.1, fun _ _ _ _ => Op.noConfusion⟩
  | update auth i dto => exact ⟨h.2.1, fun _ _ _ _ => Op.noConfusion⟩
  | addBankVersion auth v dto => exact ⟨h.2.1, fun _ _ _ _ => Op.noConfusion⟩
  | _ => exact h.elim

variable {n : Nat} {newer older : List (Event Val Out)} {rows base : Db}

theorem request_first (h : ProcOk (machine cfg) (conduct cfg) Legal db p)
    (hcur : p.current = newer ++ ⟨.write (.updateRequest id c), n, rows, base⟩ :: older)
    (hbefore : (conduct cfg p.op).before p.past (older.map Event.call)
      (.write (.updateRequest id c))) : Key.request id ∉ (writes older).keys := by
  obtain ⟨huntouched, hsubmit⟩ := conduct_updateRequest hbefore
  refine first_write h hcur rfl fun newer' older' u' out' rows' base' hcur' hbefore' hdid => ?_
  cases u' with
  | insertRequest r =>
      obtain ⟨auth, i, dto, key, hop, -⟩ := conduct_insertRequest hbefore'
      exact absurd hop (hsubmit auth i dto key)
  | updateRequest id' c' =>
      intro heq
      cases heq
      exact huntouched c' out' hdid
  | _ => exact Key.noConfusion

theorem request_changed (h : ProcOk (machine cfg) (conduct cfg) Legal db p)
    (hcur : p.current = newer ++ ⟨.write (.updateRequest id c), n, rows, base⟩ :: older)
    (hbefore : (conduct cfg p.op).before p.past (older.map Event.call)
      (.write (.updateRequest id c)))
    (hwrote : Wrote (writes older ++ base) (.updateRequest id c) n rows)
    (hrow : Log.row (.request id) rows = some new) :
    n = 1 ∧ ∃ old, ChangesRequest cfg db p id c old new := by
  have hfirst := request_first h hcur hbefore
  cases hwrote with
  | updateRequest hupdated =>
      obtain ⟨rfl, old, hold, hbase, happlies, hchange⟩ := event_updated h hcur hfirst hupdated hrow
      obtain ⟨hresult, hfrozen⟩ := changeRequest_ok hchange
      have hdid : Did p.calls (.updateRequest id c) 1 := call_of_event hcur
      refine ⟨rfl, old, hold, happlies, hresult, ?_, hdid, newer, older, rows, base, hcur, hbase,
        hbefore⟩
      simpa [validateApprovalRequestUpdate] using hfrozen

/-- The requests after a commit. -/
theorem commit_request (h : ProcOk (machine cfg) (conduct cfg) Legal db p)
    (hnew : Db.request (p.writes ++ db) id = some new) :
    (Key.request id ∉ p.writes.keys ∧ Db.request db id = some new) ∨
      InsertsRequest db p id new ∨ ∃ c old, ChangesRequest cfg db p id c old new := by
  rcases commit_cases h rfl hnew with hold | ⟨u, out, newer, older, rows, base, hw⟩
  · exact .inl hold
  have htarget := hw.target
  cases u with
  | insertRequest r =>
      cases htarget
      cases hw.wrote with
      | insertRequest _ hinserted =>
          obtain ⟨rfl, hfresh⟩ := hw.inserted hinserted
          obtain ⟨auth, i, dto, key, hop, hready⟩ := conduct_insertRequest hw.before
          exact .inr (.inl ⟨hfresh, hw.did, auth, i, dto, key, hop, _,
            calls_subset_of_event hw.current, hready⟩)
  | updateRequest id' c =>
      cases htarget
      obtain ⟨-, old, hchanges⟩ := request_changed h hw.current hw.before hw.wrote hw.row
      exact .inr (.inr ⟨c, old, hchanges⟩)
  | _ => cases htarget

/-- An update that found its request changes it in the commit. -/
theorem did_updateRequest (h : ProcOk (machine cfg) (conduct cfg) Legal db p)
    (hd : Did p.calls (.updateRequest id c) n) (hn : n ≠ 0) :
    ∃ old new, ChangesRequest cfg db p id c old new ∧
      Db.request (p.writes ++ db) id = some new := by
  obtain ⟨newer, older, rows, base, hcur, hwrote, hbefore⟩ := did_event h hd
  have hwrites := hwrote
  cases hwrites with
  | updateRequest hupdated =>
      cases hupdated with
      | missed _ => exact absurd rfl hn
      | wrote old new hrow happlies hchange =>
          obtain ⟨-, old', hchanges⟩ :=
            request_changed h hcur hbefore hwrote (Log.row_cons_self ..)
          have hkey : Key.request id ∈ p.writes.keys :=
            written_key hcur List.mem_cons_self
          obtain ⟨w, hw⟩ := Log.exists_row_of_mem_keys hkey
          have hfinal : Db.request (p.writes ++ db) id = some w := Log.row_append_of_row _ hw
          rcases commit_request h hfinal with ⟨hnot, -⟩ | hinserts | ⟨c', old'', hchanges'⟩
          · exact absurd hkey hnot
          · exact absurd (Log.mem_keys_of_row hchanges.committed) hinserts.fresh
          · have hsame := same_update h hd hchanges'.did
              (fun _ _ hb => (conduct_updateRequest hb).1 c' 1)
              (fun _ _ hb => (conduct_updateRequest hb).1 c 1)
            cases hsame
            have hold := hchanges.committed.symm.trans hchanges'.committed
            cases hold
            rw [hchanges'.result, ← hchanges.result] at hfinal
            exact ⟨old', new, hchanges, hfinal⟩

/-- A submission that has inserted a request commits it as it is. -/
theorem did_insertRequest (h : ProcOk (machine cfg) (conduct cfg) Legal db p) {r : ApprovalRequest}
    (hd : Did p.calls (.insertRequest r) id) :
    InsertsRequest db p id r ∧ Db.request (p.writes ++ db) id = some r := by
  obtain ⟨newer, older, rows, base, hcur, hwrote, hbefore⟩ := did_event h hd
  obtain ⟨auth, i, dto, key, hop, hready⟩ := conduct_insertRequest hbefore
  cases hwrote with
  | insertRequest _ hinserted =>
      have hfresh := inserted_fresh h hcur hinserted
      have hkey : Key.request id ∈ p.writes.keys :=
        written_key hcur (Log.mem_keys_of_row hinserted.row)
      obtain ⟨w, hw⟩ := Log.exists_row_of_mem_keys hkey
      have hfinal : Db.request (p.writes ++ db) id = some w := Log.row_append_of_row _ hw
      rcases commit_request h hfinal with ⟨hnot, -⟩ | hinserts | ⟨c, old, hch⟩
      · exact absurd hkey hnot
      · have hsame := same_update h hd hinserts.did
          (fun past cur hb => by rw [hop] at hb; exact hb.once w id)
          (fun past cur hb => by rw [hop] at hb; exact hb.once r id)
        cases hsame
        exact ⟨hinserts, hfinal⟩
      · exact absurd (Log.mem_keys_of_row hch.committed) hfresh

end Requests

section Documents

variable {id : Id} {c : DocumentChange} {old new : Document}

/-- The transaction of `p` changes the committed document `old` by the update `c`. -/
structure ChangesDocument (cfg : Config) (db : Db) (p : Process) (id : Id) (c : DocumentChange)
    (old new : Document) : Prop where
  committed : Db.document db id = some old
  applies : c.applies old = true
  result : new = c.apply old
  identity : protectDocumentIdentity old new = true
  did : Did p.calls (.updateDocument id c) 1
  op : ∃ job final, p.op = .process job final ∧ id = job.documentId
  event : ∃ newer older rows base,
    p.current = newer ++ ⟨.write (.updateDocument id c), (1 : Nat), rows, base⟩ :: older ∧
      Db.document base id = some old ∧
      (conduct cfg p.op).before p.past (older.map Event.call) (.write (.updateDocument id c))

/-- The transaction of `p` inserts a document: it is an upload. -/
structure InsertsDocument (db : Db) (p : Process) (id : Id) (d : Document) : Prop where
  fresh : Key.document id ∉ db.keys
  did : Did p.calls (.insertDocument id d) ()
  quarantined : d.storageState = .quarantined ∧ d.approvedObjectKey = none ∧ d.sha256 = none ∧
    d.duplicateOfDocumentId = none
  op : ∃ normalize auth dto file, p.op = .upload normalize auth dto file ∧
    d.organizationId = auth.organizationId ∧ ∃ v, Did p.calls (.insertInvoice d.invoiceId v) ()

theorem conduct_insertDocument {d : Document}
    (h : (conduct cfg op).before past cur (.write (.insertDocument id d))) :
    (d.storageState = .quarantined ∧ d.approvedObjectKey = none ∧ d.sha256 = none ∧
      d.duplicateOfDocumentId = none) ∧ ∃ normalize auth dto file,
      op = .upload normalize auth dto file ∧ d.organizationId = auth.organizationId ∧
        ∃ v, Did cur (.insertInvoice d.invoiceId v) () := by
  cases op with
  | upload normalize auth dto file =>
      exact ⟨⟨h.2.1, h.2.2.1, h.2.2.2.1, h.2.2.2.2.1⟩, normalize, auth, dto, file, rfl, h.1,
        h.2.2.2.2.2.1⟩
  | _ => exact h.elim

theorem conduct_updateDocument
    (h : (conduct cfg op).before past cur (.write (.updateDocument id c))) :
    (∃ job final, op = .process job final ∧ id = job.documentId) ∧
      ∀ c n, ¬ Did cur (.updateDocument id c) n := by
  cases op with
  | process job final => exact ⟨⟨job, final, rfl, h.1⟩, h.2.2.1⟩
  | _ => exact h.elim

variable {n : Nat} {newer older : List (Event Val Out)} {rows base : Db}

/-- An update of a document is the first to write it in its transaction. -/
theorem document_first (h : ProcOk (machine cfg) (conduct cfg) Legal db p)
    (hcur : p.current = newer ++ ⟨.write (.updateDocument id c), n, rows, base⟩ :: older)
    (hbefore : (conduct cfg p.op).before p.past (older.map Event.call)
      (.write (.updateDocument id c))) : Key.document id ∉ (writes older).keys := by
  obtain ⟨⟨job, final, hop, hid⟩, huntouched⟩ := conduct_updateDocument hbefore
  refine first_write h hcur rfl fun newer' older' u' out' rows' base' hcur' hbefore' hdid => ?_
  cases u' with
  | insertDocument id' d =>
      obtain ⟨-, normalize, auth, dto, file, hop', -⟩ := conduct_insertDocument hbefore'
      rw [hop] at hop'
      cases hop'
  | updateDocument id' c' =>
      intro heq
      cases heq
      exact huntouched c' out' hdid
  | _ => exact Key.noConfusion

theorem document_changed (h : ProcOk (machine cfg) (conduct cfg) Legal db p)
    (hcur : p.current = newer ++ ⟨.write (.updateDocument id c), n, rows, base⟩ :: older)
    (hbefore : (conduct cfg p.op).before p.past (older.map Event.call)
      (.write (.updateDocument id c)))
    (hwrote : Wrote (writes older ++ base) (.updateDocument id c) n rows)
    (hrow : Log.row (.document id) rows = some new) :
    n = 1 ∧ ∃ old, ChangesDocument cfg db p id c old new := by
  have hfirst := document_first h hcur hbefore
  cases hwrote with
  | updateDocument hupdated =>
      obtain ⟨rfl, old, hold, hbase, happlies, hchange⟩ := event_updated h hcur hfirst hupdated hrow
      obtain ⟨hresult, hidentity⟩ := changeDocument_ok hchange
      have hdid : Did p.calls (.updateDocument id c) 1 := call_of_event hcur
      exact ⟨rfl, old, hold, happlies, hresult, hidentity, hdid, (conduct_updateDocument hbefore).1,
        newer, older, rows, base, hcur, hbase, hbefore⟩

/-- The documents after a commit. -/
theorem commit_document (h : ProcOk (machine cfg) (conduct cfg) Legal db p)
    (hnew : Db.document (p.writes ++ db) id = some new) :
    (Key.document id ∉ p.writes.keys ∧ Db.document db id = some new) ∨
      InsertsDocument db p id new ∨ ∃ c old, ChangesDocument cfg db p id c old new := by
  rcases commit_cases h rfl hnew with hold | ⟨u, out, newer, older, rows, base, hw⟩
  · exact .inl hold
  have htarget := hw.target
  cases u with
  | insertDocument id' d =>
      cases htarget
      cases hw.wrote with
      | insertDocument hinserted =>
          obtain ⟨rfl, hfresh⟩ := hw.inserted hinserted
          obtain ⟨hquarantined, normalize, auth, dto, file, hop, horg, v, hv⟩ :=
            conduct_insertDocument hw.before
          exact .inr (.inl ⟨hfresh, hw.did, hquarantined, normalize, auth, dto, file, hop, horg, v,
            calls_subset_of_event hw.current hv⟩)
  | updateDocument id' c =>
      cases htarget
      obtain ⟨-, old, hchanges⟩ := document_changed h hw.current hw.before hw.wrote hw.row
      exact .inr (.inr ⟨c, old, hchanges⟩)
  | _ => cases htarget

/-- An update that found its document changes it in the commit. -/
theorem did_updateDocument (h : ProcOk (machine cfg) (conduct cfg) Legal db p)
    (hd : Did p.calls (.updateDocument id c) n) (hn : n ≠ 0) :
    ∃ old new, ChangesDocument cfg db p id c old new ∧
      Db.document (p.writes ++ db) id = some new := by
  obtain ⟨newer, older, rows, base, hcur, hwrote, hbefore⟩ := did_event h hd
  have hwrites := hwrote
  cases hwrites with
  | updateDocument hupdated =>
      cases hupdated with
      | missed _ => exact absurd rfl hn
      | wrote old new hrow happlies hchange =>
          obtain ⟨-, old', hchanges⟩ :=
            document_changed h hcur hbefore hwrote (Log.row_cons_self ..)
          have hkey : Key.document id ∈ p.writes.keys :=
            written_key hcur List.mem_cons_self
          obtain ⟨w, hw⟩ := Log.exists_row_of_mem_keys hkey
          have hfinal : Db.document (p.writes ++ db) id = some w := Log.row_append_of_row _ hw
          rcases commit_document h hfinal with ⟨hnot, -⟩ | hinserts | ⟨c', old'', hchanges'⟩
          · exact absurd hkey hnot
          · exact absurd (Log.mem_keys_of_row hchanges.committed) hinserts.fresh
          · have hsame := same_update h hd hchanges'.did
              (fun _ _ hb => (conduct_updateDocument hb).2 c' 1)
              (fun _ _ hb => (conduct_updateDocument hb).2 c 1)
            cases hsame
            have hold := hchanges.committed.symm.trans hchanges'.committed
            cases hold
            rw [hchanges'.result, ← hchanges.result] at hfinal
            exact ⟨old', new, hchanges, hfinal⟩

end Documents

section Processings

variable {id : Id} {c : ProcessingChange} {old new : DocumentProcessing}

/-- The transaction of `p` changes the committed processing row `old` by the update `c`. -/
structure ChangesProcessing (cfg : Config) (db : Db) (p : Process) (id : Id)
    (c : ProcessingChange) (old new : DocumentProcessing) : Prop where
  committed : Db.processing db id = some old
  applies : c.applies old = true
  result : new = c.apply old
  transition : validateDocumentProcessingTransition old.state new.state = true
  did : Did p.calls (.updateProcessing id c) 1
  event : ∃ newer older rows base,
    p.current = newer ++ ⟨.write (.updateProcessing id c), (1 : Nat), rows, base⟩ :: older ∧
      Db.processing base id = some old ∧
      (conduct cfg p.op).before p.past (older.map Event.call) (.write (.updateProcessing id c))

/-- The transaction of `p` inserts a processing row: it is an upload. -/
structure InsertsProcessing (db : Db) (p : Process) (id : Id) (r : DocumentProcessing) : Prop where
  fresh : Key.processing id ∉ db.keys
  did : Did p.calls (.insertProcessing id r) ()
  state : r.state = .quarantined
  op : ∃ normalize auth dto file, p.op = .upload normalize auth dto file ∧
    r.organizationId = auth.organizationId ∧ ∃ d, Did p.calls (.insertDocument id d) ()

theorem conduct_insertProcessing {r : DocumentProcessing}
    (h : (conduct cfg op).before past cur (.write (.insertProcessing id r))) :
    r.state = .quarantined ∧ ∃ normalize auth dto file,
      op = .upload normalize auth dto file ∧ r.organizationId = auth.organizationId ∧
        ∃ d, Did cur (.insertDocument id d) () := by
  cases op with
  | upload normalize auth dto file =>
      exact ⟨h.2.1, normalize, auth, dto, file, rfl, h.1, h.2.2.2.1⟩
  | _ => exact h.elim

theorem conduct_updateProcessing
    (h : (conduct cfg op).before past cur (.write (.updateProcessing id c))) :
    (∀ c n, ¬ Did cur (.updateProcessing id c) n) ∧
      ((∃ job final, op = .process job final) ∨ ∀ j r, ¬ Did cur (.insertProcessing j r) ()) := by
  cases op with
  | process job final => exact ⟨h.2.2.1, .inl ⟨job, final, rfl⟩⟩
  | upload normalize auth dto file => exact ⟨h.2.2.2, .inr h.2.2.1⟩
  | _ => exact h.elim

variable {n : Nat} {newer older : List (Event Val Out)} {rows base : Db}

/-- An update of a processing row is the first to write it in its transaction. -/
theorem processing_first (h : ProcOk (machine cfg) (conduct cfg) Legal db p)
    (hcur : p.current = newer ++ ⟨.write (.updateProcessing id c), n, rows, base⟩ :: older)
    (hbefore : (conduct cfg p.op).before p.past (older.map Event.call)
      (.write (.updateProcessing id c))) : Key.processing id ∉ (writes older).keys := by
  obtain ⟨huntouched, hinserter⟩ := conduct_updateProcessing hbefore
  refine first_write h hcur rfl fun newer' older' u' out' rows' base' hcur' hbefore' hdid => ?_
  cases u' with
  | insertProcessing id' r =>
      rcases hinserter with ⟨job, final, hop⟩ | hnone
      · obtain ⟨-, normalize, auth, dto, file, hop', -⟩ := conduct_insertProcessing hbefore'
        rw [hop] at hop'
        cases hop'
      · exact absurd hdid (hnone id' r)
  | updateProcessing id' c' =>
      intro heq
      cases heq
      exact huntouched c' out' hdid
  | _ => exact Key.noConfusion

theorem processing_changed (h : ProcOk (machine cfg) (conduct cfg) Legal db p)
    (hcur : p.current = newer ++ ⟨.write (.updateProcessing id c), n, rows, base⟩ :: older)
    (hbefore : (conduct cfg p.op).before p.past (older.map Event.call)
      (.write (.updateProcessing id c)))
    (hwrote : Wrote (writes older ++ base) (.updateProcessing id c) n rows)
    (hrow : Log.row (.processing id) rows = some new) :
    n = 1 ∧ ∃ old, ChangesProcessing cfg db p id c old new := by
  have hfirst := processing_first h hcur hbefore
  cases hwrote with
  | updateProcessing hupdated =>
      obtain ⟨rfl, old, hold, hbase, happlies, hchange⟩ := event_updated h hcur hfirst hupdated hrow
      obtain ⟨hresult, htransition⟩ := changeProcessing_ok hchange
      have hdid : Did p.calls (.updateProcessing id c) 1 := call_of_event hcur
      exact ⟨rfl, old, hold, happlies, hresult, htransition, hdid, newer, older, rows, base, hcur,
        hbase, hbefore⟩

/-- The processing rows after a commit. -/
theorem commit_processing (h : ProcOk (machine cfg) (conduct cfg) Legal db p)
    (hnew : Db.processing (p.writes ++ db) id = some new) :
    (Key.processing id ∉ p.writes.keys ∧ Db.processing db id = some new) ∨
      InsertsProcessing db p id new ∨ ∃ c old, ChangesProcessing cfg db p id c old new := by
  rcases commit_cases h rfl hnew with hold | ⟨u, out, newer, older, rows, base, hw⟩
  · exact .inl hold
  have htarget := hw.target
  cases u with
  | insertProcessing id' r =>
      cases htarget
      cases hw.wrote with
      | insertProcessing hinserted =>
          obtain ⟨rfl, hfresh⟩ := hw.inserted hinserted
          obtain ⟨hstate, normalize, auth, dto, file, hop, horg, d, hd⟩ :=
            conduct_insertProcessing hw.before
          exact .inr (.inl ⟨hfresh, hw.did, hstate, normalize, auth, dto, file, hop, horg, d,
            calls_subset_of_event hw.current hd⟩)
  | updateProcessing id' c =>
      cases htarget
      obtain ⟨-, old, hchanges⟩ := processing_changed h hw.current hw.before hw.wrote hw.row
      exact .inr (.inr ⟨c, old, hchanges⟩)
  | _ => cases htarget

/-- An update that found its processing row changes it in the commit. -/
theorem did_updateProcessing (h : ProcOk (machine cfg) (conduct cfg) Legal db p)
    (hd : Did p.calls (.updateProcessing id c) n) (hn : n ≠ 0) :
    ∃ old new, ChangesProcessing cfg db p id c old new ∧
      Db.processing (p.writes ++ db) id = some new := by
  obtain ⟨newer, older, rows, base, hcur, hwrote, hbefore⟩ := did_event h hd
  have hwrites := hwrote
  cases hwrites with
  | updateProcessing hupdated =>
      cases hupdated with
      | missed _ => exact absurd rfl hn
      | wrote old new hrow happlies hchange =>
          obtain ⟨-, old', hchanges⟩ :=
            processing_changed h hcur hbefore hwrote (Log.row_cons_self ..)
          have hkey : Key.processing id ∈ p.writes.keys :=
            written_key hcur List.mem_cons_self
          obtain ⟨w, hw⟩ := Log.exists_row_of_mem_keys hkey
          have hfinal : Db.processing (p.writes ++ db) id = some w := Log.row_append_of_row _ hw
          rcases commit_processing h hfinal with ⟨hnot, -⟩ | hinserts | ⟨c', old'', hchanges'⟩
          · exact absurd hkey hnot
          · exact absurd (Log.mem_keys_of_row hchanges.committed) hinserts.fresh
          · have hsame := same_update h hd hchanges'.did
              (fun _ _ hb => (conduct_updateProcessing hb).1 c' 1)
              (fun _ _ hb => (conduct_updateProcessing hb).1 c 1)
            cases hsame
            have hold := hchanges.committed.symm.trans hchanges'.committed
            cases hold
            rw [hchanges'.result, ← hchanges.result] at hfinal
            exact ⟨old', new, hchanges, hfinal⟩

end Processings
section Inserts

variable {k : Key} {v : Val k}

/-- The transaction of `p` inserts a decision. -/
structure InsertsDecision (cfg : Config) (db : Db) (p : Process) (r m : Id)
    (d : ApprovalDecision) : Prop where
  fresh : Key.decision r m ∉ db.keys
  did : Did p.calls (.insertDecision d) ()
  keys : d.approvalRequestId = r ∧ d.decidedByMembershipId = m
  op : ∃ auth dto key, p.op = .decide auth r dto key ∧
    ∃ cur q v, cur ⊆ p.calls ∧ DecisionReady cfg auth r cur d q v

theorem conduct_insertDecision {d : ApprovalDecision}
    (h : (conduct cfg op).before past cur (.write (.insertDecision d))) :
    ∃ auth dto key, op = .decide auth d.approvalRequestId dto key ∧
      (∃ q v, DecisionReady cfg auth d.approvalRequestId cur d q v) ∧
      ∀ d', ¬ Did cur (.insertDecision d') () := by
  cases op with
  | decide auth r dto key =>
      obtain ⟨⟨q, v, hready⟩, honce⟩ := h
      have hr := hready.request
      subst hr
      exact ⟨auth, dto, key, rfl, ⟨q, v, hready⟩, honce⟩
  | _ => exact h.elim

/-- The decisions after a commit. -/
theorem commit_decision {r m : Id} {d : ApprovalDecision}
    (h : ProcOk (machine cfg) (conduct cfg) Legal db p)
    (hnew : Db.decision (p.writes ++ db) r m = some d) :
    Db.decision db r m = some d ∨ InsertsDecision cfg db p r m d := by
  rcases commit_cases h rfl hnew with ⟨-, hold⟩ | ⟨u, out, newer, older, rows, base, hw⟩
  · exact .inl hold
  have htarget := hw.target
  have hsub : older.map Event.call ⊆ p.calls :=
    calls_subset_of_event hw.current
  cases u with
  | insertDecision d' =>
      cases htarget
      cases hw.wrote with
      | insertDecision hinserted =>
          obtain ⟨rfl, hfresh⟩ := hw.inserted hinserted
          obtain ⟨auth, dto, key, hop, ⟨q, v, hready⟩, -⟩ := conduct_insertDecision hw.before
          exact .inr ⟨hfresh, hw.did, ⟨rfl, rfl⟩, auth, dto, key, hop, _, q, v, hsub, hready⟩
  | _ => cases htarget

/-- The assessments after a commit. -/
theorem commit_risk {id : Id} {a : RiskAssessment}
    (h : ProcOk (machine cfg) (conduct cfg) Legal db p)
    (hnew : Db.risk (p.writes ++ db) id = some a) :
    Db.risk db id = some a ∨ Did p.calls (.insertRisk a) id := by
  rcases commit_cases h rfl hnew with ⟨-, hold⟩ | ⟨u, out, newer, older, rows, base, hw⟩
  · exact .inl hold
  have htarget := hw.target
  cases u with
  | insertRisk a' =>
      cases htarget
      cases hw.wrote with
      | insertRisk _ hinserted =>
          obtain ⟨rfl, -⟩ := hw.inserted hinserted
          exact .inr hw.did
  | _ => cases htarget

/-- The bank account versions after a commit. -/
theorem commit_bank {id : Id} {b : VendorBankAccountVersion}
    (h : ProcOk (machine cfg) (conduct cfg) Legal db p)
    (hnew : Db.bank (p.writes ++ db) id = some b) :
    Db.bank db id = some b ∨ Did p.calls (.insertBank b) id := by
  rcases commit_cases h rfl hnew with ⟨-, hold⟩ | ⟨u, out, newer, older, rows, base, hw⟩
  · exact .inl hold
  have htarget := hw.target
  cases u with
  | insertBank b' =>
      cases htarget
      cases hw.wrote with
      | insertBank _ hinserted =>
          obtain ⟨rfl, -⟩ := hw.inserted hinserted
          exact .inr hw.did
  | _ => cases htarget

theorem conduct_insertBank {b : VendorBankAccountVersion}
    (h : (conduct cfg op).before past cur (.write (.insertBank b))) :
    ∃ auth dto, op = .addBankVersion auth b.vendorId dto ∧
      b.organizationId = auth.organizationId := by
  cases op with
  | addBankVersion auth vendorId dto =>
      have hv := h.2.1
      subst hv
      exact ⟨auth, dto, rfl, h.1⟩
  | _ => exact h.elim

theorem conduct_lines {i : Id}
    (h : (conduct cfg op).before past cur (.write (.deleteLines i)) ∨
      ∃ lines, (conduct cfg op).before past cur (.write (.createLines i lines))) :
    ∃ auth dto e, op = .update auth i dto ∧
      Did cur (.updateInvoice i (.edited auth.organizationId dto.version e)) 1 := by
  cases op with
  | update auth id dto =>
      rcases h with ⟨rfl, e, he⟩ | ⟨lines, rfl, e, he⟩
      · exact ⟨auth, dto, e, rfl, he⟩
      · exact ⟨auth, dto, e, rfl, he⟩
  | _ => rcases h with h | ⟨lines, h⟩ <;> exact h.elim

/-- Lines change together with an edit of their invoice. -/
theorem commit_lines {i : Id} (h : ProcOk (machine cfg) (conduct cfg) Legal db p) :
    Db.lines (p.writes ++ db) i = Db.lines db i ∨ ∃ auth dto e, p.op = .update auth i dto ∧
      Did p.calls (.updateInvoice i (.edited auth.organizationId dto.version e)) 1 := by
  by_cases hk : Key.lines i ∈ p.writes.keys
  · obtain ⟨ls, hls⟩ := Log.exists_row_of_mem_keys hk
    obtain ⟨newer, older, u, out, rows, base, hcur, hrow, htarget, -, hbefore, -⟩ :=
      written_update h hls rfl
    have hsub : older.map Event.call ⊆ p.calls :=
      calls_subset_of_event hcur
    refine .inr ?_
    cases u with
    | deleteLines id =>
        cases htarget
        obtain ⟨auth, dto, e, hop, he⟩ := conduct_lines (.inl hbefore)
        exact ⟨auth, dto, e, hop, hsub he⟩
    | createLines id lines =>
        cases htarget
        obtain ⟨auth, dto, e, hop, he⟩ := conduct_lines (.inr ⟨lines, hbefore⟩)
        exact ⟨auth, dto, e, hop, hsub he⟩
    | _ => cases htarget
  · refine .inl ?_
    rw [Db.lines, Db.lines, Log.row_append_of_not_mem _ hk]

/-- Versions from outside touch no table of the services. -/
theorem external_row {rows : Db} (hext : (machine cfg).external db rows)
    (hk : outside k = false) : Log.row k (rows ++ db) = Log.row k db := by
  refine Log.row_append_of_not_mem _ fun hmem => ?_
  obtain ⟨s, hs, rfl⟩ := List.mem_map.mp hmem
  rw [hext.1 s hs] at hk
  cases hk

theorem external_lines {rows : Db} (hext : (machine cfg).external db rows) (i : Id) :
    Db.lines (rows ++ db) i = Db.lines db i :=
  congrArg (Option.getD · []) (external_row (k := .lines i) hext rfl)

end Inserts
section Causes

theorem CompleteReady.extend {auth : AuthContext} {id : Id} {r : ApprovalRequest} {v : Invoice}
    {outcome : ApprovalDecisionOutcome} {cur' : Calls Out}
    (h : CompleteReady auth id cur r v outcome) (hsub : cur ⊆ cur') :
    CompleteReady auth id cur' r v outcome := by
  obtain ⟨hready, ⟨d, hd, hrest⟩, hcounted⟩ := h
  refine ⟨hready.extend hsub, ⟨d, hsub hd, hrest⟩, fun ho => ?_⟩
  obtain ⟨n, hn, hle⟩ := hcounted ho
  exact ⟨n, hsub hn, hle⟩

theorem EditReady.extend {auth : AuthContext} {i : Id} {e : InvoiceEdit} {v : Invoice}
    {cur' : Calls Out} (h : EditReady auth i cur e v) (hsub : cur ⊆ cur') :
    EditReady auth i cur' e v :=
  ⟨h.toEditSeen.extend hsub, h.invalidates, fun hs => (h.frozen hs).extend hsub⟩

/-- The call that issues an update of the invoice `i`, and what it has seen. -/
def InvoiceCause (op : Op) (past cur : Calls Out) (i : Id) : InvoiceChange → Prop
  | .submitted org version bankId => ∃ auth dto key r requestId, op = .submit auth i dto key ∧
      org = auth.organizationId ∧ version = dto.version ∧
      Did cur (.insertRequest r) requestId ∧ r.vendorBankAccountVersionId = some bankId
  | .returned version => ∃ auth id dto key r v reason n, op = .decide auth id dto key ∧
      DecideSeen auth id cur r v ∧ i = r.invoiceId ∧ version = r.invoiceVersion ∧
      Did cur (.updateRequest id (.invalidated reason)) n
  | .frozen org vendorId => ∃ auth dto, op = .addBankVersion auth vendorId dto ∧
      org = auth.organizationId ∧ Frozen auth vendorId cur
  | .edited org version e => ∃ auth dto v, op = .update auth i dto ∧
      org = auth.organizationId ∧ version = dto.version ∧ EditReady auth i cur e v
  | .decided outcome => ∃ auth id dto key r v t n, op = .decide auth id dto key ∧
      CompleteReady auth id cur r v outcome ∧ i = r.invoiceId ∧
      Did cur (.updateRequest id (.completed outcome t)) n ∧ n ≠ 0
  | .suggested org => ∃ job final d r ocr n, op = .process job final ∧ i = job.invoiceId ∧
      Loaded job past d r ∧ org = job.organizationId ∧
      Did cur (.updateProcessing job.documentId (.suggested org ocr)) n
  | .blocked org => ∃ job final d r n, op = .process job final ∧ i = job.invoiceId ∧
      Loaded job past d r ∧ org = job.organizationId ∧
      Did cur (.updateProcessing job.documentId (.blocked org)) n
  | .manualReview org => ∃ job final d r code n, op = .process job final ∧ i = job.invoiceId ∧
      Loaded job past d r ∧ org = job.organizationId ∧
      Did past (.updateProcessing job.documentId (.manualReview org code)) n
  | .queueFailed org => ∃ normalize auth dto file documentId d n code,
      op = .upload normalize auth dto file ∧ org = auth.organizationId ∧
      Did past (.insertDocument documentId d) () ∧ d.invoiceId = i ∧
      Did cur (.updateProcessing documentId (.queueFailed org code)) n

theorem conduct_invoiceCause {i : Id} {c : InvoiceChange} {cur' : Calls Out}
    (h : (conduct cfg op).before past cur (.write (.updateInvoice i c))) (hsub : cur ⊆ cur') :
    InvoiceCause op past cur' i c := by
  cases op with
  | submit auth id dto key =>
      obtain ⟨rfl, -, r, requestId, bankId, hr, hbank, rfl⟩ := h
      exact ⟨auth, dto, key, r, requestId, rfl, rfl, rfl, hsub hr, hbank⟩
  | decide auth id dto key =>
      cases c with
      | decided outcome =>
          obtain ⟨-, r, v, t, n, hready, rfl, hn, hne⟩ := h
          exact ⟨auth, id, dto, key, r, v, t, n, rfl, hready.extend hsub, rfl, hsub hn, hne⟩
      | returned version =>
          obtain ⟨-, r, v, reason, n, hseen, rfl, rfl, hn⟩ := h
          exact ⟨auth, id, dto, key, r, v, reason, n, rfl, hseen.extend hsub, rfl, rfl, hsub hn⟩
      | _ => exact h.elim
  | updatePolicy auth dto => exact h.elim
  | upload normalize auth dto file =>
      obtain ⟨rfl, -, -, documentId, d, n, code, hd, hi, hn⟩ := h
      exact ⟨normalize, auth, dto, file, documentId, d, n, code, rfl, rfl, hd, hi, hsub hn⟩
  | update auth id dto =>
      obtain ⟨rfl, -, e, v, hready, rfl⟩ := h
      exact ⟨auth, dto, v, rfl, rfl, rfl, hready.extend hsub⟩
  | addBankVersion auth vendorId dto =>
      obtain ⟨rfl, -, -, hfrozen, -⟩ := h
      exact ⟨auth, dto, rfl, rfl, hfrozen.extend hsub⟩
  | process job final =>
      obtain ⟨rfl, -, ⟨d, r, hloaded⟩, hready⟩ := h
      cases c with
      | suggested org =>
          obtain ⟨rfl, ocr, n, hn⟩ := hready
          exact ⟨job, final, d, r, ocr, n, rfl, rfl, hloaded, rfl, hsub hn⟩
      | blocked org =>
          obtain ⟨rfl, n, hn⟩ := hready
          exact ⟨job, final, d, r, n, rfl, rfl, hloaded, rfl, hsub hn⟩
      | manualReview org =>
          obtain ⟨rfl, code, n, hn⟩ := hready
          exact ⟨job, final, d, r, code, n, rfl, rfl, hloaded, rfl, hn⟩
      | _ => exact hready.elim

theorem ChangesInvoice.cause {i : Id} {c : InvoiceChange} {old new : Invoice}
    (h : ChangesInvoice cfg db p i c old new) : InvoiceCause p.op p.past p.calls i c := by
  obtain ⟨newer, older, rows, base, hcur, -, -, hbefore⟩ := h.event
  exact conduct_invoiceCause hbefore
    (calls_subset_of_event hcur)

/-- The calls of the approval services alone. -/
def Op.isApi : Op → Bool
  | .submit .. | .decide .. | .update .. | .addBankVersion .. => true
  | _ => false

/-- The changes that these calls make to invoices. -/
def InvoiceChange.isApi : InvoiceChange → Bool
  | submitted .. | returned .. | frozen .. | edited .. | decided .. => true
  | _ => false

theorem ChangesInvoice.api {i : Id} {c : InvoiceChange} {old new : Invoice}
    (h : ChangesInvoice cfg db p i c old new) (hapi : p.op.isApi = true) : c.isApi = true := by
  have hcause := h.cause
  cases c with
  | suggested org =>
      obtain ⟨_, _, _, _, _, _, hop, -⟩ := hcause
      rw [hop] at hapi
      cases hapi
  | blocked org =>
      obtain ⟨_, _, _, _, _, hop, -⟩ := hcause
      rw [hop] at hapi
      cases hapi
  | manualReview org =>
      obtain ⟨_, _, _, _, _, _, hop, -⟩ := hcause
      rw [hop] at hapi
      cases hapi
  | queueFailed org =>
      obtain ⟨_, _, _, _, _, _, _, _, hop, -⟩ := hcause
      rw [hop] at hapi
      cases hapi
  | _ => rfl

/-- Such a change is a decision, or it makes a new version. -/
theorem ChangesInvoice.bumps {i : Id} {c : InvoiceChange} {old new : Invoice}
    (h : ChangesInvoice cfg db p i c old new) (hapi : p.op.isApi = true) :
    (∃ outcome, c = .decided outcome) ∨ new.version = old.version + 1 := by
  have hc := h.api hapi
  rw [h.result]
  cases c with
  | decided outcome => exact .inl ⟨outcome, rfl⟩
  | submitted org version bank => exact .inr rfl
  | returned version => exact .inr rfl
  | frozen org vendor => exact .inr rfl
  | edited org version e => exact .inr rfl
  | _ => cases hc

/-- The call that issues an update of the request `id`, and what it has seen. -/
def RequestCause (op : Op) (cur : Calls Out) (id : Id) : RequestChange → Prop
  | .completed outcome _ => ∃ auth dto key r v, op = .decide auth id dto key ∧
      CompleteReady auth id cur r v outcome
  | .invalidated reason =>
      (∃ auth dto key r v, op = .decide auth id dto key ∧ DecideSeen auth id cur r v) ∨
      (∃ auth i dto v ids, op = .update auth i dto ∧ reason = "INVOICE_DATA_CHANGED" ∧
        EditSeen auth i cur v ∧ v.status = .awaitingApproval ∧
        Saw cur (.pendingOfInvoice auth.organizationId i) ids ∧ id ∈ ids) ∨
      (∃ auth vendorId dto ids, op = .addBankVersion auth vendorId dto ∧
        reason = "VENDOR_BANK_ACCOUNT_CHANGED" ∧
        Saw cur (.pendingOfVendor auth.organizationId vendorId) ids ∧ id ∈ ids)

theorem conduct_requestCause {id : Id} {c : RequestChange} {cur' : Calls Out}
    (h : (conduct cfg op).before past cur (.write (.updateRequest id c))) (hsub : cur ⊆ cur') :
    RequestCause op cur' id c := by
  cases op with
  | decide auth r dto key =>
      cases c with
      | completed outcome t =>
          obtain ⟨rfl, -, q, v, hready⟩ := h
          exact ⟨auth, dto, key, q, v, rfl, hready.extend hsub⟩
      | invalidated reason =>
          obtain ⟨rfl, -, ⟨q, v, hseen⟩, -⟩ := h
          exact .inl ⟨auth, dto, key, q, v, rfl, hseen.extend hsub⟩
  | update auth i dto =>
      obtain ⟨rfl, -, ⟨v, hseen, hstatus⟩, ids, hids, hid⟩ := h
      exact .inr (.inl ⟨auth, i, dto, v, ids, rfl, rfl, hseen.extend hsub, hstatus, hsub hids, hid⟩)
  | addBankVersion auth vendorId dto =>
      obtain ⟨rfl, -, -, ⟨ids, hids, hid⟩, -⟩ := h
      exact .inr (.inr ⟨auth, vendorId, dto, ids, rfl, rfl, hsub hids, hid⟩)
  | _ => exact h.elim

theorem ChangesRequest.cause {id : Id} {c : RequestChange} {old new : ApprovalRequest}
    (h : ChangesRequest cfg db p id c old new) : RequestCause p.op p.calls id c := by
  obtain ⟨newer, older, rows, base, hcur, -, hbefore⟩ := h.event
  exact conduct_requestCause hbefore
    (calls_subset_of_event hcur)

end Causes
end BlocTrust
