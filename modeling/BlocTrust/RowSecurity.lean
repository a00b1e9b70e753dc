import BlocTrust.ReadCommitted.Restrict
import BlocTrust.Tenancy

/-!
The row-level security of the migrations.
A transaction of the API runs for one organization: it sees the rows of that organization, and a
row that it writes must be one of them, while the indexes hold the rows of everybody.  A statement
that asks for the rows of its organization is answered as it is without these policies.
-/
namespace BlocTrust

open ReadCommitted

section Policies

/-- What the policies compare with the organization of the transaction; index entries, locks and
stored objects are under no policy. -/
def tenant (db : Db) : (k : Key) → Val k → Option Id
  | .vendor _, v => some v.organizationId
  | .contract _, c => some c.organizationId
  | .membership _, m => some m.organizationId
  | .session _, s => some s.organizationId
  | .grant _, g => some g.organizationId
  | .vendorBuilding _ _, o => some o
  | k, v => owner db k v

def shown (o : Id) (db : Db) (k : Key) : Bool :=
  (Log.row k db).all fun v => (tenant db k v).all (· = o)

/-- The rows that the policies let a transaction for the organization see. -/
def visible (o : Id) (db : Db) : Db := Log.restrict (shown o db) db

def rowSecurity : Failure := .raised "new row violates row-level security policy"

/-- The new rows must be visible, and collide with rows that are not. -/
def enforce {α : Type} (o : Id) (db : Db) : Except Failure (α × Db) → Except Failure (α × Db)
  | .error e => .error e
  | .ok (out, rows) =>
      if rows.keys.all (shown o (rows ++ db)) then
        if rows.keys.any fun k => decide (k ∈ db.keys) && !shown o db k then
          .error .uniqueViolation
        else .ok (out, rows)
      else .error rowSecurity

/-- A statement under the policies: its conditions and the triggers see what is visible. -/
def policed (cfg : Config) (o : Id) : Engine Val Out Failure
  | .read q, choice, db => (answer cfg choice (visible o db) q).map fun out => .ok (out, [])
  | .write u, choice, db => some (enforce o db (performUpdate choice (visible o db) u))
  | .call c, choice, db => reply cfg choice db c

end Policies

section Visible

variable {o org : Id} {db : Db}

theorem row_visible (k : Key) : Log.row k (visible o db) =
    (Log.row k db).filter fun v => (tenant db k v).all (· = o) := by
  rw [visible, Log.row_restrict, shown]
  cases Log.row k db with
  | none => simp
  | some v => simp [Option.filter]

theorem invoice_visible (id : Id) :
    (visible o db).invoice id = (db.invoice id).filter (·.organizationId = o) := row_visible _

theorem document_visible (id : Id) :
    (visible o db).document id = (db.document id).filter (·.organizationId = o) := row_visible _

theorem processing_visible (id : Id) :
    (visible o db).processing id = (db.processing id).filter (·.organizationId = o) := row_visible _

theorem policy_visible (org : Id) :
    (visible o db).policy org = (db.policy org).filter fun _ => org = o := row_visible _

theorem risk_visible (id : Id) :
    (visible o db).risk id = (db.risk id).filter (·.organizationId = o) := row_visible _

theorem request_visible (id : Id) :
    (visible o db).request id = (db.request id).filter (·.organizationId = o) := row_visible _

theorem vendor_visible (id : Id) :
    (visible o db).vendor id = (db.vendor id).filter (·.organizationId = o) := row_visible _

theorem contract_visible (id : Id) :
    (visible o db).contract id = (db.contract id).filter (·.organizationId = o) := row_visible _

theorem membership_visible (id : Id) :
    (visible o db).membership id = (db.membership id).filter (·.organizationId = o) :=
  row_visible _

theorem session_visible (id : Id) :
    (visible o db).session id = (db.session id).filter (·.organizationId = o) := row_visible _

theorem shown_row {k : Key} {v : Val k} (hrow : Log.row k db = some v) :
    shown o db k = (tenant db k v).all (· = o) := by
  rw [shown, hrow, Option.all_some]

/-- A table under the policies, when its rows tell their organization. -/
theorem table_visible {ι α : Type} [DecidableEq ι] {mk : ι → Key} {un : Key → Option ι}
    {get : (i : ι) → Val (mk i) → α} {own : ι × α → Bool} (hun : ∀ k i, un k = some i → k = mk i)
    (hown : ∀ i v, (tenant db (mk i) v).all (· = o) = own (i, get i v)) :
    Log.table mk un get (visible o db) = (Log.table mk un get db).filter own :=
  Log.table_restrict hun own fun i v hrow => (shown_row hrow).trans (hown i v)

theorem invoices_visible :
    (visible o db).invoices = db.invoices.filter (·.2.organizationId = o) := by
  refine table_visible (fun k i hk => ?_) fun _ _ => rfl
  cases k with
  | invoice j => cases hk; rfl
  | _ => cases hk

theorem documents_visible :
    (visible o db).documents = db.documents.filter (·.2.organizationId = o) := by
  refine table_visible (fun k i hk => ?_) fun _ _ => rfl
  cases k with
  | document j => cases hk; rfl
  | _ => cases hk

theorem requests_visible :
    (visible o db).requests = db.requests.filter (·.2.organizationId = o) := by
  refine table_visible (fun k i hk => ?_) fun _ _ => rfl
  cases k with
  | request j => cases hk; rfl
  | _ => cases hk

theorem decisions_visible :
    (visible o db).decisions = db.decisions.filter (·.2.organizationId = o) := by
  refine table_visible (fun k i hk => ?_) fun _ _ => rfl
  cases k with
  | decision r m => cases hk; rfl
  | _ => cases hk

theorem banks_visible : (visible o db).banks = db.banks.filter (·.2.organizationId = o) := by
  refine table_visible (fun k i hk => ?_) fun _ _ => rfl
  cases k with
  | bank j => cases hk; rfl
  | _ => cases hk

theorem memberships_visible :
    (visible o db).memberships = db.memberships.filter (·.2.organizationId = o) := by
  refine table_visible (fun k i hk => ?_) fun _ _ => rfl
  cases k with
  | membership j => cases hk; rfl
  | _ => cases hk

theorem grants_visible : (visible o db).grants = db.grants.filter (·.2.organizationId = o) := by
  refine table_visible (fun k i hk => ?_) fun _ _ => rfl
  cases k with
  | grant j => cases hk; rfl
  | _ => cases hk

theorem vendorBuildings_visible :
    (visible o db).vendorBuildings = db.vendorBuildings.filter (·.2 = o) := by
  refine table_visible (fun k i hk => ?_) fun _ _ => rfl
  cases k with
  | vendorBuilding v b => cases hk; rfl
  | _ => cases hk

theorem shown_lines {i : Id} (h : ∀ v, db.invoice i = some v → v.organizationId = o) :
    shown o db (.lines i) = true := by
  rw [shown]
  cases hrow : Log.row (.lines i) db with
  | none => rfl
  | some ls =>
      have howner : tenant db (.lines i) ls = (db.invoice i).map (·.organizationId) := rfl
      rw [Option.all_some, howner]
      cases hv : db.invoice i with
      | none => rfl
      | some v => exact decide_eq_true (h v hv)

theorem lines_visible {i : Id} (h : ∀ v, db.invoice i = some v → v.organizationId = o) :
    (visible o db).lines i = db.lines i := by
  rw [Db.lines, visible, Log.row_restrict_of_pos (shown_lines h)]
  rfl

theorem shown_policy (h : org = o) : shown o db (.policy org) = true := by
  rw [shown]
  cases Log.row (.policy org) db with
  | none => rfl
  | some p => exact decide_eq_true h

theorem shown_unowned {k : Key} (h : ∀ (db : Db) (v : Val k), tenant db k v = none) :
    shown o db k = true := by
  rw [shown]
  cases Log.row k db with
  | none => rfl
  | some v => rw [Option.all_some, h]; rfl

end Visible

section Reads

variable {o : Id} {db : Db}

/-- The query selects rows of the organization only, if not by its condition then because the rows
it names are such. -/
def Query.Asks (o : Id) (db : Db) : Query → Prop
  | .findInvoice org _ | .findDocuments org _ | .findContractOf org _ _ | .findVendor org _
  | .findRequestByKey org _ | .findRequest org _ | .findDecisionByKey org _ | .latestRequest org _
  | .latestBank org _ | .countSameNumber org _ _ _ | .previousAmounts org _ _ | .findPolicy org
  | .findMembership _ org _ | .findApprovers org _ | .findSession _ org _ _ _
  | .countApprovals org _ _ | .pendingOfInvoice org _ | .awaitingOfVendor org _
  | .findGrants org _ _ | .documentStorage org _ | .findDuplicate org _ _ => org = o
  | .findProcessings ids => ∀ id ∈ ids, ∀ r, db.processing id = some r → r.organizationId = o
  | .findContract id => ∀ c, db.contract id = some c → c.organizationId = o
  | .findRisk id => ∀ a, db.risk id = some a → a.organizationId = o
  | .findDecisions r => ∀ m d, db.decision r m = some d → d.organizationId = o
  | .findLines i => ∀ v, db.invoice i = some v → v.organizationId = o
  | .pendingOfVendor org _ => org = o ∧ ∀ id r v, db.request id = some r →
      r.organizationId = o → db.invoice r.invoiceId = some v → v.organizationId = o
  | .findVendorInScope org id _ => org = o ∧ ∀ v link, db.vendor id = some v →
      v.organizationId = o → link ∈ db.vendorBuildings → link.1.1 = id → link.2 = o
  | .load job => job.organizationId = o

theorem filter_owned {α : Type} {row : Option α} {own : α → Bool}
    (h : ∀ a, row = some a → own a = true) : row.filter own = row := by
  cases row with
  | none => rfl
  | some a => simp [Option.filter, h a rfl]

theorem rowWhere_filter {α : Type} {condition own : α → Bool}
    (h : ∀ a, condition a = true → own a = true) (row : Option α) :
    rowWhere condition (row.filter own) = rowWhere condition row := by
  cases row with
  | none => rfl
  | some a =>
      by_cases hc : condition a = true
      · simp [rowWhere, Option.filter, hc, h a hc]
      · by_cases ho : own a = true
        · simp [Option.filter, ho]
        · simp [rowWhere, Option.filter, hc, ho]

/-- A condition that selects owned rows of the list only. -/
theorem filter_owned_list {α : Type} {condition own : α → Bool} {rows : List α}
    (h : ∀ a ∈ rows, condition a = true → own a = true) :
    (rows.filter own).filter condition = rows.filter condition := by
  rw [List.filter_filter]
  refine List.filter_congr fun a ha => ?_
  by_cases hc : condition a = true
  · simp [hc, h a ha hc]
  · simp [hc]

theorem pendingOfVendor_visible {vendorId : Id} (h : (Query.pendingOfVendor o vendorId).Asks o db) :
    ((visible o db).requests.filter fun (_, r) => r.organizationId = o ∧ r.status = .pending ∧
        ((visible o db).invoice r.invoiceId).any (·.vendorId = some vendorId)) =
      db.requests.filter fun (_, r) => r.organizationId = o ∧ r.status = .pending ∧
        (db.invoice r.invoiceId).any (·.vendorId = some vendorId) := by
  rw [requests_visible, List.filter_filter]
  refine List.filter_congr fun e he => ?_
  obtain ⟨id, r⟩ := e
  have hrow := Db.mem_requests.mp he
  by_cases horg : r.organizationId = o
  · have hinvoice : (visible o db).invoice r.invoiceId = db.invoice r.invoiceId := by
      rw [invoice_visible]
      exact filter_owned fun v hv => decide_eq_true (h.2 id r v hrow horg hv)
    simp [horg, hinvoice]
  · simp [horg]

theorem findVendorInScope_visible {id : Id} {buildings : Option (List Id)}
    (h : (Query.findVendorInScope o id buildings).Asks o db) :
    rowWhere (fun v => v.organizationId = o ∧ buildings.all fun bs =>
        (visible o db).vendorBuildings.any fun (link, _) => link.1 = id ∧ link.2 ∈ bs)
        ((visible o db).vendor id) =
      rowWhere (fun v => v.organizationId = o ∧ buildings.all fun bs =>
        db.vendorBuildings.any fun (link, _) => link.1 = id ∧ link.2 ∈ bs) (db.vendor id) := by
  rw [vendor_visible, vendorBuildings_visible, rowWhere_filter fun v hv => by simp_all]
  cases hv : db.vendor id with
  | none => rfl
  | some v =>
      by_cases horg : v.organizationId = o
      · have hlinks : ∀ bs : List Id,
            ((db.vendorBuildings.filter (·.2 = o)).any fun (link, _) =>
              decide (link.1 = id ∧ link.2 ∈ bs)) =
            db.vendorBuildings.any fun (link, _) => decide (link.1 = id ∧ link.2 ∈ bs) := by
          intro bs
          rw [List.any_filter, Bool.eq_iff_iff, List.any_eq_true, List.any_eq_true]
          refine exists_congr fun link => and_congr_right fun hlink => ?_
          by_cases hid : link.1.1 = id
          · simp [h.2 v link hv horg hlink hid]
          · simp [hid]
        simp only [hlinks]
      · simp [rowWhere, Option.filter, horg]

/-- A read of the organization's rows is answered from what is visible. -/
theorem answer_visible (cfg : Config) (choice : Nat) {q : Query} (h : q.Asks o db) :
    answer cfg choice (visible o db) q = answer cfg choice db q := by
  cases q with
  | findInvoice org id =>
      cases h
      rw [answer, answer, invoice_visible, rowWhere_filter fun _ h => h]
  | findDocuments org id =>
      cases h
      rw [answer, answer, documents_visible, filter_of_imp]
      simp_all
  | findProcessings ids =>
      refine congrArg some (List.map_congr_left fun id hid => ?_)
      rw [processing_visible]
      exact filter_owned fun r hr => decide_eq_true (h id hid r hr)
  | findContract id =>
      rw [answer, answer, contract_visible, filter_owned fun c hc => decide_eq_true (h c hc)]
  | findContractOf org id vendorId =>
      cases h
      rw [answer, answer, contract_visible, rowWhere_filter fun c hc => by simp_all]
  | findVendor org id =>
      cases h
      rw [answer, answer, vendor_visible, rowWhere_filter fun _ h => h]
  | findRequestByKey org hash =>
      cases h
      rw [answer, answer, requests_visible, filter_of_imp]
      simp_all
  | findRequest org id =>
      cases h
      rw [answer, answer, request_visible, rowWhere_filter fun _ h => h]
  | findRisk id =>
      rw [answer, answer, risk_visible, filter_owned fun a ha => decide_eq_true (h a ha)]
  | findDecisions r =>
      rw [answer, answer, decisions_visible, filter_owned_list fun e he hc => ?_]
      obtain ⟨⟨r', m⟩, d⟩ := e
      have hr : r' = r := of_decide_eq_true hc
      subst hr
      exact decide_eq_true (h m d (Db.mem_decisions.mp he))
  | findDecisionByKey org hash =>
      cases h
      rw [answer, answer, decisions_visible, filter_of_imp]
      simp_all
  | latestRequest org id =>
      cases h
      rw [answer, answer, requests_visible, filter_of_imp]
      simp_all
  | latestBank org vendorId =>
      cases h
      rw [answer, answer, banks_visible, filter_of_imp]
      simp_all
  | countSameNumber org vendorId number exclude =>
      cases h
      rw [answer, answer, invoices_visible, filter_of_imp]
      simp_all
  | previousAmounts org vendorId exclude =>
      cases h
      rw [answer, answer, invoices_visible, filter_of_imp]
      simp_all
  | findPolicy org =>
      cases h
      rw [answer, answer, policy_visible, filter_owned fun _ _ => decide_eq_true rfl]
  | findMembership id org user =>
      cases h
      rw [answer, answer, membership_visible, rowWhere_filter fun m hm => by simp_all]
  | findApprovers org exclude =>
      cases h
      rw [answer, answer, memberships_visible, filter_of_imp]
      simp_all
  | findSession id org user now stepUpAfter =>
      cases h
      rw [answer, answer, session_visible, rowWhere_filter fun s hs => by simp_all]
  | countApprovals org r version =>
      cases h
      rw [answer, answer, decisions_visible, filter_of_imp]
      simp_all
  | pendingOfInvoice org id =>
      cases h
      rw [answer, answer, requests_visible, filter_of_imp]
      simp_all
  | pendingOfVendor org vendorId =>
      obtain ⟨rfl, howned⟩ := h
      exact congrArg (fun rows => some (rows.map Prod.fst)) (pendingOfVendor_visible ⟨rfl, howned⟩)
  | awaitingOfVendor org vendorId =>
      cases h
      rw [answer, answer, invoices_visible, filter_of_imp]
      simp_all
  | findGrants org membershipId now =>
      cases h
      rw [answer, answer, grants_visible, filter_of_imp]
      simp_all
  | findVendorInScope org id buildings =>
      obtain ⟨rfl, howned⟩ := h
      exact congrArg some (findVendorInScope_visible ⟨rfl, howned⟩)
  | findLines i => rw [answer, answer, lines_visible h]
  | load job =>
      cases h
      rw [answer, answer, document_visible, rowWhere_filter fun d hd => by simp_all,
        processing_visible]
      cases hd : rowWhere (fun d => d.invoiceId = job.invoiceId ∧
          d.organizationId = job.organizationId) (db.document job.documentId) with
      | none => rfl
      | some d =>
          have horg : d.organizationId = job.organizationId := by
            simp_all [rowWhere, Option.filter_eq_some_iff]
          simp only [Option.bind_eq_bind, Option.bind_some]
          rw [rowWhere_filter fun r hr => by simp_all]
  | documentStorage org id =>
      cases h
      rw [answer, answer, document_visible, rowWhere_filter fun _ h => h]
  | findDuplicate org sha exclude =>
      cases h
      rw [answer, answer, documents_visible, filter_of_imp]
      simp_all

end Reads

section Writes

variable {o : Id} {db : Db}

/-- The update writes rows of the organization only, and changes no row that the policies hide. -/
def Update.Asks (o : Id) (db : Db) : Update → Prop
  | .insertInvoice _ v => v.organizationId = o
  | .insertDocument _ d => d.organizationId = o
  | .insertProcessing _ r => r.organizationId = o
  | .insertPolicy org => org = o
  | .insertRisk a => a.organizationId = o
  | .insertRequest r => r.organizationId = o
  | .insertDecision d => d.organizationId = o
  | .insertBank b => b.organizationId = o
  | .insertAudit a => a.organizationId = o
  | .updateInvoice id c => ∀ v, db.invoice id = some v → c.applies v = true → v.organizationId = o
  | .updateRequest id c => ∀ r, db.request id = some r → c.applies r = true → r.organizationId = o
  | .updateDocument id c => ∀ d, db.document id = some d → c.applies d = true → d.organizationId = o
  | .updateProcessing id c => ∀ r, db.processing id = some r → c.applies r = true →
      r.organizationId = o
  | .updatePolicy org _ => org = o
  | .deleteLines i => ∀ v, db.invoice i = some v → v.organizationId = o
  | .createLines i _ => ∀ v, db.invoice i = some v → v.organizationId = o
  | .advisoryLock _ _ => True

theorem mem_keys_visible {k : Key} :
    k ∈ (visible o db).keys ↔ k ∈ db.keys ∧ shown o db k = true := by
  rw [visible, Log.keys_restrict, List.mem_filter]

theorem shown_of_row {k : Key} {v : Val k} (hrow : Log.row k db = some v)
    (h : (tenant db k v).all (· = o) = true) : shown o db k = true := by
  rw [shown, hrow]
  exact h

theorem enforce_ok {α : Type} {out : α} {rows : Db}
    (hnew : ∀ k ∈ rows.keys, shown o (rows ++ db) k = true)
    (hold : ∀ k ∈ rows.keys, k ∈ db.keys → shown o db k = true) :
    enforce o db (.ok (out, rows)) = .ok (out, rows) := by
  have hnone : ¬ (rows.keys.any fun k => decide (k ∈ db.keys) && !shown o db k) = true := by
    intro hany
    obtain ⟨k, hk, hboth⟩ := List.any_eq_true.mp hany
    obtain ⟨hmem, hhidden⟩ := Bool.and_eq_true_iff.mp hboth
    rw [hold k hk (of_decide_eq_true hmem)] at hhidden
    cases hhidden
  rw [enforce, if_pos (List.all_eq_true.mpr hnew), if_neg hnone]

theorem enforce_single {α : Type} {out : α} {k : Key} {v : Val k}
    (hnew : shown o (⟨k, v⟩ :: db) k = true) (hold : shown o db k = true) :
    enforce o db (.ok (out, [⟨k, v⟩])) = .ok (out, [⟨k, v⟩]) := by
  refine enforce_ok (fun k' hk' => ?_) fun k' hk' _ => ?_
  · rw [List.mem_singleton.mp hk']
    exact hnew
  · rw [List.mem_singleton.mp hk']
    exact hold

theorem enforce_hidden {α : Type} {out : α} {rows : Db} {k : Key}
    (hnew : ∀ k ∈ rows.keys, shown o (rows ++ db) k = true) (hk : k ∈ rows.keys)
    (hmem : k ∈ db.keys) (hhidden : shown o db k = false) :
    enforce o db (.ok (out, rows)) = .error .uniqueViolation := by
  have hany : (rows.keys.any fun k => decide (k ∈ db.keys) && !shown o db k) = true := by
    refine List.any_eq_true.mpr ⟨k, hk, ?_⟩
    rw [hhidden, decide_eq_true hmem]
    rfl
  rw [enforce, if_pos (List.all_eq_true.mpr hnew), if_pos hany]

/-- A row of the organization is inserted as without the policies: a hidden row with its key makes
it fail as a visible one does. -/
theorem enforce_insert {α : Type} {k : Key} {v : Val k} {indexes : List UniqueIndex} (out : α)
    (h : ∀ db : Db, (tenant db k v).all (· = o) = true) :
    enforce o db ((insertRow (visible o db) k v indexes).map (out, ·)) =
      (insertRow db k v indexes).map (out, ·) := by
  have hindexes : (∃ u ∈ indexes, Key.unique u ∈ (visible o db).keys) ↔
      ∃ u ∈ indexes, Key.unique u ∈ db.keys := by
    refine exists_congr fun u => and_congr_right fun _ => ?_
    rw [mem_keys_visible]
    exact and_iff_left (shown_unowned fun _ _ => rfl)
  simp only [insertRow, hindexes]
  by_cases hunique : ∃ u ∈ indexes, Key.unique u ∈ db.keys
  · rw [if_pos (.inr hunique), if_pos (.inr hunique)]
    rfl
  · have hkeys : ∀ k' ∈ List.keys ((⟨k, v⟩ : Sigma Val) :: indexes.map fun u => ⟨.unique u, ()⟩),
        k' = k ∨ ∃ u ∈ indexes, Key.unique u = k' := by
      intro k' hk'
      simpa [List.keys] using hk'
    have hnew : ∀ k' ∈ List.keys ((⟨k, v⟩ : Sigma Val) :: indexes.map fun u => ⟨.unique u, ()⟩),
        shown o ((⟨k, v⟩ :: indexes.map fun u => ⟨.unique u, ()⟩) ++ db) k' = true := by
      intro k' hk'
      rcases hkeys k' hk' with rfl | ⟨u, -, rfl⟩
      · exact shown_of_row (Log.row_append_of_row _ (Log.row_cons_self ..)) (h _)
      · exact shown_unowned fun _ _ => rfl
    by_cases hk : k ∈ db.keys
    · have htaken : k ∈ db.keys ∨ ∃ u ∈ indexes, Key.unique u ∈ db.keys := .inl hk
      rw [if_pos htaken]
      by_cases hshown : shown o db k = true
      · have htaken' : k ∈ (visible o db).keys ∨ ∃ u ∈ indexes, Key.unique u ∈ db.keys :=
          .inl (mem_keys_visible.mpr ⟨hk, hshown⟩)
        rw [if_pos htaken']
        rfl
      · have hfree : ¬ (k ∈ (visible o db).keys ∨ ∃ u ∈ indexes, Key.unique u ∈ db.keys) := by
          rintro (hmem | hmem)
          · exact hshown (mem_keys_visible.mp hmem).2
          · exact hunique hmem
        rw [if_neg hfree]
        exact enforce_hidden hnew List.mem_cons_self hk (eq_false_of_ne_true hshown)
    · have hfree : ¬ (k ∈ db.keys ∨ ∃ u ∈ indexes, Key.unique u ∈ db.keys) := by
        rintro (hmem | hmem)
        · exact hk hmem
        · exact hunique hmem
      have hfree' : ¬ (k ∈ (visible o db).keys ∨ ∃ u ∈ indexes, Key.unique u ∈ db.keys) := by
        rintro (hmem | hmem)
        · exact hk (mem_keys_visible.mp hmem).1
        · exact hunique hmem
      rw [if_neg hfree, if_neg hfree']
      refine enforce_ok hnew fun k' hk' hmem => ?_
      rcases hkeys k' hk' with rfl | ⟨u, -, rfl⟩
      · exact absurd hmem hk
      · exact shown_unowned fun _ _ => rfl

theorem enforce_checked {α : Type} {k : Key} {v : Val k} {indexes : List UniqueIndex}
    (checks : Bool) (constraint : String) (out : α)
    (h : ∀ db : Db, (tenant db k v).all (· = o) = true) :
    enforce o db ((insertChecked (visible o db) k v indexes checks constraint).map (out, ·)) =
      (insertChecked db k v indexes checks constraint).map (out, ·) := by
  rw [insertChecked, insertChecked]
  split
  · exact enforce_insert out h
  · rfl

/-- A row that the statement changes is the organization's before and after. -/
theorem enforce_update {k : Key} {applies : Val k → Bool}
    {change change' : Val k → Except Failure (Val k)}
    (hown : ∀ v, Log.row k db = some v → applies v = true →
      (tenant db k v).all (· = o) = true ∧ change' v = change v)
    (hnew : ∀ v w, Log.row k db = some v → applies v = true → change v = .ok w →
      ∀ db : Db, (tenant db k w).all (· = o) = true) :
    enforce o db (updateRow (visible o db) k applies change') = updateRow db k applies change := by
  rw [updateRow, updateRow, row_visible]
  cases hrow : Log.row k db with
  | none => rfl
  | some v =>
      by_cases happlies : applies v = true
      · obtain ⟨hv, hchange⟩ := hown v hrow happlies
        have hseen : (some v).filter (fun v => (tenant db k v).all (· = o)) = some v :=
          filter_owned fun a ha => by cases ha; exact hv
        simp only [hseen, happlies, if_true, hchange]
        cases hresult : change v with
        | error e => rfl
        | ok w =>
            exact enforce_single (shown_of_row (Log.row_cons_self ..)
              (hnew v w hrow happlies hresult _)) (shown_of_row hrow hv)
      · have hfalse : applies v = false := eq_false_of_ne_true happlies
        simp only [hfalse]
        by_cases hv : (tenant db k v).all (· = o) = true
        · simp only [Option.filter, hv, if_true, hfalse]
          rfl
        · simp only [Option.filter, hv]
          rfl

theorem validateInvoiceContractVendor_visible {v : Invoice} (h : v.organizationId = o) :
    validateInvoiceContractVendor (visible o db) v = validateInvoiceContractVendor db v := by
  unfold validateInvoiceContractVendor
  cases v.contractId with
  | none => rfl
  | some k =>
      simp only [contract_visible]
      cases v.vendorId with
      | none => rfl
      | some vendorId =>
          cases db.contract k with
          | none => rfl
          | some c =>
              by_cases hc : c.organizationId = o
              · simp [Option.filter, hc]
              · simp [Option.filter, hc, h]

theorem guardInvoiceApproval_visible {id : Id} {old new : Invoice} (h : new.organizationId = o) :
    guardInvoiceApproval (visible o db) id old new = guardInvoiceApproval db id old new := by
  unfold guardInvoiceApproval
  rw [requests_visible, List.any_filter]
  refine congrArg (_ || List.any db.requests ·) (funext fun e => ?_)
  obtain ⟨id', r⟩ := e
  by_cases hr : r.organizationId = o
  · simp [hr]
  · simp [hr, h]

theorem changeInvoice_visible {id : Id} {c : InvoiceChange} {v : Invoice}
    (h : v.organizationId = o) :
    changeInvoice (visible o db) id c v = changeInvoice db id c v := by
  have hnew : (c.apply v).organizationId = o := (c.apply_organizationId v).trans h
  rw [changeInvoice, changeInvoice, guardInvoiceApproval_visible hnew,
    validateInvoiceContractVendor_visible hnew]

theorem invoice_owned {id : Id} {v : Invoice} (h : v.organizationId = o) (db : Db) :
    (tenant db (.invoice id) v).all (· = o) = true := decide_eq_true h

/-- An update that asks for rows of the organization does under the policies what it does without
them. -/
theorem update_enforced (choice : Nat) {u : Update} (h : u.Asks o db) :
    enforce o db (performUpdate choice (visible o db) u) = performUpdate choice db u := by
  cases u with
  | insertInvoice id v =>
      rw [performUpdate, performUpdate, validateInvoiceContractVendor_visible h]
      split
      · exact enforce_checked _ _ _ (invoice_owned h)
      · rfl
  | insertDocument id d => exact enforce_checked _ _ _ fun _ => decide_eq_true h
  | insertProcessing id r => exact enforce_checked _ _ _ fun _ => decide_eq_true h
  | insertPolicy org => exact enforce_insert _ fun _ => decide_eq_true h
  | insertRisk a => exact enforce_checked _ _ _ fun _ => decide_eq_true h
  | insertRequest r => exact enforce_checked _ _ _ fun _ => decide_eq_true h
  | insertDecision d => exact enforce_checked _ _ _ fun _ => decide_eq_true h
  | insertBank b => exact enforce_insert _ fun _ => decide_eq_true h
  | insertAudit a => exact enforce_insert _ fun _ => decide_eq_true h
  | updateInvoice id c =>
      refine enforce_update (fun v hv hc => ?_) fun v w hv hc hw db => ?_
      · exact ⟨decide_eq_true (h v hv hc), changeInvoice_visible (h v hv hc)⟩
      · rw [(admitted_ok hw).1]
        exact decide_eq_true ((c.apply_organizationId v).trans (h v hv hc))
  | updateRequest id c =>
      refine enforce_update (fun v hv hc => ⟨decide_eq_true (h v hv hc), rfl⟩) ?_
      intro v w hv hc hw db
      rw [(admitted_ok hw).1]
      exact decide_eq_true ((c.apply_organizationId v).trans (h v hv hc))
  | updateDocument id c =>
      refine enforce_update (fun v hv hc => ⟨decide_eq_true (h v hv hc), rfl⟩) ?_
      intro v w hv hc hw db
      rw [(admitted_ok hw).1]
      exact decide_eq_true ((c.apply_organizationId v).trans (h v hv hc))
  | updateProcessing id c =>
      refine enforce_update (fun v hv hc => ⟨decide_eq_true (h v hv hc), rfl⟩) ?_
      intro v w hv hc hw db
      rw [(admitted_ok hw).1]
      exact decide_eq_true ((c.apply_organizationId v).trans (h v hv hc))
  | updatePolicy org c =>
      have hseen : (visible o db).policy org = db.policy org := by
        rw [policy_visible]
        exact filter_owned fun _ _ => decide_eq_true h
      simp only [performUpdate, hseen]
      cases db.policy org with
      | none => rfl
      | some p =>
          dsimp only
          split
          · exact enforce_single (shown_policy h) (shown_policy h)
          · rfl
  | deleteLines i => exact enforce_single (shown_lines h) (shown_lines h)
  | createLines i lines =>
      rw [performUpdate, performUpdate, lines_visible h]
      split
      · exact enforce_single (shown_lines h) (shown_lines h)
      · rfl
  | advisoryLock org sha =>
      exact enforce_single (shown_unowned fun _ _ => rfl) (shown_unowned fun _ _ => rfl)

def Stmt.Asks (o : Id) (db : Db) : Stmt → Prop
  | .read q => q.Asks o db
  | .write u => u.Asks o db
  | .call _ => True

/-- The policies make no difference to a statement that asks for rows of the organization. -/
theorem policed_eq (cfg : Config) (choice : Nat) {s : Stmt} (h : s.Asks o db) :
    policed cfg o s choice db = engine cfg s choice db := by
  cases s with
  | read q =>
      rw [policed, engine, answer_visible cfg choice h]
  | write u => exact congrArg some (update_enforced choice h)
  | call c => rfl

end Writes
end BlocTrust
