import BlocTrust.System
import BlocTrust.ReadCommitted.Invariants

/-!
What each statement may write.
`Legal` relates a new version of a row to the version it replaces; every statement of the
services and the worker, and every outside change, writes legal versions only.
-/
namespace BlocTrust

open ReadCommitted

/-- Rows are inserted once and later changed by the listed `UPDATE`s under their triggers. -/
def Legal : Transition Val
  | .invoice _, some old, new => ∃ c : InvoiceChange, c.applies old = true ∧ new = c.apply old
  | .document _, some old, new => ∃ c : DocumentChange, c.applies old = true ∧
      protectDocumentIdentity old new = true ∧ new = c.apply old
  | .processing _, some old, new => ∃ c : ProcessingChange, c.applies old = true ∧
      validateDocumentProcessingTransition old.state new.state = true ∧ new = c.apply old
  | .policy _, none, new => new.requireSeparationOfDuties = true
  | .policy _, some old, new => ∃ c : PolicyChange, new = c.apply old
  | .request _, some old, new => ∃ c : RequestChange, c.applies old = true ∧
      validateApprovalRequestUpdate old new = true ∧ new = c.apply old
  | .decision r m, none, new => new.approvalRequestId = r ∧ new.decidedByMembershipId = m
  | .decision _ _, some _, _ => False
  | .risk _, some _, _ => False
  | .bank _, some _, _ => False
  | .audit _, some _, _ => False
  | .drawn _, some _, _ => False
  | .membership _, some old, new =>
      new.organizationId = old.organizationId ∧ new.userId = old.userId
  | .session _, some old, new =>
      new.organizationId = old.organizationId ∧ new.userId = old.userId
  | _, _, _ => True

/-- The tables that only services outside this development write. -/
def outside : Key → Bool
  | .vendor _ | .contract _ | .membership _ | .session _ | .grant _ | .vendorBuilding _ _ => true
  | _ => false

def machine (cfg : Config) : Machine Val Out Failure Response Op where
  engine := engine cfg
  program := program cfg
  external db rows := (∀ s ∈ rows, outside s.1 = true) ∧ Log.Chain Legal (rows ++ db)

section Rows

/-- An `INSERT` of the row `k` succeeded. -/
structure Inserted (db : Db) (k : Key) (v : Val k) (indexes : List UniqueIndex) (rows : Db) :
    Prop where
  fresh : k ∉ db.keys
  unique : ∀ u ∈ indexes, Key.unique u ∉ db.keys
  rows_eq : rows = ⟨k, v⟩ :: indexes.map fun u => ⟨.unique u, ()⟩

/-- An `UPDATE` of the row `k` ran: it found nothing to change, or wrote one version. -/
inductive Updated (db : Db) (k : Key) (applies : Val k → Bool)
    (change : Val k → Except Failure (Val k)) : Nat → Db → Prop
  | missed (h : ∀ v, Log.row k db = some v → applies v = false) : Updated db k applies change 0 []
  | wrote (old new : Val k) (hrow : Log.row k db = some old) (happlies : applies old = true)
      (hchange : change old = .ok new) : Updated db k applies change 1 [⟨k, new⟩]

variable {db rows : Db} {k : Key} {v : Val k} {indexes : List UniqueIndex}

theorem insertRow_ok (h : insertRow db k v indexes = .ok rows) :
    Inserted db k v indexes rows := by
  unfold insertRow at h
  split at h
  · cases h
  · rename_i hfree
    simp only [not_or, not_exists, not_and] at hfree
    cases h
    exact ⟨hfree.1, hfree.2, rfl⟩

theorem insertChecked_ok {checks : Bool} {constraint : String}
    (h : insertChecked db k v indexes checks constraint = .ok rows) :
    checks = true ∧ Inserted db k v indexes rows := by
  unfold insertChecked at h
  split at h
  · rename_i hchecks
    exact ⟨hchecks, insertRow_ok h⟩
  · cases h

theorem updateRow_ok {applies : Val k → Bool} {change : Val k → Except Failure (Val k)} {n : Nat}
    (h : updateRow db k applies change = .ok (n, rows)) : Updated db k applies change n rows := by
  unfold updateRow at h
  split at h
  · rename_i hrow
    cases h
    exact .missed (by simp [hrow])
  · rename_i old hrow
    split at h
    · rename_i happlies
      cases hnew : change old with
      | error e => simp [hnew, Except.map] at h
      | ok new =>
          simp only [hnew, Except.map, Except.ok.injEq, Prod.mk.injEq] at h
          obtain ⟨rfl, rfl⟩ := h
          exact .wrote old new hrow happlies hnew
    · rename_i happlies
      cases h
      refine .missed fun v hv => ?_
      rw [hrow] at hv
      cases hv
      simpa using happlies

theorem admitted_ok {α : Type} {a b : α} {triggers : List (Bool × String)} {checks : Bool}
    {constraint : String} (h : admitted a triggers checks constraint = .ok b) :
    b = a ∧ ∀ t ∈ triggers, t.1 = true := by
  unfold admitted at h
  split at h
  · cases h
  · rename_i hnone
    split at h
    · cases h
      refine ⟨rfl, fun t ht => ?_⟩
      have hfind := List.find?_eq_none.mp hnone t ht
      simpa using hfind
    · cases h

theorem changeInvoice_ok {id : Id} {c : InvoiceChange} {old new : Invoice}
    (h : changeInvoice db id c old = .ok new) :
    new = c.apply old ∧ guardInvoiceApproval db id old new = true := by
  obtain ⟨rfl, htriggers⟩ := admitted_ok h
  exact ⟨rfl, htriggers _ List.mem_cons_self⟩

theorem changeRequest_ok {c : RequestChange} {old new : ApprovalRequest}
    (h : changeRequest c old = .ok new) :
    new = c.apply old ∧ validateApprovalRequestUpdate old new = true := by
  obtain ⟨rfl, htriggers⟩ := admitted_ok h
  exact ⟨rfl, htriggers _ List.mem_cons_self⟩

theorem changeDocument_ok {c : DocumentChange} {old new : Document}
    (h : changeDocument c old = .ok new) :
    new = c.apply old ∧ protectDocumentIdentity old new = true := by
  obtain ⟨rfl, htriggers⟩ := admitted_ok h
  exact ⟨rfl, htriggers _ List.mem_cons_self⟩

theorem changeProcessing_ok {c : ProcessingChange} {old new : DocumentProcessing}
    (h : changeProcessing c old = .ok new) :
    new = c.apply old ∧
      validateDocumentProcessingTransition old.state new.state = true := by
  obtain ⟨rfl, htriggers⟩ := admitted_ok h
  exact ⟨rfl, htriggers _ List.mem_cons_self⟩

theorem Inserted.chain (h : Inserted db k v indexes rows) (hk : ∀ u, k ≠ .unique u)
    (hv : Legal k none v) (hc : Log.Chain Legal db) : Log.Chain Legal (rows ++ db) := by
  have hindexes : Log.Chain Legal (indexes.map (fun u => ⟨.unique u, ()⟩) ++ db) := by
    clear h
    induction indexes with
    | nil => exact hc
    | cons u us ih => exact ⟨trivial, ih⟩
  have hfresh : Log.row k (indexes.map (fun u => (⟨.unique u, ()⟩ : Sigma Val)) ++ db) = none := by
    rw [Log.row_eq_none, Log.keys_append, List.mem_append, not_or]
    refine ⟨fun hmem => ?_, h.fresh⟩
    obtain ⟨s, hs, rfl⟩ := List.mem_map.mp hmem
    obtain ⟨u, -, rfl⟩ := List.mem_map.mp hs
    exact hk u rfl
  rw [h.rows_eq, List.cons_append, Log.chain_cons, hfresh]
  exact ⟨hv, hindexes⟩

theorem Updated.chain {applies : Val k → Bool} {change : Val k → Except Failure (Val k)}
    {n : Nat} (h : Updated db k applies change n rows)
    (hlegal : ∀ old new, applies old = true → change old = .ok new → Legal k (some old) new)
    (hc : Log.Chain Legal db) : Log.Chain Legal (rows ++ db) := by
  cases h with
  | missed _ => exact hc
  | wrote old new hrow happlies hchange =>
      rw [List.singleton_append, Log.chain_cons, hrow]
      exact ⟨hlegal old new happlies hchange, hc⟩

end Rows

theorem map_ok {α β : Type} {x : Except Failure α} {f : α → β} {b : β}
    (h : x.map f = .ok b) : ∃ a, x = .ok a ∧ f a = b := by
  cases x with
  | error e => cases h
  | ok a => exact ⟨a, rfl, Except.ok.inj h⟩

section Effects

/-- The versions an `UPDATE` or `INSERT` statement wrote over the view it ran on. -/
inductive Wrote (db : Db) : (u : Update) → u.Out → Db → Prop
  | insertInvoice {id v rows} (h : Inserted db (.invoice id) v [] rows) :
      Wrote db (.insertInvoice id v) () rows
  | insertDocument {id d rows} (h : Inserted db (.document id) d [] rows) :
      Wrote db (.insertDocument id d) () rows
  | insertProcessing {id p rows} (h : Inserted db (.processing id) p [] rows) :
      Wrote db (.insertProcessing id p) () rows
  | insertPolicy {org rows} (h : Inserted db (.policy org) defaultPolicy [] rows) :
      Wrote db (.insertPolicy org) defaultPolicy rows
  | insertRisk {r rows} (id : Id) (h : Inserted db (.risk id) r
      [.riskAssessment r.organizationId r.invoiceId r.invoiceVersion] rows) :
      Wrote db (.insertRisk r) id rows
  | insertRequest {r rows} (id : Id) (h : Inserted db (.request id) r
      [.requestVersion r.organizationId r.invoiceId r.version,
       .requestKey r.organizationId r.idempotencyKeyHash] rows) :
      Wrote db (.insertRequest r) id rows
  | insertDecision {d rows}
      (h : Inserted db (.decision d.approvalRequestId d.decidedByMembershipId) d
        [.decisionKey d.organizationId d.idempotencyKeyHash] rows) :
      Wrote db (.insertDecision d) () rows
  | insertBank {b rows} (id : Id) (h : Inserted db (.bank id) b
      [.bankVersion b.organizationId b.vendorId b.versionNumber] rows) :
      Wrote db (.insertBank b) id rows
  | insertAudit {a rows} (id : Id) (h : Inserted db (.audit id) a [] rows) :
      Wrote db (.insertAudit a) () rows
  | updateInvoice {id c n rows}
      (h : Updated db (.invoice id) c.applies (changeInvoice db id c) n rows) :
      Wrote db (.updateInvoice id c) n rows
  | updateRequest {id c n rows}
      (h : Updated db (.request id) c.applies (changeRequest c) n rows) :
      Wrote db (.updateRequest id c) n rows
  | updateDocument {id c n rows}
      (h : Updated db (.document id) c.applies (changeDocument c) n rows) :
      Wrote db (.updateDocument id c) n rows
  | updateProcessing {id c n rows}
      (h : Updated db (.processing id) c.applies (changeProcessing c) n rows) :
      Wrote db (.updateProcessing id c) n rows
  | updatePolicy {org c p} (h : db.policy org = some p) :
      Wrote db (.updatePolicy org c) (c.apply p) [⟨.policy org, c.apply p⟩]
  | deleteLines {id} : Wrote db (.deleteLines id) () [⟨.lines id, []⟩]
  | createLines {id lines} :
      Wrote db (.createLines id lines) () [⟨.lines id, db.lines id ++ lines⟩]
  | advisoryLock {org sha} :
      Wrote db (.advisoryLock org sha) () [⟨.advisory org sha, ()⟩]

theorem performUpdate_ok {choice : Nat} {db : Db} {u : Update} {out : u.Out} {rows : Db}
    (h : performUpdate choice db u = .ok (out, rows)) : Wrote db u out rows := by
  cases u with
  | insertInvoice id v =>
      simp only [performUpdate] at h
      split at h
      · obtain ⟨a, ha, heq⟩ := map_ok h
        cases heq
        exact .insertInvoice (insertChecked_ok ha).2
      · cases h
  | insertDocument id d =>
      obtain ⟨a, ha, heq⟩ := map_ok h
      cases heq
      exact .insertDocument (insertChecked_ok ha).2
  | insertProcessing id p =>
      obtain ⟨a, ha, heq⟩ := map_ok h
      cases heq
      exact .insertProcessing (insertChecked_ok ha).2
  | insertPolicy org =>
      obtain ⟨a, ha, heq⟩ := map_ok h
      cases heq
      exact .insertPolicy (insertRow_ok ha)
  | insertRisk r =>
      obtain ⟨a, ha, heq⟩ := map_ok h
      cases heq
      exact .insertRisk choice (insertChecked_ok ha).2
  | insertRequest r =>
      obtain ⟨a, ha, heq⟩ := map_ok h
      cases heq
      exact .insertRequest choice (insertChecked_ok ha).2
  | insertDecision d =>
      obtain ⟨a, ha, heq⟩ := map_ok h
      cases heq
      exact .insertDecision (insertChecked_ok ha).2
  | insertBank b =>
      obtain ⟨a, ha, heq⟩ := map_ok h
      cases heq
      exact .insertBank choice (insertRow_ok ha)
  | insertAudit a =>
      obtain ⟨a, ha, heq⟩ := map_ok h
      cases heq
      exact .insertAudit choice (insertRow_ok ha)
  | updateInvoice id c => exact .updateInvoice (updateRow_ok h)
  | updateRequest id c => exact .updateRequest (updateRow_ok h)
  | updateDocument id c => exact .updateDocument (updateRow_ok h)
  | updateProcessing id c => exact .updateProcessing (updateRow_ok h)
  | updatePolicy org c =>
      simp only [performUpdate] at h
      split at h
      · cases h
      · rename_i p hp
        split at h
        · cases h
          exact .updatePolicy hp
        · cases h
  | deleteLines id =>
      cases h
      exact .deleteLines
  | createLines id lines =>
      simp only [performUpdate] at h
      split at h
      · cases h
        exact .createLines
      · cases h
  | advisoryLock org sha =>
      cases h
      exact .advisoryLock

theorem Wrote.chain {db : Db} {u : Update} {out : u.Out} {rows : Db} (h : Wrote db u out rows)
    (hc : Log.Chain Legal db) : Log.Chain Legal (rows ++ db) := by
  cases h with
  | insertInvoice h => exact h.chain (by simp) trivial hc
  | insertDocument h => exact h.chain (by simp) trivial hc
  | insertProcessing h => exact h.chain (by simp) trivial hc
  | insertPolicy h => exact h.chain (by simp) rfl hc
  | insertRisk id h => exact h.chain (by simp) trivial hc
  | insertRequest id h => exact h.chain (by simp) trivial hc
  | insertDecision h => exact h.chain (by simp) ⟨rfl, rfl⟩ hc
  | insertBank id h => exact h.chain (by simp) trivial hc
  | insertAudit id h => exact h.chain (by simp) trivial hc
  | updateInvoice h =>
      exact h.chain (fun old new ha hn => ⟨_, ha, (changeInvoice_ok hn).1⟩) hc
  | updateRequest h =>
      exact h.chain (fun old new ha hn =>
        ⟨_, ha, (changeRequest_ok hn).2, (changeRequest_ok hn).1⟩) hc
  | updateDocument h =>
      exact h.chain (fun old new ha hn =>
        ⟨_, ha, (changeDocument_ok hn).2, (changeDocument_ok hn).1⟩) hc
  | updateProcessing h =>
      exact h.chain (fun old new ha hn =>
        ⟨_, ha, (changeProcessing_ok hn).2, (changeProcessing_ok hn).1⟩) hc
  | @updatePolicy org c p h =>
      have hrow : Log.row (Key.policy org) db = some p := h
      rw [List.singleton_append, Log.chain_cons, hrow]
      exact ⟨⟨c, rfl⟩, hc⟩
  | deleteLines => exact ⟨trivial, hc⟩
  | createLines => exact ⟨trivial, hc⟩
  | advisoryLock => exact ⟨trivial, hc⟩

end Effects
end BlocTrust
