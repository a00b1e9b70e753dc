import BlocTrust.Duplicates
import BlocTrust.Storage

/-!
Objects and the documents that refer to them.
An object key belongs to the process that drew it, and so do the object under it and the
document that refers to it: nobody else writes the object, and its owner deletes it only
while no document refers to it.  References to stored objects are therefore never broken.
-/
namespace BlocTrust

open ReadCommitted

section Commit

variable {cfg : Config} {db view rows : Db} {p : Process} {b : Bucket} {k : Id}

theorem Wrote.not_object {u : Update} {out : u.Out} (h : Wrote view u out rows) :
    Key.object b k ∉ rows.keys := by
  intro hk
  obtain ⟨s, hs, hkey⟩ := List.mem_map.mp hk
  have hinserted : ∀ {k' : Key} {w : Val k'} {indexes : List UniqueIndex},
      Inserted view k' w indexes rows → k' = .object b k := by
    intro k' w indexes h'
    rw [h'.rows_eq] at hs
    rcases List.mem_cons.mp hs with rfl | hs
    · exact hkey
    · obtain ⟨u, -, rfl⟩ := List.mem_map.mp hs
      cases hkey
  cases h with
  | insertInvoice h => cases hinserted h
  | insertDocument h => cases hinserted h
  | insertProcessing h => cases hinserted h
  | insertPolicy h => cases hinserted h
  | insertRisk id h => cases hinserted h
  | insertRequest id h => cases hinserted h
  | insertDecision h => cases hinserted h
  | insertBank id h => cases hinserted h
  | insertAudit id h => cases hinserted h
  | updateInvoice h => cases (h.mem hs).symm.trans hkey
  | updateRequest h => cases (h.mem hs).symm.trans hkey
  | updateDocument h => cases (h.mem hs).symm.trans hkey
  | updateProcessing h => cases (h.mem hs).symm.trans hkey
  | updatePolicy h => simp at hs; cases hs; cases hkey
  | deleteLines => simp at hs; cases hs; cases hkey
  | createLines => simp at hs; cases hs; cases hkey
  | advisoryLock => simp at hs; cases hs; cases hkey

theorem reply_object {c : External} {choice : Nat} {out : c.Out}
    (h : reply cfg choice view c = some (.ok (out, rows))) (hk : Key.object b k ∈ rows.keys) :
    Moves ⟨.call c, out⟩ := by
  cases c with
  | putObject bucket key bytes => trivial
  | deleteObject bucket key => trivial
  | randomObjectKey =>
      simp only [reply] at h
      split at h <;> cases h
      simp at hk
  | getObject bucket key =>
      simp only [reply] at h
      split at h <;> cases h
      simp at hk
  | clock => cases h; simp at hk
  | randomUUID => cases h; simp at hk
  | scanFile bytes => cases h; simp at hk
  | extractSuggestions bytes mimeType => cases h; simp at hk
  | enqueue job => cases h; simp at hk

/-- What a commit does to the stored objects. -/
inductive Shift (cfg : Config) (db : Db) (p : Process) : Prop
  | still (hcalls : ∀ c ∈ p.calls, ¬ Moves c)
      (hobject : ∀ b k, Db.object (p.writes ++ db) b k = Db.object db b k)
  | put (b : Bucket) (key : Id) (bytes : Bytes)
      (hcalls : p.calls = [⟨.call (.putObject b key bytes), ()⟩])
      (hbefore : (storageConduct cfg p.op).before p.past [] (.call (.putObject b key bytes)))
      (hwrites : p.writes = [⟨.object b key, some bytes⟩])
  | delete (b : Bucket) (key : Id)
      (hcalls : p.calls = [⟨.call (.deleteObject b key), ()⟩])
      (hbefore : (storageConduct cfg p.op).before p.past [] (.call (.deleteObject b key)))
      (hwrites : p.writes = [⟨.object b key, none⟩])

/-- The operations that store objects. -/
def Op.stores : Op → Bool
  | .upload .. | .process .. => true
  | _ => false

theorem commit_shift (h : ProcOk (machine cfg) (storageConduct cfg) Legal db p)
    (hop : p.op.stores = true) {next} (hq : p.prog = .commit next) : Shift cfg db p := by
  by_cases hstill : ∀ c ∈ p.calls, ¬ Moves c
  · refine .still hstill fun b k => ?_
    have hk : Key.object b k ∉ p.writes.keys := by
      intro hk
      obtain ⟨e, he, hke⟩ := mem_keys_writes.mp hk
      obtain ⟨newer, older, hcur, hx⟩ := h.trace.split he
      have hcall : ¬ Moves e.call := hstill _ (List.mem_map_of_mem he)
      obtain ⟨s, out, rows, base⟩ := e
      have hran : Ran cfg (writes older ++ base) s out rows := executed_ran hx
      cases hran with
      | read choice hanswer => simp [List.keys] at hke
      | write hwrote => exact hwrote.not_object hke
      | call choice hreply => exact hcall (reply_object hreply hke)
    rw [Db.object, Log.row_append_of_not_mem _ hk, Db.object]
  · obtain ⟨c, hc, hmoves⟩ : ∃ c ∈ p.calls, Moves c := by
      by_contra hnone
      exact hstill fun c hc hmoves => hnone ⟨c, hc, hmoves⟩
    have hconf := h.conforms
    rw [hq] at hconf
    have hdue : (storageConduct cfg p.op).due p.past p.calls := hconf.1
    have hcalls : p.calls = [c] := by
      cases hp : p.op with
      | upload normalize auth dto file =>
          rw [hp] at hdue
          exact hdue c hc hmoves
      | process job final =>
          rw [hp] at hdue
          exact hdue c hc hmoves
      | _ =>
          rw [hp] at hop
          cases hop
    obtain ⟨e, hcur⟩ : ∃ e, p.current = [e] := by
      have hlength : p.current.length = 1 := by
        have := congrArg List.length hcalls
        simpa [Proc.calls] using this
      exact List.length_eq_one_iff.mp hlength
    have htrace := h.trace
    rw [hcur] at htrace
    have hx := htrace.1
    obtain ⟨s, out, rows, base⟩ := e
    have hcall : c = ⟨s, out⟩ := by
      rw [Proc.calls, hcur] at hcalls
      exact (List.cons.inj hcalls).1.symm
    have hwrites : p.writes = rows := by
      rw [Proc.writes, hcur]
      simp [writes]
    have hran : Ran cfg (writes [] ++ base) s out rows := executed_ran hx
    have hallowed : (storageConduct cfg p.op).before p.past [] s := hx.allowed
    subst hcall
    cases hran with
    | read choice hanswer => exact hmoves.elim
    | write hwrote => exact hmoves.elim
    | @call external out rows choice hreply =>
        cases external with
        | putObject b key bytes =>
            cases hreply
            exact .put b key bytes hcalls hallowed hwrites
        | deleteObject b key =>
            cases hreply
            exact .delete b key hcalls hallowed hwrites
        | _ => exact hmoves.elim

theorem object_written (b : Bucket) (k : Id) (o : Option Bytes) :
    Db.object ([⟨.object b k, o⟩] ++ db) b k = o := by
  rw [Db.object, List.singleton_append, Log.row_cons_self]
  rfl

theorem object_kept {b' : Bucket} {k' : Id} {o : Option Bytes} (hne : ¬ (b' = b ∧ k' = k)) :
    Db.object ([⟨.object b' k', o⟩] ++ db) b k = Db.object db b k := by
  have hkey : Key.object b k ∉ List.keys [(⟨.object b' k', o⟩ : Sigma Val)] := by
    intro hmem
    obtain ⟨rfl, rfl⟩ : b = b' ∧ k = k' := by simpa [List.keys] using hmem
    exact hne ⟨rfl, rfl⟩
  rw [Db.object, Log.row_append_of_not_mem _ hkey, Db.object]

end Commit

/-- How the processes, the documents and the objects hang together. -/
structure Warehouse (cfg : Config) (s : System) : Prop where
  owner : ∀ id d, Db.document s.db id = some d →
    ∃ (i : Nat) (p : Process) (d₀ : Document), s.procs[i]? = some p ∧
      Called p.past .randomObjectKey d.quarantineObjectKey ∧ Did p.past (.insertDocument id d₀) ()
  once : ∀ (i : Nat) p id id' d d', s.procs[i]? = some p → Did p.past (.insertDocument id d) () →
    Did p.past (.insertDocument id' d') () → id = id'
  drawn : ∀ (i : Nat) p b key bytes, s.procs[i]? = some p →
    Called p.past (.putObject b key bytes) () → Called p.past .randomObjectKey key
  held : ∀ (i : Nat) p b key bytes, s.procs[i]? = some p →
    Called p.past (.putObject b key bytes) () → (∀ k, ¬ Called p.past (.deleteObject b k) ()) →
      (b = .quarantine → ¬ Inserts p.past) → Db.object s.db b key = some bytes
  loaded : ∀ (i : Nat) p job d r, s.procs[i]? = some p → Saw p.past (.load job) (some (d, r)) →
    ∃ d', Db.document s.db job.documentId = some d' ∧
      d'.quarantineObjectKey = d.quarantineObjectKey
  promoted : ∀ (i : Nat) p id org key sha duplicate n, s.procs[i]? = some p →
    Did p.past (.updateDocument id (.promoted org key sha duplicate)) n →
      ∃ d, Db.document s.db id = some d ∧ d.storageState = .approved
  quarantined : ∀ id d, Db.document s.db id = some d → d.storageState = .quarantined →
    ∃ bytes, Db.object s.db .quarantine d.quarantineObjectKey = some bytes
  approved : ∀ id d, Db.document s.db id = some d → d.storageState = .approved →
    ∃ key bytes, d.approvedObjectKey = some key ∧ d.sha256 = some (cfg.sha256 bytes) ∧
      Db.object s.db .approved key = some bytes
  cleared : ∀ (i : Nat) p job final key, s.procs[i]? = some p → p.op = .process job final →
    Called p.past (.deleteObject .quarantine key) () →
      Db.object s.db .quarantine key = none ∧
        ∃ d, Db.document s.db job.documentId = some d ∧ d.quarantineObjectKey = key

section Steps

variable {cfg : Config} {s s' : System} {i j : Nat} {p q : Process} {id : Id} {d : Document}

/-- Whoever has drawn the quarantine key of a document has inserted it. -/
theorem Warehouse.own (h : Warehouse cfg s) (hkeys : KeysOwned s)
    (hd : Db.document s.db id = some d) (hq : s.procs[j]? = some q)
    (hdrawn : Called q.past .randomObjectKey d.quarantineObjectKey) :
    ∃ d₀, Did q.past (.insertDocument id d₀) () := by
  obtain ⟨i, p, d₀, hp, hdrawn', hdid⟩ := h.owner id d hd
  have hij := hkeys.single i j p q _ hp hq hdrawn' hdrawn
  subst hij
  have hsame : p = q := Option.some.inj (hp.symm.trans hq)
  exact ⟨d₀, hsame ▸ hdid⟩

/-- Two documents do not share a quarantined object. -/
theorem Warehouse.unshared (h : Warehouse cfg s) (hkeys : KeysOwned s) {id' : Id} {d' : Document}
    (hd : Db.document s.db id = some d) (hd' : Db.document s.db id' = some d')
    (hkey : d.quarantineObjectKey = d'.quarantineObjectKey) : id = id' := by
  obtain ⟨i, p, d₀, hp, hdrawn, hdid⟩ := h.owner id d hd
  obtain ⟨d₁, hdid'⟩ := h.own hkeys hd' hp (hkey ▸ hdrawn)
  exact h.once i p id id' d₀ d₁ hp hdid hdid'

/-- Steps that commit nothing leave everything as it is. -/
theorem Warehouse.idle (h : Warehouse cfg s)
    (hdocument : ∀ id, Db.document s'.db id = Db.document s.db id)
    (hobject : ∀ b k, Db.object s'.db b k = Db.object s.db b k)
    (hback : ∀ (j : Nat) p', s'.procs[j]? = some p' → p'.past = [] ∨
      ∃ p, s.procs[j]? = some p ∧ p.op = p'.op ∧ p.past = p'.past)
    (hforth : ∀ (j : Nat) p, s.procs[j]? = some p → ∃ p', s'.procs[j]? = some p' ∧ p'.op = p.op ∧
      p.past ⊆ p'.past) : Warehouse cfg s' := by
  have hpast : ∀ {j : Nat} {p' : Process} {c : Sigma Out}, s'.procs[j]? = some p' → c ∈ p'.past →
      ∃ p, s.procs[j]? = some p ∧ p.op = p'.op ∧ p.past = p'.past := by
    intro j p' c hj hc
    rcases hback j p' hj with hnil | hold
    · rw [hnil] at hc
      exact absurd hc List.not_mem_nil
    · exact hold
  refine ⟨fun id d hd => ?_, fun i p id id' d d' hp hdid hdid' => ?_,
    fun i p b key bytes hp hput => ?_, fun i p b key bytes hp hput hkept hfresh => ?_,
    fun i p job d r hp hsaw => ?_, fun i p id org key sha duplicate n hp hdid => ?_,
    fun id d hd hstate => ?_, fun id d hd hstate => ?_, fun i p job final key hp hop hdelete => ?_⟩
  · obtain ⟨i, p, d₀, hp, hdrawn, hdid⟩ := h.owner id d (hdocument id ▸ hd)
    obtain ⟨p', hp', -, hsub⟩ := hforth i p hp
    exact ⟨i, p', d₀, hp', hsub hdrawn, hsub hdid⟩
  · obtain ⟨p₀, hp₀, -, heq⟩ := hpast hp hdid
    exact h.once i p₀ id id' d d' hp₀ (heq ▸ hdid) (heq ▸ hdid')
  · obtain ⟨p₀, hp₀, -, heq⟩ := hpast hp hput
    exact heq ▸ h.drawn i p₀ b key bytes hp₀ (heq ▸ hput)
  · obtain ⟨p₀, hp₀, -, heq⟩ := hpast hp hput
    rw [hobject]
    exact h.held i p₀ b key bytes hp₀ (heq ▸ hput) (heq ▸ hkept) (heq ▸ hfresh)
  · obtain ⟨p₀, hp₀, -, heq⟩ := hpast hp hsaw
    rw [hdocument]
    exact h.loaded i p₀ job d r hp₀ (heq ▸ hsaw)
  · obtain ⟨p₀, hp₀, -, heq⟩ := hpast hp hdid
    rw [hdocument]
    exact h.promoted i p₀ id org key sha duplicate n hp₀ (heq ▸ hdid)
  · rw [hobject]
    exact h.quarantined id d (hdocument id ▸ hd) hstate
  · obtain ⟨key, bytes, hkey, hsha, hbytes⟩ := h.approved id d (hdocument id ▸ hd) hstate
    exact ⟨key, bytes, hkey, hsha, (hobject _ _).trans hbytes⟩
  · obtain ⟨p₀, hp₀, hop₀, heq⟩ := hpast hp hdelete
    rw [hobject, hdocument]
    exact h.cleared i p₀ job final key hp₀ (hop₀.trans hop) (heq ▸ hdelete)

end Steps

/-- A process of a system in order that is about to commit. -/
structure Committing (cfg : Config) (s : System) (i : Nat) (p : Process) : Prop where
  proc : s.procs[i]? = some p
  ready : ∃ next, p.prog = .commit next
  stores : p.op.stores = true
  ok : ProcOk (machine cfg) (conduct cfg) Legal s.db p
  stored : ProcOk (machine cfg) (storageConduct cfg) Legal s.db p
  observed : ingestion.Observed s.db p
  ingestion : Ingestion s.db
  keys : KeysOwned s
  warehouse : Warehouse cfg s

section Transaction

variable {cfg : Config} {s : System} {i j : Nat} {p q : Process} {id : Id} {d : Document}
  {b : Bucket} {k : Id}

theorem Shift.object_of_did {db : Db} (h : Shift cfg db p) {u : Update} {out : u.Out}
    (hd : Did p.calls u out) (b : Bucket) (k : Id) :
    Db.object (p.writes ++ db) b k = Db.object db b k := by
  cases h with
  | still hcalls hobject => exact hobject b k
  | put b' key bytes hcalls =>
      rw [hcalls] at hd
      simp at hd
  | delete b' key hcalls =>
      rw [hcalls] at hd
      simp at hd

theorem Committing.shift (h : Committing cfg s i p) : Shift cfg s.db p := by
  obtain ⟨next, hnext⟩ := h.ready
  exact commit_shift h.stored h.stores hnext

theorem Committing.later (h : Committing cfg s i p) (hd : Db.document s.db id = some d) :
    ∃ d', Db.document (p.writes ++ s.db) id = some d' ∧ DocumentLater d d' :=
  document_later h.ok.view (List.suffix_append _ _) hd

/-- An upload that inserts a document has stored its object. -/
theorem Committing.inserts (h : Committing cfg s i p)
    (hinserts : InsertsDocument s.db p id d) :
    Called p.past .randomObjectKey d.quarantineObjectKey ∧
      (∃ bytes, Called p.past (.putObject .quarantine d.quarantineObjectKey bytes) ()) ∧
      (∀ key, ¬ Called p.past (.deleteObject .quarantine key) ()) ∧ ¬ Inserts p.past := by
  obtain ⟨newer, older, rows, base, -, -, hbefore⟩ := did_event h.stored hinserts.did
  obtain ⟨normalize, auth, dto, file, hop, -⟩ := hinserts.op
  rw [hop] at hbefore
  exact hbefore

/-- What a put or a delete of the transaction says about the earlier calls. -/
theorem putObject_before {past cur : Calls Out} {op : Op} {bytes : Bytes} (hop : op.stores = true)
    (h : (storageConduct cfg op).before past cur (.call (.putObject b k bytes))) :
    Called past .randomObjectKey k ∧ Unstored b past ∧ (b = .quarantine → ¬ Inserts past) ∧
      (b = .approved → ¬ Promotes past) := by
  cases op with
  | upload normalize auth dto file =>
      obtain ⟨hb, hdrawn, hunstored, hfresh⟩ := h
      refine ⟨hdrawn, hunstored, fun _ => hfresh, fun hb' => ?_⟩
      rw [hb] at hb'
      cases hb'
  | process job final =>
      obtain ⟨hb, hdrawn, hunstored, hfresh⟩ := h
      refine ⟨hdrawn, hunstored, fun hb' => ?_, fun _ => hfresh⟩
      rw [hb] at hb'
      cases hb'
  | _ => cases hop

/-- Objects are deleted from quarantine by the upload that has not inserted their document, or
by an attempt on the document that refers to them. -/
theorem Warehouse.deleteObject_before (h : Warehouse cfg s) (hp : s.procs[i]? = some p)
    (hop : p.op.stores = true) {cur : Calls Out}
    (hbefore : (storageConduct cfg p.op).before p.past cur (.call (.deleteObject b k))) :
    (Called p.past .randomObjectKey k ∧ (b = .quarantine → ¬ Inserts p.past) ∧
      (b = .approved → ¬ Promotes p.past)) ∨
    b = .quarantine ∧ ∃ job final d, p.op = .process job final ∧
      Db.document s.db job.documentId = some d ∧ d.quarantineObjectKey = k ∧
      d.storageState = .approved := by
  cases hcase : p.op with
  | upload normalize auth dto file =>
      rw [hcase] at hbefore
      obtain ⟨hb, hdrawn, hfresh⟩ := hbefore
      refine .inl ⟨hdrawn, fun _ => hfresh, fun hb' => ?_⟩
      rw [hb] at hb'
      cases hb'
  | process job final =>
      rw [hcase] at hbefore
      cases b with
      | approved =>
          obtain ⟨hdrawn, hfresh⟩ := hbefore
          refine .inl ⟨hdrawn, fun hb => ?_, fun _ => hfresh⟩
          cases hb
      | quarantine =>
          obtain ⟨d, r, org, key, sha, duplicate, n, hsaw, hkey, hdid⟩ := hbefore
          obtain ⟨d', hd', hsame⟩ := h.loaded i p job d r hp hsaw
          obtain ⟨d'', hd'', happroved⟩ := h.promoted i p _ org key sha duplicate n hp hdid
          have heq : d'' = d' := Option.some.inj (hd''.symm.trans hd')
          exact .inr ⟨rfl, job, final, d', rfl, hd', hsame.trans hkey.symm, heq ▸ happroved⟩
  | _ =>
      rw [hcase] at hop
      cases hop

/-- Nobody deletes the object of a document in quarantine. -/
theorem Committing.quarantine_kept (h : Committing cfg s i p)
    (hd : Db.document s.db id = some d) (hstate : d.storageState = .quarantined) :
    ∃ bytes, Db.object (p.writes ++ s.db) .quarantine d.quarantineObjectKey = some bytes := by
  obtain ⟨bytes, hbytes⟩ := h.warehouse.quarantined id d hd hstate
  cases h.shift with
  | still hcalls hobject => exact ⟨bytes, (hobject _ _).trans hbytes⟩
  | put b key bytes' hcalls hbefore hwrites =>
      rw [hwrites]
      by_cases hsame : b = .quarantine ∧ key = d.quarantineObjectKey
      · obtain ⟨rfl, rfl⟩ := hsame
        exact ⟨bytes', object_written _ _ _⟩
      · exact ⟨bytes, (object_kept hsame).trans hbytes⟩
  | delete b key hcalls hbefore hwrites =>
      have hne : ¬ (b = .quarantine ∧ key = d.quarantineObjectKey) := by
        rintro ⟨rfl, rfl⟩
        rcases h.warehouse.deleteObject_before h.proc h.stores hbefore with
          ⟨hdrawn, hfresh, -⟩ | ⟨-, job, final, d', -, hd', hkey, happroved⟩
        · obtain ⟨d₀, hdid⟩ := h.warehouse.own h.keys hd h.proc hdrawn
          exact hfresh rfl ⟨id, d₀, hdid⟩
        · have hid := h.warehouse.unshared h.keys hd' hd hkey
          subst hid
          have heq : d' = d := Option.some.inj (hd'.symm.trans hd)
          rw [heq, hstate] at happroved
          cases happroved
      rw [hwrites]
      exact ⟨bytes, (object_kept hne).trans hbytes⟩

/-- Nobody touches the object of an approved document. -/
theorem Committing.approved_kept (h : Committing cfg s i p)
    (hd : Db.document s.db id = some d) (hkey : d.approvedObjectKey = some k) :
    Db.object (p.writes ++ s.db) .approved k = Db.object s.db .approved k := by
  obtain ⟨j, q, org, sha, duplicate, n, hq, hdrawn, hdid⟩ := h.keys.promoted id d k hd hkey
  have hpromotes : Called p.past .randomObjectKey k → Promotes p.past := by
    intro hdrawn'
    have hij := h.keys.single j i q p k hq h.proc hdrawn hdrawn'
    subst hij
    have heq : q = p := Option.some.inj (hq.symm.trans h.proc)
    exact ⟨id, org, k, sha, duplicate, n, heq ▸ hdid⟩
  cases h.shift with
  | still hcalls hobject => exact hobject _ _
  | put b key bytes hcalls hbefore hwrites =>
      rw [hwrites]
      refine object_kept ?_
      rintro ⟨rfl, rfl⟩
      obtain ⟨hdrawn', -, -, hfresh⟩ := putObject_before h.stores hbefore
      exact hfresh rfl (hpromotes hdrawn')
  | delete b key hcalls hbefore hwrites =>
      rw [hwrites]
      refine object_kept ?_
      rintro ⟨rfl, rfl⟩
      rcases h.warehouse.deleteObject_before h.proc h.stores hbefore with
        ⟨hdrawn', -, hfresh⟩ | ⟨hb, -⟩
      · exact hfresh rfl (hpromotes hdrawn')
      · cases hb

/-- A process holds what it has put until it deletes it or a document refers to it. -/
theorem Committing.held_kept (h : Committing cfg s i p) {bytes : Bytes}
    (hq : s.procs[j]? = some q) (hput : Called q.past (.putObject b k bytes) ())
    (hfresh : b = .quarantine → ¬ Inserts q.past)
    (hkept : j = i → ¬ Called p.calls (.deleteObject b k) ()) :
    Db.object (p.writes ++ s.db) b k = Db.object s.db b k := by
  have hsame : Called p.past .randomObjectKey k → j = i := fun hdrawn =>
    h.keys.single j i q p k hq h.proc (h.warehouse.drawn j q b k bytes hq hput) hdrawn
  cases h.shift with
  | still hcalls hobject => exact hobject _ _
  | put b' key bytes' hcalls hbefore hwrites =>
      rw [hwrites]
      refine object_kept ?_
      rintro ⟨rfl, rfl⟩
      obtain ⟨hdrawn, hunstored, -⟩ := putObject_before h.stores hbefore
      have hji := hsame hdrawn
      subst hji
      have heq : q = p := Option.some.inj (hq.symm.trans h.proc)
      exact hunstored.put key bytes (heq ▸ hput)
  | delete b' key hcalls hbefore hwrites =>
      rw [hwrites]
      refine object_kept ?_
      rintro ⟨rfl, rfl⟩
      rcases h.warehouse.deleteObject_before h.proc h.stores hbefore with
        ⟨hdrawn, -⟩ | ⟨rfl, job, final, d, -, hd, hkey, -⟩
      · refine hkept (hsame hdrawn) ?_
        rw [hcalls]
        exact List.mem_cons_self
      · obtain ⟨d₀, hdid⟩ := h.warehouse.own h.keys hd hq
          (hkey ▸ h.warehouse.drawn j q .quarantine key bytes hq hput)
        exact hfresh rfl ⟨_, d₀, hdid⟩

/-- A call of the new past of a process is an old one or one of the transaction. -/
theorem closed_cases {prog : Program Response} {j : Nat} {q' : Process} {c : Sigma Out}
    (hp : s.procs[i]? = some p) (hq : (s.procs.set i (p.close prog))[j]? = some q')
    (hc : c ∈ q'.past) :
    (j = i ∧ q'.op = p.op ∧ q'.past = p.calls ++ p.past ∧ c ∈ p.calls) ∨
      ∃ q, s.procs[j]? = some q ∧ q'.op = q.op ∧ q.past ⊆ q'.past ∧ c ∈ q.past ∧
        (j = i → q'.past = p.calls ++ p.past) := by
  rcases getElem?_set_cases hq with ⟨rfl, rfl⟩ | ⟨hji, hold⟩
  · rcases List.mem_append.mp hc with hnew | hold
    · exact .inl ⟨rfl, rfl, rfl, hnew⟩
    · exact .inr ⟨p, hp, rfl, List.subset_append_right _ _, hold, fun _ => rfl⟩
  · exact .inr ⟨q', hold, rfl, List.Subset.refl _, hc, fun h => absurd h hji⟩

/-- A document inserted by a transaction is the only one of its process. -/
theorem Committing.inserted_once (h : Committing cfg s i p) {id id' : Id} {d d' : Document}
    (hnew : Did p.calls (.insertDocument id d) ()) :
    ¬ Did p.past (.insertDocument id' d') () ∧
      (Did p.calls (.insertDocument id' d') () → id = id') := by
  obtain ⟨next, hnext⟩ := h.ready
  have hinserts := (uploaded h.ok hnext hnew).1
  refine ⟨fun hdid => (h.inserts hinserts).2.2.2 ⟨id', d', hdid⟩, fun hnew' => ?_⟩
  obtain ⟨_, _, _, _, hop, -⟩ := hinserts.op
  have hsame := same_update h.ok hnew hnew'
    (fun past cur hb => by rw [hop] at hb; exact hb.2.2.2.2.2.2 id' d')
    (fun past cur hb => by rw [hop] at hb; exact hb.2.2.2.2.2.2 id d)
  cases hsame
  rfl

/-- The object of a document that a transaction leaves in quarantine. -/
theorem Committing.quarantined (h : Committing cfg s i p)
    (hd : Db.document (p.writes ++ s.db) id = some d) (hstate : d.storageState = .quarantined) :
    ∃ bytes, Db.object (p.writes ++ s.db) .quarantine d.quarantineObjectKey = some bytes := by
  rcases commit_document h.ok hd with ⟨-, hold⟩ | hinserts | ⟨c, old, hch⟩
  · exact h.quarantine_kept hold hstate
  · obtain ⟨-, ⟨bytes, hput⟩, hkept, hfresh⟩ := h.inserts hinserts
    have hheld := h.warehouse.held i p _ _ bytes h.proc hput hkept fun _ => hfresh
    exact ⟨bytes, (h.shift.object_of_did hinserts.did _ _).trans hheld⟩
  · rw [hch.result] at hstate
    cases c <;> cases hstate

/-- The object of a document that a transaction leaves approved. -/
theorem Committing.approved (h : Committing cfg s i p)
    (hd : Db.document (p.writes ++ s.db) id = some d) (hstate : d.storageState = .approved) :
    ∃ key bytes, d.approvedObjectKey = some key ∧ d.sha256 = some (cfg.sha256 bytes) ∧
      Db.object (p.writes ++ s.db) .approved key = some bytes := by
  rcases commit_document h.ok hd with ⟨-, hold⟩ | hinserts | ⟨c, old, hch⟩
  · obtain ⟨key, bytes, hkey, hsha, hbytes⟩ := h.warehouse.approved id d hold hstate
    exact ⟨key, bytes, hkey, hsha, (h.approved_kept hold hkey).trans hbytes⟩
  · rw [hinserts.quarantined.1] at hstate
    cases hstate
  · have hresult := hch.result
    cases c with
    | blocked org =>
        rw [hresult] at hstate
        cases hstate
    | promoted org key sha duplicate =>
        obtain ⟨newer, older, rows, base, -, -, hbefore⟩ := did_event h.stored hch.did
        obtain ⟨job, final, hop, -⟩ := hch.op
        rw [hop] at hbefore
        obtain ⟨bytes, hput, hsha, hkept⟩ := hbefore
        have hheld := h.warehouse.held i p .approved key bytes h.proc hput hkept
          fun hb => by cases hb
        refine ⟨key, bytes, ?_, ?_, (h.shift.object_of_did hch.did _ _).trans hheld⟩
        · rw [hresult]
          rfl
        · rw [hresult, ← hsha]
          rfl

/-- What an attempt has put out of quarantine stays out. -/
theorem Committing.cleared (h : Committing cfg s i p) (hd : Db.document s.db id = some d)
    (hnone : Db.object s.db .quarantine d.quarantineObjectKey = none) :
    Db.object (p.writes ++ s.db) .quarantine d.quarantineObjectKey = none := by
  cases h.shift with
  | still hcalls hobject => exact (hobject _ _).trans hnone
  | put b key bytes hcalls hbefore hwrites =>
      have hne : ¬ (b = .quarantine ∧ key = d.quarantineObjectKey) := by
        rintro ⟨rfl, rfl⟩
        obtain ⟨hdrawn, -, hfresh, -⟩ := putObject_before h.stores hbefore
        obtain ⟨d₀, hdid⟩ := h.warehouse.own h.keys hd h.proc hdrawn
        exact hfresh rfl ⟨id, d₀, hdid⟩
      rw [hwrites]
      exact (object_kept hne).trans hnone
  | delete b key hcalls hbefore hwrites =>
      rw [hwrites]
      by_cases hsame : b = .quarantine ∧ key = d.quarantineObjectKey
      · obtain ⟨rfl, rfl⟩ := hsame
        exact object_written _ _ _
      · exact (object_kept hsame).trans hnone

/-- The object that the transaction puts, and that it has drawn the key of. -/
theorem Committing.put (h : Committing cfg s i p) {bytes : Bytes}
    (hput : Called p.calls (.putObject b k bytes) ()) :
    Called p.past .randomObjectKey k ∧ Db.object (p.writes ++ s.db) b k = some bytes := by
  cases h.shift with
  | still hcalls hobject => exact absurd trivial (hcalls _ hput)
  | put b' key bytes' hcalls hbefore hwrites =>
      rw [hcalls] at hput
      cases List.mem_singleton.mp hput
      rw [hwrites]
      exact ⟨(putObject_before h.stores hbefore).1, object_written _ _ _⟩
  | delete b' key hcalls hbefore hwrites =>
      rw [hcalls] at hput
      cases List.mem_singleton.mp hput

/-- The quarantined object that an attempt deletes is that of its document. -/
theorem Committing.delete (h : Committing cfg s i p) {job : InvoiceIngestJob} {final : Bool}
    (hop : p.op = .process job final)
    (hdelete : Called p.calls (.deleteObject .quarantine k) ()) :
    Db.object (p.writes ++ s.db) .quarantine k = none ∧
      ∃ d, Db.document s.db job.documentId = some d ∧ d.quarantineObjectKey = k := by
  cases h.shift with
  | still hcalls hobject => exact absurd trivial (hcalls _ hdelete)
  | put b' key bytes' hcalls hbefore hwrites =>
      rw [hcalls] at hdelete
      cases List.mem_singleton.mp hdelete
  | delete b' key hcalls hbefore hwrites =>
      rw [hcalls] at hdelete
      cases List.mem_singleton.mp hdelete
      rw [hop] at hbefore
      obtain ⟨d, r, org, key, sha, duplicate, n, hsaw, rfl, -⟩ := hbefore
      obtain ⟨d', hd', hsame⟩ := h.warehouse.loaded i p job d r h.proc hsaw
      rw [hwrites]
      exact ⟨object_written _ _ _, d', hd', hsame⟩

/-- The document that a transaction loads. -/
theorem Committing.load (h : Committing cfg s i p) {job : InvoiceIngestJob}
    {r : DocumentProcessing} (hsaw : Saw p.calls (.load job) (some (d, r))) :
    ∃ d', Db.document (p.writes ++ s.db) job.documentId = some d' ∧
      d'.quarantineObjectKey = d.quarantineObjectKey := by
  obtain ⟨newer, older, base, choice, hcur, hanswer⟩ := saw_event h.ok hsaw
  obtain ⟨d₁, hd₁, hanswer⟩ := Option.bind_eq_some_iff.mp (Option.some.inj hanswer)
  obtain ⟨r₁, -, hpair⟩ := Option.bind_eq_some_iff.mp hanswer
  cases hpair
  obtain ⟨d', hd', hlater⟩ :=
    view_later h.ok hcur (k := .document job.documentId) (rowWhere_eq_some.mp hd₁).1
  exact ⟨d', hd', hlater.quarantineObjectKey⟩

theorem Warehouse.commit {next : Except Failure Unit → Program Response}
    (h : Committing cfg s i p) (hq : p.prog = .commit next) :
    Warehouse cfg ⟨p.writes ++ s.db, s.procs.set i (p.close (next (.ok ())))⟩ := by
  have hlt := (List.getElem?_eq_some_iff.mp h.proc).1
  have hself : (s.procs.set i (p.close (next (.ok ()))))[i]? = some (p.close (next (.ok ()))) :=
    List.getElem?_set_self hlt
  refine ⟨fun id d hd => ?_, fun j q id id' d d' hj hdid hdid' => ?_,
    fun j q b key bytes hj hput => ?_, fun j q b key bytes hj hput hkept hfresh => ?_,
    fun j q job d r hj hsaw => ?_, fun j q id org key sha duplicate n hj hdid => ?_,
    fun id d hd hstate => h.quarantined hd hstate, fun id d hd hstate => h.approved hd hstate,
    fun j q job final key hj hop hdelete => ?_⟩
  · rcases commit_document_later h.ok hd with hinserts | ⟨old, hold, hlater⟩
    · exact ⟨i, _, d, hself, List.mem_append_right _ (h.inserts hinserts).1,
        List.mem_append_left _ hinserts.did⟩
    · obtain ⟨j, q, d₀, hj, hdrawn, hdid⟩ := h.warehouse.owner id old hold
      rw [hlater.quarantineObjectKey]
      by_cases hji : j = i
      · subst hji
        have heq : q = p := Option.some.inj (hj.symm.trans h.proc)
        subst heq
        exact ⟨j, _, d₀, hself, List.mem_append_right _ hdrawn, List.mem_append_right _ hdid⟩
      · exact ⟨j, q, d₀, (List.getElem?_set_ne (Ne.symm hji)).trans hj, hdrawn, hdid⟩
  · rcases closed_cases h.proc hj hdid with ⟨rfl, -, hpast, hnew⟩ | ⟨q₀, hq₀, -, -, hold, hpast⟩
    · rw [hpast] at hdid'
      rcases List.mem_append.mp hdid' with hnew' | hold'
      · exact (h.inserted_once hnew).2 hnew'
      · exact absurd hold' (h.inserted_once hnew).1
    · rcases closed_cases h.proc hj hdid' with ⟨rfl, -, -, hnew'⟩ | ⟨q₁, hq₁, -, -, hold', -⟩
      · have heq : q₀ = p := Option.some.inj (hq₀.symm.trans h.proc)
        exact absurd (heq ▸ hold) (h.inserted_once hnew').1
      · have heq : q₁ = q₀ := Option.some.inj (hq₁.symm.trans hq₀)
        exact h.warehouse.once j q₀ id id' d d' hq₀ hold (heq ▸ hold')
  · rcases closed_cases h.proc hj hput with ⟨rfl, -, hpast, hnew⟩ | ⟨q₀, hq₀, -, hsub, hold, -⟩
    · rw [hpast]
      exact List.mem_append_right _ (h.put hnew).1
    · exact hsub (h.warehouse.drawn j q₀ b key bytes hq₀ hold)
  · rcases closed_cases h.proc hj hput with ⟨rfl, -, hpast, hnew⟩ | ⟨q₀, hq₀, -, hsub, hold, hpast⟩
    · exact (h.put hnew).2
    · have hfresh₀ : b = .quarantine → ¬ Inserts q₀.past := fun hb ⟨id, d, hdid⟩ =>
        hfresh hb ⟨id, d, hsub hdid⟩
      have hheld := h.warehouse.held j q₀ b key bytes hq₀ hold
        (fun k hdelete => hkept k (hsub hdelete)) hfresh₀
      refine (h.held_kept hq₀ hold hfresh₀ fun hji hdelete => hkept key ?_).trans hheld
      rw [hpast hji]
      exact List.mem_append_left _ hdelete
  · rcases closed_cases h.proc hj hsaw with ⟨rfl, -, hpast, hnew⟩ | ⟨q₀, hq₀, -, -, hold, -⟩
    · exact h.load hnew
    · obtain ⟨d₁, hd₁, hkey⟩ := h.warehouse.loaded j q₀ job d r hq₀ hold
      obtain ⟨d', hd', hlater⟩ := h.later hd₁
      exact ⟨d', hd', hlater.quarantineObjectKey.trans hkey⟩
  · rcases closed_cases h.proc hj hdid with ⟨rfl, -, hpast, hnew⟩ | ⟨q₀, hq₀, -, -, hold, -⟩
    · obtain ⟨old, new, hch, hnew⟩ :=
        did_updateDocument h.ok hnew (document_hit h.ok h.observed hnew)
      exact ⟨new, hnew, by rw [hch.result]; rfl⟩
    · obtain ⟨d, hd, hstate⟩ := h.warehouse.promoted j q₀ id org key sha duplicate n hq₀ hold
      have hingested := Ingested.commit h.ok hq h.observed h.ingestion
      obtain ⟨d', hd', hstate', -⟩ := hingested.storage id d hd (by rw [hstate]; decide)
      exact ⟨d', hd', hstate'.trans hstate⟩
  · rcases closed_cases h.proc hj hdelete with ⟨rfl, hop', hpast, hnew⟩ | ⟨q₀, hq₀, hop', -, hold, -⟩
    · obtain ⟨hnone, d, hd, hkey⟩ := h.delete (hop'.symm.trans hop) hnew
      obtain ⟨d', hd', hlater⟩ := h.later hd
      exact ⟨hnone, d', hd', hlater.quarantineObjectKey.trans hkey⟩
    · obtain ⟨hnone, d, hd, hkey⟩ :=
        h.warehouse.cleared j q₀ job final key hq₀ (hop'.symm.trans hop) hold
      obtain ⟨d', hd', hlater⟩ := h.later hd
      subst hkey
      exact ⟨h.cleared hd hnone, d', hd', hlater.quarantineObjectKey⟩

end Transaction

section Runs

variable {cfg : Config} {ok : System → SystemAction → Prop} {s₀ s s' : System}

/-- The runs of the operations that store objects. -/
def storing : Account Val Out Op where
  allowed op := op.stores = true

theorem storing_sound : storing.Sound (machine cfg) (conduct cfg) Legal ok s₀ where
  refl _ := trivial
  trans _ _ _ _ _ := trivial
  keep _ _ _ _ _ _ _ _ := trivial
  commit _ _ _ _ _ _ _ _ _ _ := ⟨trivial, trivial, fun _ _ => trivial⟩
  external _ _ _ _ _ := ⟨trivial, trivial⟩

/-- Documents are what uploads have brought in. -/
theorem uploaded_of_empty {db : Db} (hdocument : ∀ id, Db.document db id = none)
    (hprocessing : ∀ id, Db.processing db id = none) : Uploaded db := by
  refine ⟨fun id d hd => ?_, fun id d hd => ?_, fun id d hd => ?_, fun id r hr => ?_,
    fun id id' d d' hd => ?_⟩
  · rw [hdocument] at hd
    cases hd
  · rw [hdocument] at hd
    cases hd
  · rw [hdocument] at hd
    cases hd
  · rw [hprocessing] at hr
    cases hr
  · rw [hdocument] at hd
    cases hd

theorem Warehouse.start (h₀ : Idle Legal s₀) (hdocument : ∀ id, Db.document s₀.db id = none) :
    Warehouse cfg s₀ := by
  have hnone : ∀ (i : Nat) p, s₀.procs[i]? ≠ some p := by simp [h₀.procs]
  have hempty : ∀ id d, Db.document s₀.db id ≠ some d := by simp [hdocument]
  exact ⟨fun id d hd => absurd hd (hempty id d), fun i p _ _ _ _ hp => absurd hp (hnone i p),
    fun i p _ _ _ hp => absurd hp (hnone i p), fun i p _ _ _ hp => absurd hp (hnone i p),
    fun i p _ _ _ hp => absurd hp (hnone i p), fun i p _ _ _ _ _ _ hp => absurd hp (hnone i p),
    fun id d hd => absurd hd (hempty id d), fun id d hd => absurd hd (hempty id d),
    fun i p _ _ _ hp => absurd hp (hnone i p)⟩

/-- Only a commit moves anything. -/
theorem Warehouse.step (h : Warehouse cfg s) {a : SystemAction} (hs : Step (machine cfg) s a s')
    (hcommit : ∀ (i : Nat) p next, s.procs[i]? = some p → p.prog = .commit next →
      Committing cfg s i p) : Warehouse cfg s' := by
  cases hs.effect with
  | quiet hdb hprocs =>
      refine h.idle (fun id => by rw [hdb]) (fun b k => by rw [hdb]) (fun j p' hj => ?_)
        fun j p hp => hs.past_subset hp
      rcases hprocs j p' hj with hold | ⟨-, ⟨op, -, rfl⟩ | ⟨p, hp, hop, hpast⟩⟩
      · exact .inr ⟨p', hold, rfl, rfl⟩
      · exact .inl rfl
      · exact .inr ⟨p, hp, hop.symm, hpast.symm⟩
  | answered i c p q next out rows hp hq hrun =>
      refine h.idle (fun _ => rfl) (fun _ _ => rfl) (fun j p' hj => ?_)
        fun j p hp => hs.past_subset hp
      rcases getElem?_set_cases hj with ⟨rfl, rfl⟩ | ⟨-, hold⟩
      · exact .inr ⟨p, hp, rfl, rfl⟩
      · exact .inr ⟨p', hold, rfl, rfl⟩
  | committed i c p next hp hq => exact Warehouse.commit (hcommit i p next hp hq) hq
  | outside rows hext =>
      exact h.idle (fun id => external_row hext rfl)
        (fun b k => congrArg Option.join (external_row (k := .object b k) hext rfl))
        (fun j p' hj => .inr ⟨p', hj, rfl, rfl⟩) fun j p hp => hs.past_subset hp

theorem Warehouse.run (h₀ : Idle Legal s₀) (hdocument : ∀ id, Db.document s₀.db id = none)
    (hprocessing : ∀ id, Db.processing s₀.db id = none) (hok : storing.Respects ok)
    (h : Run (machine cfg) ok s₀ s) : Warehouse cfg s := by
  have huploaded := uploaded_of_empty hdocument hprocessing
  refine h.invariant (Warehouse.start h₀ hdocument) fun u a v hrun hinv _ hs =>
    hinv.step hs fun i p next hp hq => ?_
  obtain ⟨hingestion, hobserved⟩ :=
    ingestion_sound.run ingestion_respects (discipline cfg) h₀ huploaded.ingestion hrun
  obtain ⟨-, hstoring⟩ := storing_sound.run hok (discipline cfg) h₀ trivial hrun
  exact ⟨hp, ⟨next, hq⟩, (hstoring i p hp).allowed,
    (Run.consistent (discipline cfg) h₀.consistent hrun).proc i p hp,
    (Run.consistent (storage cfg) h₀.consistent hrun).proc i p hp, hobserved i p hp, hingestion,
    .run h₀ huploaded hrun, hinv⟩

/-- What a document says about the stored objects. -/
structure Refers (cfg : Config) (db : Db) (d : Document) : Prop where
  quarantined : d.storageState = .quarantined →
    ∃ bytes, Db.object db .quarantine d.quarantineObjectKey = some bytes
  approved : d.storageState = .approved →
    ∃ key sha bytes, d.approvedObjectKey = some key ∧ d.sha256 = some sha ∧
      Db.object db .approved key = some bytes ∧ cfg.sha256 bytes = sha

/-- In every state that uploads and attempts can reach, failing or killed anywhere, the objects
that the documents refer to are there. -/
theorem stored_objects (cfg : Config) {s₀ s : System} (h₀ : Idle Legal s₀)
    (hdocument : ∀ id, Db.document s₀.db id = none)
    (hprocessing : ∀ id, Db.processing s₀.db id = none)
    (h : Run (machine cfg) (Account.permitted (fun op => op.stores = true) always) s₀ s) :
    ∀ id d, Db.document s.db id = some d → Refers cfg s.db d := by
  intro id d hd
  have hwarehouse := Warehouse.run h₀ hdocument hprocessing
    (Account.respects_permitted storing) h
  refine ⟨hwarehouse.quarantined id d hd, fun hstate => ?_⟩
  obtain ⟨key, bytes, hkey, hsha, hbytes⟩ := hwarehouse.approved id d hd hstate
  exact ⟨key, _, bytes, hkey, hsha, hbytes, rfl⟩

end Runs
section Sample

/-- The sample tenant before its first invoice. -/
def emptyStart : System := ⟨sampleDb.drop 3, []⟩

def sampleFile : InvoicesService.UploadedFile where
  chunks := [[37, 80, 68], [70, 45]]
  originalname := "a.pdf".toList
  mimetype := "application/pdf".toList
  size := 5

def sampleUpload : Op := .upload id (sampleAuth 1) ⟨none, none⟩ (some sampleFile)

/-- The statements by which process `i` uploads the file as document 5 of invoice 6. -/
def uploadSteps (i key : Nat) : List SystemAction :=
  execs i [5, 0, 6, 0, key, 0, 0, 0, 0, 0, 0, 0, 0, 0, 0, 0, 0, 0, 0]

def uploadedJob : InvoiceIngestJob where
  invoiceId := 6
  documentId := 5
  organizationId := 1

theorem emptyStart_idle : Idle Legal emptyStart := by
  refine idle_of_first (by decide) fun s hs => ?_
  simp only [sampleDb, List.drop_succ_cons, List.drop_zero, List.mem_cons, List.not_mem_nil,
    or_false] at hs
  rcases hs with rfl | rfl | rfl | rfl | rfl | rfl | rfl | rfl | rfl | rfl <;> trivial

theorem emptyStart_document (id : Id) : Db.document emptyStart.db id = none :=
  Log.row_eq_none.mpr (by simp [emptyStart, sampleDb, List.keys])

theorem emptyStart_processing (id : Id) : Db.processing emptyStart.db id = none :=
  Log.row_eq_none.mpr (by simp [emptyStart, sampleDb, List.keys])

/-- An attempt promotes an uploaded document while another upload is on its way. -/
theorem stored_objects_sample : ∃ (s : System) (d : Document),
    Db.document s.db 5 = some d ∧ d.storageState = .approved ∧ Refers sampleConfig s.db d := by
  obtain ⟨s, hrun, hcheck⟩ := exists_run (M := machine sampleConfig) (s := emptyStart)
    (.start sampleUpload :: uploadSteps 0 7 ++
      .start sampleUpload :: execs 1 [8, 0, 9, 0, 10, 0, 0, 0] ++
      .start (.process uploadedJob true) :: promotion 2 11)
    (fun s => (Db.document s.db 5).any fun d => d.storageState = .approved)
    (permitted_starts Op.stores) (by decide +kernel)
  obtain ⟨d, hd, hcheck⟩ := (Option.any_eq_true _ _).mp hcheck
  exact ⟨s, d, hd, of_decide_eq_true hcheck, stored_objects sampleConfig emptyStart_idle
    emptyStart_document emptyStart_processing hrun 5 d hd⟩

end Sample
end BlocTrust
