import BlocTrust.Events

/-!
What a commit does to each table.
A row of the log after a commit is the row before it, a row the transaction inserted, or
the result of the one `UPDATE` by which the transaction changed it.  In the last case the
row that the `UPDATE` replaced is the committed row, because its lock was held since.
-/
namespace BlocTrust

open ReadCommitted

section Targets

/-- The row a statement writes, besides entries of unique indexes. -/
def Update.target : (u : Update) → u.Out → Key
  | .insertInvoice id _, _ => .invoice id
  | .insertDocument id _, _ => .document id
  | .insertProcessing id _, _ => .processing id
  | .insertPolicy org, _ => .policy org
  | .insertRisk _, id => .risk id
  | .insertRequest _, id => .request id
  | .insertDecision d, _ => .decision d.approvalRequestId d.decidedByMembershipId
  | .insertBank _, id => .bank id
  | .insertAudit _, _ => .audit 0
  | .updateInvoice id _, _ => .invoice id
  | .updateRequest id _, _ => .request id
  | .updateDocument id _, _ => .document id
  | .updateProcessing id _, _ => .processing id
  | .updatePolicy org _, _ => .policy org
  | .deleteLines id, _ => .lines id
  | .createLines id _, _ => .lines id
  | .advisoryLock org sha, _ => .advisory org sha

/-- The keys that services do not name: index entries, audit rows, objects. -/
def Key.internal : Key → Bool
  | .unique _ | .audit _ | .drawn _ | .object _ _ => true
  | _ => false

variable {view rows db : Db} {k : Key} {v : Val k} {indexes : List UniqueIndex}

theorem Inserted.mem (h : Inserted db k v indexes rows) {s : Sigma Val} (hs : s ∈ rows) :
    s = ⟨k, v⟩ ∨ s.1.internal = true := by
  rw [h.rows_eq] at hs
  rcases List.mem_cons.mp hs with heq | hs
  · exact .inl heq
  · obtain ⟨u, -, rfl⟩ := List.mem_map.mp hs
    exact .inr rfl

theorem Inserted.row (h : Inserted db k v indexes rows) : Log.row k rows = some v := by
  rw [h.rows_eq, Log.row_cons_self]

theorem Updated.mem {applies : Val k → Bool} {change : Val k → Except Failure (Val k)} {n : Nat}
    (h : Updated db k applies change n rows) {s : Sigma Val} (hs : s ∈ rows) : s.1 = k := by
  cases h with
  | missed _ => simp at hs
  | wrote old new _ _ _ =>
      rw [List.mem_singleton.mp hs]

/-- The version an `UPDATE` wrote, and the one it replaced. -/
theorem Updated.row {applies : Val k → Bool} {change : Val k → Except Failure (Val k)} {n : Nat}
    (h : Updated db k applies change n rows) (hv : Log.row k rows = some v) :
    n = 1 ∧ ∃ old, Log.row k db = some old ∧ applies old = true ∧ change old = .ok v := by
  cases h with
  | missed _ => simp at hv
  | wrote old new hrow happlies hchange =>
      rw [Log.row_cons_self] at hv
      cases hv
      exact ⟨rfl, old, hrow, happlies, hchange⟩

/-- An `UPDATE` whose condition holds of its row changes it. -/
theorem Updated.hit {applies : Val k → Bool} {change : Val k → Except Failure (Val k)} {n : Nat}
    (h : Updated db k applies change n rows) (hv : Log.row k db = some v)
    (happlies : applies v = true) : n ≠ 0 := by
  cases h with
  | missed hmissed =>
      rw [hmissed v hv] at happlies
      cases happlies
  | wrote old new _ _ _ => exact Nat.one_ne_zero

/-- An `UPDATE` that found its row wrote it. -/
theorem Updated.wrote_key {applies : Val k → Bool} {change : Val k → Except Failure (Val k)}
    {n : Nat} (h : Updated db k applies change n rows) (hn : n ≠ 0) : k ∈ rows.keys := by
  cases h with
  | missed _ => exact absurd rfl hn
  | wrote old new _ _ _ => exact List.mem_cons_self

theorem Wrote.target {u : Update} {out : u.Out} (h : Wrote view u out rows) (hk : k ∈ rows.keys)
    (hinternal : k.internal = false) : k = u.target out := by
  obtain ⟨s, hs, rfl⟩ := List.mem_map.mp hk
  have hinserted : ∀ {k' : Key} {w : Val k'} {indexes : List UniqueIndex},
      Inserted view k' w indexes rows → s.1 = k' := by
    intro k' w indexes h'
    rcases h'.mem hs with rfl | hs'
    · rfl
    · rw [hs'] at hinternal
      cases hinternal
  cases h with
  | insertInvoice h => exact hinserted h
  | insertDocument h => exact hinserted h
  | insertProcessing h => exact hinserted h
  | insertPolicy h => exact hinserted h
  | insertRisk id h => exact hinserted h
  | insertRequest id h => exact hinserted h
  | insertDecision h => exact hinserted h
  | insertBank id h => exact hinserted h
  | insertAudit id h =>
      rw [hinserted h] at hinternal
      cases hinternal
  | updateInvoice h => exact h.mem hs
  | updateRequest h => exact h.mem hs
  | updateDocument h => exact h.mem hs
  | updateProcessing h => exact h.mem hs
  | updatePolicy h => rw [List.mem_singleton.mp hs]; rfl
  | deleteLines => rw [List.mem_singleton.mp hs]; rfl
  | createLines => rw [List.mem_singleton.mp hs]; rfl
  | advisoryLock => rw [List.mem_singleton.mp hs]; rfl

theorem reply_internal {cfg : Config} {c : External} {choice : Nat} {out : c.Out}
    (h : reply cfg choice view c = some (.ok (out, rows))) (hk : k ∈ rows.keys) :
    k.internal = true := by
  cases c with
  | randomObjectKey =>
      simp only [reply] at h
      split at h
      · cases h
      · cases h
        rw [List.mem_singleton.mp hk]
        rfl
  | putObject bucket key bytes =>
      cases h
      rw [List.mem_singleton.mp hk]
      rfl
  | deleteObject bucket key =>
      cases h
      rw [List.mem_singleton.mp hk]
      rfl
  | getObject bucket key =>
      simp only [reply] at h
      split at h <;> cases h
      simp at hk
  | clock => cases h; simp at hk
  | randomUUID => cases h; simp at hk
  | scanFile bytes => cases h; simp at hk
  | extractSuggestions bytes mimeType => cases h; simp at hk
  | enqueue job => cases h; simp at hk

end Targets

section Writes

variable {cfg : Config} {C : Op → Conduct Out} {db : Db} {p : Process} {k : Key} {v : Val k}

/-- What an update wrote is among the writes since the transaction began. -/
theorem did_rows (h : ProcOk (machine cfg) C Legal db p) {new older : List (Event Val Out)}
    (hcur : p.current = new ++ older) {u : Update} {out : u.Out}
    (hd : Did (older.map Event.call) u out) :
    ∃ view rows, Wrote view u out rows ∧ ∀ k ∈ rows.keys, k ∈ (writes older).keys := by
  obtain ⟨e, he, hcall⟩ := List.mem_map.mp hd
  obtain ⟨between, rest, rfl⟩ := List.append_of_mem he
  have htrace := h.trace
  rw [hcur, ← List.append_assoc] at htrace
  have hran := executed_ran htrace.executed
  obtain ⟨s, out', rows, base⟩ := e
  cases hcall
  cases hran with
  | write hwrote => exact ⟨_, rows, hwrote, fun k hk => mem_keys_writes.mpr ⟨_, he, hk⟩⟩

/-- A row of a table that a transaction has written comes from one of its updates. -/
theorem written_update (h : ProcOk (machine cfg) C Legal db p)
    (hv : Log.row k p.writes = some v) (hinternal : k.internal = false) :
    ∃ new older u out rows base,
      p.current = new ++ ⟨.write u, out, rows, base⟩ :: older ∧ Log.row k rows = some v ∧
        k = u.target out ∧ k ∉ (writes new).keys ∧
        (C p.op).before p.past (older.map Event.call) (.write u) ∧
        Wrote (writes older ++ base) u out rows := by
  obtain ⟨new, older, ⟨s, out, rows, base⟩, hcur, hrow, hlast, hbefore, hran⟩ :=
    written_event h hv
  have hk := Log.mem_keys_of_row hrow
  cases hran with
  | read choice hanswer => simp at hrow
  | write hwrote =>
      exact ⟨new, older, _, out, rows, base, hcur, hrow, hwrote.target hk hinternal, hlast,
        hbefore, hwrote⟩
  | call choice hreply =>
      rw [reply_internal hreply hk] at hinternal
      cases hinternal

/-- A row of the log after the commit is committed already or written by the transaction. -/
theorem commit_row (hv : Log.row k (p.writes ++ db) = some v) :
    k ∉ p.writes.keys ∧ Log.row k db = some v ∨ Log.row k p.writes = some v := by
  by_cases hk : k ∈ p.writes.keys
  · obtain ⟨w, hw⟩ := Log.exists_row_of_mem_keys hk
    rw [Log.row_append_of_row _ hw] at hv
    cases hv
    exact .inr hw
  · rw [Log.row_append_of_not_mem _ hk] at hv
    exact .inl ⟨hk, hv⟩

/-- The update `u` of the open transaction wrote the version `v` of the row `k`. -/
structure WrittenBy (cfg : Config) (db : Db) (p : Process) (k : Key) (v : Val k) (u : Update)
    (out : u.Out) (newer older : List (Event Val Out)) (rows base : Db) : Prop where
  current : p.current = newer ++ ⟨.write u, out, rows, base⟩ :: older
  row : Log.row k rows = some v
  target : k = u.target out
  before : (conduct cfg p.op).before p.past (older.map Event.call) (.write u)
  wrote : Wrote (writes older ++ base) u out rows
  held : Log.row k base = Log.row k db

section

variable {u : Update} {out : u.Out} {newer older : List (Event Val Out)} {rows base : Db}

theorem WrittenBy.did (h : WrittenBy cfg db p k v u out newer older rows base) :
    Did p.calls u out := call_of_event h.current

theorem WrittenBy.inserted (h : WrittenBy cfg db p k v u out newer older rows base) {w : Val k}
    {indexes : List UniqueIndex} (hi : Inserted (writes older ++ base) k w indexes rows) :
    w = v ∧ k ∉ db.keys := by
  have hrow := h.row
  rw [hi.row] at hrow
  refine ⟨Option.some.inj hrow, Log.row_eq_none.mp ?_⟩
  rw [← h.held, Log.row_eq_none]
  exact fun hk => hi.fresh (by rw [Log.keys_append]; exact List.mem_append_right _ hk)

/-- A row that the transaction inserts is not committed. -/
theorem inserted_fresh {C : Op → Conduct Out} (h : ProcOk (machine cfg) C Legal db p)
    {e : Event Val Out} (hcur : p.current = newer ++ e :: older) {w : Val k}
    {indexes : List UniqueIndex} (hi : Inserted (writes older ++ e.base) k w indexes e.rows) :
    k ∉ db.keys := by
  have hheld := h.held (by simp [hcur]) (Log.mem_keys_of_row hi.row)
  rw [← Log.row_eq_none, ← hheld, Log.row_eq_none]
  exact fun hk => hi.fresh (by rw [Log.keys_append]; exact List.mem_append_right _ hk)

/-- Nothing before the event `e` wrote a row that no earlier update has as its target. -/
theorem first_write (h : ProcOk (machine cfg) (conduct cfg) Legal db p) {e : Event Val Out}
    (hcur : p.current = newer ++ e :: older) (hinternal : k.internal = false)
    (hnone : ∀ newer' older' u' out' rows' base',
      p.current = newer' ++ ⟨.write u', out', rows', base'⟩ :: older' →
      (conduct cfg p.op).before p.past (older'.map Event.call) (.write u') →
      Did (older.map Event.call) u' out' → k ≠ u'.target out') : k ∉ (writes older).keys := by
  intro hk
  obtain ⟨e', he, hke⟩ := mem_keys_writes.mp hk
  have hmem : e' ∈ p.current := by
    rw [hcur]
    exact List.mem_append_right _ (List.mem_cons_of_mem _ he)
  obtain ⟨newer', older', hcur', hx⟩ := h.trace.split hmem
  have hran := executed_ran hx
  have hallowed := hx.allowed
  obtain ⟨s, out', rows', base'⟩ := e'
  cases hran with
  | read choice hanswer => simp at hke
  | @write u' _ _ hwrote =>
      exact hnone newer' older' u' out' rows' base' hcur' hallowed (List.mem_map.mpr ⟨_, he, rfl⟩)
        (hwrote.target hke hinternal)
  | call choice hreply =>
      rw [reply_internal hreply hke] at hinternal
      cases hinternal

/-- An `UPDATE` that is the first to write its row replaces the committed version. -/
theorem event_updated (h : ProcOk (machine cfg) (conduct cfg) Legal db p)
    (hcur : p.current = newer ++ ⟨.write u, out, rows, base⟩ :: older)
    (hfirst : k ∉ (writes older).keys) {applies : Val k → Bool}
    {change : Val k → Except Failure (Val k)} {n : Nat}
    (hu : Updated (writes older ++ base) k applies change n rows) (hv : Log.row k rows = some v) :
    n = 1 ∧ ∃ old, Log.row k db = some old ∧ Log.row k base = some old ∧ applies old = true ∧
      change old = .ok v := by
  obtain ⟨hn, old, hold, happlies, hchange⟩ := hu.row hv
  rw [Log.row_append_of_not_mem _ hfirst] at hold
  have hheld := h.held (e := ⟨.write u, out, rows, base⟩) (by simp [hcur])
    (Log.mem_keys_of_row hv)
  exact ⟨hn, old, hheld ▸ hold, hold, happlies, hchange⟩

/-- Two updates of one transaction that may not follow each other are the same one. -/
theorem same_update (h : ProcOk (machine cfg) (conduct cfg) Legal db p) {u u' : Update}
    {out : u.Out} {out' : u'.Out} (hd : Did p.calls u out) (hd' : Did p.calls u' out')
    (hex : ∀ past cur, (conduct cfg p.op).before past cur (.write u) → ¬ Did cur u' out')
    (hex' : ∀ past cur, (conduct cfg p.op).before past cur (.write u') → ¬ Did cur u out) :
    (⟨.write u, out⟩ : Sigma Out) = ⟨.write u', out'⟩ := by
  obtain ⟨newer, older, rows, base, hcur, -, hbefore⟩ := did_event h hd
  obtain ⟨e, he, hcall⟩ := List.mem_map.mp hd'
  rw [hcur] at he
  rcases List.mem_append.mp he with hnewer | hrest
  · obtain ⟨as, bs, rfl⟩ := List.append_of_mem hnewer
    have hcur' : p.current = as ++ e :: (bs ++ ⟨.write u, out, rows, base⟩ :: older) := by
      simpa using hcur
    have htrace := h.trace
    rw [hcur'] at htrace
    have hallowed := htrace.executed.allowed
    obtain ⟨s, o, rows', base'⟩ := e
    cases hcall
    refine absurd ?_ (hex' _ _ hallowed)
    exact List.mem_map.mpr
      ⟨⟨.write u, out, rows, base⟩, List.mem_append_right _ List.mem_cons_self, rfl⟩
  · rcases List.mem_cons.mp hrest with rfl | holder
    · exact hcall
    · exact absurd (List.mem_map.mpr ⟨e, holder, hcall⟩) (hex _ _ hbefore)

end

/-- A row after a commit is the committed one, or one that an update of `p` wrote. -/
theorem commit_cases (h : ProcOk (machine cfg) (conduct cfg) Legal db p)
    (hinternal : k.internal = false) (hv : Log.row k (p.writes ++ db) = some v) :
    (k ∉ p.writes.keys ∧ Log.row k db = some v) ∨ ∃ u out newer older rows base,
      WrittenBy cfg db p k v u out newer older rows base := by
  rcases commit_row hv with hold | hwritten
  · exact .inl hold
  obtain ⟨newer, older, u, out, rows, base, hcur, hrow, htarget, -, hbefore, hwrote⟩ :=
    written_update h hwritten hinternal
  refine .inr ⟨u, out, newer, older, rows, base, hcur, hrow, htarget, hbefore, hwrote, ?_⟩
  exact h.held (e := ⟨.write u, out, rows, base⟩) (by simp [hcur]) (Log.mem_keys_of_row hrow)

end Writes
end BlocTrust
