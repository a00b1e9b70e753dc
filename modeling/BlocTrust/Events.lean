import BlocTrust.Conforms.Approvals
import BlocTrust.Conforms.Invoices
import BlocTrust.Conforms.Pipeline
import BlocTrust.ReadCommitted.Accounts

/-!
The machine of the repository keeps to the conducts and writes legally, and what an event
of an open transaction says about the log it ran on.
-/
namespace BlocTrust

open ReadCommitted

abbrev Process := Proc Val Out Failure Response Op
abbrev System := Sys Val Out Failure Response Op
abbrev SystemAction := Action Val Failure Op

section Engine

variable {cfg : Config} {view rows : Db}

/-- The ways in which a statement is answered. -/
inductive Ran (cfg : Config) (view : Db) : (s : Stmt) → Out s → Db → Prop
  | read {q : Query} {out : q.Out} (choice : Nat) (h : answer cfg choice view q = some out) :
      Ran cfg view (.read q) out []
  | write {u : Update} {out : u.Out} {rows : Db} (h : Wrote view u out rows) :
      Ran cfg view (.write u) out rows
  | call {c : External} {out : c.Out} {rows : Db} (choice : Nat)
      (h : reply cfg choice view c = some (.ok (out, rows))) : Ran cfg view (.call c) out rows

theorem engine_ok {s : Stmt} {choice : Nat} {out : Out s}
    (h : engine cfg s choice view = some (.ok (out, rows))) : Ran cfg view s out rows := by
  cases s with
  | read q =>
      obtain ⟨o, ho, heq⟩ := Option.map_eq_some_iff.mp h
      cases heq
      exact .read choice ho
  | write u =>
      exact .write (performUpdate_ok (Option.some.inj h))
  | call c => exact .call choice h

theorem reply_chain {c : External} {choice : Nat} {out : c.Out}
    (h : reply cfg choice view c = some (.ok (out, rows))) (hc : Log.Chain Legal view) :
    Log.Chain Legal (rows ++ view) := by
  cases c with
  | randomObjectKey =>
      simp only [reply] at h
      split at h
      · cases h
      · rename_i hfresh
        cases h
        have hlegal : Legal (.drawn choice) (Log.row (.drawn choice) view) () := by
          rw [Log.row_eq_none.mpr hfresh]
          trivial
        exact ⟨hlegal, hc⟩
  | putObject bucket key bytes =>
      cases h
      exact ⟨trivial, hc⟩
  | deleteObject bucket key =>
      cases h
      exact ⟨trivial, hc⟩
  | getObject bucket key =>
      simp only [reply] at h
      split at h <;> cases h
      exact hc
  | clock => cases h; exact hc
  | randomUUID => cases h; exact hc
  | scanFile bytes => cases h; exact hc
  | extractSuggestions bytes mimeType => cases h; exact hc
  | enqueue job => cases h; exact hc

theorem Ran.chain {s : Stmt} {out : Out s} (h : Ran cfg view s out rows)
    (hc : Log.Chain Legal view) : Log.Chain Legal (rows ++ view) := by
  cases h with
  | read choice h => exact hc
  | write h => exact h.chain hc
  | call choice h => exact reply_chain h hc

theorem nodup_filter {Row : Type} {rows : List (Id × Row)} (h : (rows.map Prod.fst).Nodup)
    (p : Id × Row → Bool) : ((rows.filter p).map Prod.fst).Nodup :=
  ((List.filter_sublist (l := rows)).map Prod.fst).nodup h

theorem Ran.answers {s : Stmt} {out : Out s} (h : Ran cfg view s out rows) : Answers s out := by
  cases h with
  | @read q out choice h =>
      cases q with
      | pendingOfInvoice org id =>
          cases h
          exact nodup_filter (Log.nodup_table ..) _
      | pendingOfVendor org id =>
          cases h
          exact nodup_filter (Log.nodup_table ..) _
      | awaitingOfVendor org id =>
          cases h
          exact nodup_filter (Log.nodup_table ..) _
      | _ => trivial
  | write h => trivial
  | call choice h => trivial

/-- Every call keeps its conduct, and nothing but legal versions is ever written. -/
theorem discipline (cfg : Config) : Discipline (machine cfg) (conduct cfg) Legal where
  program op := by
    cases op with
    | submit auth i dto key => exact submit_conforms cfg key
    | decide auth r dto key => exact decide_conforms dto key
    | updatePolicy auth dto => exact updatePolicy_conforms cfg auth dto
    | upload normalize auth dto file => exact upload_conforms cfg normalize auth dto file
    | update auth i dto => exact update_conforms cfg
    | addBankVersion auth v dto => exact addBankVersion_conforms cfg dto
    | process job final => exact process_conforms final
  legal q c view out rows hrun hc := (engine_ok hrun).chain hc
  answers op q c view out rows hrun := by
    have h := (engine_ok hrun).answers
    cases op <;> exact h
  external db rows hext _ := hext.2

end Engine

section Calls

variable {cfg : Config} {C : Op → Conduct Out} {db : Db} {p : Process}

theorem executed_ran {C : Conduct Out} {past : Calls Out} {older : List (Event Val Out)}
    {e : Event Val Out} (h : Executed (machine cfg) C past older e) :
    Ran cfg (writes older ++ e.base) e.stmt e.out e.rows := by
  obtain ⟨c, hrun⟩ := h.ran
  have hengine : engine cfg e.stmt c (writes older ++ e.base) = some (.ok (e.out, e.rows)) := hrun
  exact engine_ok hengine

/-- A read of an open transaction, with the writes before it and the log it ran on. -/
theorem saw_event (h : ProcOk (machine cfg) C Legal db p) {q : Query} {out : q.Out}
    (hs : Saw p.calls q out) : ∃ new older base choice,
      p.current = new ++ ⟨.read q, out, [], base⟩ :: older ∧
        answer cfg choice (writes older ++ base) q = some out := by
  obtain ⟨e, he, hcall⟩ := List.mem_map.mp hs
  obtain ⟨new, older, hcur, hx⟩ := h.trace.split he
  obtain ⟨s, out', rows, base⟩ := e
  cases hcall
  cases executed_ran hx with
  | read choice hanswer => exact ⟨new, older, base, choice, hcur, hanswer⟩

/-- What a statement of an open transaction was issued after. -/
theorem event_before (h : ProcOk (machine cfg) C Legal db p) {e : Event Val Out}
    (he : e ∈ p.current) :
    ∃ cur, cur ⊆ p.calls ∧ (C p.op).before p.past cur e.stmt := by
  obtain ⟨new, older, hcur, hx⟩ := h.trace.split he
  refine ⟨older.map Event.call, ?_, hx.allowed⟩
  rw [Proc.calls, hcur, List.map_append, List.map_cons]
  exact fun c hc => List.mem_append_right _ (List.mem_cons_of_mem _ hc)

/-- A write of an open transaction, and what led to it. -/
theorem did_event (h : ProcOk (machine cfg) C Legal db p) {u : Update} {out : u.Out}
    (hd : Did p.calls u out) : ∃ new older rows base,
      p.current = new ++ ⟨.write u, out, rows, base⟩ :: older ∧
        Wrote (writes older ++ base) u out rows ∧
        (C p.op).before p.past (older.map Event.call) (.write u) := by
  obtain ⟨e, he, hcall⟩ := List.mem_map.mp hd
  obtain ⟨new, older, hcur, hx⟩ := h.trace.split he
  obtain ⟨s, out', rows, base⟩ := e
  cases hcall
  cases executed_ran hx with
  | write hwrote => exact ⟨new, older, rows, base, hcur, hwrote, hx.allowed⟩

/-- A version in the writes of a transaction comes from an update or from a call. -/
theorem written_event (h : ProcOk (machine cfg) C Legal db p) {k : Key} {v : Val k}
    (hv : Log.row k p.writes = some v) : ∃ new older e,
      p.current = new ++ e :: older ∧ Log.row k e.rows = some v ∧
        k ∉ (writes new).keys ∧
        (C p.op).before p.past (older.map Event.call) e.stmt ∧
        Ran cfg (writes older ++ e.base) e.stmt e.out e.rows := by
  obtain ⟨new, e, older, hcur, hrow, hlast⟩ := exists_writer hv
  have htrace := h.trace
  rw [hcur] at htrace
  have hx : Executed (machine cfg) (C p.op) p.past older e := htrace.executed
  exact ⟨new, older, e, hcur, hrow, hlast, hx.allowed, executed_ran hx⟩

/-- The calls before an event are calls of the transaction. -/
theorem calls_subset_of_event {new older : List (Event Val Out)} {e : Event Val Out}
    (hcur : p.current = new ++ e :: older) : older.map Event.call ⊆ p.calls := by
  rw [Proc.calls, hcur, List.map_append, List.map_cons]
  exact fun c hc => List.mem_append_right _ (List.mem_cons_of_mem _ hc)

theorem mem_of_event {new older : List (Event Val Out)} {e : Event Val Out}
    (hcur : p.current = new ++ e :: older) : e ∈ p.current := by
  rw [hcur]
  exact List.mem_append_right _ List.mem_cons_self

theorem call_of_event {new older : List (Event Val Out)} {e : Event Val Out}
    (hcur : p.current = new ++ e :: older) : e.call ∈ p.calls := by
  rw [Proc.calls, hcur]
  exact List.mem_map_of_mem (List.mem_append_right _ List.mem_cons_self)

theorem written_key {new older : List (Event Val Out)} {e : Event Val Out} {k : Key}
    (hcur : p.current = new ++ e :: older) (hk : k ∈ e.rows.keys) : k ∈ p.writes.keys := by
  refine mem_keys_writes.mpr ⟨e, ?_, hk⟩
  rw [hcur]
  exact List.mem_append_right _ List.mem_cons_self

end Calls
end BlocTrust
