import BlocTrust.ReadCommitted.Machine

/-!
What holds in every state of a run.
Locked rows of two processes are disjoint, so the row a transaction has written is still
the one it replaced when it commits; every view is a legal history; and a process has met
the conduct of its program at each statement of its open transaction.
-/
namespace ReadCommitted

open Log

variable {Key : Type} [DecidableEq Key] {Val : Key → Type} {Stmt : Type} {Out : Stmt → Type}
  {E R Op : Type}

section Trace

variable (M : Machine Val Out E R Op) (C : Conduct Out) (past : Calls Out)

/-- An event of an open transaction whose earlier events are `older`. -/
structure Executed (older : List (Event Val Out)) (e : Event Val Out) : Prop where
  ran : ∃ c, M.engine e.stmt c (writes older ++ e.base) = some (.ok (e.out, e.rows))
  allowed : C.before past (older.map Event.call) e.stmt
  later : ∀ e' ∈ older, e'.base <:+ e.base

def Trace : List (Event Val Out) → Prop
  | [] => True
  | e :: older => Executed M C past older e ∧ Trace older

variable {M C past}

omit [DecidableEq Key] in
theorem Trace.executed {new older : List (Event Val Out)} {e : Event Val Out}
    (h : Trace M C past (new ++ e :: older)) : Executed M C past older e := by
  induction new with
  | nil => exact h.1
  | cons _ _ ih => exact ih h.2

omit [DecidableEq Key] in
theorem Trace.split {es : List (Event Val Out)} (h : Trace M C past es) {e : Event Val Out}
    (he : e ∈ es) : ∃ new older, es = new ++ e :: older ∧ Executed M C past older e := by
  obtain ⟨new, older, rfl⟩ := List.append_of_mem he
  exact ⟨new, older, rfl, h.executed⟩

end Trace

omit [DecidableEq Key] in
theorem writes_append (a b : List (Event Val Out)) : writes (a ++ b) = writes a ++ writes b :=
  List.flatMap_append ..

omit [DecidableEq Key] in
theorem writes_cons (e : Event Val Out) (es : List (Event Val Out)) :
    writes (e :: es) = e.rows ++ writes es := List.flatMap_cons ..

omit [DecidableEq Key] in
theorem mem_keys_writes {es : List (Event Val Out)} {k : Key} :
    k ∈ (writes es).keys ↔ ∃ e ∈ es, k ∈ e.rows.keys := by
  induction es with
  | nil => simp [writes]
  | cons e es ih => rw [writes_cons, keys_append]; simp [ih]

/-- The event that wrote the transaction's version of a row. -/
theorem exists_writer {es : List (Event Val Out)} {k : Key} {v : Val k}
    (h : row k (writes es) = some v) :
    ∃ new e older, es = new ++ e :: older ∧ row k e.rows = some v ∧ k ∉ (writes new).keys := by
  induction es with
  | nil => simp [writes] at h
  | cons e es ih =>
      rw [writes_cons] at h
      by_cases hk : k ∈ e.rows.keys
      · obtain ⟨w, hw⟩ := exists_row_of_mem_keys hk
        rw [row_append_of_row _ hw] at h
        cases h
        exact ⟨[], e, es, rfl, hw, by simp [writes]⟩
      · rw [row_append_of_not_mem _ hk] at h
        obtain ⟨new, e', older, rfl, hrow, hnew⟩ := ih h
        refine ⟨e :: new, e', older, rfl, hrow, ?_⟩
        rw [writes_cons, keys_append]
        simp [hk, hnew]

section

variable (M : Machine Val Out E R Op) (C : Op → Conduct Out) (T : Transition Val)

/-- The programs keep their conducts, and the engine and the environment write legally. -/
structure Discipline : Prop where
  program : ∀ op, (M.program op).wp (C op) (fun _ _ _ => True) (fun _ _ _ => True) [] []
  legal : ∀ q c view out rows, M.engine q c view = some (.ok (out, rows)) →
    Chain T view → Chain T (rows ++ view)
  answers : ∀ op q c view out rows, M.engine q c view = some (.ok (out, rows)) →
    (C op).answers q out
  external : ∀ db rows, M.external db rows → Chain T db → Chain T (rows ++ db)

structure ProcOk (db : Log Val) (p : Proc Val Out E R Op) : Prop where
  view : Chain T (p.writes ++ db)
  since : ∀ e ∈ p.current, ∃ new, db = new ++ e.base ∧ ∀ k ∈ e.rows.keys, k ∉ new.keys
  trace : Trace M (C p.op) p.past p.current
  conforms : p.prog.wp (C p.op) (fun _ _ _ => True) (fun _ _ _ => True) p.past p.calls

structure Consistent (s : Sys Val Out E R Op) : Prop where
  chain : Chain T s.db
  proc : ∀ (i : Nat) p, s.procs[i]? = some p → ProcOk M C T s.db p
  locks : ∀ (i j : Nat) p q, i ≠ j → s.procs[i]? = some p → s.procs[j]? = some q →
    ∀ k ∈ p.writes.keys, k ∉ q.writes.keys

end

variable {M : Machine Val Out E R Op} {C : Op → Conduct Out} {T : Transition Val}

namespace ProcOk

variable {db : Log Val} {p : Proc Val Out E R Op}

/-- The committed log a statement ran on is a part of the present one. -/
theorem bases (h : ProcOk M C T db p) {e : Event Val Out} (he : e ∈ p.current) :
    e.base <:+ db := by
  obtain ⟨new, hdb, -⟩ := h.since e he
  exact ⟨new, hdb.symm⟩

/-- Nobody else has committed a version of a row that the transaction wrote. -/
theorem held (h : ProcOk M C T db p) {e : Event Val Out} (he : e ∈ p.current) {k : Key}
    (hk : k ∈ e.rows.keys) : row k e.base = row k db := by
  obtain ⟨new, hdb, hfree⟩ := h.since e he
  rw [hdb, row_append_of_not_mem _ (hfree k hk)]

/-- Versions committed by others leave a process as it was. -/
theorem extend (h : ProcOk M C T db p) {new : Log Val} (hnew : Chain T (new ++ db))
    (hfree : ∀ k ∈ p.writes.keys, k ∉ new.keys) : ProcOk M C T (new ++ db) p where
  view := h.view.rebase hnew fun k hk => (row_append_of_not_mem _ (hfree k hk)).symm
  since e he := by
    obtain ⟨older, hdb, hkeys⟩ := h.since e he
    refine ⟨new ++ older, by rw [hdb, List.append_assoc], fun k hk => ?_⟩
    rw [keys_append, List.mem_append, not_or]
    exact ⟨hfree k (mem_keys_writes.mpr ⟨e, he, hk⟩), hkeys k hk⟩
  trace := h.trace
  conforms := h.conforms

theorem drop (h : Chain T db) {prog : Prog Out E R}
    (hprog : prog.wp (C p.op) (fun _ _ _ => True) (fun _ _ _ => True) p.past []) :
    ProcOk M C T db (p.drop prog) where
  view := by simpa [Proc.drop, Proc.writes, writes] using h
  since e he := by simp [Proc.drop] at he
  trace := trivial
  conforms := by simpa [Proc.drop, Proc.calls] using hprog

theorem close {db' : Log Val} (h : Chain T db') {prog : Prog Out E R}
    (hprog : prog.wp (C p.op) (fun _ _ _ => True) (fun _ _ _ => True) (p.calls ++ p.past) []) :
    ProcOk M C T db' (p.close prog) where
  view := by simpa [Proc.close, Proc.writes, writes] using h
  since e he := by simp [Proc.close] at he
  trace := trivial
  conforms := by simpa [Proc.close, Proc.calls] using hprog

theorem push (hd : Discipline M C T) (h : ProcOk M C T db p) {q : Stmt}
    {next : Except E (Out q) → Prog Out E R} (hq : p.prog = .stmt q next) {c : Nat} {out : Out q}
    {rows : Log Val} (hrun : M.engine q c (p.writes ++ db) = some (.ok (out, rows))) :
    ProcOk M C T db (p.push (next (.ok out)) ⟨q, out, rows, db⟩) := by
  have hconf := h.conforms
  rw [hq] at hconf
  refine ⟨?_, ?_, ⟨⟨⟨c, hrun⟩, hconf.1, fun e he => h.bases he⟩, h.trace⟩, ?_⟩
  · have hview := hd.legal q c _ out rows hrun h.view
    rwa [← List.append_assoc] at hview
  · intro e he
    rcases List.mem_cons.mp he with rfl | he
    · exact ⟨[], rfl, by simp⟩
    · exact h.since e he
  · exact hconf.2.1 out (hd.answers _ q c _ out rows hrun)

/-- A row that the transaction had locked before a statement was not committed since. -/
theorem locked_since (h : ProcOk M C T db p) {new older : List (Event Val Out)} {e : Event Val Out}
    (hes : p.current = new ++ e :: older) {e' : Event Val Out} (he : e' ∈ older) {k : Key}
    (hk : k ∈ e'.rows.keys) : ∃ rest, db = rest ++ e.base ∧ k ∉ rest.keys := by
  have htrace := h.trace
  rw [hes] at htrace
  obtain ⟨between, hbetween⟩ := htrace.executed.later e' he
  obtain ⟨rest, hrest, -⟩ := h.since e (by simp [hes])
  obtain ⟨all, hall, hfree⟩ := h.since e' (by simp [hes, he])
  have hsplit : all = rest ++ between := by
    have hboth : all ++ e'.base = (rest ++ between) ++ e'.base := by
      rw [← hall, List.append_assoc, hbetween, hrest]
    exact List.append_cancel_right hboth
  refine ⟨rest, hrest, fun hmem => hfree k hk ?_⟩
  rw [hsplit, keys_append]
  exact List.mem_append_left _ hmem

/-- Such a row had its present version when the statement ran. -/
theorem locked_row (h : ProcOk M C T db p) {new older : List (Event Val Out)} {e : Event Val Out}
    (hes : p.current = new ++ e :: older) {k : Key} (hk : k ∈ (writes older).keys) :
    row k e.base = row k db := by
  obtain ⟨e', he, hke⟩ := mem_keys_writes.mp hk
  obtain ⟨rest, hrest, hfree⟩ := h.locked_since hes he hke
  rw [hrest, row_append_of_not_mem _ hfree]

/-- The view of every statement of the transaction was a legal history. -/
theorem view_chain (h : ProcOk M C T db p) {new older : List (Event Val Out)} {e : Event Val Out}
    (hes : p.current = new ++ e :: older) : Chain T (writes older ++ e.base) := by
  have hdb : Chain T db := h.view.of_append
  have hsuffix : writes older ++ db <:+ p.writes ++ db :=
    ⟨writes new ++ e.rows, by simp [Proc.writes, hes, writes_append, writes_cons]⟩
  have hbase := hdb.of_suffix (h.bases (e := e) (by simp [hes]))
  refine (h.view.of_suffix hsuffix).rebase hbase fun k hk => ?_
  obtain ⟨e', he, hke⟩ := mem_keys_writes.mp hk
  obtain ⟨rest, hrest, hfree⟩ := h.locked_since hes he hke
  rw [hrest, row_append_of_not_mem _ hfree]

theorem view_subset (h : ProcOk M C T db p) {new older : List (Event Val Out)} {e : Event Val Out}
    (hes : p.current = new ++ e :: older) : writes older ++ e.base ⊆ p.writes ++ db := by
  have hbase := (h.bases (e := e) (by simp [hes])).subset
  intro s hs
  rcases List.mem_append.mp hs with hs | hs
  · refine List.mem_append_left _ ?_
    rw [Proc.writes, hes, writes_append, writes_cons]
    exact List.mem_append_right _ (List.mem_append_right _ hs)
  · exact List.mem_append_right _ (hbase hs)

/-- A row seen in the transaction is there, in some later version, at a later statement. -/
theorem carried_between {R : (k : Key) → Val k → Val k → Prop} (hR : Persists T R)
    (h : ProcOk M C T db p) {new mid older : List (Event Val Out)} {e e' : Event Val Out}
    (hes : p.current = new ++ e :: (mid ++ e' :: older)) {k : Key} {v : Val k}
    (hv : row k (writes older ++ e'.base) = some v) :
    ∃ w, row k (writes (mid ++ e' :: older) ++ e.base) = some w ∧ R k v w := by
  have hview := h.view_chain hes
  have htrace := h.trace
  rw [hes] at htrace
  have hbase := htrace.executed.later e' (by simp)
  have hsuffix : writes older ++ e.base <:+ writes (mid ++ e' :: older) ++ e.base :=
    ⟨writes mid ++ e'.rows, by simp [writes_append, writes_cons]⟩
  by_cases hk : k ∈ (writes older).keys
  · obtain ⟨w, hw⟩ := exists_row_of_mem_keys hk
    rw [row_append_of_row _ hw] at hv
    cases hv
    exact hview.related hR hsuffix (row_append_of_row _ hw)
  · rw [row_append_of_not_mem _ hk] at hv
    exact hview.related hR (hbase.trans (List.suffix_append _ _)) hv

/-- A row seen in the transaction is still there, in some later version, when it commits. -/
theorem carried {R : (k : Key) → Val k → Val k → Prop} (hR : Persists T R)
    (h : ProcOk M C T db p) {new older : List (Event Val Out)} {e : Event Val Out}
    (hes : p.current = new ++ e :: older) {k : Key} {v : Val k}
    (hv : row k (writes older ++ e.base) = some v) :
    ∃ w, row k (p.writes ++ db) = some w ∧ R k v w := by
  have hmem : e ∈ p.current := by simp [hes]
  have hsuffix : writes older ++ db <:+ p.writes ++ db :=
    ⟨writes new ++ e.rows, by simp [Proc.writes, hes, writes_append, writes_cons]⟩
  by_cases hk : k ∈ (writes older).keys
  · obtain ⟨w, hw⟩ := exists_row_of_mem_keys hk
    rw [row_append_of_row _ hw] at hv
    cases hv
    exact h.view.related hR hsuffix (row_append_of_row _ hw)
  · rw [row_append_of_not_mem _ hk] at hv
    exact h.view.related hR ((h.bases hmem).trans (List.suffix_append _ db)) hv

end ProcOk

theorem getElem?_set_cases {α : Type} {l : List α} {i j : Nat} {a b : α}
    (h : (l.set i a)[j]? = some b) : (j = i ∧ b = a) ∨ (j ≠ i ∧ l[j]? = some b) := by
  rw [List.getElem?_set] at h
  split at h
  · rename_i hij
    split at h
    · exact .inl ⟨hij.symm, (Option.some.inj h).symm⟩
    · cases h
  · rename_i hij
    exact .inr ⟨fun h => hij h.symm, h⟩

theorem getElem?_concat_cases {α : Type} {l : List α} {j : Nat} {a b : α}
    (h : (l ++ [a])[j]? = some b) : b = a ∨ l[j]? = some b := by
  rw [List.getElem?_append] at h
  split at h
  · exact .inr h
  · have hb := List.mem_of_getElem? h
    simp at hb
    exact .inl hb

omit [DecidableEq Key] in
theorem not_mem_lockedFor {s : Sys Val Out E R Op} {i j : Nat} {q : Proc Val Out E R Op}
    {k : Key} (hk : k ∉ s.lockedFor i) (hij : j ≠ i) (hq : s.procs[j]? = some q) :
    k ∉ q.writes.keys := by
  intro hmem
  refine hk (List.mem_flatMap.mpr ⟨q, ?_, hmem⟩)
  exact List.mem_eraseIdx_iff_getElem?.mpr ⟨j, hij, hq⟩

omit [DecidableEq Key] in
theorem not_mem_locked {s : Sys Val Out E R Op} {j : Nat} {q : Proc Val Out E R Op}
    {k : Key} (hk : k ∉ s.locked) (hq : s.procs[j]? = some q) : k ∉ q.writes.keys :=
  fun hmem => hk (List.mem_flatMap.mpr ⟨q, List.mem_of_getElem? hq, hmem⟩)

namespace Consistent

variable {s s' : Sys Val Out E R Op}

/-- Process `i` has a new state over the same committed log. -/
theorem set (h : Consistent M C T s) {i : Nat} {p p' : Proc Val Out E R Op}
    (hp : s.procs[i]? = some p) (hok : ProcOk M C T s.db p')
    (hlocks : ∀ k ∈ p'.writes.keys, k ∈ p.writes.keys ∨ k ∉ s.lockedFor i) :
    Consistent M C T (s.set i p') := by
  have hfree : ∀ (j : Nat) q, j ≠ i → s.procs[j]? = some q → ∀ k ∈ p'.writes.keys,
      k ∉ q.writes.keys := by
    intro j q hj hq k hk
    rcases hlocks k hk with hold | hnew
    · exact h.locks i j p q (Ne.symm hj) hp hq k hold
    · exact not_mem_lockedFor hnew hj hq
  refine ⟨h.chain, ?_, ?_⟩
  · intro j q hq
    rcases getElem?_set_cases hq with ⟨rfl, rfl⟩ | ⟨_, hq⟩
    · exact hok
    · exact h.proc j q hq
  · intro j k q r hjk hq hr key hkey
    rcases getElem?_set_cases hq with ⟨hj, heq⟩ | ⟨hj, hq'⟩
    · rcases getElem?_set_cases hr with ⟨hk, _⟩ | ⟨hk, hr'⟩
      · exact absurd (hj.trans hk.symm) hjk
      · exact hfree k r hk hr' key (heq ▸ hkey)
    · rcases getElem?_set_cases hr with ⟨_, heq⟩ | ⟨hk, hr'⟩
      · exact fun hmem => hfree j q hj hq' key (heq ▸ hmem) hkey
      · exact h.locks j k q r hjk hq' hr' key hkey

theorem drop (h : Consistent M C T s) {i : Nat} {p : Proc Val Out E R Op}
    (hp : s.procs[i]? = some p) {prog : Prog Out E R}
    (hprog : prog.wp (C p.op) (fun _ _ _ => True) (fun _ _ _ => True) p.past []) :
    Consistent M C T (s.set i (p.drop prog)) :=
  h.set hp (.drop h.chain hprog) (by simp [Proc.drop, Proc.writes, writes])

theorem step (hd : Discipline M C T) (h : Consistent M C T s) {a : Action Val E Op}
    (hs : Step M s a s') : Consistent M C T s' := by
  cases hs with
  | start op =>
      refine ⟨h.chain, ?_, ?_⟩
      · intro j q hq
        rcases getElem?_concat_cases hq with rfl | hq
        · exact ⟨by simpa [Proc.writes, writes] using h.chain, by simp, trivial, hd.program op⟩
        · exact h.proc j q hq
      · intro j k q r hjk hq hr key hkey
        rcases getElem?_concat_cases hq with rfl | hq
        · simp [Proc.writes, writes] at hkey
        · rcases getElem?_concat_cases hr with rfl | hr
          · simp [Proc.writes, writes]
          · exact h.locks j k q r hjk hq hr key hkey
  | answer i c p q next out rows hp hq hrun hfree =>
      refine h.set hp ((h.proc i p hp).push hd hq hrun) fun k hk => ?_
      rw [Proc.writes, Proc.push, writes_cons, keys_append, List.mem_append] at hk
      rcases hk with hk | hk
      · exact .inr (hfree k hk)
      · exact .inl hk
  | refuse i c p q next e hp hq hrun =>
      have hconf := (h.proc i p hp).conforms
      rw [hq] at hconf
      exact h.drop hp (hconf.2.2 e)
  | commit i c p next hp hq =>
      have hpok := h.proc i p hp
      have hconf := hpok.conforms
      rw [hq] at hconf
      have hfree : ∀ (j : Nat) q, j ≠ i → s.procs[j]? = some q → ∀ k ∈ q.writes.keys,
          k ∉ p.writes.keys := fun j q hj hq => h.locks j i q p hj hq hp
      refine ⟨hpok.view, ?_, ?_⟩
      · intro j q hjq
        rcases getElem?_set_cases hjq with ⟨rfl, rfl⟩ | ⟨hj, hjq⟩
        · exact .close hpok.view hconf.2.1
        · exact (h.proc j q hjq).extend hpok.view (hfree j q hj hjq)
      · intro j k q r hjk hjq hr key hkey
        rcases getElem?_set_cases hjq with ⟨rfl, rfl⟩ | ⟨hj, hjq⟩
        · simp [Proc.close, Proc.writes, writes] at hkey
        · rcases getElem?_set_cases hr with ⟨rfl, rfl⟩ | ⟨hk, hr⟩
          · simp [Proc.close, Proc.writes, writes]
          · exact h.locks j k q r hjk hjq hr key hkey
  | rollback i c p next hp hq =>
      have hconf := (h.proc i p hp).conforms
      rw [hq] at hconf
      exact h.drop hp hconf
  | fault i p q next e hp hq =>
      have hconf := (h.proc i p hp).conforms
      rw [hq] at hconf
      exact h.drop hp (hconf.2.2 e)
  | faultCommit i p next e hp hq =>
      have hconf := (h.proc i p hp).conforms
      rw [hq] at hconf
      exact h.drop hp (hconf.2.2 e)
  | kill i p e hp => exact h.drop hp trivial
  | env rows hext hfree =>
      have hchain := hd.external s.db rows hext h.chain
      refine ⟨hchain, ?_, h.locks⟩
      intro j q hq
      exact (h.proc j q hq).extend hchain fun k hk hmem =>
        not_mem_locked (hfree k hmem) hq hk

end Consistent

/-- A system before its first call. -/
structure Idle (T : Transition Val) (s : Sys Val Out E R Op) : Prop where
  chain : Chain T s.db
  procs : s.procs = []

variable {ok : Sys Val Out E R Op → Action Val E Op → Prop} {s₀ s t : Sys Val Out E R Op}

theorem Idle.consistent (h : Idle T s₀) : Consistent M C T s₀ :=
  ⟨h.chain, by simp [h.procs], by simp [h.procs]⟩

theorem Run.consistent (hd : Discipline M C T) (h₀ : Consistent M C T s₀)
    (h : Run M ok s₀ s) : Consistent M C T s :=
  h.invariant h₀ fun _ _ _ _ hc _ hs => hc.step hd hs

omit [DecidableEq Key] in
theorem Step.suffix {a : Action Val E Op} (h : Step M s a t) : s.db <:+ t.db := by
  cases h with
  | commit i c p next hp hq => exact List.suffix_append ..
  | env rows hext hfree => exact List.suffix_append ..
  | _ => exact List.suffix_refl _

omit [DecidableEq Key] in
theorem Run.suffix (h : Run M ok s₀ s) : s₀.db <:+ s.db := by
  induction h with
  | refl => exact List.suffix_refl _
  | step _ _ hs ih => exact ih.trans hs.suffix

omit [DecidableEq Key] in
/-- The committed log a statement ran on is that of an earlier state of the run. -/
theorem Run.exists_base (h₀ : s₀.procs = []) (h : Run M ok s₀ s) {i : Nat}
    {p : Proc Val Out E R Op} (hp : s.procs[i]? = some p) {e : Event Val Out}
    (he : e ∈ p.current) :
    ∃ t, Run M ok s₀ t ∧ t.db = e.base ∧ Run M ok t s := by
  induction h generalizing i p with
  | refl => simp [h₀] at hp
  | step hr ha hs ih =>
      rename_i u a v
      have keep : (∃ (j : Nat) (q : Proc Val Out E R Op), u.procs[j]? = some q ∧ e ∈ q.current) →
          ∃ t, Run M ok s₀ t ∧ t.db = e.base ∧ Run M ok t v := by
        rintro ⟨j, q, hq, he⟩
        obtain ⟨t, ht, hdb, hts⟩ := ih hq he
        exact ⟨t, ht, hdb, .step hts ha hs⟩
      have dropped : ∀ (j : Nat) (q : Proc Val Out E R Op) prog, u.procs[j]? = some q →
          (u.set j (q.drop prog)).procs[i]? = some p →
          ∃ t, Run M ok s₀ t ∧ t.db = e.base ∧ Run M ok t v := by
        intro j q prog hq hset
        rcases getElem?_set_cases hset with ⟨rfl, rfl⟩ | ⟨_, hp⟩
        · simp [Proc.drop] at he
        · exact keep ⟨i, p, hp, he⟩
      cases hs with
      | start op =>
          rcases getElem?_concat_cases hp with rfl | hp
          · simp at he
          · exact keep ⟨i, p, hp, he⟩
      | answer j c q st next out rows hq hst hrun hfree =>
          rcases getElem?_set_cases hp with ⟨rfl, rfl⟩ | ⟨_, hp⟩
          · rcases List.mem_cons.mp he with rfl | he
            · exact ⟨u, hr, rfl, .step .refl ha (.answer i c q st next out rows hq hst hrun hfree)⟩
            · exact keep ⟨i, q, hq, he⟩
          · exact keep ⟨i, p, hp, he⟩
      | refuse j c q st next e' hq hst hrun => exact dropped j q _ hq hp
      | commit j c q next hq hst =>
          rcases getElem?_set_cases hp with ⟨rfl, rfl⟩ | ⟨_, hp⟩
          · simp [Proc.close] at he
          · exact keep ⟨i, p, hp, he⟩
      | rollback j c q next hq hst => exact dropped j q _ hq hp
      | fault j q st next e' hq hst => exact dropped j q _ hq hp
      | faultCommit j q next e' hq hst => exact dropped j q _ hq hp
      | kill j q e' hq => exact dropped j q _ hq hp
      | env rows hext hfree => exact keep ⟨i, p, hp, he⟩

end ReadCommitted
