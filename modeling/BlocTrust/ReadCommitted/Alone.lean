import BlocTrust.ReadCommitted.Obligations

/-!
A process that runs by itself.
While no other transaction is open nothing is locked and nobody else commits, so that a
program can be executed against the committed log.  `alone` says that every statement is
answered, whatever the fair choices, and that the program returns in `Q`; the runs of the
process by itself then never fail and can always be completed.
-/
namespace ReadCommitted

variable {Key : Type} [DecidableEq Key] {Val : Key → Type} {Stmt : Type} {Out : Stmt → Type}
  {E R Op α β : Type}

namespace Prog

variable (engine : Engine Val Out E) (fair : Stmt → Nat → Log Val → Prop)

/-- The program, with the open writes `w` over the committed log `db`, returns in `Q`. -/
def alone : Prog Out E α → (α → Calls Out → Log Val → Log Val → Prop) → Calls Out → Log Val →
    Log Val → Prop
  | ret a, Q, calls, w, db => Q a calls w db
  | fail _, _, _, _, _ => False
  | stmt s next, Q, calls, w, db =>
      (∃ c out rows, fair s c (w ++ db) ∧ engine s c (w ++ db) = some (.ok (out, rows))) ∧
        ∀ c r, fair s c (w ++ db) → engine s c (w ++ db) = some r → ∃ out rows,
          r = .ok (out, rows) ∧ (next (.ok out)).alone Q (⟨s, out⟩ :: calls) (rows ++ w) db
  | commit next, Q, calls, w, db => (next (.ok ())).alone Q calls [] (w ++ db)
  | rollback _, _, _, _, _ => False

variable {engine fair} {calls : Calls Out} {w db : Log Val}

omit [DecidableEq Key] in
theorem alone_mono {p : Prog Out E α} {Q Q' : α → Calls Out → Log Val → Log Val → Prop}
    (hQ : ∀ a calls w db, Q a calls w db → Q' a calls w db)
    (hp : p.alone engine fair Q calls w db) : p.alone engine fair Q' calls w db := by
  induction p generalizing calls w db with
  | ret a => exact hQ a _ _ _ hp
  | fail e => exact hp.elim
  | stmt s next ih =>
      refine ⟨hp.1, fun c r hfair hanswer => ?_⟩
      obtain ⟨out, rows, hr, hnext⟩ := hp.2 c r hfair hanswer
      exact ⟨out, rows, hr, ih _ hnext⟩
  | commit next ih => exact ih _ hp
  | rollback next ih => exact hp.elim

omit [DecidableEq Key] in
theorem alone_andThen {p : Prog Out E α} {f : α → Prog Out E β} {h : E → Prog Out E β}
    {Q : β → Calls Out → Log Val → Log Val → Prop}
    (hp : p.alone engine fair (fun a => (f a).alone engine fair Q) calls w db) :
    (p.andThen f h).alone engine fair Q calls w db := by
  induction p generalizing calls w db with
  | ret a => exact hp
  | fail e => exact hp.elim
  | stmt s next ih =>
      refine ⟨hp.1, fun c r hfair hanswer => ?_⟩
      obtain ⟨out, rows, hr, hnext⟩ := hp.2 c r hfair hanswer
      exact ⟨out, rows, hr, ih _ hnext⟩
  | commit next ih => exact ih _ hp
  | rollback next ih => exact hp.elim

omit [DecidableEq Key] in
theorem alone_bind {p : Prog Out E α} {f : α → Prog Out E β}
    {Q : β → Calls Out → Log Val → Log Val → Prop}
    (hp : p.alone engine fair (fun a => (f a).alone engine fair Q) calls w db) :
    (p >>= f).alone engine fair Q calls w db := alone_andThen hp

omit [DecidableEq Key] in
theorem alone_tryCatch {p : Prog Out E α} {h : E → Prog Out E α}
    {Q : α → Calls Out → Log Val → Log Val → Prop} (hp : p.alone engine fair Q calls w db) :
    (tryCatch p h).alone engine fair Q calls w db := alone_andThen hp

omit [DecidableEq Key] in
theorem alone_transaction {p : Prog Out E α} {Q : α → Calls Out → Log Val → Log Val → Prop}
    (hp : p.alone engine fair (fun a calls w db => Q a calls [] (w ++ db)) calls w db) :
    (transaction p).alone engine fair Q calls w db := alone_andThen hp

omit [DecidableEq Key] in
theorem alone_sql {s : Stmt} {Q : Out s → Calls Out → Log Val → Log Val → Prop}
    (hprogress : ∃ c out rows, fair s c (w ++ db) ∧ engine s c (w ++ db) = some (.ok (out, rows)))
    (hanswer : ∀ c r, fair s c (w ++ db) → engine s c (w ++ db) = some r → ∃ out rows,
      r = .ok (out, rows) ∧ Q out (⟨s, out⟩ :: calls) (rows ++ w) db) :
    (sql s : Prog Out E (Out s)).alone engine fair Q calls w db := ⟨hprogress, hanswer⟩

omit [DecidableEq Key] in
/-- A statement that is answered in the same way whatever the fair choice. -/
theorem alone_answered {s : Stmt} {Q : Out s → Calls Out → Log Val → Log Val → Prop} (out : Out s)
    (rows : Log Val) (hfair : ∃ c, fair s c (w ++ db))
    (hanswer : ∀ c, fair s c (w ++ db) → engine s c (w ++ db) = some (.ok (out, rows)))
    (hQ : Q out (⟨s, out⟩ :: calls) (rows ++ w) db) :
    (sql s : Prog Out E (Out s)).alone engine fair Q calls w db := by
  obtain ⟨c, hc⟩ := hfair
  refine alone_sql ⟨c, out, rows, hc, hanswer c hc⟩ fun c r hc hr => ?_
  rw [hanswer c hc] at hr
  cases hr
  exact ⟨out, rows, rfl, hQ⟩

omit [DecidableEq Key] in
theorem alone_auto {s : Stmt} {Q : Out s → Calls Out → Log Val → Log Val → Prop}
    (hs : (sql s : Prog Out E (Out s)).alone engine fair
      (fun out calls w db => Q out calls [] (w ++ db)) calls w db) :
    (auto s : Prog Out E (Out s)).alone engine fair Q calls w db := alone_bind hs

section Closes

theorem ends_any {K : E → Prop} (p : Prog Out E α) (past cur : Calls Out) :
    p.ends K (fun _ _ _ => True) (fun _ _ _ => True) past cur := by
  induction p generalizing past cur with
  | ret a => trivial
  | fail e => trivial
  | stmt s next ih => exact ⟨fun out => ih _ past _, fun e _ => ih _ past _⟩
  | commit next ih => exact ⟨ih _ _ _, fun e _ => ih _ _ _⟩
  | rollback next ih => exact ih _ _

/-- However the program ends, it leaves no transaction open. -/
def Closes (p : Prog Out E α) : Prop :=
  ∀ past, p.ends (fun _ => True) (fun _ _ cur => cur = []) (fun _ _ cur => cur = []) past []

theorem closes_pure (a : α) : (pure a : Prog Out E α).Closes := fun _ => rfl

theorem closes_fail (e : E) : (fail e : Prog Out E α).Closes := fun _ => rfl

theorem closes_andThen {p : Prog Out E α} {f : α → Prog Out E β} {h : E → Prog Out E β}
    (hp : p.Closes) (hf : ∀ a, (f a).Closes) (hh : ∀ e, (h e).Closes) :
    (p.andThen f h).Closes := by
  intro past
  refine (ends_andThen p f h).mpr (ends_mono (fun a past cur hcur => ?_) (fun e past cur hcur => ?_)
    (hp past))
  · rw [hcur]
    exact hf a past
  · rw [hcur]
    exact hh e past

theorem closes_bind {p : Prog Out E α} {f : α → Prog Out E β} (hp : p.Closes)
    (hf : ∀ a, (f a).Closes) : (p >>= f).Closes := closes_andThen hp hf closes_fail

theorem closes_tryCatch {p : Prog Out E α} {h : E → Prog Out E α} (hp : p.Closes)
    (hh : ∀ e, (h e).Closes) : (tryCatch p h).Closes := closes_andThen hp closes_pure hh

theorem closes_transaction (p : Prog Out E α) : (transaction p).Closes := by
  intro past
  refine (ends_transaction p).mpr (ends_mono (fun _ _ _ _ => ⟨rfl, fun _ _ => rfl⟩)
    (fun _ _ _ _ => rfl) (ends_any p past []))

theorem closes_auto (s : Stmt) : (auto s : Prog Out E (Out s)).Closes :=
  fun _ => ends_auto s (fun _ => rfl) fun _ _ => rfl

theorem closes_orThrow (o : Option α) (e : E) : (orThrow o e : Prog Out E α).Closes := by
  cases o with
  | none => exact closes_fail e
  | some a => exact closes_pure a

end Closes
end Prog

section Runs

variable {M : Machine Val Out E R Op} {fair : Stmt → Nat → Log Val → Prop}
  {Q : R → Calls Out → Log Val → Log Val → Prop} {s s' t : Sys Val Out E R Op} {i : Nat}

variable (fair) in
/-- Steps of process `i` only, with fair choices. -/
def solo (i : Nat) (s : Sys Val Out E R Op) (a : Action Val E Op) : Prop :=
  ∃ c, a = .exec i c ∧ ∀ p q next, s.procs[i]? = some p → p.prog = .stmt q next →
    fair q c (p.writes ++ s.db)

variable (M fair Q) in
/-- Process `i` is the only one with an open transaction, and it goes on to return in `Q`. -/
structure Alone (s : Sys Val Out E R Op) (i : Nat) (p : Proc Val Out E R Op) : Prop where
  proc : s.procs[i]? = some p
  others : ∀ (j : Nat) q, s.procs[j]? = some q → j ≠ i → q.current = []
  returns : p.prog.alone M.engine fair Q (p.calls ++ p.past) p.writes s.db

omit [DecidableEq Key] in
theorem Alone.set {p p' : Proc Val Out E R Op} (h : Alone M fair Q s i p) {db : Log Val}
    (hreturns : p'.prog.alone M.engine fair Q (p'.calls ++ p'.past) p'.writes db) :
    Alone M fair Q ⟨db, s.procs.set i p'⟩ i p' := by
  have hlt := (List.getElem?_eq_some_iff.mp h.proc).1
  refine ⟨List.getElem?_set_self hlt, fun j q hq hji => ?_, hreturns⟩
  refine h.others j q ?_ hji
  rwa [List.getElem?_set_ne (Ne.symm hji)] at hq

omit [DecidableEq Key] in
/-- A step of the process by itself takes it on. -/
theorem Alone.step {p : Proc Val Out E R Op} (h : Alone M fair Q s i p) {a : Action Val E Op}
    (hsolo : solo fair i s a) (hs : Step M s a s') : ∃ p', Alone M fair Q s' i p' := by
  obtain ⟨c, rfl, hfair⟩ := hsolo
  have hreturns := h.returns
  cases hs with
  | answer _ _ p₀ q next out rows hp hq hrun hfree =>
      cases h.proc.symm.trans hp
      rw [hq] at hreturns
      obtain ⟨out', rows', hanswer, hnext⟩ := hreturns.2 c _ (hfair p q next hp hq) hrun
      cases hanswer
      exact ⟨_, h.set hnext⟩
  | refuse _ _ p₀ q next e hp hq hrun =>
      cases h.proc.symm.trans hp
      rw [hq] at hreturns
      obtain ⟨out', rows', hanswer, -⟩ := hreturns.2 c _ (hfair p q next hp hq) hrun
      cases hanswer
  | commit _ _ p₀ next hp hq =>
      cases h.proc.symm.trans hp
      rw [hq] at hreturns
      exact ⟨_, h.set hreturns⟩
  | rollback _ _ p₀ next hp hq =>
      cases h.proc.symm.trans hp
      rw [hq] at hreturns
      exact hreturns.elim

omit [DecidableEq Key] in
theorem Alone.run {p : Proc Val Out E R Op} (h : Alone M fair Q s i p)
    (hrun : Run M (solo fair i) s t) : ∃ p', Alone M fair Q t i p' :=
  hrun.invariant (I := fun t => ∃ p', Alone M fair Q t i p') ⟨p, h⟩
    fun _ _ _ _ ⟨_, h'⟩ ha hs => h'.step ha hs

omit [DecidableEq Key] in
/-- Nothing is locked for it. -/
theorem Alone.unlocked {p : Proc Val Out E R Op} (h : Alone M fair Q s i p) (k : Key) :
    k ∉ s.lockedFor i := by
  intro hk
  obtain ⟨q, hq, hkey⟩ := List.mem_flatMap.mp hk
  obtain ⟨j, hj⟩ := List.mem_iff_getElem?.mp hq
  obtain ⟨j', hji, hq'⟩ : ∃ j', j' ≠ i ∧ s.procs[j']? = some q := by
    rw [List.getElem?_eraseIdx] at hj
    split at hj
    · exact ⟨j, by omega, hj⟩
    · exact ⟨j + 1, by omega, hj⟩
  rw [Proc.writes, h.others j' q hq' hji] at hkey
  exact List.not_mem_nil hkey

omit [DecidableEq Key] in
/-- The process can be run to its end. -/
theorem Alone.completes {p : Proc Val Out E R Op} (h : Alone M fair Q s i p) :
    ∃ t p' a, Run M (solo fair i) s t ∧ Alone M fair Q t i p' ∧ p'.prog = .ret a := by
  obtain ⟨prog, hprog⟩ : ∃ prog, p.prog = prog := ⟨_, rfl⟩
  induction prog generalizing s p with
  | ret a => exact ⟨s, p, a, .refl, h, hprog⟩
  | fail e =>
      have hreturns := h.returns
      rw [hprog] at hreturns
      exact hreturns.elim
  | rollback next ih =>
      have hreturns := h.returns
      rw [hprog] at hreturns
      exact hreturns.elim
  | stmt q next ih =>
      have hreturns := h.returns
      rw [hprog] at hreturns
      obtain ⟨⟨c, out, rows, hfair, hanswer⟩, hall⟩ := hreturns
      obtain ⟨out', rows', hsame, hnext⟩ := hall c _ hfair hanswer
      cases hsame
      have hstep := Step.answer i c p q next out rows h.proc hprog hanswer
        fun k _ => h.unlocked k
      have hsolo : solo fair i s (.exec i c) := by
        refine ⟨c, rfl, fun p₀ q₀ next₀ hp₀ hq₀ => ?_⟩
        cases h.proc.symm.trans hp₀
        rw [hprog] at hq₀
        cases hq₀
        exact hfair
      have hpushed : Alone M fair Q (s.set i (p.push (next (.ok out)) ⟨q, out, rows, s.db⟩)) i
          (p.push (next (.ok out)) ⟨q, out, rows, s.db⟩) := h.set hnext
      obtain ⟨t, p', a, hrun, hend⟩ := ih _ hpushed rfl
      exact ⟨t, p', a, (Run.step .refl hsolo hstep).trans hrun, hend⟩
  | commit next ih =>
      have hreturns := h.returns
      rw [hprog] at hreturns
      have hstep := Step.commit (M := M) i 0 p next h.proc hprog
      have hsolo : solo fair i s (.exec i 0) := by
        refine ⟨0, rfl, fun p₀ q₀ next₀ hp₀ hq₀ => ?_⟩
        cases h.proc.symm.trans hp₀
        rw [hprog] at hq₀
        cases hq₀
      have hnext : Alone M fair Q ⟨p.writes ++ s.db, s.procs.set i (p.close (next (.ok ())))⟩ i
          (p.close (next (.ok ()))) := h.set hreturns
      obtain ⟨t, p', a, hrun, hend⟩ := ih _ hnext rfl
      exact ⟨t, p', a, (Run.step .refl hsolo hstep).trans hrun, hend⟩

omit [DecidableEq Key] in
/-- Calls of such programs leave no transaction open when they have ended. -/
theorem Run.closed {ok : Sys Val Out E R Op → Action Val E Op → Prop} {allowed : Op → Prop}
    (hprogram : ∀ op, allowed op → (M.program op).Closes) {s₀ : Sys Val Out E R Op}
    (h₀ : s₀.procs = []) (hrun : Run M ok s₀ s) {p : Proc Val Out E R Op}
    (hp : s.procs[i]? = some p) (hop : allowed p.op) (hended : p.prog.finished = true) :
    p.current = [] := by
  have hending : Ending (fun _ => True) (fun op _ _ cur => allowed op → cur = [])
      (fun op _ _ cur => allowed op → cur = []) s i := by
    refine hrun.ending ⟨fun _ _ _ _ _ => trivial, fun _ _ _ _ => trivial,
      fun _ _ _ _ => trivial⟩ (fun _ _ _ _ _ => rfl) (fun op => ?_) h₀ i
    by_cases hallowed : allowed op
    · exact Prog.ends_mono (fun _ _ _ h _ => h) (fun _ _ _ h _ => h) (hprogram op hallowed [])
    · exact Prog.ends_mono (fun _ _ _ _ h => absurd h hallowed) (fun _ _ _ _ h => absurd h hallowed)
        (Prog.ends_any _ _ _)
  have hends := hending p hp
  have hcalls : p.calls = [] := by
    cases hprog : p.prog with
    | ret a =>
        rw [hprog] at hends
        exact hends hop
    | fail e =>
        rw [hprog] at hends
        exact hends hop
    | _ =>
        rw [hprog] at hended
        cases hended
  exact List.map_eq_nil_iff.mp hcalls

end Runs
end ReadCommitted
