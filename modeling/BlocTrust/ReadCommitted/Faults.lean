import BlocTrust.ReadCommitted.Solo

/-!
Calls that fail at a given point.
A call makes its statements and commits one after the other against the committed log, and a plan
names those that fail.  `execute` computes what comes of it.  A program without a commit of its
own leaves the log alone, so a transaction that fails leaves nothing; what `execute` computes
completes in the sense of `Completes`, and is therefore a run of the machine.
-/
namespace ReadCommitted

variable {Key : Type} {Val : Key → Type} {Stmt : Type} {Out : Stmt → Type} {E α β : Type}

/-- How many statements and commits are over, the open writes, and the committed log. -/
structure Point (Val : Key → Type) where
  step : Nat
  writes : Log Val
  db : Log Val

namespace Point

variable (σ : Point Val)

def failed : Point Val := ⟨σ.step + 1, [], σ.db⟩

def written (rows : Log Val) : Point Val := ⟨σ.step + 1, rows ++ σ.writes, σ.db⟩

def committed : Point Val := ⟨σ.step + 1, [], σ.writes ++ σ.db⟩

end Point

/-- What a statement does over a view. -/
abbrev Exec (Val : Key → Type) (Out : Stmt → Type) (E : Type) :=
  (s : Stmt) → Log Val → Except E (Out s × Log Val)

def Exec.engine (exec : Exec Val Out E) : Engine Val Out E :=
  fun s _ view => some (exec s view)

namespace Prog

section Semantics

variable (exec : Exec Val Out E) (plan : Nat → Option E)

/-- The outcome of the next statement or commit. -/
def due (σ : Point Val) (r : Except E β) : Except E β :=
  match plan σ.step with
  | some e => .error e
  | none => r

/-- The program by itself; a step that fails ends its transaction. -/
def execute : Prog Out E α → Point Val → Except E α × Point Val
  | ret a, σ => (.ok a, σ)
  | fail e, σ => (.error e, σ)
  | stmt s next, σ =>
      match due plan σ (exec s (σ.writes ++ σ.db)) with
      | .ok (out, rows) => (next (.ok out)).execute (σ.written rows)
      | .error e => (next (.error e)).execute σ.failed
  | commit next, σ =>
      match due plan σ (.ok ()) with
      | .ok _ => (next (.ok ())).execute σ.committed
      | .error e => (next (.error e)).execute σ.failed
  | rollback next, σ => next.execute { σ with writes := [] }

/-- There is no commit on any path. -/
def Uncommitted : Prog Out E α → Prop
  | ret _ => True
  | fail _ => True
  | stmt _ next => ∀ r, (next r).Uncommitted
  | commit _ => False
  | rollback next => next.Uncommitted

end Semantics

attribute [local simp] execute

variable {exec : Exec Val Out E} {plan : Nat → Option E} {σ τ : Point Val} {e : E}

theorem due_eq_error {r : Except E β} (h : plan σ.step = some e) : due plan σ r = .error e := by
  unfold due
  rw [h]

theorem due_eq_self {r : Except E β} (h : plan σ.step = none) : due plan σ r = r := by
  unfold due
  rw [h]

theorem execute_andThen_ok {p : Prog Out E α} {f : α → Prog Out E β} {h : E → Prog Out E β} {a : α}
    (hp : p.execute exec plan σ = (.ok a, τ)) :
    (p.andThen f h).execute exec plan σ = (f a).execute exec plan τ := by
  induction p generalizing σ with
  | ret b =>
      cases hp
      rfl
  | fail e => cases hp
  | stmt s next ih =>
      simp only [andThen, execute] at hp ⊢
      split at hp
      · exact ih _ hp
      · exact ih _ hp
  | commit next ih =>
      simp only [andThen, execute] at hp ⊢
      split at hp
      · exact ih _ hp
      · exact ih _ hp
  | rollback next ih => exact ih hp

theorem execute_andThen_error {p : Prog Out E α} {f : α → Prog Out E β} {h : E → Prog Out E β}
    (hp : p.execute exec plan σ = (.error e, τ)) :
    (p.andThen f h).execute exec plan σ = (h e).execute exec plan τ := by
  induction p generalizing σ with
  | ret b => cases hp
  | fail e =>
      cases hp
      rfl
  | stmt s next ih =>
      simp only [andThen, execute] at hp ⊢
      split at hp
      · exact ih _ hp
      · exact ih _ hp
  | commit next ih =>
      simp only [andThen, execute] at hp ⊢
      split at hp
      · exact ih _ hp
      · exact ih _ hp
  | rollback next ih => exact ih hp

theorem execute_bind_ok {p : Prog Out E α} {f : α → Prog Out E β} {a : α}
    (hp : p.execute exec plan σ = (.ok a, τ)) :
    (p >>= f).execute exec plan σ = (f a).execute exec plan τ := execute_andThen_ok hp

theorem execute_bind_error {p : Prog Out E α} {f : α → Prog Out E β}
    (hp : p.execute exec plan σ = (.error e, τ)) :
    (p >>= f).execute exec plan σ = (.error e, τ) := execute_andThen_error hp

theorem execute_tryCatch_ok {p : Prog Out E α} {h : E → Prog Out E α} {a : α}
    (hp : p.execute exec plan σ = (.ok a, τ)) :
    (tryCatch p h).execute exec plan σ = (.ok a, τ) := execute_andThen_ok hp

theorem execute_tryCatch_error {p : Prog Out E α} {h : E → Prog Out E α}
    (hp : p.execute exec plan σ = (.error e, τ)) :
    (tryCatch p h).execute exec plan σ = (h e).execute exec plan τ := execute_andThen_error hp

theorem execute_require {c : Prop} [Decidable c] (h : c) :
    (require c e : Prog Out E Unit).execute exec plan σ = (.ok (), σ) := by
  rw [require, if_pos h]
  rfl

theorem execute_require_not {c : Prop} [Decidable c] (h : ¬ c) :
    (require c e : Prog Out E Unit).execute exec plan σ = (.error e, σ) := by
  rw [require, if_neg h]
  rfl

theorem execute_orThrow {o : Option α} {a : α} (h : o = some a) :
    (orThrow o e : Prog Out E α).execute exec plan σ = (.ok a, σ) := by
  subst h
  rfl

theorem execute_orThrow_none {o : Option α} (h : o = none) :
    (orThrow o e : Prog Out E α).execute exec plan σ = (.error e, σ) := by
  subst h
  rfl

theorem execute_sql_ok {s : Stmt} {out : Out s} {rows : Log Val} (hplan : plan σ.step = none)
    (hexec : exec s (σ.writes ++ σ.db) = .ok (out, rows)) :
    (sql s : Prog Out E (Out s)).execute exec plan σ = (.ok out, σ.written rows) := by
  simp only [sql, execute, due_eq_self hplan, hexec]

theorem execute_sql_refused {s : Stmt} (hplan : plan σ.step = none)
    (hexec : exec s (σ.writes ++ σ.db) = .error e) :
    (sql s : Prog Out E (Out s)).execute exec plan σ = (.error e, σ.failed) := by
  simp only [sql, execute, due_eq_self hplan, hexec]

theorem execute_sql_planned {s : Stmt} (hplan : plan σ.step = some e) :
    (sql s : Prog Out E (Out s)).execute exec plan σ = (.error e, σ.failed) := by
  simp only [sql, execute, due_eq_error hplan]

theorem execute_transaction_ok {p : Prog Out E α} {a : α}
    (hp : p.execute exec plan σ = (.ok a, τ)) (hplan : plan τ.step = none) :
    (transaction p).execute exec plan σ = (.ok a, τ.committed) := by
  rw [transaction, execute_andThen_ok hp]
  simp only [finish, execute, due_eq_self hplan]

theorem execute_transaction_planned {p : Prog Out E α} {a : α}
    (hp : p.execute exec plan σ = (.ok a, τ)) (hplan : plan τ.step = some e) :
    (transaction p).execute exec plan σ = (.error e, τ.failed) := by
  rw [transaction, execute_andThen_ok hp]
  simp only [finish, execute, due_eq_error hplan]

theorem execute_transaction_error {p : Prog Out E α}
    (hp : p.execute exec plan σ = (.error e, τ)) :
    (transaction p).execute exec plan σ = (.error e, { τ with writes := [] }) := by
  rw [transaction, execute_andThen_error hp]
  rfl

theorem Uncommitted.andThen {p : Prog Out E α} {f : α → Prog Out E β} {h : E → Prog Out E β}
    (hp : p.Uncommitted) (hf : ∀ a, (f a).Uncommitted) (hh : ∀ e, (h e).Uncommitted) :
    (p.andThen f h).Uncommitted := by
  induction p with
  | ret a => exact hf a
  | fail e => exact hh e
  | stmt s next ih => exact fun r => ih r (hp r)
  | commit next ih => exact hp.elim
  | rollback next ih => exact ih hp

theorem uncommitted_sql (s : Stmt) : (sql s : Prog Out E (Out s)).Uncommitted := by
  intro r
  cases r <;> trivial

theorem Uncommitted.bind {p : Prog Out E α} {f : α → Prog Out E β} (hp : p.Uncommitted)
    (hf : ∀ a, (f a).Uncommitted) : (p >>= f).Uncommitted :=
  Uncommitted.andThen hp hf fun _ => trivial

theorem Uncommitted.db {p : Prog Out E α} (hp : p.Uncommitted) :
    (p.execute exec plan σ).2.db = σ.db := by
  induction p generalizing σ with
  | ret a => rfl
  | fail e => rfl
  | stmt s next ih =>
      simp only [execute]
      split
      · exact ih _ (hp _)
      · exact ih _ (hp _)
  | commit next ih => exact hp.elim
  | rollback next ih => exact ih hp

/-- A transaction that fails leaves nothing. -/
theorem Uncommitted.transaction_failed {p : Prog Out E α} (hp : p.Uncommitted)
    (h : (transaction p).execute exec plan σ = (.error e, τ)) : τ.writes = [] ∧ τ.db = σ.db := by
  have hdb : (p.execute exec plan σ).2.db = σ.db := hp.db
  obtain ⟨r, ρ, hbody⟩ : ∃ r ρ, p.execute exec plan σ = (r, ρ) := ⟨_, _, rfl⟩
  rw [hbody] at hdb
  cases r with
  | error e' =>
      rw [execute_transaction_error hbody] at h
      cases h
      exact ⟨rfl, hdb⟩
  | ok a =>
      cases hplan : plan ρ.step with
      | none =>
          rw [execute_transaction_ok hbody hplan] at h
          cases h
      | some e' =>
          rw [execute_transaction_planned hbody hplan] at h
          cases h
          exact ⟨rfl, hdb⟩

/-- What is computed is how the program completes by itself. -/
theorem execute_completes (p : Prog Out E α) :
    p.Completes exec.engine (fun e => ∃ n, plan n = some e) σ.writes σ.db
      (p.execute exec plan σ).1 (p.execute exec plan σ).2.db := by
  induction p generalizing σ with
  | ret a => exact .ret a σ.writes σ.db
  | fail e => exact .fail e σ.writes σ.db
  | stmt s next ih =>
      simp only [execute]
      cases hplan : plan σ.step with
      | some e =>
          rw [due_eq_error hplan]
          exact .fault s next e ⟨_, hplan⟩ (@ih _ σ.failed)
      | none =>
          rw [due_eq_self hplan]
          cases hexec : exec s (σ.writes ++ σ.db) with
          | error e => exact .refuse s next 0 e (congrArg some hexec) (@ih _ σ.failed)
          | ok answer =>
              obtain ⟨out, rows⟩ := answer
              exact .answer s next 0 out (congrArg some hexec) (@ih _ (σ.written rows))
  | commit next ih =>
      simp only [execute]
      cases hplan : plan σ.step with
      | some e =>
          rw [due_eq_error hplan]
          exact .faultCommit next e ⟨_, hplan⟩ (@ih _ σ.failed)
      | none =>
          rw [due_eq_self hplan]
          exact .commit next (@ih _ σ.committed)
  | rollback next ih => exact .rollback next (@ih { σ with writes := [] })

end Prog
end ReadCommitted
