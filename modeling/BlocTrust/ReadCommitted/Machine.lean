import Mathlib.Data.List.Infix
import BlocTrust.ReadCommitted.Log
import BlocTrust.ReadCommitted.Prog

/-!
Concurrent transactions under READ COMMITTED.
Every statement is answered over the latest committed log with the process' own
uncommitted versions in front of it.  A version a process has written stays locked until
its transaction ends: a statement that would write it waits, that is, cannot run.  Commit
puts the versions in front of the committed log; a rollback, an error or a crash drops them.
-/
namespace ReadCommitted

open Log

variable {Key : Type} [DecidableEq Key] {Val : Key → Type} {Stmt : Type} {Out : Stmt → Type}
  {E R Op : Type}

/-- An answered statement, the versions it wrote and the committed log it ran on. -/
structure Event (Val : Key → Type) (Out : Stmt → Type) where
  stmt : Stmt
  out : Out stmt
  rows : Log Val
  base : Log Val

def Event.call (e : Event Val Out) : Sigma Out := ⟨e.stmt, e.out⟩


/-- The uncommitted versions of a transaction, newest first. -/
def writes (es : List (Event Val Out)) : Log Val := es.flatMap Event.rows

/-- `past` holds the calls of committed transactions, `current` the open one. -/
structure Proc (Val : Key → Type) (Out : Stmt → Type) (E R Op : Type) where
  op : Op
  prog : Prog Out E R
  past : Calls Out
  current : List (Event Val Out)

namespace Proc

def writes (p : Proc Val Out E R Op) : Log Val := ReadCommitted.writes p.current

def calls (p : Proc Val Out E R Op) : Calls Out := p.current.map Event.call

/-- The open transaction is dropped and the program goes on with `prog`. -/
def drop (p : Proc Val Out E R Op) (prog : Prog Out E R) : Proc Val Out E R Op :=
  { p with prog := prog, current := [] }

def push (p : Proc Val Out E R Op) (prog : Prog Out E R) (e : Event Val Out) :
    Proc Val Out E R Op :=
  { p with prog := prog, current := e :: p.current }

def close (p : Proc Val Out E R Op) (prog : Prog Out E R) : Proc Val Out E R Op :=
  { p with prog := prog, past := p.calls ++ p.past, current := [] }

end Proc

structure Sys (Val : Key → Type) (Out : Stmt → Type) (E R Op : Type) where
  db : Log Val
  procs : List (Proc Val Out E R Op)

/-- The answer of a statement with the versions it writes; `none` when it cannot run. -/
abbrev Engine (Val : Key → Type) (Out : Stmt → Type) (E : Type) :=
  (s : Stmt) → (choice : Nat) → (view : Log Val) → Option (Except E (Out s × Log Val))

structure Machine (Val : Key → Type) (Out : Stmt → Type) (E R Op : Type) where
  engine : Engine Val Out E
  program : Op → Prog Out E R
  external : Log Val → Log Val → Prop

inductive Action (Val : Key → Type) (E Op : Type)
  | start (op : Op)
  | exec (i choice : Nat)
  | fault (i : Nat) (e : E)
  | kill (i : Nat) (e : E)
  | env (rows : Log Val)

namespace Sys

/-- The keys locked by processes other than `i`. -/
def lockedFor (s : Sys Val Out E R Op) (i : Nat) : List Key :=
  (s.procs.eraseIdx i).flatMap fun p => p.writes.keys

/-- The keys locked by any process. -/
def locked (s : Sys Val Out E R Op) : List Key := s.procs.flatMap fun p => p.writes.keys

def set (s : Sys Val Out E R Op) (i : Nat) (p : Proc Val Out E R Op) : Sys Val Out E R Op :=
  { s with procs := s.procs.set i p }

end Sys

variable (M : Machine Val Out E R Op)

inductive Step (s : Sys Val Out E R Op) :
    Action Val E Op → Sys Val Out E R Op → Prop
  | start (op : Op) :
      Step s (.start op) { s with procs := s.procs ++ [⟨op, M.program op, [], []⟩] }
  | answer (i c : Nat) (p) (q : Stmt) (next) (out : Out q) (rows : Log Val)
      (hp : s.procs[i]? = some p) (hq : p.prog = .stmt q next)
      (hrun : M.engine q c (p.writes ++ s.db) = some (.ok (out, rows)))
      (hfree : ∀ k ∈ rows.keys, k ∉ s.lockedFor i) :
      Step s (.exec i c) (s.set i (p.push (next (.ok out)) ⟨q, out, rows, s.db⟩))
  | refuse (i c : Nat) (p) (q : Stmt) (next) (e : E)
      (hp : s.procs[i]? = some p) (hq : p.prog = .stmt q next)
      (hrun : M.engine q c (p.writes ++ s.db) = some (.error e)) :
      Step s (.exec i c) (s.set i (p.drop (next (.error e))))
  | commit (i c : Nat) (p) (next)
      (hp : s.procs[i]? = some p) (hq : p.prog = .commit next) :
      Step s (.exec i c) ⟨p.writes ++ s.db, s.procs.set i (p.close (next (.ok ())))⟩
  | rollback (i c : Nat) (p) (next)
      (hp : s.procs[i]? = some p) (hq : p.prog = .rollback next) :
      Step s (.exec i c) (s.set i (p.drop next))
  | fault (i : Nat) (p) (q : Stmt) (next) (e : E)
      (hp : s.procs[i]? = some p) (hq : p.prog = .stmt q next) :
      Step s (.fault i e) (s.set i (p.drop (next (.error e))))
  | faultCommit (i : Nat) (p) (next) (e : E)
      (hp : s.procs[i]? = some p) (hq : p.prog = .commit next) :
      Step s (.fault i e) (s.set i (p.drop (next (.error e))))
  | kill (i : Nat) (p) (e : E) (hp : s.procs[i]? = some p) :
      Step s (.kill i e) (s.set i (p.drop (.fail e)))
  | env (rows : Log Val) (hext : M.external s.db rows)
      (hfree : ∀ k ∈ rows.keys, k ∉ s.locked) :
      Step s (.env rows) { s with db := rows ++ s.db }

/-- Runs whose actions are all allowed where they are taken. -/
inductive Run (ok : Sys Val Out E R Op → Action Val E Op → Prop) (s₀ : Sys Val Out E R Op) :
    Sys Val Out E R Op → Prop
  | refl : Run ok s₀ s₀
  | step {s a s'} (hr : Run ok s₀ s) (ha : ok s a) (hs : Step M s a s') : Run ok s₀ s'

variable {M} {ok : Sys Val Out E R Op → Action Val E Op → Prop}
  {s₀ s t : Sys Val Out E R Op}

omit [DecidableEq Key] in
theorem Run.trans (h : Run M ok s₀ s) (h' : Run M ok s t) : Run M ok s₀ t := by
  induction h' with
  | refl => exact h
  | step _ ha hs ih => exact .step ih ha hs

omit [DecidableEq Key] in
theorem Run.mono {ok' : Sys Val Out E R Op → Action Val E Op → Prop}
    (hok : ∀ s a, ok s a → ok' s a) (h : Run M ok s₀ s) : Run M ok' s₀ s := by
  induction h with
  | refl => exact .refl
  | step _ ha hs ih => exact .step ih (hok _ _ ha) hs

omit [DecidableEq Key] in
theorem Run.invariant {I : Sys Val Out E R Op → Prop} (hinit : I s₀)
    (hstep : ∀ s a s', Run M ok s₀ s → I s → ok s a → Step M s a s' → I s')
    (h : Run M ok s₀ s) : I s := by
  induction h with
  | refl => exact hinit
  | step hr ha hs ih => exact hstep _ _ _ hr ih ha hs

section Execution

/-- One step as a function, for runs given by their list of actions. -/
def step (M : Machine Val Out E R Op) (s : Sys Val Out E R Op) :
    Action Val E Op → Option (Sys Val Out E R Op)
  | .start op => some { s with procs := s.procs ++ [⟨op, M.program op, [], []⟩] }
  | .exec i c =>
      match s.procs[i]? with
      | none => none
      | some p =>
          match p.prog with
          | .ret _ => none
          | .fail _ => none
          | .stmt q next =>
              match M.engine q c (p.writes ++ s.db) with
              | none => none
              | some (.error e) => some (s.set i (p.drop (next (.error e))))
              | some (.ok (out, rows)) =>
                  if ∀ k ∈ rows.keys, k ∉ s.lockedFor i then
                    some (s.set i (p.push (next (.ok out)) ⟨q, out, rows, s.db⟩))
                  else none
          | .commit next =>
              some ⟨p.writes ++ s.db, s.procs.set i (p.close (next (.ok ())))⟩
          | .rollback next => some (s.set i (p.drop next))
  | .fault i e =>
      match s.procs[i]? with
      | none => none
      | some p =>
          match p.prog with
          | .stmt _ next => some (s.set i (p.drop (next (.error e))))
          | .commit next => some (s.set i (p.drop (next (.error e))))
          | _ => none
  | .kill i e =>
      match s.procs[i]? with
      | none => none
      | some p => some (s.set i (p.drop (.fail e)))
  | .env _ => none

theorem step_sound {a : Action Val E Op} (h : step M s a = some t) : Step M s a t := by
  cases a with
  | start op =>
      cases h
      exact .start op
  | exec i c =>
      simp only [step] at h
      split at h
      · cases h
      · rename_i p hp
        split at h
        · cases h
        · cases h
        · rename_i q next hq
          split at h
          · cases h
          · rename_i e hrun
            cases h
            exact .refuse i c p q next e hp hq hrun
          · rename_i out rows hrun
            split at h
            · rename_i hfree
              cases h
              exact .answer i c p q next out rows hp hq hrun hfree
            · cases h
        · rename_i next hq
          cases h
          exact .commit i c p next hp hq
        · rename_i next hq
          cases h
          exact .rollback i c p next hp hq
  | fault i e =>
      simp only [step] at h
      split at h
      · cases h
      · rename_i p hp
        split at h
        · rename_i q next hq
          cases h
          exact .fault i p q next e hp hq
        · rename_i next hq
          cases h
          exact .faultCommit i p next e hp hq
        · cases h
  | kill i e =>
      simp only [step] at h
      split at h
      · cases h
      · rename_i p hp
        cases h
        exact .kill i p e hp
  | env rows => cases h

/-- Perform a list of actions, each where it is allowed. -/
def perform (M : Machine Val Out E R Op) (allow : Sys Val Out E R Op → Action Val E Op → Bool) :
    List (Action Val E Op) → Sys Val Out E R Op → Option (Sys Val Out E R Op)
  | [], s => some s
  | a :: as, s => if allow s a then (step M s a).bind (perform M allow as) else none

theorem run_of_perform {allow : Sys Val Out E R Op → Action Val E Op → Bool}
    {as : List (Action Val E Op)} (hok : ∀ s a, allow s a = true → ok s a)
    (h : perform M allow as s = some t) : Run M ok s t := by
  induction as generalizing s with
  | nil =>
      cases h
      exact .refl
  | cons a as ih =>
      rw [perform] at h
      split at h
      · rename_i hallow
        obtain ⟨u, hu, hrest⟩ := Option.bind_eq_some_iff.mp h
        have hfirst : Run M ok s u := .step .refl (hok s a hallow) (step_sound hu)
        exact hfirst.trans (ih hrest)
      · cases h

/-- A list of actions that can be performed, and what its last state passes. -/
theorem exists_run {allow : Sys Val Out E R Op → Action Val E Op → Bool}
    (as : List (Action Val E Op)) (check : Sys Val Out E R Op → Bool)
    (hok : ∀ s a, allow s a = true → ok s a) (h : (perform M allow as s).any check = true) :
    ∃ t, Run M ok s t ∧ check t = true := by
  obtain ⟨t, ht, hcheck⟩ := (Option.any_eq_true _ _).mp h
  exact ⟨t, run_of_perform hok ht, hcheck⟩

/-- Such a list followed by one more step. -/
theorem exists_step {allow : Sys Val Out E R Op → Action Val E Op → Bool}
    (as : List (Action Val E Op)) (a : Action Val E Op)
    (check : Sys Val Out E R Op → Sys Val Out E R Op → Bool)
    (hok : ∀ s a, allow s a = true → ok s a)
    (h : (perform M allow as s).any (fun t => allow t a && (step M t a).any (check t)) = true) :
    ∃ t t', Run M ok s t ∧ ok t a ∧ Step M t a t' ∧ check t t' = true := by
  obtain ⟨t, hrun, hstep⟩ := exists_run as _ hok h
  obtain ⟨hallow, hnext⟩ := Bool.and_eq_true_iff.mp hstep
  obtain ⟨t', ht', hcheck⟩ := (Option.any_eq_true _ _).mp hnext
  exact ⟨t, t', hrun, hok t a hallow, step_sound ht', hcheck⟩

end Execution
end ReadCommitted
