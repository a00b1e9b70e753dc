import Mathlib.Init

/-!
Client programs of a transactional database as trees of statements.
A node waits for the answer of its statement, or for the outcome of a commit, and goes on
with either result.  `wp` walks a program along every possible answer; the statements a
process has seen answered are its calls, split into those of committed transactions and
those of the open one.
-/
namespace ReadCommitted

inductive Prog {Stmt : Type} (Out : Stmt → Type) (E α : Type) : Type
  | ret (a : α)
  | fail (e : E)
  | stmt (s : Stmt) (next : Except E (Out s) → Prog Out E α)
  | commit (next : Except E Unit → Prog Out E α)
  | rollback (next : Prog Out E α)

/-- Statements with the answers they were given, newest first. -/
abbrev Calls {Stmt : Type} (Out : Stmt → Type) := List (Sigma Out)

/-- What a program must have seen before it issues a statement and before it commits, given
what the answers of a statement are known to be. -/
structure Conduct {Stmt : Type} (Out : Stmt → Type) where
  before : Calls Out → Calls Out → Stmt → Prop
  due : Calls Out → Calls Out → Prop
  answers : (s : Stmt) → Out s → Prop

namespace Prog

variable {Stmt : Type} {Out : Stmt → Type} {E α β : Type}

/-- Continue with `f` after a normal return and with `h` after a failure. -/
def andThen : Prog Out E α → (α → Prog Out E β) → (E → Prog Out E β) → Prog Out E β
  | ret a, f, _ => f a
  | fail e, _, h => h e
  | stmt s next, f, h => stmt s fun r => (next r).andThen f h
  | commit next, f, h => commit fun r => (next r).andThen f h
  | rollback next, f, h => rollback (next.andThen f h)

instance : Monad (Prog Out E) where
  pure := ret
  bind p f := p.andThen f fail

instance : MonadExceptOf E (Prog Out E) where
  throw := fail
  tryCatch p h := p.andThen ret h

/-- Issue a statement of the open transaction and rethrow its error. -/
def sql (s : Stmt) : Prog Out E (Out s) :=
  stmt s fun
    | .ok out => ret out
    | .error e => fail e

/-- End the open transaction with a commit. -/
def finish (a : α) : Prog Out E α :=
  commit fun
    | .ok _ => ret a
    | .error e => fail e

/-- Commit when `p` returns, roll back when it fails. -/
def transaction (p : Prog Out E α) : Prog Out E α :=
  p.andThen finish fun e => rollback (fail e)

/-- A statement that is its own transaction. -/
def auto (s : Stmt) : Prog Out E (Out s) :=
  sql s >>= finish

def require (c : Prop) [Decidable c] (e : E) : Prog Out E Unit :=
  if c then ret () else fail e

def orThrow (o : Option α) (e : E) : Prog Out E α :=
  match o with
  | some a => ret a
  | none => fail e

def whenever (c : Prop) [Decidable c] (p : Prog Out E Unit) : Prog Out E Unit :=
  if c then p else ret ()

/-- Run `p` for each element in turn and return the results. -/
def each {γ : Type} (p : γ → Prog Out E α) : List γ → Prog Out E (List α)
  | [] => ret []
  | c :: cs => do
      let a ← p c
      let as ← each p cs
      return a :: as

variable (C : Conduct Out)

/-- `p` keeps the conduct on every path and ends in `Q` or, when it fails, in `R`. -/
def wp : Prog Out E α → (α → Calls Out → Calls Out → Prop) →
    (E → Calls Out → Calls Out → Prop) → Calls Out → Calls Out → Prop
  | ret a, Q, _, past, cur => Q a past cur
  | fail e, _, R, past, cur => R e past cur
  | stmt s next, Q, R, past, cur =>
      C.before past cur s ∧
        (∀ out, C.answers s out → (next (.ok out)).wp Q R past (⟨s, out⟩ :: cur)) ∧
        ∀ e, (next (.error e)).wp Q R past []
  | commit next, Q, R, past, cur =>
      C.due past cur ∧ (next (.ok ())).wp Q R (cur ++ past) [] ∧
        ∀ e, (next (.error e)).wp Q R past []
  | rollback next, Q, R, past, _ => next.wp Q R past []

variable {C} {Q : α → Calls Out → Calls Out → Prop} {R : E → Calls Out → Calls Out → Prop}
  {past cur : Calls Out}

@[simp] theorem wp_ret (a : α) : (ret a : Prog Out E α).wp C Q R past cur ↔ Q a past cur :=
  Iff.rfl

@[simp] theorem wp_pure (a : α) :
    (pure a : Prog Out E α).wp C Q R past cur ↔ Q a past cur := Iff.rfl

@[simp] theorem wp_fail (e : E) : (fail e : Prog Out E α).wp C Q R past cur ↔ R e past cur :=
  Iff.rfl

theorem wp_andThen (p : Prog Out E α) (f : α → Prog Out E β) (h : E → Prog Out E β)
    {Q : β → Calls Out → Calls Out → Prop} {R : E → Calls Out → Calls Out → Prop} :
    (p.andThen f h).wp C Q R past cur ↔
      p.wp C (fun a => (f a).wp C Q R) (fun e => (h e).wp C Q R) past cur := by
  induction p generalizing past cur with
  | ret a => rfl
  | fail e => rfl
  | stmt s next ih => simp only [andThen, wp, ih]
  | commit next ih => simp only [andThen, wp, ih]
  | rollback next ih => exact ih

@[simp] theorem wp_bind (p : Prog Out E α) (f : α → Prog Out E β)
    {Q : β → Calls Out → Calls Out → Prop} {R : E → Calls Out → Calls Out → Prop} :
    (p >>= f).wp C Q R past cur ↔ p.wp C (fun a => (f a).wp C Q R) R past cur :=
  wp_andThen ..

@[simp] theorem wp_tryCatch (p : Prog Out E α) (h : E → Prog Out E α) :
    (tryCatch p h).wp C Q R past cur ↔ p.wp C Q (fun e => (h e).wp C Q R) past cur :=
  wp_andThen ..

@[simp] theorem wp_sql (s : Stmt) {Q : Out s → Calls Out → Calls Out → Prop} :
    (sql s : Prog Out E (Out s)).wp C Q R past cur ↔
      C.before past cur s ∧ (∀ out, C.answers s out → Q out past (⟨s, out⟩ :: cur)) ∧
        ∀ e, R e past [] :=
  Iff.rfl

@[simp] theorem wp_transaction (p : Prog Out E α) :
    (transaction p).wp C Q R past cur ↔
      p.wp C (fun a past cur => C.due past cur ∧ Q a (cur ++ past) [] ∧ ∀ e, R e past [])
        (fun e past _ => R e past []) past cur :=
  wp_andThen ..

@[simp] theorem wp_auto (s : Stmt) {Q : Out s → Calls Out → Calls Out → Prop} :
    (auto s : Prog Out E (Out s)).wp C Q R past cur ↔
      C.before past cur s ∧
        (∀ out, C.answers s out → C.due past (⟨s, out⟩ :: cur) ∧
          Q out (⟨s, out⟩ :: cur ++ past) [] ∧ ∀ e, R e past []) ∧ ∀ e, R e past [] :=
  Iff.rfl

@[simp] theorem wp_require (c : Prop) [Decidable c] (e : E)
    {Q : Unit → Calls Out → Calls Out → Prop} :
    (require c e : Prog Out E Unit).wp C Q R past cur ↔
      (c → Q () past cur) ∧ (¬ c → R e past cur) := by
  unfold require
  split <;> simp [*]

@[simp] theorem wp_whenever (c : Prop) [Decidable c] (p : Prog Out E Unit)
    {Q : Unit → Calls Out → Calls Out → Prop} :
    (whenever c p).wp C Q R past cur ↔ (c → p.wp C Q R past cur) ∧ (¬ c → Q () past cur) := by
  unfold whenever
  split <;> simp [*]

@[simp] theorem wp_orThrow (o : Option α) (e : E) :
    (orThrow o e : Prog Out E α).wp C Q R past cur ↔
      (∀ a, o = some a → Q a past cur) ∧ (o = none → R e past cur) := by
  cases o <;> simp [orThrow]

@[simp] theorem wp_ite (c : Prop) [Decidable c] (p q : Prog Out E α) :
    (if c then p else q).wp C Q R past cur ↔
      (c → p.wp C Q R past cur) ∧ (¬ c → q.wp C Q R past cur) := by
  split <;> simp [*]

/-- The weakest precondition is monotone in both of its postconditions. -/
theorem wp_mono {Q' : α → Calls Out → Calls Out → Prop} {R' : E → Calls Out → Calls Out → Prop}
    (hQ : ∀ a past cur, Q a past cur → Q' a past cur)
    (hR : ∀ e past cur, R e past cur → R' e past cur) {p : Prog Out E α}
    (h : p.wp C Q R past cur) : p.wp C Q' R' past cur := by
  induction p generalizing past cur with
  | ret a => exact hQ _ _ _ h
  | fail e => exact hR _ _ _ h
  | stmt s next ih =>
      exact ⟨h.1, fun out ha => ih _ (h.2.1 out ha), fun e => ih _ (h.2.2 e)⟩
  | commit next ih => exact ⟨h.1, ih _ h.2.1, fun e => ih _ (h.2.2 e)⟩
  | rollback next ih => exact ih h

/-- A loop over `all` keeps what each of its rounds keeps. -/
theorem wp_each {γ : Type} (p : γ → Prog Out E α) (all : List γ)
    (I : List γ → Calls Out → Calls Out → Prop) {R : E → Calls Out → Calls Out → Prop}
    (hstep : ∀ c done rest past cur, all = done ++ c :: rest → I done past cur →
      (p c).wp C (fun _ => I (done ++ [c])) R past cur)
    (cs done : List γ) (hall : all = done ++ cs) (h : I done past cur) :
    (each p cs).wp C (fun _ => I all) R past cur := by
  induction cs generalizing done past cur with
  | nil => simpa [each, hall] using h
  | cons c cs ih =>
      rw [each, wp_bind]
      refine wp_mono (fun _ past cur hI => ?_) (fun _ _ _ h => h)
        (hstep c done cs past cur hall h)
      have hrest := ih (done ++ [c]) (by simpa using hall) hI
      exact (wp_bind _ _).mpr (wp_mono (fun _ _ _ h => h) (fun _ _ _ h => h) hrest)

end Prog
end ReadCommitted
