import BlocTrust.ReadCommitted.Obligations

/-!
Programs over more statements.
When statements are added beside those of a program, it runs as it did: sequencing, transactions and
loops of the extended program are those of the programs it was extended from.
-/
namespace ReadCommitted

variable {Key : Type} [DecidableEq Key] {Val : Key → Type} {Stmt X : Type} {Out : Stmt → Type}
  {XOut : X → Type} {E α β : Type}

/-- The answers of two kinds of statements. -/
abbrev Both (Out : Stmt → Type) (XOut : X → Type) : Stmt ⊕ X → Type := Sum.elim Out XOut

/-- An engine for statements of both kinds. -/
def Engine.both (f : Engine Val Out E) (g : Engine Val XOut E) : Engine Val (Both Out XOut) E
  | .inl s, choice, view => f s choice view
  | .inr x, choice, view => g x choice view

namespace Prog

variable (XOut) in
def extend : Prog Out E α → Prog (Both Out XOut) E α
  | ret a => ret a
  | fail e => fail e
  | stmt s next => stmt (.inl s) fun r => (next r).extend
  | commit next => commit fun r => (next r).extend
  | rollback next => rollback next.extend

@[simp] theorem extend_ret (a : α) : (ret a : Prog Out E α).extend XOut = ret a := rfl

@[simp] theorem extend_pure (a : α) : (pure a : Prog Out E α).extend XOut = pure a := rfl

@[simp] theorem extend_throw (e : E) : (throw e : Prog Out E α).extend XOut = throw e := rfl

theorem extend_andThen (p : Prog Out E α) (f : α → Prog Out E β) (h : E → Prog Out E β) :
    (p.andThen f h).extend XOut =
      (p.extend XOut).andThen (fun a => (f a).extend XOut) fun e => (h e).extend XOut := by
  induction p with
  | ret a => rfl
  | fail e => rfl
  | stmt s next ih => exact congrArg (stmt (Sum.inl s)) (funext ih)
  | commit next ih => exact congrArg commit (funext ih)
  | rollback next ih => exact congrArg rollback ih

@[simp] theorem extend_bind (p : Prog Out E α) (f : α → Prog Out E β) :
    (p >>= f).extend XOut = p.extend XOut >>= fun a => (f a).extend XOut := extend_andThen ..

@[simp] theorem extend_sql (s : Stmt) :
    (sql s : Prog Out E (Out s)).extend XOut = @sql (Stmt ⊕ X) (Both Out XOut) E (.inl s) := by
  refine congrArg (stmt _) (funext fun r => ?_)
  cases r <;> rfl

@[simp] theorem extend_transaction (p : Prog Out E α) :
    (transaction p).extend XOut = transaction (p.extend XOut) := by
  refine (extend_andThen _ _ _).trans ?_
  have hfinish : ∀ a : α, (finish a : Prog Out E α).extend XOut = finish a := by
    intro a
    refine congrArg commit (funext fun r => ?_)
    cases r <;> rfl
  simp only [hfinish]
  rfl

@[simp] theorem extend_require (c : Prop) [Decidable c] (e : E) :
    (require c e : Prog Out E Unit).extend XOut = require c e := by
  unfold require
  split <;> rfl

@[simp] theorem extend_orThrow (o : Option α) (e : E) :
    (orThrow o e : Prog Out E α).extend XOut = orThrow o e := by
  cases o <;> rfl

@[simp] theorem extend_each {γ : Type} (p : γ → Prog Out E α) (cs : List γ) :
    (each p cs).extend XOut = each (fun c => (p c).extend XOut) cs := by
  induction cs with
  | nil => rfl
  | cons c cs ih => simp only [each, extend_bind, extend_pure, ih]

theorem Plain.mono {P P' : Stmt → Prop} {p : Prog Out E α} (h : p.Plain P)
    (hP : ∀ s, P s → P' s) : p.Plain P' := by
  induction p with
  | ret a => trivial
  | fail e => trivial
  | stmt s next ih => exact ⟨hP s h.1, fun out => ih _ (h.2.1 out), h.2.2⟩
  | commit next => exact h.elim
  | rollback next => exact h.elim

/-- The extended program issues the statements of the program. -/
theorem Plain.extend {P : Stmt → Prop} {p : Prog Out E α} (h : p.Plain P) :
    (p.extend XOut).Plain (Sum.elim P fun _ => False) := by
  induction p with
  | ret a => trivial
  | fail e => trivial
  | stmt s next ih =>
      refine ⟨h.1, fun out => ih _ (h.2.1 out), fun e => ?_⟩
      obtain ⟨e', he⟩ := h.2.2 e
      exact ⟨e', congrArg (Prog.extend XOut) he⟩
  | commit next => exact h.elim
  | rollback next => exact h.elim

end Prog
end ReadCommitted
