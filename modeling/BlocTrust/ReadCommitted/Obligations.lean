import BlocTrust.ReadCommitted.Outcomes

/-!
Obligations from one transaction to the next.
A program that has committed a call of one kind may owe a call of another kind, in a later
transaction.  `settles` follows a program along the paths on which nothing fails while it
owes; in the runs that disturb no process in debt, a process that has ended owes nothing.
-/
namespace ReadCommitted

variable {Key : Type} [DecidableEq Key] {Val : Key → Type} {Stmt : Type} {Out : Stmt → Type}
  {E R Op α β : Type}

/-- A call of the kind `A` is committed, and none of the kind `B`. -/
def Owes (A B : Sigma Out → Prop) (past : Calls Out) : Prop :=
  (∃ c ∈ past, A c) ∧ ∀ c ∈ past, ¬ B c

theorem not_owes_nil (A B : Sigma Out → Prop) : ¬ Owes A B [] := by
  rintro ⟨⟨c, hc, -⟩, -⟩
  exact List.not_mem_nil hc

theorem not_owes_of_mem {A B : Sigma Out → Prop} {past : Calls Out} {c : Sigma Out} (hc : c ∈ past)
    (hB : B c) : ¬ Owes A B past := fun h => h.2 c hc hB

/-- What is not owed stays settled when calls of another kind are committed. -/
theorem not_owes_append {A B : Sigma Out → Prop} {past cur : Calls Out} (h : ¬ Owes A B past)
    (hcur : ∀ c ∈ cur, ¬ A c) : ¬ Owes A B (cur ++ past) := by
  rintro ⟨⟨c, hc, hA⟩, hB⟩
  refine h ⟨⟨c, ?_, hA⟩, fun c hc => hB c (List.mem_append_right _ hc)⟩
  rcases List.mem_append.mp hc with hc | hc
  · exact absurd hA (hcur c hc)
  · exact hc

namespace Prog

section Issues

variable (P : Stmt → Prop)

/-- The program issues statements of `P` only. -/
def Issues : Prog Out E α → Prop
  | ret _ => True
  | fail _ => True
  | stmt s next => P s ∧ ∀ r, (next r).Issues
  | commit next => ∀ r, (next r).Issues
  | rollback next => next.Issues

variable {P}

theorem issues_any (p : Prog Out E α) : p.Issues fun _ => True := by
  induction p with
  | ret a => trivial
  | fail e => trivial
  | stmt s next ih => exact ⟨trivial, ih⟩
  | commit next ih => exact ih
  | rollback next ih => exact ih

theorem Issues.andThen {p : Prog Out E α} {f : α → Prog Out E β} {h : E → Prog Out E β}
    (hp : p.Issues P) (hf : ∀ a, (f a).Issues P) (hh : ∀ e, (h e).Issues P) :
    (p.andThen f h).Issues P := by
  induction p with
  | ret a => exact hf a
  | fail e => exact hh e
  | stmt s next ih => exact ⟨hp.1, fun r => ih r (hp.2 r)⟩
  | commit next ih => exact fun r => ih r (hp r)
  | rollback next ih => exact ih hp

theorem Issues.bind {p : Prog Out E α} {f : α → Prog Out E β} (hp : p.Issues P)
    (hf : ∀ a, (f a).Issues P) : (p >>= f).Issues P := hp.andThen hf fun _ => trivial

theorem Issues.tryCatch {p : Prog Out E α} {h : E → Prog Out E α} (hp : p.Issues P)
    (hh : ∀ e, (h e).Issues P) : (tryCatch p h).Issues P := Issues.andThen hp (fun _ => trivial) hh

theorem Issues.transaction {p : Prog Out E α} (hp : p.Issues P) : (transaction p).Issues P := by
  refine Issues.andThen hp (fun a r => ?_) fun e => trivial
  cases r <;> trivial

theorem issues_sql {s : Stmt} (h : P s) : (sql s : Prog Out E (Out s)).Issues P := by
  refine ⟨h, fun r => ?_⟩
  cases r <;> trivial

theorem issues_auto {s : Stmt} (h : P s) : (auto s : Prog Out E (Out s)).Issues P := by
  refine (issues_sql h).bind fun out r => ?_
  cases r <;> trivial

theorem issues_orThrow (o : Option α) (e : E) : (orThrow o e : Prog Out E α).Issues P := by
  cases o <;> trivial

/-- What a program that issues statements of `P` makes of the committed and the open calls. -/
structure Grown (P : Stmt → Prop) (past past' cur' : Calls Out) : Prop where
  subset : past ⊆ past'
  added : ∀ c ∈ past', c ∈ past ∨ P c.1
  opened : ∀ c ∈ cur', P c.1

/-- Such a program keeps every conduct that lets its statements and its commits through. -/
theorem Issues.keeps {C : Conduct Out} {p : Prog Out E α} {past cur : Calls Out} (h : p.Issues P)
    (hC : ∀ s, P s → ∀ past cur, C.before past cur s)
    (hdue : ∀ past cur, (∀ c ∈ cur, P c.1) → C.due past cur) (hcur : ∀ c ∈ cur, P c.1) :
    p.wp C (fun _ => Grown P past) (fun _ => Grown P past) past cur := by
  induction p generalizing past cur with
  | ret a => exact ⟨List.Subset.refl _, fun c hc => .inl hc, hcur⟩
  | fail e => exact ⟨List.Subset.refl _, fun c hc => .inl hc, hcur⟩
  | stmt s next ih =>
      refine ⟨hC s h.1 past cur, fun out _ => ih _ (h.2 _) fun c hc => ?_,
        fun e => ih _ (h.2 _) fun c hc => absurd hc List.not_mem_nil⟩
      rcases List.mem_cons.mp hc with rfl | hc
      · exact h.1
      · exact hcur c hc
  | commit next ih =>
      have hgrown : ∀ past' cur', Grown P (cur ++ past) past' cur' → Grown P past past' cur' := by
        intro past' cur' hg
        refine ⟨fun c hc => hg.subset (List.mem_append_right _ hc), fun c hc => ?_, hg.opened⟩
        rcases hg.added c hc with hold | hP
        · rcases List.mem_append.mp hold with hc | hc
          · exact .inr (hcur c hc)
          · exact .inl hc
        · exact .inr hP
      refine ⟨hdue past cur hcur, ?_, fun e => ih _ (h _) fun c hc => absurd hc List.not_mem_nil⟩
      exact wp_mono (fun _ _ _ hg => hgrown _ _ hg) (fun _ _ _ hg => hgrown _ _ hg)
        (ih _ (h _) fun c hc => absurd hc List.not_mem_nil)
  | rollback next ih => exact ih h fun c hc => absurd hc List.not_mem_nil

end Issues

section Settles

variable (A B : Sigma Out → Prop)

/-- Every path on which nothing fails while something is owed ends in `Q`, or in `F`. -/
def settles : Prog Out E α → (α → Calls Out → Calls Out → Prop) →
    (E → Calls Out → Calls Out → Prop) → Calls Out → Calls Out → Prop
  | ret a, Q, _, past, cur => Q a past cur
  | fail e, _, F, past, cur => F e past cur
  | stmt s next, Q, F, past, cur =>
      (∀ out, (next (.ok out)).settles Q F past (⟨s, out⟩ :: cur)) ∧
        (¬ Owes A B past → ∀ e, (next (.error e)).settles Q F past [])
  | commit next, Q, F, past, cur =>
      (next (.ok ())).settles Q F (cur ++ past) [] ∧
        (¬ Owes A B past → ∀ e, (next (.error e)).settles Q F past [])
  | rollback next, Q, F, past, _ => next.settles Q F past []

variable {A B} {Q : α → Calls Out → Calls Out → Prop} {F : E → Calls Out → Calls Out → Prop}
  {past cur : Calls Out}

theorem settles_pure (a : α) :
    (pure a : Prog Out E α).settles A B Q F past cur ↔ Q a past cur := Iff.rfl

theorem settles_andThen (p : Prog Out E α) (f : α → Prog Out E β) (h : E → Prog Out E β)
    {Q : β → Calls Out → Calls Out → Prop} {F : E → Calls Out → Calls Out → Prop} :
    (p.andThen f h).settles A B Q F past cur ↔
      p.settles A B (fun a => (f a).settles A B Q F) (fun e => (h e).settles A B Q F) past cur := by
  induction p generalizing past cur with
  | ret a => rfl
  | fail e => rfl
  | stmt s next ih => simp only [andThen, settles, ih]
  | commit next ih => simp only [andThen, settles, ih]
  | rollback next ih => exact ih

theorem settles_bind (p : Prog Out E α) (f : α → Prog Out E β)
    {Q : β → Calls Out → Calls Out → Prop} {F : E → Calls Out → Calls Out → Prop} :
    (p >>= f).settles A B Q F past cur ↔
      p.settles A B (fun a => (f a).settles A B Q F) F past cur :=
  settles_andThen ..

theorem settles_tryCatch (p : Prog Out E α) (h : E → Prog Out E α) :
    (tryCatch p h).settles A B Q F past cur ↔
      p.settles A B Q (fun e => (h e).settles A B Q F) past cur :=
  settles_andThen ..

theorem settles_transaction (p : Prog Out E α) :
    (transaction p).settles A B Q F past cur ↔
      p.settles A B (fun a past cur => Q a (cur ++ past) [] ∧
        (¬ Owes A B past → ∀ e, F e past [])) (fun e past _ => F e past []) past cur :=
  settles_andThen ..

theorem settles_auto (s : Stmt) {Q : Out s → Calls Out → Calls Out → Prop}
    (hQ : ∀ out, Q out (⟨s, out⟩ :: cur ++ past) []) (hF : ¬ Owes A B past → ∀ e, F e past []) :
    (auto s : Prog Out E (Out s)).settles A B Q F past cur :=
  ⟨fun out => ⟨hQ out, hF⟩, hF⟩

theorem settles_mono {Q' : α → Calls Out → Calls Out → Prop}
    {F' : E → Calls Out → Calls Out → Prop} (hQ : ∀ a past cur, Q a past cur → Q' a past cur)
    (hF : ∀ e past cur, F e past cur → F' e past cur) {p : Prog Out E α}
    (h : p.settles A B Q F past cur) : p.settles A B Q' F' past cur := by
  induction p generalizing past cur with
  | ret a => exact hQ _ _ _ h
  | fail e => exact hF _ _ _ h
  | stmt s next ih => exact ⟨fun out => ih _ (h.1 out), fun hn e => ih _ (h.2 hn e)⟩
  | commit next ih => exact ⟨ih _ h.1, fun hn e => ih _ (h.2 hn e)⟩
  | rollback next ih => exact ih h

/-- Nothing is owed, and nothing will be when the open transaction commits. -/
def Free (A B : Sigma Out → Prop) (past cur : Calls Out) : Prop :=
  ¬ Owes A B past ∧ ∀ c ∈ cur, ¬ A c

theorem free_nil {past : Calls Out} (h : ¬ Owes A B past) : Free A B past [] :=
  ⟨h, fun _ hc => absurd hc List.not_mem_nil⟩

/-- A program that issues no statement of the first kind runs into no debt. -/
theorem Issues.settles {P : Stmt → Prop} {p : Prog Out E α} (h : p.Issues P)
    (hP : ∀ s out, P s → ¬ A ⟨s, out⟩) (hfree : Free A B past cur) :
    p.settles A B (fun _ => Free A B) (fun _ => Free A B) past cur := by
  induction p generalizing past cur with
  | ret a => exact hfree
  | fail e => exact hfree
  | stmt s next ih =>
      refine ⟨fun out => ih _ (h.2 _) ⟨hfree.1, fun c hc => ?_⟩,
        fun _ e => ih _ (h.2 _) (free_nil hfree.1)⟩
      rcases List.mem_cons.mp hc with rfl | hc
      · exact hP s out h.1
      · exact hfree.2 c hc
  | commit next ih =>
      exact ⟨ih _ (h _) (free_nil (not_owes_append hfree.1 hfree.2)),
        fun _ e => ih _ (h _) (free_nil hfree.1)⟩
  | rollback next ih => exact ih h (free_nil hfree.1)

end Settles

/-- The program has returned or failed. -/
def finished : Prog Out E α → Bool
  | ret _ => true
  | fail _ => true
  | _ => false

/-- The program has returned. -/
def returned : Prog Out E α → Bool
  | ret _ => true
  | _ => false

end Prog

section Runs

variable {M : Machine Val Out E R Op} {ok : Sys Val Out E R Op → Action Val E Op → Prop}
  {s₀ s s' : Sys Val Out E R Op} {A B : Op → Sigma Out → Prop}

variable (M A B) in
/-- No process in debt fails, is refused or killed. -/
def undisturbed (s : Sys Val Out E R Op) : Action Val E Op → Prop
  | .fault i _ => ∀ p, s.procs[i]? = some p → ¬ Owes (A p.op) (B p.op) p.past
  | .kill i _ => ∀ p, s.procs[i]? = some p → ¬ Owes (A p.op) (B p.op) p.past
  | .exec i c => ∀ p q next e, s.procs[i]? = some p → p.prog = .stmt q next →
      M.engine q c (p.writes ++ s.db) = some (.error e) → ¬ Owes (A p.op) (B p.op) p.past
  | _ => True

variable (A B) in
/-- The process settles on every path that is left to it. -/
def Settling (p : Proc Val Out E R Op) : Prop :=
  p.prog.settles (A p.op) (B p.op) (fun _ past _ => ¬ Owes (A p.op) (B p.op) past)
    (fun _ past _ => ¬ Owes (A p.op) (B p.op) past) p.past p.calls

omit [DecidableEq Key] in
theorem Settling.step (h : ∀ (i : Nat) p, s.procs[i]? = some p → Settling A B p)
    (hprogram : ∀ op, Settling A B (⟨op, M.program op, [], []⟩ : Proc Val Out E R Op))
    {a : Action Val E Op} (ha : undisturbed M A B s a) (hs : Step M s a s') (j : Nat)
    {p' : Proc Val Out E R Op} (hp' : s'.procs[j]? = some p') : Settling A B p' := by
  have hset : ∀ {i : Nat} {q : Proc Val Out E R Op}, (s.procs.set i q)[j]? = some p' →
      Settling A B q → Settling A B p' := by
    intro i q hj hq
    rcases getElem?_set_cases hj with ⟨-, rfl⟩ | ⟨-, hold⟩
    · exact hq
    · exact h j p' hold
  cases hs with
  | start op =>
      rcases getElem?_concat_cases hp' with rfl | hold
      · exact hprogram op
      · exact h j p' hold
  | answer i c p q next out rows hp hq =>
      have hold := h i p hp
      unfold Settling at hold
      rw [hq] at hold
      exact hset hp' (hold.1 out)
  | refuse i c p q next e hp hq hrun =>
      have hold := h i p hp
      unfold Settling at hold
      rw [hq] at hold
      exact hset hp' (hold.2 (ha p q next e hp hq hrun) e)
  | commit i c p next hp hq =>
      have hold := h i p hp
      unfold Settling at hold
      rw [hq] at hold
      exact hset hp' hold.1
  | rollback i c p next hp hq =>
      have hold := h i p hp
      unfold Settling at hold
      rw [hq] at hold
      exact hset hp' hold
  | fault i p q next e hp hq =>
      have hold := h i p hp
      unfold Settling at hold
      rw [hq] at hold
      exact hset hp' (hold.2 (ha p hp) e)
  | faultCommit i p next e hp hq =>
      have hold := h i p hp
      unfold Settling at hold
      rw [hq] at hold
      exact hset hp' (hold.2 (ha p hp) e)
  | kill i p e hp => exact hset hp' (q := p.drop (.fail e)) (ha p hp)
  | env rows => exact h j p' hp'

omit [DecidableEq Key] in
/-- In undisturbed runs a process that has ended owes nothing. -/
theorem Run.settled (h₀ : s₀.procs = [])
    (hprogram : ∀ op, Settling A B (⟨op, M.program op, [], []⟩ : Proc Val Out E R Op))
    (hok : ∀ s a, ok s a → undisturbed M A B s a) (h : Run M ok s₀ s) {i : Nat}
    {p : Proc Val Out E R Op} (hp : s.procs[i]? = some p) (hfinished : p.prog.finished = true) :
    ¬ Owes (A p.op) (B p.op) p.past := by
  have hall : ∀ (i : Nat) p, s.procs[i]? = some p → Settling A B p := by
    refine h.invariant (I := fun s => ∀ (i : Nat) p, s.procs[i]? = some p → Settling A B p)
      (by simp [h₀]) ?_
    intro s a s' _ ih ha hs j p' hp'
    exact Settling.step ih hprogram (hok s a ha) hs j hp'
  have hlast := hall i p hp
  unfold Settling at hlast
  cases hprog : p.prog with
  | ret a =>
      rw [hprog] at hlast
      exact hlast
  | fail e =>
      rw [hprog] at hlast
      exact hlast
  | _ =>
      rw [hprog] at hfinished
      cases hfinished

/-- Nothing fails, is refused or killed. -/
def smooth (M : Machine Val Out E R Op) (s : Sys Val Out E R Op) : Action Val E Op → Bool
  | .fault _ _ => false
  | .kill _ _ => false
  | .exec i c =>
      match s.procs[i]? with
      | none => true
      | some p =>
          match p.prog with
          | .stmt q _ =>
              match M.engine q c (p.writes ++ s.db) with
              | some (.error _) => false
              | _ => true
          | _ => true
  | _ => true

omit [DecidableEq Key] in
theorem undisturbed_of_smooth (s : Sys Val Out E R Op) (a : Action Val E Op)
    (h : smooth M s a = true) : undisturbed M A B s a := by
  cases a with
  | exec i c =>
      intro p q next e hp hq hrun
      simp [smooth, hp, hq, hrun] at h
  | fault i e => cases h
  | kill i e => cases h
  | start op => trivial
  | env rows => trivial

end Runs
end ReadCommitted
