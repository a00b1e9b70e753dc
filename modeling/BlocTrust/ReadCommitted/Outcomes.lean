import BlocTrust.ReadCommitted.Accounts

/-!
What a call has done when it returns or throws, and calls that run alone.
A weakest precondition without conditions on the statements follows a process through every
interleaving, so that its postconditions hold of what the process has committed when it ends.
-/
namespace ReadCommitted

variable {Key : Type} [DecidableEq Key] {Val : Key → Type} {Stmt : Type} {Out : Stmt → Type}
  {E R Op α β : Type}

/-- No conditions on what a program does. -/
def Conduct.free : Conduct Out where
  before _ _ _ := True
  due _ _ := True
  answers _ _ := True

namespace Prog

/-- Every program keeps no conditions. -/
theorem wp_unconditional (p : Prog Out E α) (past cur : Calls Out) :
    p.wp .free (fun _ _ _ => True) (fun _ _ _ => True) past cur := by
  induction p generalizing past cur with
  | ret a => trivial
  | fail e => trivial
  | stmt s next ih => exact ⟨trivial, fun out _ => ih _ past _, fun e => ih _ past _⟩
  | commit next ih => exact ⟨trivial, ih _ _ _, fun e => ih _ _ _⟩
  | rollback next ih => exact ih _ _

variable (P : Stmt → Prop)

/-- The program issues statements of `P` in the open transaction and passes every error on. -/
def Plain : Prog Out E α → Prop
  | ret _ => True
  | fail _ => True
  | stmt s next => P s ∧ (∀ out, (next (.ok out)).Plain) ∧ ∀ e, ∃ e', next (.error e) = fail e'
  | commit _ => False
  | rollback _ => False

variable {P}

@[simp] theorem plain_pure (a : α) : (pure a : Prog Out E α).Plain P := trivial

@[simp] theorem plain_sql (s : Stmt) : (sql s : Prog Out E (Out s)).Plain P ↔ P s :=
  ⟨fun h => h.1, fun h => ⟨h, fun _ => trivial, fun e => ⟨e, rfl⟩⟩⟩

theorem Plain.bind {p : Prog Out E α} {f : α → Prog Out E β} (h : p.Plain P)
    (hf : ∀ a, (f a).Plain P) : (p >>= f).Plain P := by
  show (p.andThen f fail).Plain P
  induction p with
  | ret a => exact hf a
  | fail e => trivial
  | stmt s next ih =>
      refine ⟨h.1, fun out => ih _ (h.2.1 out), fun e => ?_⟩
      obtain ⟨e', he⟩ := h.2.2 e
      refine ⟨e', ?_⟩
      show (next (.error e)).andThen f fail = fail e'
      rw [he]
      rfl
  | commit next => exact h.elim
  | rollback next => exact h.elim

/-- A handler that throws makes no difference. -/
theorem Plain.tryCatch {p : Prog Out E α} {h : E → Prog Out E α} (hp : p.Plain P)
    (hh : ∀ e, ∃ e', h e = fail e') : (tryCatch p h).Plain P := by
  show (p.andThen ret h).Plain P
  induction p with
  | ret a => trivial
  | fail e =>
      obtain ⟨e', he⟩ := hh e
      show (h e).Plain P
      rw [he]
      trivial
  | stmt s next ih =>
      refine ⟨hp.1, fun out => ih _ (hp.2.1 out), fun e => ?_⟩
      obtain ⟨e', he⟩ := hp.2.2 e
      show ∃ e'', (next (.error e)).andThen ret h = fail e''
      rw [he]
      exact hh e'
  | commit next => exact hp.elim
  | rollback next => exact hp.elim

@[simp] theorem plain_require (c : Prop) [Decidable c] (e : E) :
    (require c e : Prog Out E Unit).Plain P := by
  unfold require
  split <;> trivial

@[simp] theorem plain_orThrow (o : Option α) (e : E) :
    (orThrow o e : Prog Out E α).Plain P := by
  cases o <;> trivial

theorem plain_each {γ : Type} {p : γ → Prog Out E α} (hp : ∀ c, (p c).Plain P) (cs : List γ) :
    (each p cs).Plain P := by
  induction cs with
  | nil => trivial
  | cons c cs ih => exact (hp c).bind fun _ => ih.bind fun _ => trivial

/-- Such a program keeps every conduct that lets its statements through, and adds their calls
to the transaction when it returns. -/
theorem Plain.keeps {C : Conduct Out} {p : Prog Out E α} {past : Calls Out} (h : p.Plain P)
    (hC : ∀ s, P s → ∀ cur, C.before past cur s) (cur : Calls Out) :
    p.wp C (fun _ past' cur' => past' = past ∧ cur ⊆ cur' ∧ ∀ c ∈ cur', c ∈ cur ∨ P c.1)
      (fun _ past' _ => past' = past) past cur := by
  induction p generalizing cur with
  | ret a => exact ⟨rfl, List.Subset.refl _, fun c hc => .inl hc⟩
  | fail e => rfl
  | stmt s next ih =>
      refine ⟨hC s h.1 cur, fun out _ => ?_, fun e => ?_⟩
      · refine wp_mono (fun _ _ cur' hQ => ?_) (fun _ _ _ hR => hR)
          (ih _ (h.2.1 out) (⟨s, out⟩ :: cur))
        refine ⟨hQ.1, fun c hc => hQ.2.1 (List.mem_cons_of_mem _ hc), fun c hc => ?_⟩
        rcases hQ.2.2 c hc with hold | hP
        · rcases List.mem_cons.mp hold with rfl | hold
          · exact .inr h.1
          · exact .inl hold
        · exact .inr hP
      · obtain ⟨e', he⟩ := h.2.2 e
        rw [he]
        rfl
  | commit next => exact h.elim
  | rollback next => exact h.elim

/-- Such a program adds calls of statements of `P` to the transaction when it returns. -/
theorem Plain.wp {p : Prog Out E α} (h : p.Plain P) (past cur : Calls Out) :
    p.wp .free (fun _ past' cur' => past' = past ∧ cur ⊆ cur' ∧ ∀ c ∈ cur', c ∈ cur ∨ P c.1)
      (fun _ past' _ => past' = past) past cur :=
  h.keeps (fun _ _ _ => trivial) cur

end Prog

section Promises

variable {M : Machine Val Out E R Op} {ok : Sys Val Out E R Op → Action Val E Op → Prop}
  {s s' t : Sys Val Out E R Op} {Q : R → Calls Out → Calls Out → Prop}
  {F : E → Calls Out → Calls Out → Prop}

variable (Q F) in
/-- Process `i` ends in `Q` or in `F` on every path that is left to it. -/
def Promised (s : Sys Val Out E R Op) (i : Nat) : Prop :=
  ∀ p, s.procs[i]? = some p → p.prog.wp .free Q F p.past p.calls

omit [DecidableEq Key] in
theorem Promised.set {i j : Nat} (h : Promised Q F s i) {p' : Proc Val Out E R Op}
    (hset : j = i → p'.prog.wp .free Q F p'.past p'.calls) : Promised Q F (s.set j p') i := by
  intro q hq
  rcases getElem?_set_cases hq with ⟨rfl, rfl⟩ | ⟨-, hold⟩
  · exact hset rfl
  · exact h q hold

omit [DecidableEq Key] in
theorem Promised.step {i : Nat} (h : Promised Q F s i) (hi : i < s.procs.length)
    {a : Action Val E Op} (hs : Step M s a s') (hkill : ∀ e, a ≠ .kill i e) :
    Promised Q F s' i := by
  cases hs with
  | start op =>
      intro q hq
      rw [List.getElem?_append_left hi] at hq
      exact h q hq
  | answer j c p st next out rows hp hst =>
      refine h.set fun hj => ?_
      have hwp := h p (hj ▸ hp)
      rw [hst] at hwp
      exact hwp.2.1 out trivial
  | refuse j c p st next e hp hst =>
      refine h.set fun hj => ?_
      have hwp := h p (hj ▸ hp)
      rw [hst] at hwp
      exact hwp.2.2 e
  | commit j c p next hp hst =>
      refine Promised.set (s := s) h fun hj => ?_
      have hwp := h p (hj ▸ hp)
      rw [hst] at hwp
      exact hwp.2.1
  | rollback j c p next hp hst =>
      refine h.set fun hj => ?_
      have hwp := h p (hj ▸ hp)
      rw [hst] at hwp
      exact hwp
  | fault j p st next e hp hst =>
      refine h.set fun hj => ?_
      have hwp := h p (hj ▸ hp)
      rw [hst] at hwp
      exact hwp.2.2 e
  | faultCommit j p next e hp hst =>
      refine h.set fun hj => ?_
      have hwp := h p (hj ▸ hp)
      rw [hst] at hwp
      exact hwp.2.2 e
  | kill j p e hp => exact h.set fun hj => absurd (by rw [hj]) (hkill e)
  | env rows => exact h

omit [DecidableEq Key] in
theorem Step.length_le {a : Action Val E Op} (hs : Step M s a s') :
    s.procs.length ≤ s'.procs.length := by
  cases hs with
  | start op => simp
  | _ => simp [Sys.set]

omit [DecidableEq Key] in
/-- The process keeps its promise in every run in which it is not killed. -/
theorem Run.promised {i : Nat} (hkill : ∀ s e, ¬ ok s (.kill i e)) (hi : i < s.procs.length)
    (h : Promised Q F s i) (hrun : Run M ok s t) : Promised Q F t i := by
  suffices hboth : Promised Q F t i ∧ i < t.procs.length from hboth.1
  induction hrun with
  | refl => exact ⟨h, hi⟩
  | step _ ha hs ih =>
      refine ⟨ih.1.step ih.2 hs fun e heq => ?_, ih.2.trans_le hs.length_le⟩
      rw [heq] at ha
      exact hkill _ e ha

end Promises

namespace Prog

variable (K : E → Prop)

/-- Every path whose errors are in `K` ends in `Q`, or in `F` when it fails. -/
def ends : Prog Out E α → (α → Calls Out → Calls Out → Prop) →
    (E → Calls Out → Calls Out → Prop) → Calls Out → Calls Out → Prop
  | ret a, Q, _, past, cur => Q a past cur
  | fail e, _, F, past, cur => F e past cur
  | stmt s next, Q, F, past, cur =>
      (∀ out, (next (.ok out)).ends Q F past (⟨s, out⟩ :: cur)) ∧
        ∀ e, K e → (next (.error e)).ends Q F past []
  | commit next, Q, F, past, cur =>
      (next (.ok ())).ends Q F (cur ++ past) [] ∧ ∀ e, K e → (next (.error e)).ends Q F past []
  | rollback next, Q, F, past, _ => next.ends Q F past []

variable {K} {Q : α → Calls Out → Calls Out → Prop} {F : E → Calls Out → Calls Out → Prop}
  {past cur : Calls Out}

theorem ends_andThen (p : Prog Out E α) (f : α → Prog Out E β) (h : E → Prog Out E β)
    {Q : β → Calls Out → Calls Out → Prop} {F : E → Calls Out → Calls Out → Prop} :
    (p.andThen f h).ends K Q F past cur ↔
      p.ends K (fun a => (f a).ends K Q F) (fun e => (h e).ends K Q F) past cur := by
  induction p generalizing past cur with
  | ret a => rfl
  | fail e => rfl
  | stmt s next ih => simp only [andThen, ends, ih]
  | commit next ih => simp only [andThen, ends, ih]
  | rollback next ih => exact ih

theorem ends_bind (p : Prog Out E α) (f : α → Prog Out E β)
    {Q : β → Calls Out → Calls Out → Prop} {F : E → Calls Out → Calls Out → Prop} :
    (p >>= f).ends K Q F past cur ↔ p.ends K (fun a => (f a).ends K Q F) F past cur :=
  ends_andThen ..

theorem ends_transaction (p : Prog Out E α) :
    (transaction p).ends K Q F past cur ↔
      p.ends K (fun a past cur => Q a (cur ++ past) [] ∧ ∀ e, K e → F e past [])
        (fun e past _ => F e past []) past cur :=
  ends_andThen ..

theorem ends_mono {Q' : α → Calls Out → Calls Out → Prop} {F' : E → Calls Out → Calls Out → Prop}
    (hQ : ∀ a past cur, Q a past cur → Q' a past cur)
    (hF : ∀ e past cur, F e past cur → F' e past cur) {p : Prog Out E α}
    (h : p.ends K Q F past cur) : p.ends K Q' F' past cur := by
  induction p generalizing past cur with
  | ret a => exact hQ _ _ _ h
  | fail e => exact hF _ _ _ h
  | stmt s next ih => exact ⟨fun out => ih _ (h.1 out), fun e he => ih _ (h.2 e he)⟩
  | commit next ih => exact ⟨ih _ h.1, fun e he => ih _ (h.2 e he)⟩
  | rollback next ih => exact ih h

theorem ends_sql (s : Stmt) {Q : Out s → Calls Out → Calls Out → Prop}
    (hQ : ∀ out, Q out past (⟨s, out⟩ :: cur)) (hF : ∀ e, K e → F e past []) :
    (sql s : Prog Out E (Out s)).ends K Q F past cur := ⟨hQ, hF⟩

theorem ends_auto (s : Stmt) {Q : Out s → Calls Out → Calls Out → Prop}
    (hQ : ∀ out, Q out (⟨s, out⟩ :: past) []) (hF : ∀ e, K e → F e past []) :
    (auto s : Prog Out E (Out s)).ends K Q F past [] :=
  ⟨fun out => ⟨hQ out, hF⟩, hF⟩

theorem ends_require (c : Prop) [Decidable c] (e : E) {Q : Unit → Calls Out → Calls Out → Prop}
    (hQ : c → Q () past cur) (hF : ¬ c → F e past cur) :
    (require c e : Prog Out E Unit).ends K Q F past cur := by
  unfold require
  split
  · rename_i hc
    exact hQ hc
  · rename_i hc
    exact hF hc

theorem ends_orThrow (o : Option α) (e : E) (hQ : ∀ a, o = some a → Q a past cur)
    (hF : o = none → F e past cur) : (orThrow o e : Prog Out E α).ends K Q F past cur := by
  cases o with
  | none => exact hF rfl
  | some a => exact hQ a rfl

/-- Every error that the program throws, given such errors of its statements, is in `P`. -/
def Throws (P : E → Prop) : Prog Out E α → Prop
  | ret _ => True
  | fail e => P e
  | stmt _ next => (∀ out, (next (.ok out)).Throws P) ∧ ∀ e, P e → (next (.error e)).Throws P
  | commit next => (next (.ok ())).Throws P ∧ ∀ e, P e → (next (.error e)).Throws P
  | rollback next => next.Throws P

section Throws

variable {P : E → Prop}

theorem throws_andThen {p : Prog Out E α} {f : α → Prog Out E β} {h : E → Prog Out E β}
    (hp : p.Throws P) (hf : ∀ a, (f a).Throws P) (hh : ∀ e, P e → (h e).Throws P) :
    (p.andThen f h).Throws P := by
  induction p with
  | ret a => exact hf a
  | fail e => exact hh e hp
  | stmt s next ih => exact ⟨fun out => ih _ (hp.1 out), fun e he => ih _ (hp.2 e he)⟩
  | commit next ih => exact ⟨ih _ hp.1, fun e he => ih _ (hp.2 e he)⟩
  | rollback next ih => exact ih hp

theorem throws_bind {p : Prog Out E α} {f : α → Prog Out E β} (hp : p.Throws P)
    (hf : ∀ a, (f a).Throws P) : (p >>= f).Throws P := throws_andThen hp hf fun _ h => h

theorem throws_pure (a : α) : (pure a : Prog Out E α).Throws P := trivial

theorem throws_sql (s : Stmt) : (sql s : Prog Out E (Out s)).Throws P :=
  ⟨fun _ => trivial, fun _ h => h⟩

theorem throws_auto (s : Stmt) : (auto s : Prog Out E (Out s)).Throws P :=
  ⟨fun _ => ⟨trivial, fun _ h => h⟩, fun _ h => h⟩

theorem throws_transaction {p : Prog Out E α} (hp : p.Throws P) : (transaction p).Throws P :=
  throws_andThen hp (fun _ => ⟨trivial, fun _ h => h⟩) fun _ h => h

theorem throws_require {c : Prop} [Decidable c] {e : E} (he : P e) :
    (require c e : Prog Out E Unit).Throws P := by
  unfold require
  split
  · trivial
  · exact he

theorem throws_orThrow {o : Option α} {e : E} (he : P e) :
    (orThrow o e : Prog Out E α).Throws P := by
  cases o with
  | none => exact he
  | some a => trivial

theorem throws_each {γ : Type} {p : γ → Prog Out E α} (hp : ∀ c, (p c).Throws P) (cs : List γ) :
    (each p cs).Throws P := by
  induction cs with
  | nil => trivial
  | cons c cs ih => exact throws_bind (hp c) fun _ => throws_bind ih fun _ => trivial

/-- Such a program ends with more calls committed, or in such an error. -/
theorem Throws.ends {p : Prog Out E α} (h : p.Throws P) (hK : ∀ e, K e → P e)
    (past cur : Calls Out) :
    p.ends K (fun _ past' _ => past ⊆ past') (fun e _ _ => P e) past cur := by
  induction p generalizing past cur with
  | ret a => exact List.Subset.refl _
  | fail e => exact h
  | stmt s next ih =>
      exact ⟨fun out => ih _ (h.1 out) _ _, fun e he => ih _ (h.2 e (hK e he)) _ _⟩
  | commit next ih =>
      refine ⟨ends_mono (fun _ _ _ hsub => ?_) (fun _ _ _ he => he) (ih _ h.1 (cur ++ past) []),
        fun e he => ih _ (h.2 e (hK e he)) _ _⟩
      exact fun _ hm => hsub (List.mem_append_right _ hm)
  | rollback next ih => exact ih h _ _

end Throws

/-- A program that only issues statements adds their calls, and passes errors on. -/
theorem Plain.ends {P : Stmt → Prop} {L : E → Prop} {p : Prog Out E α} (h : p.Plain P)
    (hL : p.Throws L) (hK : ∀ e, K e → L e) (past cur : Calls Out) :
    p.ends K (fun _ past' cur' => past' = past ∧ cur ⊆ cur') (fun e _ _ => L e) past cur := by
  induction p generalizing cur with
  | ret a => exact ⟨rfl, List.Subset.refl _⟩
  | fail e => exact hL
  | stmt s next ih =>
      refine ⟨fun out => ?_, fun e he => ?_⟩
      · refine ends_mono (fun _ _ cur' hQ => ?_) (fun _ _ _ hR => hR)
          (ih _ (h.2.1 out) (hL.1 out) (⟨s, out⟩ :: cur))
        exact ⟨hQ.1, fun c hc => hQ.2 (List.mem_cons_of_mem _ hc)⟩
      · obtain ⟨e', he'⟩ := h.2.2 e
        have hthrows := hL.2 e (hK e he)
        rw [he'] at hthrows ⊢
        exact hthrows
  | commit next => exact h.elim
  | rollback next => exact h.elim

end Prog

section Endings

variable {M : Machine Val Out E R Op} {ok : Sys Val Out E R Op → Action Val E Op → Prop}
  {s s' t : Sys Val Out E R Op} {K : E → Prop} {Q : Op → R → Calls Out → Calls Out → Prop}
  {F : Op → E → Calls Out → Calls Out → Prop}

/-- The errors of statements, faults and crashes are of one kind. -/
structure Faults (M : Machine Val Out E R Op)
    (ok : Sys Val Out E R Op → Action Val E Op → Prop) (K : E → Prop) : Prop where
  engine : ∀ q c view e, M.engine q c view = some (.error e) → K e
  fault : ∀ s i e, ok s (.fault i e) → K e
  kill : ∀ s i e, ok s (.kill i e) → K e

variable (K Q F) in
/-- Process `i` ends in `Q` or in `F` on every path with such errors. -/
def Ending (s : Sys Val Out E R Op) (i : Nat) : Prop :=
  ∀ p, s.procs[i]? = some p → p.prog.ends K (Q p.op) (F p.op) p.past p.calls

omit [DecidableEq Key] in
theorem Ending.set {i j : Nat} (h : Ending K Q F s i) {p' : Proc Val Out E R Op}
    (hset : j = i → p'.prog.ends K (Q p'.op) (F p'.op) p'.past p'.calls) :
    Ending K Q F (s.set j p') i := by
  intro q hq
  rcases getElem?_set_cases hq with ⟨rfl, rfl⟩ | ⟨-, hold⟩
  · exact hset rfl
  · exact h q hold

omit [DecidableEq Key] in
/-- What every call ends in, wherever it is in its program. -/
theorem Run.ending (hK : Faults M ok K) (hF : ∀ op e past, K e → F op e past [])
    (hprogram : ∀ op, (M.program op).ends K (Q op) (F op) [] []) {s₀ : Sys Val Out E R Op}
    (h₀ : s₀.procs = []) (hrun : Run M ok s₀ s) (i : Nat) : Ending K Q F s i := by
  induction hrun with
  | refl =>
      intro p hp
      simp [h₀] at hp
  | @step u a v hrun ha hs ih =>
      cases hs with
      | start op =>
          intro p hp
          rcases getElem?_concat_cases hp with rfl | hp
          · exact hprogram op
          · exact ih p hp
      | answer j c p q next out rows hp hq hrun hfree =>
          refine ih.set fun hj => ?_
          have hends := ih p (hj ▸ hp)
          rw [hq] at hends
          exact hends.1 out
      | refuse j c p q next e hp hq hrun =>
          refine ih.set fun hj => ?_
          have hends := ih p (hj ▸ hp)
          rw [hq] at hends
          exact hends.2 e (hK.engine q c _ e hrun)
      | commit j c p next hp hq =>
          refine Ending.set (s := u) ih fun hj => ?_
          have hends := ih p (hj ▸ hp)
          rw [hq] at hends
          exact hends.1
      | rollback j c p next hp hq =>
          refine ih.set fun hj => ?_
          have hends := ih p (hj ▸ hp)
          rw [hq] at hends
          exact hends
      | fault j p q next e hp hq =>
          refine ih.set fun hj => ?_
          have hends := ih p (hj ▸ hp)
          rw [hq] at hends
          exact hends.2 e (hK.fault u j e ha)
      | faultCommit j p next e hp hq =>
          refine ih.set fun hj => ?_
          have hends := ih p (hj ▸ hp)
          rw [hq] at hends
          exact hends.2 e (hK.fault u j e ha)
      | kill j p e hp => exact ih.set fun _ => hF p.op e p.past (hK.kill u j e ha)
      | env rows hext hfree => exact ih

end Endings

section Alone

variable {M : Machine Val Out E R Op} {ok : Sys Val Out E R Op → Action Val E Op → Prop}
  {s : Sys Val Out E R Op} {i : Nat}

/-- Process `i` has written nothing and goes on with `prog`. -/
def Stands (s : Sys Val Out E R Op) (i : Nat) (prog : Prog Out E R) : Prop :=
  ∃ p, s.procs[i]? = some p ∧ p.prog = prog ∧ p.writes = []

omit [DecidableEq Key] in
theorem Stands.read {q : Stmt} {next : Except E (Out q) → Prog Out E R}
    (h : Stands s i (.stmt q next)) {c : Nat} {out : Out q}
    (hrun : M.engine q c s.db = some (.ok (out, []))) :
    ∃ s', Step M s (.exec i c) s' ∧ s'.db = s.db ∧ Stands s' i (next (.ok out)) := by
  obtain ⟨p, hp, hq, hwrites⟩ := h
  have hlt := (List.getElem?_eq_some_iff.mp hp).1
  have hview : M.engine q c (p.writes ++ s.db) = some (.ok (out, [])) := by
    rw [hwrites]
    exact hrun
  have hkept : (p.push (next (.ok out)) ⟨q, out, [], s.db⟩).writes = p.writes := by
    rw [Proc.writes, Proc.push, writes_cons, List.nil_append]
    rfl
  exact ⟨_, .answer i c p q next out [] hp hq hview (by simp [List.keys]), rfl, _,
    List.getElem?_set_self hlt, rfl, hkept.trans hwrites⟩

omit [DecidableEq Key] in
theorem Stands.commit {next : Except E Unit → Prog Out E R} (h : Stands s i (.commit next)) :
    ∃ s', Step M s (.exec i 0) s' ∧ s'.db = s.db ∧ Stands s' i (next (.ok ())) := by
  obtain ⟨p, hp, hq, hwrites⟩ := h
  have hlt := (List.getElem?_eq_some_iff.mp hp).1
  refine ⟨_, .commit i 0 p next hp hq, ?_, _, List.getElem?_set_self hlt, rfl, rfl⟩
  rw [hwrites]
  rfl

end Alone
end ReadCommitted
