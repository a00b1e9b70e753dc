import BlocTrust.ReadCommitted.Invariants

/-!
Reasoning about whole runs by their commits.
The committed log changes at commits and by outside versions only.  An `Account` names what
is claimed of it: an invariant, a preorder between earlier and later logs, and the facts
that the calls of a committed transaction leave behind.  Each open transaction then knows
the invariant at every log it has read, and that these logs stand in the preorder to the
present one, so that one proof obligation for a commit is enough.
-/
namespace ReadCommitted

open Log

variable {Key : Type} [DecidableEq Key] {Val : Key → Type} {Stmt : Type} {Out : Stmt → Type}
  {E R Op : Type} {M : Machine Val Out E R Op} {C : Op → Conduct Out} {T : Transition Val}
  {ok : Sys Val Out E R Op → Action Val E Op → Prop} {s₀ s s' t : Sys Val Out E R Op}

section Effect

variable (M s)

/-- A process of the new state is an old one, or has no open transaction. -/
def Quiet (a : Action Val E Op) (s' : Sys Val Out E R Op) : Prop :=
  ∀ (j : Nat) p', s'.procs[j]? = some p' → s.procs[j]? = some p' ∨ p'.current = [] ∧
    ((∃ op, a = .start op ∧ p' = ⟨op, M.program op, [], []⟩) ∨
      ∃ p, s.procs[j]? = some p ∧ p'.op = p.op ∧ p'.past = p.past)

/-- What a step does to the committed log and to the open transactions. -/
inductive Effect : Action Val E Op → Sys Val Out E R Op → Prop
  | quiet {a s'} (hdb : s'.db = s.db) (hprocs : Quiet M s a s') : Effect a s'
  | answered (i c : Nat) (p) (q : Stmt) (next) (out : Out q) (rows : Log Val)
      (hp : s.procs[i]? = some p) (hq : p.prog = .stmt q next)
      (hrun : M.engine q c (p.writes ++ s.db) = some (.ok (out, rows))) :
      Effect (.exec i c) (s.set i (p.push (next (.ok out)) ⟨q, out, rows, s.db⟩))
  | committed (i c : Nat) (p) (next)
      (hp : s.procs[i]? = some p) (hq : p.prog = .commit next) :
      Effect (.exec i c) ⟨p.writes ++ s.db, s.procs.set i (p.close (next (.ok ())))⟩
  | outside (rows : Log Val) (hext : M.external s.db rows) :
      Effect (.env rows) { s with db := rows ++ s.db }

variable {M s}

omit [DecidableEq Key] in
theorem quiet_drop {i : Nat} {p : Proc Val Out E R Op} (hp : s.procs[i]? = some p)
    (prog : Prog Out E R) (a : Action Val E Op) : Quiet M s a (s.set i (p.drop prog)) := by
  intro j p' hj
  rcases getElem?_set_cases hj with ⟨rfl, rfl⟩ | ⟨-, hj⟩
  · exact .inr ⟨rfl, .inr ⟨p, hp, rfl, rfl⟩⟩
  · exact .inl hj

omit [DecidableEq Key] in
theorem Step.effect {a : Action Val E Op} (h : Step M s a s') : Effect M s a s' := by
  cases h with
  | start op =>
      refine .quiet rfl fun j p' hj => ?_
      rcases getElem?_concat_cases hj with rfl | hj
      · exact .inr ⟨rfl, .inl ⟨op, rfl, rfl⟩⟩
      · exact .inl hj
  | answer i c p q next out rows hp hq hrun hfree =>
      exact .answered i c p q next out rows hp hq hrun
  | refuse i c p q next e hp hq hrun => exact .quiet rfl (quiet_drop hp _ _)
  | commit i c p next hp hq => exact .committed i c p next hp hq
  | rollback i c p next hp hq => exact .quiet rfl (quiet_drop hp _ _)
  | fault i p q next e hp hq => exact .quiet rfl (quiet_drop hp _ _)
  | faultCommit i p next e hp hq => exact .quiet rfl (quiet_drop hp _ _)
  | kill i p e hp => exact .quiet rfl (quiet_drop hp _ _)
  | env rows hext hfree => exact .outside rows hext

omit [DecidableEq Key] in
theorem Step.committed {i c : Nat} (h : Step M s (.exec i c) s') {p : Proc Val Out E R Op} {next}
    (hp : s.procs[i]? = some p) (hq : p.prog = .commit next) : s'.db = p.writes ++ s.db := by
  cases h with
  | answer _ _ q st next' out rows hp' hq' =>
      cases hp.symm.trans hp'
      cases hq.symm.trans hq'
  | refuse _ _ q st next' e hp' hq' =>
      cases hp.symm.trans hp'
      cases hq.symm.trans hq'
  | commit _ _ q next' hp' =>
      cases hp.symm.trans hp'
      rfl
  | rollback _ _ q next' hp' hq' =>
      cases hp.symm.trans hp'
      cases hq.symm.trans hq'

omit [DecidableEq Key] in
/-- A process goes on existing, and what it has committed stays in its past. -/
theorem Step.past_subset {a : Action Val E Op} (h : Step M s a s') {i : Nat}
    {p : Proc Val Out E R Op} (hp : s.procs[i]? = some p) :
    ∃ p', s'.procs[i]? = some p' ∧ p'.op = p.op ∧ p.past ⊆ p'.past := by
  have hset : ∀ (j : Nat) (q q' : Proc Val Out E R Op), s.procs[j]? = some q → q'.op = q.op →
      q.past ⊆ q'.past →
      ∃ p', (s.procs.set j q')[i]? = some p' ∧ p'.op = p.op ∧ p.past ⊆ p'.past := by
    intro j q q' hq hop hpast
    by_cases hij : j = i
    · subst hij
      rw [hq] at hp
      cases hp
      have hlt := (List.getElem?_eq_some_iff.mp hq).1
      exact ⟨q', by rw [List.getElem?_set_self hlt], hop, hpast⟩
    · exact ⟨p, by rw [List.getElem?_set_ne hij, hp], rfl, List.Subset.refl _⟩
  cases h with
  | start op =>
      have hlt := (List.getElem?_eq_some_iff.mp hp).1
      exact ⟨p, by rw [List.getElem?_append_left hlt, hp], rfl, List.Subset.refl _⟩
  | answer j c q st next out rows hq hst hrun hfree =>
      exact hset j q _ hq rfl (List.Subset.refl _)
  | refuse j c q st next e hq hst hrun => exact hset j q _ hq rfl (List.Subset.refl _)
  | commit j c q next hq hst => exact hset j q _ hq rfl (List.subset_append_right _ _)
  | rollback j c q next hq hst => exact hset j q _ hq rfl (List.Subset.refl _)
  | fault j q st next e hq hst => exact hset j q _ hq rfl (List.Subset.refl _)
  | faultCommit j q next e hq hst => exact hset j q _ hq rfl (List.Subset.refl _)
  | kill j q e hq => exact hset j q _ hq rfl (List.Subset.refl _)
  | env rows hext hfree => exact ⟨p, hp, rfl, List.Subset.refl _⟩

/-- What process `i` has committed is what it had committed, or it commits in this step. -/
inductive PastCase (s : Sys Val Out E R Op) (a : Action Val E Op) (s' : Sys Val Out E R Op)
    (i : Nat) (p' : Proc Val Out E R Op) : Prop
  | fresh (hpast : p'.past = [])
  | same (p) (hp : s.procs[i]? = some p) (hop : p'.op = p.op) (hpast : p'.past = p.past)
  | commits (p) (next) (c : Nat) (hp : s.procs[i]? = some p) (hq : p.prog = .commit next)
      (ha : a = .exec i c) (hop : p'.op = p.op) (hpast : p'.past = p.calls ++ p.past)
      (hdb : s'.db = p.writes ++ s.db)

omit [DecidableEq Key] in
theorem Step.past_cases {a : Action Val E Op} (h : Step M s a s') {i : Nat}
    {p' : Proc Val Out E R Op} (hp : s'.procs[i]? = some p') : PastCase s a s' i p' := by
  cases h.effect with
  | quiet hdb hprocs =>
      rcases hprocs i p' hp with hold | ⟨-, ⟨op, -, rfl⟩ | ⟨p, hp, hop, hpast⟩⟩
      · exact .same p' hold rfl rfl
      · exact .fresh rfl
      · exact .same p hp hop hpast
  | answered j c q st next out rows hq hst hanswer =>
      rcases getElem?_set_cases hp with ⟨rfl, rfl⟩ | ⟨-, hold⟩
      · exact .same q hq rfl rfl
      · exact .same p' hold rfl rfl
  | committed j c q next hq hst =>
      rcases getElem?_set_cases hp with ⟨rfl, rfl⟩ | ⟨-, hold⟩
      · exact .commits q next c hq hst rfl rfl rfl rfl
      · exact .same p' hold rfl rfl
  | outside rows hext => exact .same p' hp rfl rfl

omit [DecidableEq Key] in
/-- A transaction that opens after a state of the run reads committed logs that continue its. -/
theorem Run.base_since (h : Run M ok s t) {i : Nat}
    (hstart : ∀ p, s.procs[i]? = some p → p.current = []) {p : Proc Val Out E R Op}
    (hp : t.procs[i]? = some p) {e : Event Val Out} (he : e ∈ p.current) : s.db <:+ e.base := by
  induction h generalizing p with
  | refl => simp [hstart p hp] at he
  | step hrun ha hs ih =>
      cases hs.effect with
      | quiet hdb hprocs =>
          rcases hprocs i p hp with hold | ⟨hcurrent, -⟩
          · exact ih hold he
          · simp [hcurrent] at he
      | answered j c q st next out rows hq hst hanswer =>
          rcases getElem?_set_cases hp with ⟨rfl, rfl⟩ | ⟨-, hold⟩
          · rcases List.mem_cons.mp he with rfl | he
            · exact hrun.suffix
            · exact ih hq he
          · exact ih hold he
      | committed j c q next hq hst =>
          rcases getElem?_set_cases hp with ⟨rfl, rfl⟩ | ⟨-, hold⟩
          · exact absurd he List.not_mem_nil
          · exact ih hold he
      | outside rows hext => exact ih hp he

omit [DecidableEq Key] in
/-- What commits and outside changes preserve holds of every committed log of the run, also of
those that the statements of open transactions ran on. -/
theorem Run.always {I : Log Val → Prop} (hstart : s.procs = []) (hinit : I s.db)
    (hcommit : ∀ u (i : Nat) p next, Run M ok s u → u.procs[i]? = some p → p.prog = .commit next →
      I u.db → (∀ e ∈ p.current, I e.base) → I (p.writes ++ u.db))
    (houtside : ∀ u rows, Run M ok s u → M.external u.db rows → I u.db → I (rows ++ u.db))
    (h : Run M ok s t) :
    I t.db ∧ ∀ (i : Nat) p, t.procs[i]? = some p → ∀ e ∈ p.current, I e.base := by
  induction h with
  | refl => exact ⟨hinit, by simp [hstart]⟩
  | step hrun ha hs ih =>
      obtain ⟨hinv, hbases⟩ := ih
      cases hs.effect with
      | quiet hdb hprocs =>
          refine ⟨hdb ▸ hinv, fun i p hp e he => ?_⟩
          rcases hprocs i p hp with hold | ⟨hcurrent, -⟩
          · exact hbases i p hold e he
          · simp [hcurrent] at he
      | answered j c q st next out rows hq hst hanswer =>
          refine ⟨hinv, fun i p hp e he => ?_⟩
          rcases getElem?_set_cases hp with ⟨rfl, rfl⟩ | ⟨-, hold⟩
          · rcases List.mem_cons.mp he with rfl | he
            · exact hinv
            · exact hbases i q hq e he
          · exact hbases i p hold e he
      | committed j c q next hq hst =>
          refine ⟨hcommit _ j q next hrun hq hst hinv (hbases j q hq), fun i p hp e he => ?_⟩
          rcases getElem?_set_cases hp with ⟨rfl, rfl⟩ | ⟨-, hold⟩
          · exact absurd he List.not_mem_nil
          · exact hbases i p hold e he
      | outside rows hext => exact ⟨houtside _ rows hrun hext hinv, hbases⟩

/-- What the transactions of a call that does its work after a state of the run leave behind. -/
theorem Run.since {P : Op → Sigma Out → Log Val → Prop} (hd : Discipline M C T)
    (h₀ : Consistent M C T s)
    (hkeep : ∀ op c db db', db <:+ db' → Chain T db' → P op c db → P op c db')
    (hcommit : ∀ u (i : Nat) p next, Run M ok s u → u.procs[i]? = some p →
      p.prog = .commit next → ProcOk M C T u.db p → (∀ e ∈ p.current, s.db <:+ e.base) →
      ∀ e ∈ p.current, P p.op e.call (p.writes ++ u.db))
    (h : Run M ok s t) {i : Nat} (hstart : ∀ p, s.procs[i]? = some p → p.past = [] ∧ p.current = [])
    {p : Proc Val Out E R Op} (hp : t.procs[i]? = some p) : ∀ c ∈ p.past, P p.op c t.db := by
  induction h generalizing p with
  | refl => simp [(hstart p hp).1]
  | @step u a v hrun ha hs ih =>
      have hcons := Run.consistent hd h₀ hrun
      have hchain := (hcons.step hd hs).chain
      cases hs.past_cases hp with
      | fresh hpast => simp [hpast]
      | same q hq hop hpast =>
          rw [hop, hpast]
          exact fun call hcall => hkeep _ _ _ _ hs.suffix hchain (ih hq call hcall)
      | commits q next c hq hst ha' hop hpast hdb =>
          rw [hop, hpast, hdb]
          rw [hdb] at hchain
          intro call hcall
          rcases List.mem_append.mp hcall with hnew | hold
          · obtain ⟨e, he, rfl⟩ := List.mem_map.mp hnew
            exact hcommit u i q next hrun hq hst (hcons.proc i q hq)
              (fun e he => hrun.base_since (fun p hp => (hstart p hp).2) hq he) e he
          · exact hkeep _ _ _ _ (List.suffix_append _ _) hchain (ih hq call hold)

end Effect

/-- Claims about the committed log in the runs that start `allowed` operations only and
execute a statement only under its `guard`. -/
structure Account {Key : Type} (Val : Key → Type) {Stmt : Type} (Out : Stmt → Type) (Op : Type)
    where
  allowed : Op → Prop := fun _ => True
  guard : Op → Calls Out → List (Event Val Out) → Log Val → Stmt → Prop :=
    fun _ _ _ _ _ => True
  inv : Log Val → Prop := fun _ => True
  rel : Log Val → Log Val → Prop := fun _ _ => True
  fact : Op → Sigma Out → Log Val → Prop := fun _ _ _ => True

namespace Account

/-- What an open transaction knows. -/
structure Observed (K : Account Val Out Op) (db : Log Val) (p : Proc Val Out E R Op) : Prop where
  allowed : K.allowed p.op
  inv : ∀ e ∈ p.current, K.inv e.base
  rel : ∀ e ∈ p.current, K.rel e.base db
  guard : ∀ new e older, p.current = new ++ e :: older →
    K.guard p.op p.past older e.base e.stmt
  fact : ∀ c ∈ p.past, K.fact p.op c db
  known : ∀ e ∈ p.current, ∀ c ∈ p.past, K.fact p.op c e.base

/-- The actions of a run respect the account. -/
structure Respects (K : Account Val Out Op)
    (ok : Sys Val Out E R Op → Action Val E Op → Prop) : Prop where
  start : ∀ s op, ok s (.start op) → K.allowed op
  exec : ∀ s (i : Nat) c p q next, ok s (.exec i c) → s.procs[i]? = some p →
    p.prog = .stmt q next → K.guard p.op p.past p.current s.db q

/-- The actions that start `allowed` operations and execute statements under a `guard`. -/
def permitted (allowed : Op → Prop)
    (guard : Op → Calls Out → List (Event Val Out) → Log Val → Stmt → Prop)
    (s : Sys Val Out E R Op) : Action Val E Op → Prop
  | .start op => allowed op
  | .exec i _ => ∀ p q next, s.procs[i]? = some p → p.prog = .stmt q next →
      guard p.op p.past p.current s.db q
  | _ => True

/-- Runs that start `starts` only, and issue a statement only when `screen` lets it pass. -/
def screened (starts : Op → Bool) (screen : Log Val → Stmt → Bool) (s : Sys Val Out E R Op) :
    Action Val E Op → Bool
  | .start op => starts op
  | .exec i _ =>
      match (s.procs[i]?).map Proc.prog with
      | some (.stmt q _) => screen s.db q
      | _ => true
  | _ => true

omit [DecidableEq Key] in
theorem permitted_of_screened {allowed : Op → Prop}
    {guard : Op → Calls Out → List (Event Val Out) → Log Val → Stmt → Prop} (starts : Op → Bool)
    (screen : Log Val → Stmt → Bool) (hstarts : ∀ op, starts op = true → allowed op)
    (hscreen : ∀ op past es db q, screen db q = true → guard op past es db q)
    (s : Sys Val Out E R Op) (a : Action Val E Op) (h : screened starts screen s a = true) :
    permitted allowed guard s a := by
  cases a with
  | start op => exact hstarts op h
  | exec i c =>
      intro p q next hp hq
      simp only [screened, hp, Option.map_some, hq] at h
      exact hscreen _ _ _ _ _ h
  | fault i e => trivial
  | kill i e => trivial
  | env rows => trivial

omit [DecidableEq Key] in
theorem respects_permitted (K : Account Val Out Op) :
    K.Respects (permitted (E := E) (R := R) K.allowed K.guard) :=
  ⟨fun _ _ h => h, fun _ _ _ p q next h hp hq => h p q next hp hq⟩

/-- A commit and outside versions keep what the account claims. -/
structure Sound (K : Account Val Out Op) (M : Machine Val Out E R Op) (C : Op → Conduct Out)
    (T : Transition Val) (ok : Sys Val Out E R Op → Action Val E Op → Prop)
    (s₀ : Sys Val Out E R Op) : Prop where
  refl : ∀ db, K.rel db db
  trans : ∀ a b c, K.rel a b → K.rel b c → K.rel a c
  keep : ∀ op c db db', db <:+ db' → Chain T db' → K.rel db db' → K.fact op c db →
    K.fact op c db'
  commit : ∀ s (i : Nat) p next, Run M ok s₀ s → s.procs[i]? = some p →
    p.prog = .commit next → ProcOk M C T s.db p → K.Observed s.db p → K.inv s.db →
    K.inv (p.writes ++ s.db) ∧ K.rel s.db (p.writes ++ s.db) ∧
      ∀ e ∈ p.current, K.fact p.op e.call (p.writes ++ s.db)
  external : ∀ db rows, Chain T (rows ++ db) → M.external db rows → K.inv db →
    K.inv (rows ++ db) ∧ K.rel db (rows ++ db)

variable {K : Account Val Out Op}

section Restrict

variable (K)

/-- The same claims of the runs that execute statements under `guard` only. -/
def restrict (guard : Op → Calls Out → List (Event Val Out) → Log Val → Stmt → Prop) :
    Account Val Out Op := { K with guard := guard }

variable {K} {guard : Op → Calls Out → List (Event Val Out) → Log Val → Stmt → Prop}

omit [DecidableEq Key] in
theorem Observed.of_restrict (hK : ∀ op past es db q, K.guard op past es db q) {db : Log Val}
    {p : Proc Val Out E R Op} (h : (K.restrict guard).Observed db p) : K.Observed db p :=
  ⟨h.allowed, h.inv, h.rel, fun _ _ _ _ => hK .., h.fact, h.known⟩

theorem Sound.restrict (hK : ∀ op past es db q, K.guard op past es db q)
    (h : K.Sound M C T ok s₀) : (K.restrict guard).Sound M C T ok s₀ :=
  ⟨h.refl, h.trans, h.keep, fun s i p next hrun hp hq hok hobs hinv =>
    h.commit s i p next hrun hp hq hok (hobs.of_restrict hK) hinv, h.external⟩

end Restrict

omit [DecidableEq Key] in
theorem Observed.of_current_nil {db : Log Val} {p : Proc Val Out E R Op}
    (hallowed : K.allowed p.op) (hcurrent : p.current = [])
    (hfact : ∀ c ∈ p.past, K.fact p.op c db) : K.Observed db p :=
  ⟨hallowed, by simp [hcurrent], by simp [hcurrent], by simp [hcurrent], hfact,
    by simp [hcurrent]⟩

/-- Later committed logs keep what a transaction knows. -/
theorem Observed.advance (hK : K.Sound M C T ok s₀) {db db' : Log Val}
    {p : Proc Val Out E R Op} (h : K.Observed db p) (hs : db <:+ db') (hc : Chain T db')
    (hrel : K.rel db db') : K.Observed db' p where
  allowed := h.allowed
  inv := h.inv
  rel e he := hK.trans _ _ _ (h.rel e he) hrel
  guard := h.guard
  fact c hmem := hK.keep _ _ _ _ hs hc hrel (h.fact c hmem)
  known := h.known

/-- The new event of a transaction was answered over the present log. -/
theorem Observed.push (hK : K.Sound M C T ok s₀) {db : Log Val} {p : Proc Val Out E R Op}
    (h : K.Observed db p) (hI : K.inv db) {q : Stmt} (hguard : K.guard p.op p.past p.current db q)
    (prog : Prog Out E R) (out : Out q) (rows : Log Val) :
    K.Observed db (p.push prog ⟨q, out, rows, db⟩) where
  allowed := h.allowed
  inv e he := by
    rcases List.mem_cons.mp he with rfl | he
    · exact hI
    · exact h.inv e he
  rel e he := by
    rcases List.mem_cons.mp he with rfl | he
    · exact hK.refl _
    · exact h.rel e he
  guard new e older hes := by
    cases new with
    | nil =>
        cases hes
        exact hguard
    | cons d new =>
        have htail : p.current = new ++ e :: older := (List.cons.inj hes).2
        exact h.guard new e older htail
  fact := h.fact
  known e he := by
    rcases List.mem_cons.mp he with rfl | he
    · exact h.fact
    · exact h.known e he

/-- In every state of a run the invariant holds and every process knows what it has read. -/
theorem Sound.run (hK : K.Sound M C T ok s₀) (hr : K.Respects ok) (hd : Discipline M C T)
    (h₀ : Idle T s₀) (hI : K.inv s₀.db) (h : Run M ok s₀ s) :
    K.inv s.db ∧ ∀ (i : Nat) p, s.procs[i]? = some p → K.Observed s.db p := by
  refine Run.invariant (I := fun s => K.inv s.db ∧ ∀ (i : Nat) p, s.procs[i]? = some p →
    K.Observed s.db p) ⟨hI, by simp [h₀.procs]⟩ ?_ h
  rintro s a s' hrun ⟨hinv, hobs⟩ ha hs
  have hcons := Run.consistent hd h₀.consistent hrun
  have hcons' := hcons.step hd hs
  cases hs.effect with
  | quiet hdb hprocs =>
      rw [hdb]
      refine ⟨hinv, fun j p' hj => ?_⟩
      rcases hprocs j p' hj with hold | ⟨hcurrent, ⟨op, rfl, rfl⟩ | ⟨p, hp, hop, hpast⟩⟩
      · exact hobs j p' hold
      · exact .of_current_nil (hr.start s op ha) rfl (by simp)
      · have hobsp := hobs j p hp
        refine .of_current_nil (hop ▸ hobsp.allowed) hcurrent fun c hc => ?_
        rw [hop]
        exact hobsp.fact c (hpast ▸ hc)
  | answered i c p q next out rows hp hq hrun' =>
      refine ⟨hinv, fun j p' hj => ?_⟩
      rcases getElem?_set_cases hj with ⟨rfl, rfl⟩ | ⟨-, hj⟩
      · exact (hobs j p hp).push hK hinv (hr.exec s j c p q next ha hp hq) _ out rows
      · exact hobs j p' hj
  | committed i c p next hp hq =>
      obtain ⟨hinv', hrel, hfact⟩ :=
        hK.commit s i p next hrun hp hq (hcons.proc i p hp) (hobs i p hp) hinv
      have hsuffix := List.suffix_append p.writes s.db
      refine ⟨hinv', fun j p' hj => ?_⟩
      rcases getElem?_set_cases hj with ⟨rfl, rfl⟩ | ⟨-, hj⟩
      · refine .of_current_nil (hobs j p hp).allowed rfl fun c hc => ?_
        rcases List.mem_append.mp hc with hc | hc
        · obtain ⟨e, he, rfl⟩ := List.mem_map.mp hc
          exact hfact e he
        · exact hK.keep _ _ _ _ hsuffix hcons'.chain hrel ((hobs j p hp).fact c hc)
      · exact (hobs j p' hj).advance hK hsuffix hcons'.chain hrel
  | outside rows hext =>
      obtain ⟨hinv', hrel⟩ := hK.external s.db rows hcons'.chain hext hinv
      refine ⟨hinv', fun j p' hj => ?_⟩
      exact (hobs j p' hj).advance hK (List.suffix_append rows s.db) hcons'.chain hrel

/-- What every commit and every outside version does to the log, every step does. -/
theorem Sound.each (hK : K.Sound M C T ok s₀) (hr : K.Respects ok) (hd : Discipline M C T)
    (h₀ : Idle T s₀) (hI : K.inv s₀.db) {Q : Log Val → Log Val → Prop} (hrefl : ∀ db, Q db db)
    (hcommit : ∀ s (i : Nat) p next, Run M ok s₀ s → s.procs[i]? = some p →
      p.prog = .commit next → ProcOk M C T s.db p → K.Observed s.db p → K.inv s.db →
      Q s.db (p.writes ++ s.db))
    (hext : ∀ db rows, Chain T (rows ++ db) → M.external db rows → K.inv db → Q db (rows ++ db))
    (h : Run M ok s₀ s) {a : Action Val E Op} (hs : Step M s a s') : Q s.db s'.db := by
  obtain ⟨hinv, hobs⟩ := hK.run hr hd h₀ hI h
  have hcons := Run.consistent hd h₀.consistent h
  cases hs.effect with
  | quiet hdb hprocs => exact hdb ▸ hrefl _
  | answered i c p q next out rows hp hq hrun => exact hrefl _
  | committed i c p next hp hq =>
      exact hcommit s i p next h hp hq (hcons.proc i p hp) (hobs i p hp) hinv
  | outside rows hout => exact hext s.db rows (hcons.step hd hs).chain hout hinv

/-- One step keeps the preorder. -/
theorem Sound.step (hK : K.Sound M C T ok s₀) (hr : K.Respects ok) (hd : Discipline M C T)
    (h₀ : Idle T s₀) (hI : K.inv s₀.db) (h : Run M ok s₀ s) {a : Action Val E Op}
    (hs : Step M s a s') : K.rel s.db s'.db :=
  hK.each hr hd h₀ hI hK.refl
    (fun s i p next hrun hp hq hok hobs hinv => (hK.commit s i p next hrun hp hq hok hobs hinv).2.1)
    (fun db rows hc hext hinv => (hK.external db rows hc hext hinv).2) h hs

/-- The logs of two states of a run stand in the preorder. -/
theorem Sound.related (hK : K.Sound M C T ok s₀) (hr : K.Respects ok) (hd : Discipline M C T)
    (h₀ : Idle T s₀) (hI : K.inv s₀.db) (h : Run M ok s₀ s) (h' : Run M ok s t) :
    K.rel s.db t.db := by
  induction h' with
  | refl => exact hK.refl _
  | step hrun ha hs ih =>
      exact hK.trans _ _ _ ih (hK.step hr hd h₀ hI (h.trans hrun) hs)

end Account
end ReadCommitted
