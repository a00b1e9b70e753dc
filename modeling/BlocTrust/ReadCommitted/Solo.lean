import BlocTrust.ReadCommitted.Alone

/-!
Calls that are made one after the other.
`Completes` runs a program by itself against the committed log, and any statement or commit may
fail with one of the errors in `faults`.  `surely` says that the program can go on whatever has
been answered, and what holds when it has returned or failed; it is walked along the program as
`wp` is.  What completes is a run of the machine in which only this process moves.
-/
namespace ReadCommitted

variable {Key : Type} {Val : Key → Type} {Stmt : Type} {Out : Stmt → Type} {E R Op α β : Type}

namespace Prog

section Semantics

variable (engine : Engine Val Out E) (faults : E → Prop)

/-- With the open writes `w` over the committed log `db` the program ends in `r` and leaves
`db'`. -/
inductive Completes : Prog Out E α → Log Val → Log Val → Except E α → Log Val → Prop
  | ret (a : α) (w db : Log Val) : Completes (ret a) w db (.ok a) db
  | fail (e : E) (w db : Log Val) : Completes (fail e) w db (.error e) db
  | answer (s : Stmt) (next) (c : Nat) (out : Out s) {w rows db db' : Log Val} {r}
      (hrun : engine s c (w ++ db) = some (.ok (out, rows)))
      (hnext : Completes (next (.ok out)) (rows ++ w) db r db') :
      Completes (stmt s next) w db r db'
  | refuse (s : Stmt) (next) (c : Nat) (e : E) {w db db' : Log Val} {r}
      (hrun : engine s c (w ++ db) = some (.error e))
      (hnext : Completes (next (.error e)) [] db r db') : Completes (stmt s next) w db r db'
  | fault (s : Stmt) (next) (e : E) {w db db' : Log Val} {r} (he : faults e)
      (hnext : Completes (next (.error e)) [] db r db') : Completes (stmt s next) w db r db'
  | commit (next) {w db db' : Log Val} {r}
      (hnext : Completes (next (.ok ())) [] (w ++ db) r db') : Completes (commit next) w db r db'
  | faultCommit (next) (e : E) {w db db' : Log Val} {r} (he : faults e)
      (hnext : Completes (next (.error e)) [] db r db') : Completes (commit next) w db r db'
  | rollback (next) {w db db' : Log Val} {r} (hnext : Completes next [] db r db') :
      Completes (rollback next) w db r db'

/-- Every statement is answered, and the program returns in `Q` or fails in `R`. -/
def surely : Prog Out E α → (α → Log Val → Log Val → Prop) → (E → Log Val → Log Val → Prop) →
    Log Val → Log Val → Prop
  | ret a, Q, _, w, db => Q a w db
  | fail e, _, R, w, db => R e w db
  | stmt s next, Q, R, w, db =>
      (∃ c r, engine s c (w ++ db) = some r) ∧
        (∀ c out rows, engine s c (w ++ db) = some (.ok (out, rows)) →
          (next (.ok out)).surely Q R (rows ++ w) db) ∧
        (∀ c e, engine s c (w ++ db) = some (.error e) → (next (.error e)).surely Q R [] db) ∧
        ∀ e, faults e → (next (.error e)).surely Q R [] db
  | commit next, Q, R, w, db =>
      (next (.ok ())).surely Q R [] (w ++ db) ∧
        ∀ e, faults e → (next (.error e)).surely Q R [] db
  | rollback next, Q, R, _, db => next.surely Q R [] db

end Semantics

section Rules

variable {engine : Engine Val Out E} {faults : E → Prop} {w db db' : Log Val}
  {Q : α → Log Val → Log Val → Prop} {R : E → Log Val → Log Val → Prop}

theorem surely_andThen (p : Prog Out E α) (f : α → Prog Out E β) (h : E → Prog Out E β)
    {Q : β → Log Val → Log Val → Prop} :
    (p.andThen f h).surely engine faults Q R w db ↔
      p.surely engine faults (fun a => (f a).surely engine faults Q R)
        (fun e => (h e).surely engine faults Q R) w db := by
  induction p generalizing w db with
  | ret a => rfl
  | fail e => rfl
  | stmt s next ih => simp only [andThen, surely, ih]
  | commit next ih => simp only [andThen, surely, ih]
  | rollback next ih => exact ih

@[simp] theorem surely_bind (p : Prog Out E α) (f : α → Prog Out E β)
    {Q : β → Log Val → Log Val → Prop} :
    (p >>= f).surely engine faults Q R w db ↔
      p.surely engine faults (fun a => (f a).surely engine faults Q R) R w db :=
  surely_andThen ..

@[simp] theorem surely_tryCatch (p : Prog Out E α) (h : E → Prog Out E α) :
    (tryCatch p h).surely engine faults Q R w db ↔
      p.surely engine faults Q (fun e => (h e).surely engine faults Q R) w db :=
  surely_andThen ..

@[simp] theorem surely_transaction (p : Prog Out E α) :
    (transaction p).surely engine faults Q R w db ↔
      p.surely engine faults
        (fun a w db => Q a [] (w ++ db) ∧ ∀ e, faults e → R e [] db)
        (fun e _ db => R e [] db) w db :=
  surely_andThen ..

@[simp] theorem surely_sql (s : Stmt) {Q : Out s → Log Val → Log Val → Prop} :
    (sql s : Prog Out E (Out s)).surely engine faults Q R w db ↔
      (∃ c r, engine s c (w ++ db) = some r) ∧
        (∀ c out rows, engine s c (w ++ db) = some (.ok (out, rows)) → Q out (rows ++ w) db) ∧
        (∀ c e, engine s c (w ++ db) = some (.error e) → R e [] db) ∧
        ∀ e, faults e → R e [] db := Iff.rfl

@[simp] theorem surely_require (c : Prop) [Decidable c] (e : E)
    {Q : Unit → Log Val → Log Val → Prop} :
    (require c e : Prog Out E Unit).surely engine faults Q R w db ↔
      (c → Q () w db) ∧ (¬ c → R e w db) := by
  unfold require
  split <;> simp [*, surely]

@[simp] theorem surely_orThrow (o : Option α) (e : E) :
    (orThrow o e : Prog Out E α).surely engine faults Q R w db ↔
      (∀ a, o = some a → Q a w db) ∧ (o = none → R e w db) := by
  cases o <;> simp [orThrow, surely]

theorem surely_mono {Q' : α → Log Val → Log Val → Prop} {R' : E → Log Val → Log Val → Prop}
    {p : Prog Out E α} (hQ : ∀ a w db, Q a w db → Q' a w db)
    (hR : ∀ e w db, R e w db → R' e w db) (h : p.surely engine faults Q R w db) :
    p.surely engine faults Q' R' w db := by
  induction p generalizing w db with
  | ret a => exact hQ _ _ _ h
  | fail e => exact hR _ _ _ h
  | stmt s next ih =>
      obtain ⟨hprogress, hanswer, hrefuse, hfault⟩ := h
      exact ⟨hprogress, fun c out rows hrun => ih _ (hanswer c out rows hrun),
        fun c e hrun => ih _ (hrefuse c e hrun), fun e he => ih _ (hfault e he)⟩
  | commit next ih => exact ⟨ih _ h.1, fun e he => ih _ (h.2 e he)⟩
  | rollback next ih => exact ih h

/-- A statement that nothing can make fail. -/
theorem surely_answered {s : Stmt} {Q : Out s → Log Val → Log Val → Prop}
    (hprogress : ∃ c r, engine s c (w ++ db) = some r)
    (hanswer : ∀ c r, engine s c (w ++ db) = some r → ∃ out rows, r = .ok (out, rows) ∧
      Q out (rows ++ w) db) (hfaults : ∀ e, faults e → R e [] db) :
    (sql s : Prog Out E (Out s)).surely engine faults Q R w db := by
  refine (surely_sql s).mpr ⟨hprogress, fun c out rows hrun => ?_, fun c e hrun => ?_, hfaults⟩
  · obtain ⟨out', rows', heq, hQ⟩ := hanswer c _ hrun
    cases heq
    exact hQ
  · obtain ⟨out', rows', heq, -⟩ := hanswer c _ hrun
    cases heq

/-- A statement that is answered in one way, and that nothing can make fail. -/
theorem surely_fixed {s : Stmt} {Q : Out s → Log Val → Log Val → Prop} (out : Out s)
    (rows : Log Val) (hrun : ∀ c, engine s c (w ++ db) = some (.ok (out, rows)))
    (hQ : Q out (rows ++ w) db) :
    (sql s : Prog Out E (Out s)).surely engine (fun _ => False) Q R w db := by
  refine surely_answered ⟨0, _, hrun 0⟩ (fun c r hr => ?_) nofun
  rw [hrun c] at hr
  cases hr
  exact ⟨out, rows, rfl, hQ⟩

/-- A statement that is refused in one way. -/
theorem surely_refused {s : Stmt} {Q : Out s → Log Val → Log Val → Prop} (e : E)
    (hrun : ∀ c, engine s c (w ++ db) = some (.error e)) (hR : R e [] db) :
    (sql s : Prog Out E (Out s)).surely engine (fun _ => False) Q R w db := by
  refine (surely_sql s).mpr ⟨⟨0, _, hrun 0⟩, fun c out rows hr => ?_, fun c e' hr => ?_, nofun⟩
  · rw [hrun c] at hr
    cases hr
  · rw [hrun c] at hr
    cases hr
    exact hR

theorem surely_auto_fixed {s : Stmt} {Q : Out s → Log Val → Log Val → Prop} (out : Out s)
    (hrun : ∀ c, engine s c (w ++ db) = some (.ok (out, []))) (hQ : Q out [] (w ++ db)) :
    (auto s : Prog Out E (Out s)).surely engine (fun _ => False) Q R w db :=
  (surely_bind _ _).mpr (surely_fixed out [] hrun ⟨hQ, nofun⟩)

/-- What surely holds in the end holds however the program completes. -/
theorem Completes.satisfies {p : Prog Out E α} {r : Except E α} {S : Except E α → Log Val → Prop}
    (hrun : Completes engine faults p w db r db')
    (h : p.surely engine faults (fun a _ db => S (.ok a) db) (fun e _ db => S (.error e) db) w db) :
    S r db' := by
  induction hrun with
  | ret a => exact h
  | fail e => exact h
  | answer s next c out hrun _ ih => exact ih (h.2.1 c out _ hrun)
  | refuse s next c e hrun _ ih => exact ih (h.2.2.1 c e hrun)
  | fault s next e he _ ih => exact ih (h.2.2.2 e he)
  | commit next _ ih => exact ih h.1
  | faultCommit next e he _ ih => exact ih (h.2 e he)
  | rollback next _ ih => exact ih h

/-- A program that is surely answered completes. -/
theorem exists_completes {p : Prog Out E α} (h : p.surely engine faults Q R w db) :
    ∃ r db', Completes engine faults p w db r db' := by
  induction p generalizing w db with
  | ret a => exact ⟨_, _, .ret a w db⟩
  | fail e => exact ⟨_, _, .fail e w db⟩
  | stmt s next ih =>
      obtain ⟨⟨c, r, hrun⟩, hanswer, hrefuse, -⟩ := h
      cases r with
      | ok answer =>
          obtain ⟨out, rows⟩ := answer
          obtain ⟨r, db', hnext⟩ := ih _ (hanswer c out rows hrun)
          exact ⟨r, db', .answer s next c out hrun hnext⟩
      | error e =>
          obtain ⟨r, db', hnext⟩ := ih _ (hrefuse c e hrun)
          exact ⟨r, db', .refuse s next c e hrun hnext⟩
  | commit next ih =>
      obtain ⟨r, db', hnext⟩ := ih _ h.1
      exact ⟨r, db', .commit next hnext⟩
  | rollback next ih =>
      obtain ⟨r, db', hnext⟩ := ih h
      exact ⟨r, db', .rollback next hnext⟩

/-- What completes does so under every engine that can answer as much. -/
theorem Completes.mono {engine' : Engine Val Out E}
    (hengine : ∀ s c view r, engine s c view = some r → ∃ c', engine' s c' view = some r)
    {p : Prog Out E α} {r : Except E α} (h : Completes engine faults p w db r db') :
    Completes engine' faults p w db r db' := by
  induction h with
  | ret a w db => exact .ret a w db
  | fail e w db => exact .fail e w db
  | answer s next c out hrun _ ih =>
      obtain ⟨c', hrun'⟩ := hengine s c _ _ hrun
      exact .answer s next c' out hrun' ih
  | refuse s next c e hrun _ ih =>
      obtain ⟨c', hrun'⟩ := hengine s c _ _ hrun
      exact .refuse s next c' e hrun' ih
  | fault s next e he _ ih => exact .fault s next e he ih
  | commit next _ ih => exact .commit next ih
  | faultCommit next e he _ ih => exact .faultCommit next e he ih
  | rollback next _ ih => exact .rollback next ih

theorem Completes.bind_pure (f : α → β) {p : Prog Out E α} {r : Except E α}
    (h : Completes engine faults p w db r db') :
    Completes engine faults (p >>= fun a => pure (f a)) w db (r.map f) db' := by
  induction h with
  | ret a w db => exact .ret (f a) w db
  | fail e w db => exact .fail e w db
  | answer s next c out hrun _ ih => exact .answer s _ c out hrun ih
  | refuse s next c e hrun _ ih => exact .refuse s _ c e hrun ih
  | fault s next e he _ ih => exact .fault s _ e he ih
  | commit next _ ih => exact .commit _ ih
  | faultCommit next e he _ ih => exact .faultCommit _ e he ih
  | rollback next _ ih => exact .rollback _ ih

end Rules

end Prog

/-- Some identifier is not in use. -/
theorem exists_fresh {f : Nat → Key} (hf : Function.Injective f) (keys : List Key) :
    ∃ n, f n ∉ keys := by
  by_contra hall
  push Not at hall
  have hsubset : (List.range (keys.length + 1)).map f ⊆ keys := by
    intro k hk
    obtain ⟨n, -, rfl⟩ := List.mem_map.mp hk
    exact hall n
  have hle := (List.subperm_of_subset (List.nodup_range.map hf) hsubset).length_le
  rw [List.length_map, List.length_range] at hle
  omega

section Runs

variable {M : Machine Val Out E R Op} {faults : E → Prop} {i : Nat}

variable (faults) in
/-- Process `i` moves, and may be disturbed by `faults`. -/
def disturbed (i : Nat) (_ : Sys Val Out E R Op) (a : Action Val E Op) : Prop :=
  (∃ c, a = .exec i c) ∨ ∃ e, faults e ∧ a = .fault i e

/-- The program that has ended so. -/
def ended : Except E R → Prog Out E R
  | .ok r => .ret r
  | .error e => .fail e

/-- Process `i` stands at `prog` with these open writes, and no other has an open transaction. -/
structure Lone (s : Sys Val Out E R Op) (i : Nat) (p : Proc Val Out E R Op)
    (prog : Prog Out E R) (w db : Log Val) : Prop where
  proc : s.procs[i]? = some p
  prog : p.prog = prog
  writes : p.writes = w
  db : s.db = db
  others : ∀ (j : Nat) q, s.procs[j]? = some q → j ≠ i → q.current = []

variable {s : Sys Val Out E R Op} {p : Proc Val Out E R Op} {prog : Prog Out E R} {w db : Log Val}

theorem Lone.set (h : Lone s i p prog w db) (p' : Proc Val Out E R Op) (db' : Log Val) :
    Lone ⟨db', s.procs.set i p'⟩ i p' p'.prog p'.writes db' := by
  refine ⟨List.getElem?_set_self (List.getElem?_eq_some_iff.mp h.proc).1, rfl, rfl, rfl,
    fun j q hq hji => ?_⟩
  refine h.others j q ?_ hji
  rwa [List.getElem?_set_ne (Ne.symm hji)] at hq

theorem Lone.unlocked (h : Lone s i p prog w db) (k : Key) : k ∉ s.lockedFor i := by
  intro hk
  obtain ⟨q, hq, hkey⟩ := List.mem_flatMap.mp hk
  obtain ⟨j, hj⟩ := List.mem_iff_getElem?.mp hq
  have hnil : q.current = [] := by
    rw [List.getElem?_eraseIdx] at hj
    split at hj
    · exact h.others j q hj (by omega)
    · exact h.others (j + 1) q hj (by omega)
  rw [Proc.writes, hnil] at hkey
  exact List.not_mem_nil hkey

theorem Lone.set_self (h : Lone s i p prog w db) : s.procs.set i p = s.procs := by
  obtain ⟨hi, hget⟩ := List.getElem?_eq_some_iff.mp h.proc
  rw [← hget, List.set_getElem_self]

/-- While the others have no open transaction, what completes is a run of the machine that leaves
them where they are. -/
theorem completes_run {db' : Log Val} {r : Except E R}
    (h : prog.Completes M.engine faults w db r db') (hlone : Lone s i p prog w db) :
    ∃ t p' w', Run M (disturbed faults i) s t ∧ Lone t i p' (ended r) w' db' ∧ p'.op = p.op ∧
      t.procs = s.procs.set i p' := by
  induction h generalizing s p with
  | ret a w db => exact ⟨s, p, w, .refl, hlone, rfl, hlone.set_self.symm⟩
  | fail e w db => exact ⟨s, p, w, .refl, hlone, rfl, hlone.set_self.symm⟩
  | answer q next c out hrun _ ih =>
      obtain ⟨rfl, rfl⟩ : p.writes = _ ∧ s.db = _ := ⟨hlone.writes, hlone.db⟩
      have hstep := Step.answer i c p q next out _ hlone.proc hlone.prog hrun
        fun k _ => hlone.unlocked k
      obtain ⟨t, p', w', hrest, hend, hop, hprocs⟩ :=
        ih (hlone.set (p.push _ ⟨q, out, _, s.db⟩) s.db)
      exact ⟨t, p', w', (Run.step .refl (.inl ⟨c, rfl⟩) hstep).trans hrest, hend, hop,
        hprocs.trans (List.set_set ..)⟩
  | refuse q next c e hrun _ ih =>
      obtain ⟨rfl, rfl⟩ : p.writes = _ ∧ s.db = _ := ⟨hlone.writes, hlone.db⟩
      have hstep := Step.refuse i c p q next e hlone.proc hlone.prog hrun
      obtain ⟨t, p', w', hrest, hend, hop, hprocs⟩ := ih (hlone.set (p.drop _) s.db)
      exact ⟨t, p', w', (Run.step .refl (.inl ⟨c, rfl⟩) hstep).trans hrest, hend, hop,
        hprocs.trans (List.set_set ..)⟩
  | fault q next e he _ ih =>
      obtain ⟨rfl, rfl⟩ : p.writes = _ ∧ s.db = _ := ⟨hlone.writes, hlone.db⟩
      have hstep := Step.fault (M := M) i p q next e hlone.proc hlone.prog
      obtain ⟨t, p', w', hrest, hend, hop, hprocs⟩ := ih (hlone.set (p.drop _) s.db)
      exact ⟨t, p', w', (Run.step .refl (.inr ⟨e, he, rfl⟩) hstep).trans hrest, hend, hop,
        hprocs.trans (List.set_set ..)⟩
  | commit next _ ih =>
      obtain ⟨rfl, rfl⟩ : p.writes = _ ∧ s.db = _ := ⟨hlone.writes, hlone.db⟩
      have hstep := Step.commit (M := M) i 0 p next hlone.proc hlone.prog
      obtain ⟨t, p', w', hrest, hend, hop, hprocs⟩ :=
        ih (hlone.set (p.close _) (p.writes ++ s.db))
      exact ⟨t, p', w', (Run.step .refl (.inl ⟨0, rfl⟩) hstep).trans hrest, hend, hop,
        hprocs.trans (List.set_set ..)⟩
  | faultCommit next e he _ ih =>
      obtain ⟨rfl, rfl⟩ : p.writes = _ ∧ s.db = _ := ⟨hlone.writes, hlone.db⟩
      have hstep := Step.faultCommit (M := M) i p next e hlone.proc hlone.prog
      obtain ⟨t, p', w', hrest, hend, hop, hprocs⟩ := ih (hlone.set (p.drop _) s.db)
      exact ⟨t, p', w', (Run.step .refl (.inr ⟨e, he, rfl⟩) hstep).trans hrest, hend, hop,
        hprocs.trans (List.set_set ..)⟩
  | rollback next _ ih =>
      obtain ⟨rfl, rfl⟩ : p.writes = _ ∧ s.db = _ := ⟨hlone.writes, hlone.db⟩
      have hstep := Step.rollback (M := M) i 0 p next hlone.proc hlone.prog
      obtain ⟨t, p', w', hrest, hend, hop, hprocs⟩ := ih (hlone.set (p.drop _) s.db)
      exact ⟨t, p', w', (Run.step .refl (.inl ⟨0, rfl⟩) hstep).trans hrest, hend, hop,
        hprocs.trans (List.set_set ..)⟩

end Runs

end ReadCommitted
