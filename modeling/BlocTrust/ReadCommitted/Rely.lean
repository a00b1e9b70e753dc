import BlocTrust.ReadCommitted.Obligations

/-!
Rely and guarantee.
Between two statements of a transaction others may commit, but not a version of a row that the
transaction has written.  `serves` follows a program over its open writes and the committed log,
which may move on along a rely relation whenever the program waits; where it commits it owes a
guarantee.  If the guarantees of all programs and the outside changes are in the rely relation,
every commit of a run gives what its program guarantees.
-/
namespace ReadCommitted

open Log

variable {Key : Type} [DecidableEq Key] {Val : Key → Type} {Stmt : Type} {Out : Stmt → Type}
  {E R Op α β : Type}

section Onward

variable (rely : Log Val → Log Val → Prop)

/-- The committed log has moved on from `b` to `b'` beside a transaction that has written `w`. -/
structure Onward (w b b' : Log Val) : Prop where
  rely : rely b b'
  held : ∀ k ∈ w.keys, row k b = row k b'

/-- What others do comes in any number of steps. -/
structure Relied : Prop where
  refl : ∀ b, rely b b
  trans : ∀ a b c, rely a b → rely b c → rely a c

variable {rely} {w a b c : Log Val}

theorem Onward.refl (hrely : Relied rely) : Onward rely w b b := ⟨hrely.refl b, fun _ _ => rfl⟩

theorem Onward.trans (hrely : Relied rely) (h : Onward rely w a b) (h' : Onward rely w b c) :
    Onward rely w a c :=
  ⟨hrely.trans a b c h.rely h'.rely, fun k hk => (h.held k hk).trans (h'.held k hk)⟩

end Onward

namespace Prog

variable (engine : Engine Val Out E) (rely : Log Val → Log Val → Prop)
  (owed : Log Val → Log Val → Prop)

/-- The program guarantees `owed` at its commits and ends in `Q` if it returns. -/
def serves : Prog Out E α → (α → Log Val → Log Val → Prop) → Log Val → Log Val → Prop
  | ret a, Q, w, b => Q a w b
  | fail _, _, _, _ => True
  | stmt s next, Q, w, b => ∀ b', Onward rely w b b' →
      (∀ c out rows, engine s c (w ++ b') = some (.ok (out, rows)) →
        (next (.ok out)).serves Q (rows ++ w) b') ∧ ∀ e, (next (.error e)).serves Q [] b'
  | commit next, Q, w, b => ∀ b', Onward rely w b b' →
      owed b' (w ++ b') ∧ (next (.ok ())).serves Q [] (w ++ b') ∧
        ∀ e, (next (.error e)).serves Q [] b'
  | rollback next, Q, w, b => ∀ b', Onward rely w b b' → next.serves Q [] b'

variable {engine rely owed} {w b b' : Log Val}

theorem serves_mono {p : Prog Out E α} {Q Q' : α → Log Val → Log Val → Prop}
    (hQ : ∀ a w b, Q a w b → Q' a w b) (h : p.serves engine rely owed Q w b) :
    p.serves engine rely owed Q' w b := by
  induction p generalizing w b with
  | ret a => exact hQ a w b h
  | fail e => trivial
  | stmt s next ih =>
      intro b' hb
      exact ⟨fun c out rows hrun => ih _ ((h b' hb).1 c out rows hrun), fun e => ih _ ((h b' hb).2 e)⟩
  | commit next ih =>
      intro b' hb
      exact ⟨(h b' hb).1, ih _ (h b' hb).2.1, fun e => ih _ ((h b' hb).2.2 e)⟩
  | rollback next ih => exact fun b' hb => ih (h b' hb)

theorem serves_andThen {p : Prog Out E α} {f : α → Prog Out E β} {g : E → Prog Out E β}
    {Q : β → Log Val → Log Val → Prop} (hg : ∀ e w b, (g e).serves engine rely owed Q w b)
    (h : p.serves engine rely owed (fun a => (f a).serves engine rely owed Q) w b) :
    (p.andThen f g).serves engine rely owed Q w b := by
  induction p generalizing w b with
  | ret a => exact h
  | fail e => exact hg e w b
  | stmt s next ih =>
      intro b' hb
      exact ⟨fun c out rows hrun => ih _ ((h b' hb).1 c out rows hrun), fun e => ih _ ((h b' hb).2 e)⟩
  | commit next ih =>
      intro b' hb
      exact ⟨(h b' hb).1, ih _ (h b' hb).2.1, fun e => ih _ ((h b' hb).2.2 e)⟩
  | rollback next ih => exact fun b' hb => ih (h b' hb)

theorem serves_bind {p : Prog Out E α} {f : α → Prog Out E β} {Q : β → Log Val → Log Val → Prop}
    (h : p.serves engine rely owed (fun a => (f a).serves engine rely owed Q) w b) :
    (p >>= f).serves engine rely owed Q w b :=
  serves_andThen (fun _ _ _ => trivial) h

/-- A transaction gives its guarantee when it commits. -/
theorem serves_transaction {p : Prog Out E α} {Q : α → Log Val → Log Val → Prop}
    (hreturn : ∀ a b, Q a [] b) (h : p.serves engine rely owed
      (fun _ w b => ∀ b', Onward rely w b b' → owed b' (w ++ b')) w b) :
    (transaction p).serves engine rely owed Q w b := by
  refine serves_andThen (fun e w b b' hb => trivial) (serves_mono (fun a w b hgives => ?_) h)
  exact fun b' hb => ⟨hgives b' hb, hreturn a _, fun e => trivial⟩

theorem serves_sql {s : Stmt} {Q : Out s → Log Val → Log Val → Prop}
    (h : ∀ b', Onward rely w b b' → ∀ c out rows, engine s c (w ++ b') = some (.ok (out, rows)) →
      Q out (rows ++ w) b') : (sql s : Prog Out E (Out s)).serves engine rely owed Q w b :=
  fun b' hb => ⟨fun c out rows hrun => h b' hb c out rows hrun, fun _ => trivial⟩

theorem serves_require {c : Prop} [Decidable c] {e : E} {Q : Unit → Log Val → Log Val → Prop}
    (h : c → Q () w b) : (require c e : Prog Out E Unit).serves engine rely owed Q w b := by
  unfold require
  split
  · rename_i hc
    exact h hc
  · trivial

theorem serves_orThrow {o : Option α} {e : E} {Q : α → Log Val → Log Val → Prop}
    (h : ∀ a, o = some a → Q a w b) :
    (orThrow o e : Prog Out E α).serves engine rely owed Q w b := by
  cases o with
  | none => trivial
  | some a => exact h a rfl

/-- Statements that write nothing let time pass only. -/
theorem serves_plain (hrely : Relied rely) {P : Stmt → Prop}
    (hP : ∀ s, P s → ∀ c view out rows, engine s c view = some (.ok (out, rows)) → rows = [])
    {p : Prog Out E α} (hp : p.Plain P) {Q : α → Log Val → Log Val → Prop}
    (hQ : ∀ a b', Onward rely w b b' → Q a w b') : p.serves engine rely owed Q w b := by
  induction p generalizing b with
  | ret a => exact hQ a b (Onward.refl hrely)
  | fail e => trivial
  | stmt s next ih =>
      intro b' hb
      refine ⟨fun c out rows hrun => ?_, fun e => ?_⟩
      · rw [hP s hp.1 c _ out rows hrun]
        exact ih _ (hp.2.1 out) fun a b'' hb' => hQ a b'' (hb.trans hrely hb')
      · obtain ⟨e', he⟩ := hp.2.2 e
        rw [he]
        trivial
  | commit next => exact hp.elim
  | rollback next => exact hp.elim

/-- A loop that keeps an assertion about the elements it has done. -/
theorem serves_each {γ : Type} {p : γ → Prog Out E α} {I : List γ → Log Val → Log Val → Prop}
    {Q : List α → Log Val → Log Val → Prop} (cs : List γ)
    (hstep : ∀ c done rest w b, cs = done ++ c :: rest → I done w b →
      (p c).serves engine rely owed (fun _ => I (done ++ [c])) w b)
    (hstart : I [] w b) (hend : ∀ as w b, I cs w b → Q as w b) :
    (each p cs).serves engine rely owed Q w b := by
  suffices hall : ∀ rest done w b, cs = done ++ rest → I done w b →
      (each p rest).serves engine rely owed (fun _ => I cs) w b from
    serves_mono hend (hall cs [] w b rfl hstart)
  intro rest
  induction rest with
  | nil =>
      intro done w b hsplit hdone
      rw [List.append_nil] at hsplit
      rw [hsplit]
      exact hdone
  | cons c rest ih =>
      intro done w b hsplit hdone
      refine serves_bind (serves_mono (fun a w b hnext => ?_) (hstep c done rest w b hsplit hdone))
      refine serves_bind (serves_mono (fun as w b hend => hend) (ih (done ++ [c]) w b ?_ hnext))
      rw [hsplit, List.append_assoc, List.singleton_append]

/-- The program returns only after a commit. -/
def Commits : Prog Out E α → Prop
  | ret _ => False
  | fail _ => True
  | stmt _ next => ∀ r, (next r).Commits
  | commit next => ∀ e, (next (.error e)).Commits
  | rollback next => next.Commits

omit [DecidableEq Key] in
theorem commits_transaction (p : Prog Out E α) : (transaction p).Commits := by
  show (p.andThen finish fun e => rollback (fail e)).Commits
  induction p with
  | ret a => exact fun _ => trivial
  | fail e => trivial
  | stmt s next ih => exact fun r => ih r
  | commit next ih => exact fun e => ih _
  | rollback next ih => exact ih

omit [DecidableEq Key] in
theorem Commits.bind {p : Prog Out E α} (h : p.Commits) (f : α → Prog Out E β) :
    (p >>= f).Commits := by
  show (p.andThen f fail).Commits
  induction p with
  | ret a => exact h.elim
  | fail e => trivial
  | stmt s next ih => exact fun r => ih r (h r)
  | commit next ih => exact fun e => ih _ (h e)
  | rollback next ih => exact ih h

end Prog

section Runs

variable {M : Machine Val Out E R Op} {ok : Sys Val Out E R Op → Action Val E Op → Prop}
  {rely : Log Val → Log Val → Prop} {owed : Op → Log Val → Log Val → Prop}
  {ready : Op → Log Val → Prop} {s₀ s s' : Sys Val Out E R Op}

variable (M ok rely owed ready) in
/-- The programs give their guarantees when they are started where they are ready. -/
structure Serving : Prop where
  relied : Relied rely
  start : ∀ s op, ok s (.start op) → ready op s.db
  program : ∀ op b, ready op b →
    (M.program op).serves M.engine rely (owed op) (fun _ _ _ => True) [] b
  guarantee : ∀ op b b', owed op b b' → rely b b'
  external : ∀ b rows, M.external b rows → rely b (rows ++ b)

variable (M rely owed) in
/-- A process goes on with its guarantee from a log that the others have moved on from. -/
structure Served (db : Log Val) (p : Proc Val Out E R Op) : Prop where
  serves : ∃ b, Onward rely p.writes b db ∧
    p.prog.serves M.engine rely (owed p.op) (fun _ _ _ => True) p.writes b

theorem Served.forth (hrely : Relied rely) {db db' : Log Val} {p : Proc Val Out E R Op}
    (h : Served M rely owed db p) (hdb : rely db db')
    (hheld : ∀ k ∈ p.writes.keys, row k db = row k db') : Served M rely owed db' p := by
  obtain ⟨b, hb, hserves⟩ := h.serves
  exact ⟨b, hb.trans hrely ⟨hdb, hheld⟩, hserves⟩

theorem Served.next {db : Log Val} {p : Proc Val Out E R Op} {prog : Prog Out E R}
    (hserves : prog.serves M.engine rely (owed p.op) (fun _ _ _ => True) [] db)
    (hrely : Relied rely) : Served M rely owed db (p.drop prog) :=
  ⟨db, Onward.refl hrely, hserves⟩

theorem chain_unconditional (log : Log Val) : Chain (fun _ _ _ => True) log := by
  induction log with
  | nil => trivial
  | cons s log ih => exact ⟨trivial, ih⟩

/-- Whatever the programs do. -/
theorem discipline_unconditional (M : Machine Val Out E R Op) :
    Discipline M (fun _ => .free) (fun _ _ _ => True) := by
  have hchain : ∀ log : Log Val, Chain (fun _ _ _ => True) log := chain_unconditional
  exact ⟨fun _ => Prog.wp_unconditional _ _ _, fun _ _ _ _ _ _ _ => hchain _,
    fun _ _ _ _ _ _ _ => trivial, fun _ _ _ _ => hchain _⟩

/-- Every process of a run goes on with its guarantee. -/
theorem Run.served (h : Serving M ok rely owed ready) (h₀ : s₀.procs = [])
    (hrun : Run M ok s₀ s) : ∀ (i : Nat) p, s.procs[i]? = some p → Served M rely owed s.db p := by
  have hd := discipline_unconditional M
  have hstart : Consistent M (fun _ => .free) (fun _ _ _ => True) s₀ :=
    Idle.consistent ⟨chain_unconditional s₀.db, h₀⟩
  refine hrun.invariant (I := fun s => ∀ (i : Nat) p, s.procs[i]? = some p →
    Served M rely owed s.db p) (by simp [h₀]) fun u a v hu hserved ha hs => ?_
  have hcons := Run.consistent hd hstart hu
  cases hs with
  | start op =>
      intro j q hq
      rcases getElem?_concat_cases hq with rfl | hq
      · exact ⟨u.db, Onward.refl h.relied, h.program op u.db (h.start u op ha)⟩
      · exact hserved j q hq
  | answer i c p q next out rows hp hq hanswer hfree =>
      intro j p' hj
      rcases getElem?_set_cases hj with ⟨rfl, rfl⟩ | ⟨-, hold⟩
      · obtain ⟨b, hb, hserves⟩ := (hserved j p hp).serves
        rw [hq] at hserves
        exact ⟨u.db, Onward.refl h.relied, (hserves u.db hb).1 c out rows hanswer⟩
      · exact hserved j p' hold
  | refuse i c p q next e hp hq hanswer =>
      intro j p' hj
      rcases getElem?_set_cases hj with ⟨rfl, rfl⟩ | ⟨-, hold⟩
      · obtain ⟨b, hb, hserves⟩ := (hserved j p hp).serves
        rw [hq] at hserves
        exact .next ((hserves u.db hb).2 e) h.relied
      · exact hserved j p' hold
  | commit i c p next hp hq =>
      intro j p' hj
      obtain ⟨b, hb, hserves⟩ := (hserved i p hp).serves
      rw [hq] at hserves
      obtain ⟨howed, hnext, -⟩ := hserves u.db hb
      rcases getElem?_set_cases hj with ⟨rfl, rfl⟩ | ⟨hne, hold⟩
      · exact ⟨p.writes ++ u.db, Onward.refl h.relied, hnext⟩
      · refine (hserved j p' hold).forth h.relied (h.guarantee p.op _ _ howed) fun k hk => ?_
        refine (row_append_of_not_mem _ fun hmem => ?_).symm
        exact hcons.locks i j p p' (Ne.symm hne) hp hold k hmem hk
  | rollback i c p next hp hq =>
      intro j p' hj
      rcases getElem?_set_cases hj with ⟨rfl, rfl⟩ | ⟨-, hold⟩
      · obtain ⟨b, hb, hserves⟩ := (hserved j p hp).serves
        rw [hq] at hserves
        exact .next (hserves u.db hb) h.relied
      · exact hserved j p' hold
  | fault i p q next e hp hq =>
      intro j p' hj
      rcases getElem?_set_cases hj with ⟨rfl, rfl⟩ | ⟨-, hold⟩
      · obtain ⟨b, hb, hserves⟩ := (hserved j p hp).serves
        rw [hq] at hserves
        exact .next ((hserves u.db hb).2 e) h.relied
      · exact hserved j p' hold
  | faultCommit i p next e hp hq =>
      intro j p' hj
      rcases getElem?_set_cases hj with ⟨rfl, rfl⟩ | ⟨-, hold⟩
      · obtain ⟨b, hb, hserves⟩ := (hserved j p hp).serves
        rw [hq] at hserves
        exact .next ((hserves u.db hb).2.2 e) h.relied
      · exact hserved j p' hold
  | kill i p e hp =>
      intro j p' hj
      rcases getElem?_set_cases hj with ⟨rfl, rfl⟩ | ⟨-, hold⟩
      · exact .next trivial h.relied
      · exact hserved j p' hold
  | env rows hext hfree =>
      intro j p hp
      refine (hserved j p hp).forth h.relied (h.external u.db rows hext) fun k hk => ?_
      refine (row_append_of_not_mem _ fun hmem => hfree k hmem ?_).symm
      exact List.mem_flatMap.mpr ⟨p, List.mem_of_getElem? hp, hk⟩

/-- A commit gives what its program guarantees. -/
theorem Run.guarantees (h : Serving M ok rely owed ready) (h₀ : s₀.procs = [])
    (hrun : Run M ok s₀ s) {i : Nat} {p : Proc Val Out E R Op} (hp : s.procs[i]? = some p) {next}
    (hq : p.prog = .commit next) : owed p.op s.db (p.writes ++ s.db) := by
  obtain ⟨b, hb, hserves⟩ := (hrun.served h h₀ i p hp).serves
  rw [hq] at hserves
  exact (hserves s.db hb).1

/-- A call that has returned has committed a transaction, if its empty transactions give no
guarantee. -/
theorem Run.committed (h : Serving M ok rely owed ready) (hprogram : ∀ op, (M.program op).Commits)
    (howed : ∀ op b, ¬ owed op b b) (h₀ : s₀.procs = []) (hrun : Run M ok s₀ s) :
    ∀ (i : Nat) p, s.procs[i]? = some p → p.past ≠ [] ∨ p.prog.Commits := by
  refine hrun.invariant (I := fun s => ∀ (i : Nat) p, s.procs[i]? = some p →
    p.past ≠ [] ∨ p.prog.Commits) (by simp [h₀]) fun u a v hu hcommitted ha hs => ?_
  cases hs with
  | start op =>
      intro j q hq
      rcases getElem?_concat_cases hq with rfl | hq
      · exact .inr (hprogram op)
      · exact hcommitted j q hq
  | answer i c p q next out rows hp hq hanswer hfree =>
      intro j p' hj
      rcases getElem?_set_cases hj with ⟨rfl, rfl⟩ | ⟨-, hold⟩
      · refine (hcommitted j p hp).imp_right fun hprog => ?_
        rw [hq] at hprog
        exact hprog _
      · exact hcommitted j p' hold
  | refuse i c p q next e hp hq hanswer =>
      intro j p' hj
      rcases getElem?_set_cases hj with ⟨rfl, rfl⟩ | ⟨-, hold⟩
      · refine (hcommitted j p hp).imp_right fun hprog => ?_
        rw [hq] at hprog
        exact hprog _
      · exact hcommitted j p' hold
  | commit i c p next hp hq =>
      intro j p' hj
      rcases getElem?_set_cases hj with ⟨rfl, rfl⟩ | ⟨-, hold⟩
      · refine .inl fun hnil => howed p.op u.db ?_
        have hcalls : p.current = [] := List.map_eq_nil_iff.mp (List.append_eq_nil_iff.mp hnil).1
        have hgives := hu.guarantees h h₀ hp hq
        rwa [Proc.writes, hcalls] at hgives
      · exact hcommitted j p' hold
  | rollback i c p next hp hq =>
      intro j p' hj
      rcases getElem?_set_cases hj with ⟨rfl, rfl⟩ | ⟨-, hold⟩
      · refine (hcommitted j p hp).imp_right fun hprog => ?_
        rw [hq] at hprog
        exact hprog
      · exact hcommitted j p' hold
  | fault i p q next e hp hq =>
      intro j p' hj
      rcases getElem?_set_cases hj with ⟨rfl, rfl⟩ | ⟨-, hold⟩
      · refine (hcommitted j p hp).imp_right fun hprog => ?_
        rw [hq] at hprog
        exact hprog _
      · exact hcommitted j p' hold
  | faultCommit i p next e hp hq =>
      intro j p' hj
      rcases getElem?_set_cases hj with ⟨rfl, rfl⟩ | ⟨-, hold⟩
      · refine (hcommitted j p hp).imp_right fun hprog => ?_
        rw [hq] at hprog
        exact hprog e
      · exact hcommitted j p' hold
  | kill i p e hp =>
      intro j p' hj
      rcases getElem?_set_cases hj with ⟨rfl, rfl⟩ | ⟨-, hold⟩
      · exact .inr trivial
      · exact hcommitted j p' hold
  | env rows hext hfree => exact hcommitted

end Runs
end ReadCommitted
