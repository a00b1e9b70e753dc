import BlocTrust.ReadCommitted.Accounts

/-!
Tables of rows under inserts and conditional updates.
A statement reads, inserts one row, changes one row where a condition holds of its newest
version, or calls something outside the database.  A conduct is careful when no transaction
writes a row twice; then a row after a commit is the committed one, an inserted one, or a
change of the committed one.
-/
namespace ReadCommitted

open Log

/-- Inserts and changes of the rows, with the entries that they take in unique indexes and the
constraints and triggers that they have to pass.  Index entries and other keys that no statement
names as its row are `internal`; the rows of `outside` tables change by other hands only. -/
structure Tables {Key : Type} (Val Change : Key → Type) (E : Type) where
  applies : (k : Key) → Change k → Val k → Bool
  apply : (k : Key) → Change k → Val k → Val k
  entries : (k : Key) → Val k → Log Val
  moved : (k : Key) → Change k → Log Val
  check : (k : Key) → Log Val → Option (Val k) → Val k → Except E Unit
  taken : E
  internal : Key → Bool
  outside : Key → Bool
  entries_internal : ∀ k v, ∀ s ∈ entries k v, internal s.1 = true
  moved_internal : ∀ k c, ∀ s ∈ moved k c, internal s.1 = true

namespace Tables

variable {Key : Type} [DecidableEq Key] {Val Change : Key → Type} {E : Type} {Q X : Type}
  {QOut : Q → Type} {XOut : X → Type}

inductive Stmt (Val Change : Key → Type) (Q X : Type) : Type
  | read (q : Q)
  | insert (k : Key) (v : Val k)
  | update (k : Key) (c : Change k)
  | call (x : X)

/-- An update answers with the number of rows that it changed. -/
@[reducible] def Answer (Val Change : Key → Type) (QOut : Q → Type) (XOut : X → Type) :
    Stmt Val Change Q X → Type
  | .read q => QOut q
  | .insert _ _ => Unit
  | .update _ _ => Nat
  | .call x => XOut x

/-- Queries are answered over a view, and so are calls, which may write internal keys. -/
structure Client {Key : Type} (Val : Key → Type) (E : Type) {Q X : Type} (QOut : Q → Type)
    (XOut : X → Type) where
  answer : Nat → Log Val → (q : Q) → Option (QOut q)
  reply : Nat → Log Val → (x : X) → Option (Except E (XOut x × Log Val))

section Engine

variable (S : Tables Val Change E)

def insertRow (k : Key) (v : Val k) (view : Log Val) : Except E (Unit × Log Val) :=
  if k ∈ view.keys ∨ ∃ s ∈ S.entries k v, s.1 ∈ view.keys then .error S.taken
  else (S.check k view none v).map fun _ => ((), ⟨k, v⟩ :: S.entries k v)

def updateRow (k : Key) (c : Change k) (view : Log Val) : Except E (Nat × Log Val) :=
  match row k view with
  | none => .ok (0, [])
  | some old =>
      if S.applies k c old then
        if ∃ s ∈ S.moved k c, s.1 ∈ view.keys then .error S.taken
        else (S.check k view (some old) (S.apply k c old)).map fun _ =>
          (1, ⟨k, S.apply k c old⟩ :: S.moved k c)
      else .ok (0, [])

def engine (I : Client Val E QOut XOut) :
    Engine Val (Answer Val Change QOut XOut) E
  | .read q, choice, view => (I.answer choice view q).map fun out => .ok (out, [])
  | .insert k v, _, view => some (S.insertRow k v view)
  | .update k c, _, view => some (S.updateRow k c view)
  | .call x, choice, view => I.reply choice view x

/-- The ways in which a statement is answered. -/
inductive Ran (I : Client Val E QOut XOut) (view : Log Val) :
    (s : Stmt Val Change Q X) → Answer Val Change QOut XOut s → Log Val → Prop
  | read {q : Q} {out : QOut q} (choice : Nat) (h : I.answer choice view q = some out) :
      Ran I view (.read q) out []
  | inserted {k : Key} {v : Val k} (hfresh : k ∉ view.keys)
      (hentries : ∀ s ∈ S.entries k v, s.1 ∉ view.keys) (hcheck : S.check k view none v = .ok ()) :
      Ran I view (.insert k v) () (⟨k, v⟩ :: S.entries k v)
  | missed {k : Key} {c : Change k} (h : ∀ v, row k view = some v → S.applies k c v = false) :
      Ran I view (.update k c) (0 : Nat) []
  | updated {k : Key} {c : Change k} (old : Val k) (hrow : row k view = some old)
      (happlies : S.applies k c old = true)
      (hcheck : S.check k view (some old) (S.apply k c old) = .ok ()) :
      Ran I view (.update k c) (1 : Nat) (⟨k, S.apply k c old⟩ :: S.moved k c)
  | called {x : X} {out : XOut x} {rows : Log Val} (choice : Nat)
      (h : I.reply choice view x = some (.ok (out, rows))) : Ran I view (.call x) out rows

variable {S} {I : Client Val E QOut XOut} {view rows : Log Val}

theorem of_map_ok {α β : Type} {x : Except E α} {f : α → β} {b : β} (h : x.map f = .ok b) :
    ∃ a, x = .ok a ∧ f a = b := by
  cases x with
  | error e => cases h
  | ok a => exact ⟨a, rfl, Except.ok.inj h⟩

theorem engine_ran {s : Stmt Val Change Q X} {choice : Nat} {out : Answer Val Change QOut XOut s}
    (h : S.engine I s choice view = some (.ok (out, rows))) : Ran S I view s out rows := by
  cases s with
  | read q =>
      obtain ⟨o, ho, heq⟩ := Option.map_eq_some_iff.mp h
      cases heq
      exact .read choice ho
  | insert k v =>
      have h : S.insertRow k v view = .ok (out, rows) := Option.some.inj h
      unfold insertRow at h
      split at h
      · cases h
      · rename_i hfree
        obtain ⟨u, hcheck, heq⟩ := of_map_ok h
        cases heq
        rw [not_or] at hfree
        exact .inserted hfree.1 (fun s hs hmem => hfree.2 ⟨s, hs, hmem⟩) hcheck
  | update k c =>
      have h : S.updateRow k c view = .ok (out, rows) := Option.some.inj h
      unfold updateRow at h
      split at h
      · rename_i hnone
        cases h
        exact .missed (by simp [hnone])
      · rename_i old hrow
        split at h
        · rename_i happlies
          split at h
          · cases h
          · obtain ⟨u, hcheck, heq⟩ := of_map_ok h
            cases heq
            exact .updated old hrow happlies hcheck
        · rename_i happlies
          cases h
          refine .missed fun v hv => ?_
          rw [hrow] at hv
          cases hv
          simpa using happlies
  | call x => exact .called choice h

theorem Ran.answer {q : Q} {out : QOut q} (h : Ran S I view (.read q) out rows) :
    (∃ choice, I.answer choice view q = some out) ∧ rows = [] := by
  cases h with
  | read choice h => exact ⟨⟨choice, h⟩, rfl⟩

theorem Ran.reply {x : X} {out : XOut x} (h : Ran S I view (.call x) out rows) :
    ∃ choice, I.reply choice view x = some (.ok (out, rows)) := by
  cases h with
  | called choice h => exact ⟨choice, h⟩

/-- A row is replaced by a change that applies to it, except in the outside tables. -/
def Legal (S : Tables Val Change E) : Transition Val
  | _, none, _ => True
  | k, some old, new => S.internal k = true ∨ S.outside k = true ∨
      ∃ c, S.applies k c old = true ∧ new = S.apply k c old

/-- Calls write internal keys only. -/
def Client.Internal (I : Client Val E QOut XOut) (S : Tables Val Change E) : Prop :=
  ∀ choice view x out rows, I.reply choice view x = some (.ok (out, rows)) →
    ∀ s ∈ rows, S.internal s.1 = true

theorem chain_internal (hrows : ∀ s ∈ rows, S.internal s.1 = true) (hc : Chain S.Legal view) :
    Chain S.Legal (rows ++ view) := by
  induction rows with
  | nil => exact hc
  | cons s rows ih =>
      rw [List.cons_append, chain_cons]
      refine ⟨?_, ih fun t ht => hrows t (List.mem_cons_of_mem _ ht)⟩
      cases row s.1 (rows ++ view) with
      | none => trivial
      | some old => exact .inl (hrows s List.mem_cons_self)

theorem row_of_internal (hrows : ∀ s ∈ rows, S.internal s.1 = true) {k : Key}
    (hk : S.internal k = false) : row k (rows ++ view) = row k view := by
  refine row_append_of_not_mem _ fun hmem => ?_
  obtain ⟨s, hs, rfl⟩ := List.mem_map.mp hmem
  rw [hrows s hs] at hk
  cases hk

theorem Ran.chain (hI : I.Internal S) {s : Stmt Val Change Q X} {out : Answer Val Change QOut XOut s}
    (h : Ran S I view s out rows) (hc : Chain S.Legal view) : Chain S.Legal (rows ++ view) := by
  cases h with
  | read choice h => exact hc
  | missed h => exact hc
  | called choice h => exact chain_internal (hI _ _ _ _ _ h) hc
  | @inserted k v hfresh hentries hcheck =>
      rw [List.cons_append, chain_cons]
      refine ⟨?_, chain_internal (S.entries_internal k v) hc⟩
      cases hk : S.internal k with
      | true =>
          cases row k (S.entries k v ++ view) with
          | none => trivial
          | some old => exact .inl hk
      | false =>
          rw [row_of_internal (S.entries_internal k v) hk, row_eq_none.mpr hfresh]
          trivial
  | @updated k c old hrow happlies hcheck =>
      rw [List.cons_append, chain_cons]
      refine ⟨?_, chain_internal (S.moved_internal k c) hc⟩
      cases hk : S.internal k with
      | true =>
          cases row k (S.moved k c ++ view) with
          | none => trivial
          | some old => exact .inl hk
      | false =>
          rw [row_of_internal (S.moved_internal k c) hk, hrow]
          exact .inr (.inr ⟨c, happlies, rfl⟩)

end Engine

section Calls

abbrev Saw (calls : Calls (Answer Val Change QOut XOut)) (q : Q) (out : QOut q) : Prop :=
  (⟨.read q, out⟩ : Sigma (Answer Val Change QOut XOut)) ∈ calls

abbrev Made (calls : Calls (Answer Val Change QOut XOut)) (k : Key) (v : Val k) : Prop :=
  (⟨.insert k v, ()⟩ : Sigma (Answer Val Change QOut XOut)) ∈ calls

abbrev Did (calls : Calls (Answer Val Change QOut XOut)) (k : Key) (c : Change k) (n : Nat) : Prop :=
  (⟨.update k c, n⟩ : Sigma (Answer Val Change QOut XOut)) ∈ calls

abbrev Called (calls : Calls (Answer Val Change QOut XOut)) (x : X) (out : XOut x) : Prop :=
  (⟨.call x, out⟩ : Sigma (Answer Val Change QOut XOut)) ∈ calls

/-- The row has not been written in the transaction. -/
structure Untouched (cur : Calls (Answer Val Change QOut XOut)) (k : Key) : Prop where
  made : ∀ v, ¬ Made cur k v
  did : ∀ c n, Did cur k c n → n = 0

/-- No row is changed after it has been written in a transaction, and no internal key is named. -/
structure Careful (S : Tables Val Change E) (C : Conduct (Answer Val Change QOut XOut)) :
    Prop where
  insert : ∀ past cur k v, C.before past cur (.insert k v) → S.internal k = false
  update : ∀ past cur k c, C.before past cur (.update k c) → S.internal k = false ∧ Untouched cur k

/-- Nothing has been written: only queries, and updates that found no row. -/
def Silent (cur : Calls (Answer Val Change QOut XOut)) : Prop :=
  ∀ c ∈ cur, (∃ q out, c = ⟨.read q, out⟩) ∨ ∃ k c', c = ⟨.update k c', (0 : Nat)⟩

omit [DecidableEq Key] in
theorem silent_nil : Silent ([] : Calls (Answer Val Change QOut XOut)) :=
  fun _ hc => absurd hc List.not_mem_nil

omit [DecidableEq Key] in
theorem Silent.read {cur : Calls (Answer Val Change QOut XOut)} (h : Silent cur) (q : Q)
    (out : QOut q) : Silent (⟨.read q, out⟩ :: cur) := by
  intro c hc
  rcases List.mem_cons.mp hc with rfl | hold
  · exact .inl ⟨q, out, rfl⟩
  · exact h c hold

omit [DecidableEq Key] in
theorem Silent.missed {cur : Calls (Answer Val Change QOut XOut)} (h : Silent cur) (k : Key)
    (c : Change k) : Silent (⟨.update k c, (0 : Nat)⟩ :: cur) := by
  intro c hc
  rcases List.mem_cons.mp hc with rfl | hold
  · exact .inr ⟨_, _, rfl⟩
  · exact h c hold

omit [DecidableEq Key] in
theorem Silent.untouched {cur : Calls (Answer Val Change QOut XOut)} (h : Silent cur) (k : Key) :
    Untouched cur k := by
  constructor
  · intro v hmade
    rcases h _ hmade with ⟨q, out, heq⟩ | ⟨k', c', heq⟩ <;> cases heq
  · intro c n hdid
    rcases h _ hdid with ⟨q, out, heq⟩ | ⟨k', c', heq⟩
    · cases heq
    · cases heq
      rfl

end Calls

section Commit

variable {S : Tables Val Change E} {I : Client Val E QOut XOut} {R Op : Type}
  {C : Op → Conduct (Answer Val Change QOut XOut)} {T : Transition Val}
  {M : Machine Val (Answer Val Change QOut XOut) E R Op} {db : Log Val}
  {p : Proc Val (Answer Val Change QOut XOut) E R Op} {k : Key} {v : Val k}

/-- An event of an open transaction, what came before it, and how it was answered. -/
structure Executed (S : Tables Val Change E) (I : Client Val E QOut XOut)
    (C : Op → Conduct (Answer Val Change QOut XOut))
    (p : Proc Val (Answer Val Change QOut XOut) E R Op) (s : Stmt Val Change Q X)
    (out : Answer Val Change QOut XOut s)
    (newer older : List (Event Val (Answer Val Change QOut XOut))) (rows base : Log Val) :
    Prop where
  current : p.current = newer ++ ⟨s, out, rows, base⟩ :: older
  before : (C p.op).before p.past (older.map Event.call) s
  ran : Ran S I (writes older ++ base) s out rows

/-- A row after a commit. -/
inductive Committed (S : Tables Val Change E) (I : Client Val E QOut XOut)
    (C : Op → Conduct (Answer Val Change QOut XOut)) (db : Log Val)
    (p : Proc Val (Answer Val Change QOut XOut) E R Op) (k : Key) (v : Val k) : Prop
  | kept (hfree : k ∉ p.writes.keys) (hrow : row k db = some v)
  | made (newer older : List (Event Val (Answer Val Change QOut XOut))) (rows base : Log Val)
      (hx : Executed S I C p (.insert k v) () newer older rows base) (hfresh : k ∉ db.keys)
      (hmem : k ∈ rows.keys)
  | changed (newer older : List (Event Val (Answer Val Change QOut XOut))) (rows base : Log Val)
      (c : Change k) (old : Val k)
      (hx : Executed S I C p (.update k c) (1 : Nat) newer older rows base)
      (hold : row k db = some old) (hbase : row k base = some old)
      (happlies : S.applies k c old = true) (hnew : v = S.apply k c old) (hmem : k ∈ rows.keys)

/-- A machine whose statements are those of the tables, run by careful programs. -/
structure Setup (S : Tables Val Change E) (I : Client Val E QOut XOut)
    (M : Machine Val (Answer Val Change QOut XOut) E R Op)
    (C : Op → Conduct (Answer Val Change QOut XOut)) : Prop where
  engine : M.engine = S.engine I
  internal : I.Internal S
  careful : ∀ op, Careful S (C op)

theorem executed_of_split (hS : Setup S I M C) (h : ProcOk M C T db p)
    {newer older : List (Event Val (Answer Val Change QOut XOut))}
    {e : Event Val (Answer Val Change QOut XOut)} (hcur : p.current = newer ++ e :: older) :
    Executed S I C p e.stmt e.out newer older e.rows e.base := by
  have htrace := h.trace
  rw [hcur] at htrace
  obtain ⟨choice, hran⟩ := htrace.executed.ran
  rw [hS.engine] at hran
  exact ⟨hcur, htrace.executed.allowed, engine_ran hran⟩

theorem exists_executed (hS : Setup S I M C) (h : ProcOk M C T db p)
    {s : Stmt Val Change Q X} {out : Answer Val Change QOut XOut s}
    (hcall : (⟨s, out⟩ : Sigma (Answer Val Change QOut XOut)) ∈ p.calls) :
    ∃ newer older rows base, Executed S I C p s out newer older rows base := by
  obtain ⟨e, he, hcall⟩ := List.mem_map.mp hcall
  obtain ⟨newer, older, hcur⟩ := List.append_of_mem he
  obtain ⟨s', out', rows, base⟩ := e
  cases hcall
  exact ⟨newer, older, rows, base, executed_of_split hS h hcur⟩

variable {s : Stmt Val Change Q X} {out : Answer Val Change QOut XOut s}
  {newer older : List (Event Val (Answer Val Change QOut XOut))} {rows base view : Log Val}

theorem Executed.mem (hx : Executed S I C p s out newer older rows base) :
    (⟨s, out, rows, base⟩ : Event Val (Answer Val Change QOut XOut)) ∈ p.current := by
  rw [hx.current]
  exact List.mem_append_right _ List.mem_cons_self

theorem Executed.call (hx : Executed S I C p s out newer older rows base) :
    (⟨s, out⟩ : Sigma (Answer Val Change QOut XOut)) ∈ p.calls :=
  List.mem_map_of_mem hx.mem

theorem Executed.calls_subset (hx : Executed S I C p s out newer older rows base) :
    older.map Event.call ⊆ p.calls := by
  rw [Proc.calls, hx.current, List.map_append, List.map_cons]
  exact fun c hc => List.mem_append_right _ (List.mem_cons_of_mem _ hc)

theorem Executed.written (hx : Executed S I C p s out newer older rows base)
    (hk : k ∈ rows.keys) : k ∈ p.writes.keys :=
  mem_keys_writes.mpr ⟨_, hx.mem, hk⟩

/-- Of two events of a transaction one comes first. -/
theorem Executed.order {s' : Stmt Val Change Q X} {out' : Answer Val Change QOut XOut s'}
    {newer' older' : List (Event Val (Answer Val Change QOut XOut))} {rows' base' : Log Val}
    (hx : Executed S I C p s out newer older rows base)
    (hx' : Executed S I C p s' out' newer' older' rows' base') :
    (⟨s, out⟩ : Sigma (Answer Val Change QOut XOut)) = ⟨s', out'⟩ ∨
      (⟨s, out⟩ : Sigma (Answer Val Change QOut XOut)) ∈ older'.map Event.call ∨
        (⟨s', out'⟩ : Sigma (Answer Val Change QOut XOut)) ∈ older.map Event.call := by
  have hboth := hx.current.symm.trans hx'.current
  rcases List.append_eq_append_iff.mp hboth with ⟨mid, hnewer, hrest⟩ | ⟨mid, hnewer, hrest⟩
  · cases mid with
    | nil =>
        have heq := (List.cons.inj hrest).1
        exact .inl (congrArg Event.call heq)
    | cons e mid =>
        have htail := (List.cons.inj hrest).2
        refine .inr (.inr (List.mem_map.mpr ⟨⟨s', out', rows', base'⟩, ?_, rfl⟩))
        rw [htail]
        exact List.mem_append_right _ List.mem_cons_self
  · cases mid with
    | nil =>
        have heq := (List.cons.inj hrest).1
        exact .inl (congrArg Event.call heq).symm
    | cons e mid =>
        have htail := (List.cons.inj hrest).2
        refine .inr (.inl (List.mem_map.mpr ⟨⟨s, out, rows, base⟩, ?_, rfl⟩))
        rw [htail]
        exact List.mem_append_right _ List.mem_cons_self

/-- The statement of an event that wrote a row, and what it wrote. -/
theorem Ran.writer (hI : I.Internal S) (hran : Ran S I view s out rows)
    (hk : S.internal k = false) (hmem : k ∈ rows.keys) :
    (∃ v, s = .insert k v ∧ row k rows = some v) ∨
      ∃ c old, (⟨s, out⟩ : Sigma (Answer Val Change QOut XOut)) = ⟨.update k c, (1 : Nat)⟩ ∧
        row k view = some old ∧ S.applies k c old = true ∧
        row k rows = some (S.apply k c old) := by
  have hnot : ∀ rows' : Log Val, (∀ s ∈ rows', S.internal s.1 = true) → k ∉ rows'.keys := by
    intro rows' hrows hmem
    obtain ⟨t, ht, rfl⟩ := List.mem_map.mp hmem
    rw [hrows t ht] at hk
    cases hk
  cases hran with
  | read choice h => simp at hmem
  | missed h => simp at hmem
  | called choice h => exact absurd hmem (hnot _ (hI _ _ _ _ _ h))
  | @inserted k' v' hfresh hentries hcheck =>
      rcases List.mem_cons.mp hmem with rfl | hrest
      · exact .inl ⟨v', rfl, row_cons_self ..⟩
      · exact absurd hrest (hnot _ (S.entries_internal k' v'))
  | @updated k' c old hrow happlies hcheck =>
      rcases List.mem_cons.mp hmem with rfl | hrest
      · exact .inr ⟨c, old, rfl, hrow, happlies, row_cons_self ..⟩
      · exact absurd hrest (hnot _ (S.moved_internal k' c))

variable (hS : Setup S I M C)

include hS

/-- Nothing before an event wrote a row that is untouched by then. -/
theorem Untouched.not_written (h : ProcOk M C T db p)
    {e : Event Val (Answer Val Change QOut XOut)} (hcur : p.current = newer ++ e :: older)
    (hk : S.internal k = false) (hu : Untouched (older.map Event.call) k) :
    k ∉ (writes older).keys := by
  intro hmem
  obtain ⟨e', he', hke⟩ := mem_keys_writes.mp hmem
  have hcall : e'.call ∈ older.map Event.call := List.mem_map_of_mem he'
  obtain ⟨newer', older', hold⟩ := List.append_of_mem he'
  have hcur' : p.current = (newer ++ e :: newer') ++ e' :: older' := by simp [hcur, hold]
  have hx := executed_of_split hS h hcur'
  obtain ⟨s, out, rows, base⟩ := e'
  rcases hx.ran.writer hS.internal hk hke with ⟨v, heq, -⟩ | ⟨c, old, heq, -⟩
  · cases heq
    exact hu.made v hcall
  · cases heq
    exact absurd (hu.did c 1 hcall) Nat.one_ne_zero

/-- An event that writes a row is the first to do so. -/
theorem Executed.first (h : ProcOk M C T db p) (hx : Executed S I C p s out newer older rows base)
    (hk : S.internal k = false) (hmem : k ∈ rows.keys) : k ∉ (writes older).keys := by
  rcases hx.ran.writer hS.internal hk hmem with ⟨v, heq, -⟩ | ⟨c, old, heq, -⟩
  · subst heq
    have hran := hx.ran
    cases hran with
    | inserted hfresh _ _ =>
        intro hold
        rw [keys_append] at hfresh
        exact hfresh (List.mem_append_left _ hold)
  · cases heq
    exact Untouched.not_written hS h hx.current hk ((hS.careful _).update _ _ _ _ hx.before).2

/-- Two events of a transaction that write one row are the same. -/
theorem Executed.unique (h : ProcOk M C T db p)
    {s' : Stmt Val Change Q X} {out' : Answer Val Change QOut XOut s'}
    {newer' older' : List (Event Val (Answer Val Change QOut XOut))} {rows' base' : Log Val}
    (hx : Executed S I C p s out newer older rows base)
    (hx' : Executed S I C p s' out' newer' older' rows' base') (hk : S.internal k = false)
    (hmem : k ∈ rows.keys) (hmem' : k ∈ rows'.keys) :
    (⟨s, out, rows, base⟩ : Event Val (Answer Val Change QOut XOut)) = ⟨s', out', rows', base'⟩ := by
  have hin := hx.mem
  rw [hx'.current] at hin
  rcases List.mem_append.mp hin with hnewer | hrest
  · obtain ⟨as, bs, hsplit⟩ := List.append_of_mem hnewer
    have hcur : p.current =
        as ++ ⟨s, out, rows, base⟩ :: (bs ++ ⟨s', out', rows', base'⟩ :: older') := by
      rw [hx'.current, hsplit]
      simp
    have hfirst := Executed.first hS h (executed_of_split hS h hcur) hk hmem
    refine absurd ?_ hfirst
    exact mem_keys_writes.mpr ⟨_, List.mem_append_right _ List.mem_cons_self, hmem'⟩
  · rcases List.mem_cons.mp hrest with heq | holder
    · exact heq
    · refine absurd ?_ (Executed.first hS h hx' hk hmem')
      exact mem_keys_writes.mpr ⟨_, holder, hmem⟩

theorem Executed.old_row (h : ProcOk M C T db p)
    (hx : Executed S I C p s out newer older rows base) (hk : S.internal k = false)
    (hmem : k ∈ rows.keys) : row k (writes older ++ base) = row k base ∧ row k base = row k db :=
  ⟨row_append_of_not_mem _ (Executed.first hS h hx hk hmem), h.held hx.mem hmem⟩

theorem Executed.committed (h : ProcOk M C T db p)
    (hx : Executed S I C p s out newer older rows base) (hk : S.internal k = false)
    (hv : row k rows = some v) : Committed S I C db p k v := by
  have hmem := mem_keys_of_row hv
  obtain ⟨hview, hbase⟩ := Executed.old_row hS h hx hk hmem
  rcases hx.ran.writer hS.internal hk hmem with
    ⟨w, rfl, hw⟩ | ⟨c, old, heq, hrow, happlies, hw⟩
  · have hsame : w = v := Option.some.inj (hw.symm.trans hv)
    subst hsame
    refine .made newer older rows base hx ?_ hmem
    have hran := hx.ran
    cases hran with
    | inserted hfresh _ _ =>
        rw [← row_eq_none, ← hbase, ← hview, row_eq_none]
        exact hfresh
  · cases heq
    rw [hview] at hrow
    exact .changed newer older rows base c old hx (hbase.symm.trans hrow) hrow happlies
      (Option.some.inj (hv.symm.trans hw)) hmem

/-- A row of the log after the commit is committed already, inserted, or changed. -/
theorem commit_row (h : ProcOk M C T db p) (hk : S.internal k = false)
    (hv : row k (p.writes ++ db) = some v) : Committed S I C db p k v := by
  by_cases hmem : k ∈ p.writes.keys
  · obtain ⟨w, hw⟩ := exists_row_of_mem_keys hmem
    rw [row_append_of_row _ hw] at hv
    cases hv
    obtain ⟨newer, e, older, hcur, hrow, -⟩ := exists_writer hw
    exact Executed.committed hS h (executed_of_split hS h hcur) hk hrow
  · rw [row_append_of_not_mem _ hmem] at hv
    exact .kept hmem hv

/-- What an event wrote is there after the commit. -/
theorem Executed.final_row (h : ProcOk M C T db p)
    (hx : Executed S I C p s out newer older rows base) (hk : S.internal k = false)
    (hv : row k rows = some v) : row k (p.writes ++ db) = some v := by
  obtain ⟨w, hw⟩ := exists_row_of_mem_keys (hx.written (mem_keys_of_row hv))
  obtain ⟨newer', e, older', hcur, hrow, -⟩ := exists_writer hw
  have hsame := Executed.unique hS h hx (executed_of_split hS h hcur) hk (mem_keys_of_row hv)
    (mem_keys_of_row hrow)
  have hrows : rows = e.rows := congrArg Event.rows hsame
  rw [← hrows, hv] at hrow
  rw [row_append_of_row _ hw, hrow]

/-- An event that an event of the transaction has in its calls. -/
theorem Executed.earlier (h : ProcOk M C T db p) (hx : Executed S I C p s out newer older rows base)
    {s' : Stmt Val Change Q X} {out' : Answer Val Change QOut XOut s'}
    (hcall : (⟨s', out'⟩ : Sigma (Answer Val Change QOut XOut)) ∈ older.map Event.call) :
    ∃ mid older' rows' base', older = mid ++ ⟨s', out', rows', base'⟩ :: older' ∧
      Executed S I C p s' out' (newer ++ ⟨s, out, rows, base⟩ :: mid) older' rows' base' := by
  obtain ⟨e, he, hcall⟩ := List.mem_map.mp hcall
  obtain ⟨mid, older', hold⟩ := List.append_of_mem he
  obtain ⟨s'', out'', rows', base'⟩ := e
  cases hcall
  have hcur : p.current =
      (newer ++ ⟨s, out, rows, base⟩ :: mid) ++ ⟨s'', out'', rows', base'⟩ :: older' := by
    rw [hx.current, hold]
    simp
  exact ⟨mid, older', rows', base', hold, executed_of_split hS h hcur⟩

omit hS in
/-- A row that an earlier event found is in the view of a later one. -/
theorem Executed.sees {P : (k : Key) → Val k → Val k → Prop} (hP : Persists T P)
    (h : ProcOk M C T db p) (hx : Executed S I C p s out newer older rows base)
    {s' : Stmt Val Change Q X} {out' : Answer Val Change QOut XOut s'}
    {mid older' : List (Event Val (Answer Val Change QOut XOut))} {rows' base' : Log Val}
    (hold : older = mid ++ ⟨s', out', rows', base'⟩ :: older')
    (hv : row k (writes older' ++ base') = some v) :
    ∃ w, row k (writes older ++ base) = some w ∧ P k v w := by
  have hcur := hx.current
  rw [hold] at hcur ⊢
  exact h.carried_between hP hcur hv

/-- After an update of a row in the view the row is as it leaves it, or was as it requires. -/
theorem did_settled {K : (k : Key) → Val k → Val k → Prop} (hK : Persists T K)
    (h : ProcOk M C T db p) (hk : S.internal k = false) {c : Change k} {n : Nat}
    (hd : Did p.calls k c n) {P : Val k → Prop}
    (hthere : ∀ newer older rows base, Executed S I C p (.update k c) n newer older rows base →
      ∃ v, row k (writes older ++ base) = some v)
    (hstays : ∀ v w, K k v w → P v → P w)
    (hdone : ∀ v, S.applies k c v = true → P (S.apply k c v))
    (hmissed : ∀ v, S.applies k c v = false → P v) :
    ∃ v, row k (p.writes ++ db) = some v ∧ P v := by
  obtain ⟨newer, older, rows, base, hx⟩ := exists_executed hS h hd
  obtain ⟨v, hv⟩ := hthere newer older rows base hx
  have hran := hx.ran
  cases hran with
  | missed hnone =>
      obtain ⟨w, hw, hkept⟩ := h.carried hK hx.current hv
      exact ⟨w, hw, hstays v w hkept (hmissed v (hnone v hv))⟩
  | updated old hrow happlies hcheck =>
      exact ⟨_, Executed.final_row hS h hx hk (row_cons_self ..), hdone old happlies⟩

/-- A kind of statement that is issued once in a transaction. -/
theorem only_once (h : ProcOk M C T db p) {A : Sigma (Answer Val Change QOut XOut) → Prop}
    (hA : ∀ cur s out, (C p.op).before p.past cur s → A ⟨s, out⟩ → ∀ c ∈ cur, ¬ A c)
    {c c' : Sigma (Answer Val Change QOut XOut)} (hc : c ∈ p.calls) (hc' : c' ∈ p.calls)
    (hAc : A c) (hAc' : A c') : c = c' := by
  obtain ⟨newer, older, rows, base, hx⟩ := exists_executed hS h hc
  obtain ⟨newer', older', rows', base', hx'⟩ := exists_executed hS h hc'
  rcases hx.order hx' with heq | hold | hold
  · exact heq
  · exact absurd hAc (hA _ _ _ hx'.before hAc' _ hold)
  · exact absurd hAc' (hA _ _ _ hx.before hAc _ hold)

/-- An update that found its row changes it in the commit. -/
theorem did_update (h : ProcOk M C T db p) {c : Change k} (hk : S.internal k = false)
    (hd : Did p.calls k c 1) : ∃ old, row k db = some old ∧ S.applies k c old = true ∧
      row k (p.writes ++ db) = some (S.apply k c old) := by
  obtain ⟨newer, older, rows, base, hx⟩ := exists_executed hS h hd
  have hran := hx.ran
  cases hran with
  | updated old hrow happlies hcheck =>
      have hv : row k (⟨k, S.apply k c old⟩ :: S.moved k c) = some (S.apply k c old) :=
        row_cons_self ..
      obtain ⟨hview, hbase⟩ := Executed.old_row hS h hx hk (mem_keys_of_row hv)
      rw [hview, hbase] at hrow
      exact ⟨old, hrow, happlies, Executed.final_row hS h hx hk hv⟩

/-- The call inserted the row or changed it. -/
def Wrote (k : Key) (c : Sigma (Answer Val Change QOut XOut)) : Prop :=
  (∃ v, c = ⟨.insert k v, ()⟩) ∨ ∃ ch, c = ⟨.update k ch, (1 : Nat)⟩

omit hS in
theorem Executed.wrote (hx : Executed S I C p s out newer older rows base)
    (hw : Wrote k ⟨s, out⟩) : k ∈ rows.keys := by
  have hran := hx.ran
  rcases hw with ⟨v, heq⟩ | ⟨ch, heq⟩ <;> cases heq <;> cases hran <;> exact List.mem_cons_self

/-- The answers of a transaction that has only read so far are those of the committed log. -/
theorem silent_writes (h : ProcOk M C T db p)
    {e : Event Val (Answer Val Change QOut XOut)} (hcur : p.current = newer ++ e :: older)
    (hsilent : Silent (older.map Event.call)) : writes older = [] := by
  have hrows : ∀ e' ∈ older, e'.rows = [] := by
    intro e' he'
    obtain ⟨newer', older', hold⟩ := List.append_of_mem he'
    have hcur' : p.current = (newer ++ e :: newer') ++ e' :: older' := by simp [hcur, hold]
    have hran := (executed_of_split hS h hcur').ran
    have hcall := hsilent _ (List.mem_map_of_mem he')
    obtain ⟨s, out, rows, base⟩ := e'
    rcases hcall with ⟨q, o, heq⟩ | ⟨k, c', heq⟩ <;> cases heq <;> cases hran <;> rfl
  unfold writes
  rw [List.flatMap_eq_nil_iff]
  exact hrows

end Commit

section Machine

variable (S : Tables Val Change E) (I : Client Val E QOut XOut) {R Op : Type}

/-- Programs over the tables, while the outside tables change by other hands. -/
def machine (program : Op → Prog (Answer Val Change QOut XOut) E R) :
    Machine Val (Answer Val Change QOut XOut) E R Op where
  engine := S.engine I
  program := program
  external _ rows := ∀ s ∈ rows, S.outside s.1 = true

variable {S I} {program : Op → Prog (Answer Val Change QOut XOut) E R}
  {C : Op → Conduct (Answer Val Change QOut XOut)}

theorem setup (hI : I.Internal S) (hC : ∀ op, Careful S (C op)) :
    Setup S I (S.machine I program) C := ⟨rfl, hI, hC⟩

theorem chain_outside {db rows : Log Val} (hrows : ∀ s ∈ rows, S.outside s.1 = true)
    (hc : Chain S.Legal db) : Chain S.Legal (rows ++ db) := by
  induction rows with
  | nil => exact hc
  | cons s rows ih =>
      rw [List.cons_append, chain_cons]
      refine ⟨?_, ih fun t ht => hrows t (List.mem_cons_of_mem _ ht)⟩
      cases row s.1 (rows ++ db) with
      | none => trivial
      | some old => exact .inr (.inl (hrows s List.mem_cons_self))

/-- Rows of the other tables do not change from outside. -/
theorem outside_row {db rows : Log Val} {k : Key} (hrows : ∀ s ∈ rows, S.outside s.1 = true)
    (hk : S.outside k = false) : row k (rows ++ db) = row k db := by
  refine row_append_of_not_mem _ fun hmem => ?_
  obtain ⟨s, hs, rfl⟩ := List.mem_map.mp hmem
  rw [hrows s hs] at hk
  cases hk

theorem discipline (hI : I.Internal S)
    (hprogram : ∀ op, (program op).wp (C op) (fun _ _ _ => True) (fun _ _ _ => True) [] [])
    (hanswers : ∀ op view s out rows, Ran S I view s out rows → (C op).answers s out) :
    Discipline (S.machine I program) C S.Legal where
  program := hprogram
  legal _ _ _ _ _ hrun hc := (engine_ran hrun).chain hI hc
  answers op _ _ _ _ _ hrun := hanswers op _ _ _ _ (engine_ran hrun)
  external _ _ hrows hc := chain_outside hrows hc

end Machine

section Once

/-- Changes of which a row admits one in its life: they leave a mark that stays. -/
structure Once (S : Tables Val Change E) (P : (k : Key) → Change k → Prop)
    (marked : (k : Key) → Val k → Prop) : Prop where
  key : ∀ k c, P k c → S.internal k = false
  marks : ∀ k c v, P k c → marked k (S.apply k c v)
  stays : ∀ k old new, marked k old → S.Legal k (some old) new → marked k new
  blocks : ∀ k c v, P k c → marked k v → S.applies k c v = false

variable {S : Tables Val Change E} {I : Client Val E QOut XOut} {R Op : Type}
  {C : Op → Conduct (Answer Val Change QOut XOut)}
  {M : Machine Val (Answer Val Change QOut XOut) E R Op}
  {P : (k : Key) → Change k → Prop} {marked : (k : Key) → Val k → Prop}
  {ok : Sys Val (Answer Val Change QOut XOut) E R Op → Action Val E Op → Prop}
  {s₀ s : Sys Val (Answer Val Change QOut XOut) E R Op}

theorem Once.stays_later (hO : Once S P marked) {older newer : Log Val} (hc : Chain S.Legal newer)
    (hs : older <:+ newer) {k : Key} (h : ∃ v, row k older = some v ∧ marked k v) :
    ∃ v, row k newer = some v ∧ marked k v := by
  obtain ⟨v, hv, hmark⟩ := h
  have hkept : Persists S.Legal fun k old new => marked k old → marked k new :=
    ⟨fun _ _ h => h, fun _ _ _ _ h h' hm => h' (h hm), fun k u v hl hm => hO.stays k u v hm hl⟩
  obtain ⟨w, hw, hkeep⟩ := hc.related hkept hs hv
  exact ⟨w, hw, hkeep hmark⟩

/-- Only one call ever makes such a change to a row. -/
theorem Once.unique (hO : Once S P marked) (hS : Setup S I M C) (hd : Discipline M C S.Legal)
    (h₀ : Idle S.Legal s₀) (h : Run M ok s₀ s) {i j : Nat}
    {p q : Proc Val (Answer Val Change QOut XOut) E R Op} (hp : s.procs[i]? = some p)
    (hq : s.procs[j]? = some q) {k : Key} {c c' : Change k} (hc : P k c) (hc' : P k c')
    (hdid : Did p.past k c 1) (hdid' : Did q.past k c' 1) : i = j := by
  suffices hall : ∀ (i : Nat) p, s.procs[i]? = some p → ∀ k c, P k c → Did p.past k c 1 →
      (∃ v, row k s.db = some v ∧ marked k v) ∧
        ∀ (j : Nat) q, s.procs[j]? = some q → ∀ c', P k c' → Did q.past k c' 1 → i = j from
    (hall i p hp k c hc hdid).2 j q hq c' hc' hdid'
  clear hp hq hdid hdid' hc hc'
  refine h.invariant (I := fun s => ∀ (i : Nat) p, s.procs[i]? = some p → ∀ k c, P k c →
    Did p.past k c 1 → (∃ v, row k s.db = some v ∧ marked k v) ∧
      ∀ (j : Nat) q, s.procs[j]? = some q → ∀ c', P k c' → Did q.past k c' 1 → i = j) ?_ ?_
  · intro i p hp
    simp [h₀.procs] at hp
  · intro s a s' hrun ih ha hs i p hp k c hc hdid
    have hcons := Run.consistent hd h₀.consistent hrun
    have hchain := (hcons.step hd hs).chain
    have hfresh : ∀ (l : Nat) r next c, s.procs[l]? = some r → r.prog = .commit next → P k c →
        Did r.calls k c 1 → (∃ v, row k (r.writes ++ s.db) = some v ∧ marked k v) ∧
          ∀ v, row k s.db = some v → ¬ marked k v := by
      intro l r next c hr hq hc hdid
      obtain ⟨old, hold, happlies, hnew⟩ := did_update hS (hcons.proc l r hr) (hO.key k c hc) hdid
      refine ⟨⟨_, hnew, hO.marks k c old hc⟩, fun v hv hmark => ?_⟩
      rw [hold] at hv
      cases hv
      rw [hO.blocks k c old hc hmark] at happlies
      cases happlies
    cases hs.past_cases hp with
    | fresh hpast =>
        rw [hpast] at hdid
        exact absurd hdid List.not_mem_nil
    | same p' hp' hop hpast =>
        rw [hpast] at hdid
        obtain ⟨hmarked, hunique⟩ := ih i p' hp' k c hc hdid
        refine ⟨hO.stays_later hchain hs.suffix hmarked, fun j q hq c' hc' hdid' => ?_⟩
        cases hs.past_cases hq with
        | fresh hpast' =>
            rw [hpast'] at hdid'
            exact absurd hdid' List.not_mem_nil
        | same q' hq' hop' hpast' => exact hunique j q' hq' c' hc' (hpast' ▸ hdid')
        | commits q' next ch hq' hst ha' hop' hpast' hdb =>
            rw [hpast'] at hdid'
            rcases List.mem_append.mp hdid' with hnew | hold
            · obtain ⟨v, hv, hmark⟩ := hmarked
              exact absurd hmark ((hfresh j q' next c' hq' hst hc' hnew).2 v hv)
            · exact hunique j q' hq' c' hc' hold
    | commits p' next ch hp' hst ha' hop hpast hdb =>
        have hother : ∀ (j : Nat) q, s'.procs[j]? = some q → ∀ c', P k c' → Did q.past k c' 1 →
            i = j ∨ ∃ q', s.procs[j]? = some q' ∧ Did q'.past k c' 1 := by
          intro j q hq c' hc' hdid'
          cases hs.past_cases hq with
          | fresh hpast' =>
              rw [hpast'] at hdid'
              exact absurd hdid' List.not_mem_nil
          | same q' hq' hop' hpast' => exact .inr ⟨q', hq', hpast' ▸ hdid'⟩
          | commits q' next' ch' hq' hst' ha'' hop' hpast' hdb' =>
              rw [ha'] at ha''
              cases ha''
              exact .inl rfl
        rw [hpast] at hdid
        rcases List.mem_append.mp hdid with hnew | hold
        · obtain ⟨hmarked, hclean⟩ := hfresh i p' next c hp' hst hc hnew
          refine ⟨hdb ▸ hmarked, fun j q hq c' hc' hdid' => ?_⟩
          rcases hother j q hq c' hc' hdid' with hij | ⟨q', hq', hpast'⟩
          · exact hij
          · obtain ⟨v, hv, hmark⟩ := (ih j q' hq' k c' hc' hpast').1
            exact absurd hmark (hclean v hv)
        · obtain ⟨hmarked, hunique⟩ := ih i p' hp' k c hc hold
          refine ⟨hO.stays_later hchain hs.suffix hmarked, fun j q hq c' hc' hdid' => ?_⟩
          rcases hother j q hq c' hc' hdid' with hij | ⟨q', hq', hpast'⟩
          · exact hij
          · exact hunique j q' hq' c' hc' hpast'

/-- A kind of statement that no call issues again. -/
def Single (C : Op → Conduct (Answer Val Change QOut XOut))
    (A : Sigma (Answer Val Change QOut XOut) → Prop) : Prop :=
  ∀ op past cur q out, (C op).before past cur q → A ⟨q, out⟩ → ∀ c ∈ cur ++ past, ¬ A c

variable {A : Sigma (Answer Val Change QOut XOut) → Prop}

/-- What an open transaction has issued of it, nothing was committed of before. -/
theorem Single.fresh (hA : Single C A) (hS : Setup S I M C) {T : Transition Val} {db : Log Val}
    {p : Proc Val (Answer Val Change QOut XOut) E R Op} (h : ProcOk M C T db p)
    {c : Sigma (Answer Val Change QOut XOut)} (hc : c ∈ p.calls) (hAc : A c) :
    ∀ old ∈ p.past, ¬ A old := by
  obtain ⟨q, out⟩ := c
  obtain ⟨newer, older, rows, base, hx⟩ := exists_executed hS h hc
  exact fun old hold => hA _ _ _ _ _ hx.before hAc old (List.mem_append_right _ hold)

/-- A call commits one statement of it at most. -/
theorem Single.unique (hA : Single C A) (hS : Setup S I M C) {T : Transition Val}
    (hd : Discipline M C T) (h₀ : Idle T s₀) (h : Run M ok s₀ s) :
    ∀ (i : Nat) p, s.procs[i]? = some p → ∀ c ∈ p.past, ∀ c' ∈ p.past, A c → A c' → c = c' := by
  refine h.invariant (I := fun s => ∀ (i : Nat) p, s.procs[i]? = some p →
    ∀ c ∈ p.past, ∀ c' ∈ p.past, A c → A c' → c = c') ?_ ?_
  · intro i p hp
    simp [h₀.procs] at hp
  · intro s a s' hrun ih _ hs i p hp c hc c' hc' hAc hAc'
    have hcons := Run.consistent hd h₀.consistent hrun
    cases hs.past_cases hp with
    | fresh hpast =>
        rw [hpast] at hc
        exact absurd hc List.not_mem_nil
    | same q hq hop hpast =>
        rw [hpast] at hc hc'
        exact ih i q hq c hc c' hc' hAc hAc'
    | commits q next ch hq hst ha hop hpast hdb =>
        have hproc := hcons.proc i q hq
        rw [hpast] at hc hc'
        rcases List.mem_append.mp hc with hnew | hold
        · rcases List.mem_append.mp hc' with hnew' | hold'
          · refine only_once hS hproc (fun cur q out hbefore hAq c hmem => ?_) hnew hnew' hAc hAc'
            exact hA _ _ _ _ _ hbefore hAq c (List.mem_append_left _ hmem)
          · exact absurd hAc' (hA.fresh hS hproc hnew hAc c' hold')
        · rcases List.mem_append.mp hc' with hnew' | hold'
          · exact absurd hAc (hA.fresh hS hproc hnew' hAc' c hold)
          · exact ih i q hq c hold c' hold' hAc hAc'

end Once

section Programs

variable {C : Conduct (Answer Val Change QOut XOut)} {ι : Type} {key : ι → Key}
  {change : (i : ι) → Change (key i)} {past cur cur' : Calls (Answer Val Change QOut XOut)}
  {R : E → Calls (Answer Val Change QOut XOut) → Calls (Answer Val Change QOut XOut) → Prop}

/-- `cur'` continues `cur` with one update for each of `done`. -/
structure Rounds (key : ι → Key) (change : (i : ι) → Change (key i))
    (cur cur' : Calls (Answer Val Change QOut XOut)) (done : List ι) : Prop where
  sub : cur ⊆ cur'
  only : ∀ call ∈ cur', call ∈ cur ∨ ∃ i ∈ done, ∃ n : Nat, call = ⟨.update (key i) (change i), n⟩
  all : ∀ i ∈ done, ∃ n, Did cur' (key i) (change i) n

omit [DecidableEq Key] in
/-- A loop that issues one update for each of several rows. -/
theorem updateEach_wp {ids : List ι}
    {Q : List Nat → Calls (Answer Val Change QOut XOut) → Calls (Answer Val Change QOut XOut) → Prop}
    (hnodup : ids.Nodup)
    (hbefore : ∀ i ∈ ids, ∀ done cur', i ∉ done → done ⊆ ids → Rounds key change cur cur' done →
      C.before past cur' (.update (key i) (change i)))
    (hR : ∀ e, R e past [])
    (hQ : ∀ counts cur', Rounds key change cur cur' ids → Q counts past cur') :
    (Prog.each (fun i => Prog.sql (Stmt.update (key i) (change i))) ids).wp C Q R past cur := by
  have hloop := Prog.wp_each (C := C) (R := R)
    (fun i => (Prog.sql (Stmt.update (key i) (change i)) :
      Prog (Answer Val Change QOut XOut) E Nat)) ids
    (fun done past' cur' => past' = past ∧ Rounds key change cur cur' done) ?_ ids [] rfl
    ⟨rfl, fun _ h => h, fun _ h => .inl h, by simp⟩
  · refine Prog.wp_mono ?_ (fun _ _ _ h => h) hloop
    rintro counts past' cur' ⟨rfl, hrounds⟩
    exact hQ counts cur' hrounds
  · rintro i done rest past' cur' hall ⟨rfl, hrounds⟩
    have hmem : i ∈ ids := by simp [hall]
    have hfresh : i ∉ done := by
      rw [hall] at hnodup
      intro h
      exact (List.disjoint_of_nodup_append hnodup) h List.mem_cons_self
    have hsub : done ⊆ ids := by
      rw [hall]
      exact List.subset_append_left _ _
    refine ⟨hbefore i hmem done cur' hfresh hsub hrounds, fun n _ => ⟨rfl, ?_⟩, fun e => hR e⟩
    refine ⟨fun _ h => List.mem_cons_of_mem _ (hrounds.sub h), fun call hcall => ?_, fun j hj => ?_⟩
    · rcases List.mem_cons.mp hcall with rfl | hold
      · exact .inr ⟨i, by simp, n, rfl⟩
      · refine (hrounds.only call hold).imp_right ?_
        rintro ⟨j, hj, m, rfl⟩
        exact ⟨j, List.mem_append_left _ hj, m, rfl⟩
    · rcases List.mem_append.mp hj with hj | hj
      · obtain ⟨m, hm⟩ := hrounds.all j hj
        exact ⟨m, List.mem_cons_of_mem _ hm⟩
      · rw [List.mem_singleton.mp hj]
        exact ⟨n, List.mem_cons_self⟩

end Programs
end Tables
end ReadCommitted
