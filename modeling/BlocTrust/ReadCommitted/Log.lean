import Mathlib.Data.List.Dedup
import Mathlib.Data.List.Sigma
import Mathlib.Data.List.Infix
import Mathlib.Data.List.Perm.Basic

/-!
Row versions of a database as one list, newest first.
A key names a row (or a lock); its current version is the first entry of the list with
that key, and the entries behind it are the versions it replaced.  A transaction's
uncommitted versions are put in front of the committed list to form its view.
-/
namespace ReadCommitted

variable {Key : Type} [DecidableEq Key] {Val : Key → Type}

abbrev Log (Val : Key → Type) := List (Sigma Val)

/-- What a new version of a row may be, given the version it replaces. -/
abbrev Transition (Val : Key → Type) := (k : Key) → Option (Val k) → Val k → Prop

namespace Log

/-- The current version of the row `k`. -/
def row (k : Key) (log : Log Val) : Option (Val k) := log.dlookup k

@[simp] theorem row_nil (k : Key) : row k ([] : Log Val) = none := rfl

@[simp] theorem row_cons_self (k : Key) (v : Val k) (log : Log Val) :
    row k (⟨k, v⟩ :: log) = some v := List.dlookup_cons_eq ..

theorem row_cons_ne {k : Key} (s : Sigma Val) (log : Log Val) (h : k ≠ s.1) :
    row k (s :: log) = row k log := List.dlookup_cons_ne _ _ h

theorem row_append (k : Key) (a b : Log Val) :
    row k (a ++ b) = (row k a).or (row k b) := List.dlookup_append ..

theorem row_eq_none {k : Key} {log : Log Val} : row k log = none ↔ k ∉ log.keys :=
  List.dlookup_eq_none

theorem mem_keys_of_row {k : Key} {v : Val k} {log : Log Val} (h : row k log = some v) :
    k ∈ log.keys := List.dlookup_isSome.mp (Option.isSome_iff_exists.mpr ⟨v, h⟩)

theorem mem_of_row {k : Key} {v : Val k} {log : Log Val} (h : row k log = some v) :
    (⟨k, v⟩ : Sigma Val) ∈ log := List.of_mem_dlookup h

theorem row_append_of_not_mem {k : Key} {a : Log Val} (b : Log Val) (h : k ∉ a.keys) :
    row k (a ++ b) = row k b := by
  rw [row_append, row_eq_none.mpr h, Option.none_or]

theorem row_append_of_row {k : Key} {v : Val k} {a : Log Val} (b : Log Val)
    (h : row k a = some v) : row k (a ++ b) = some v := by
  rw [row_append, h, Option.some_or]

theorem row_append_congr {k : Key} (a : Log Val) {b c : Log Val} (h : row k b = row k c) :
    row k (a ++ b) = row k (a ++ c) := by
  rw [row_append, row_append, h]

theorem exists_row_of_mem_keys {k : Key} {log : Log Val} (h : k ∈ log.keys) :
    ∃ v, row k log = some v :=
  Option.isSome_iff_exists.mp (List.dlookup_isSome.mpr h)

omit [DecidableEq Key] in
theorem keys_append (a b : Log Val) : (a ++ b).keys = a.keys ++ b.keys := List.map_append

omit [DecidableEq Key] in
theorem keys_subset_of_suffix {older newer : Log Val} (h : older <:+ newer) {k : Key}
    (hk : k ∈ older.keys) : k ∈ newer.keys := by
  obtain ⟨new, rfl⟩ := h
  rw [keys_append]
  exact List.mem_append_right _ hk

/-- Every version was a legal successor of the version below it. -/
def Chain (T : Transition Val) : Log Val → Prop
  | [] => True
  | ⟨k, v⟩ :: rest => T k (row k rest) v ∧ Chain T rest

variable {T : Transition Val}

@[simp] theorem chain_nil : Chain T ([] : Log Val) := trivial

theorem chain_cons (s : Sigma Val) (log : Log Val) :
    Chain T (s :: log) ↔ T s.1 (row s.1 log) s.2 ∧ Chain T log := Iff.rfl

theorem Chain.of_append {a b : Log Val} (h : Chain T (a ++ b)) : Chain T b := by
  induction a with
  | nil => exact h
  | cons s a ih => exact ih h.2

theorem Chain.of_suffix {older newer : Log Val} (h : older <:+ newer) (hc : Chain T newer) :
    Chain T older := by
  obtain ⟨new, rfl⟩ := h
  exact hc.of_append

/-- Versions keep their legality over another base with the same rows under their keys. -/
theorem Chain.rebase {w a b : Log Val} (h : Chain T (w ++ a)) (hb : Chain T b)
    (hrow : ∀ k ∈ w.keys, row k a = row k b) : Chain T (w ++ b) := by
  induction w with
  | nil => exact hb
  | cons s w ih =>
      rw [List.cons_append, chain_cons] at h ⊢
      refine ⟨?_, ih h.2 fun k hk => hrow k (List.mem_cons_of_mem _ hk)⟩
      rw [← row_append_congr w (hrow s.1 List.mem_cons_self)]
      exact h.1

theorem Chain.of_nodup {log : Log Val} (hn : log.NodupKeys)
    (hT : ∀ s ∈ log, T s.1 none s.2) : Chain T log := by
  induction log with
  | nil => trivial
  | cons s log ih =>
      obtain ⟨hs, hn'⟩ := List.nodupKeys_cons.mp hn
      rw [chain_cons, row_eq_none.mpr hs]
      refine ⟨?_, ih hn' fun t ht => hT t (List.mem_cons_of_mem _ ht)⟩
      exact hT s List.mem_cons_self

/-- A reflexive transitive relation that every legal new version stands in to its row. -/
structure Persists (T : Transition Val) (R : (k : Key) → Val k → Val k → Prop) : Prop where
  refl : ∀ k v, R k v v
  trans : ∀ k u v w, R k u v → R k v w → R k u w
  legal : ∀ k u v, T k (some u) v → R k u v

/-- Such a relation holds along the history of a row. -/
theorem Chain.related {R : (k : Key) → Val k → Val k → Prop} (hR : Persists T R)
    {older newer : Log Val} (hc : Chain T newer) (hs : older <:+ newer)
    {k : Key} {v : Val k} (hv : row k older = some v) :
    ∃ w, row k newer = some w ∧ R k v w := by
  obtain ⟨new, rfl⟩ := hs
  induction new with
  | nil => exact ⟨v, hv, hR.refl k v⟩
  | cons s new ih =>
      rw [List.cons_append, chain_cons] at hc
      obtain ⟨w, hw, hvw⟩ := ih hc.2
      by_cases hk : k = s.1
      · subst hk
        rw [hw] at hc
        exact ⟨s.2, row_cons_self .., hR.trans _ _ _ _ hvw (hR.legal _ _ _ hc.1)⟩
      · exact ⟨w, by rw [List.cons_append, row_cons_ne _ _ hk, hw], hvw⟩

/-- What every new version has, as far as the version it replaces had it, the current row has. -/
theorem Chain.current {P : (k : Key) → Val k → Prop}
    (hT : ∀ k o v, T k o v → (∀ u, o = some u → P k u) → P k v)
    {log : Log Val} (hc : Chain T log) {k : Key} {v : Val k} (hv : row k log = some v) :
    P k v := by
  induction log generalizing k with
  | nil => simp at hv
  | cons s log ih =>
      by_cases hk : k = s.1
      · subst hk
        rw [row_cons_self] at hv
        cases hv
        exact hT _ _ _ hc.1 fun u hu => ih hc.2 hu
      · rw [row_cons_ne _ _ hk] at hv
        exact ih hc.2 hv

/-- The identifiers of one table: the keys that `un` recognises, each once. -/
def ids {Id : Type} [DecidableEq Id] (un : Key → Option Id) (log : Log Val) : List Id :=
  (log.keys.filterMap un).dedup

omit [DecidableEq Key] in
theorem mem_ids {Id : Type} [DecidableEq Id] {un : Key → Option Id} {log : Log Val} {i : Id} :
    i ∈ ids un log ↔ ∃ k ∈ log.keys, un k = some i := by
  simp [ids, List.mem_dedup]

omit [DecidableEq Key] in
theorem nodup_ids {Id : Type} [DecidableEq Id] (un : Key → Option Id) (log : Log Val) :
    (ids un log).Nodup := List.nodup_dedup _

/-- The current rows of the table with the keys `mk i`. -/
def table {Id Row : Type} [DecidableEq Id] (mk : Id → Key) (un : Key → Option Id)
    (get : (i : Id) → Val (mk i) → Row) (log : Log Val) : List (Id × Row) :=
  (ids un log).filterMap fun i => (row (mk i) log).map fun v => (i, get i v)

theorem mem_table {Id Row : Type} [DecidableEq Id] {mk : Id → Key} {un : Key → Option Id}
    {get : (i : Id) → Val (mk i) → Row} (hun : ∀ i, un (mk i) = some i) {log : Log Val} {i : Id}
    {r : Row} : (i, r) ∈ table mk un get log ↔ ∃ v, row (mk i) log = some v ∧ get i v = r := by
  constructor
  · intro h
    obtain ⟨j, -, hj⟩ := List.mem_filterMap.mp h
    obtain ⟨v, hv, heq⟩ := Option.map_eq_some_iff.mp hj
    cases heq
    exact ⟨v, hv, rfl⟩
  · rintro ⟨v, hv, rfl⟩
    refine List.mem_filterMap.mpr ⟨i, mem_ids.mpr ⟨mk i, mem_keys_of_row hv, hun i⟩, ?_⟩
    simp [hv]

theorem nodup_table {Id Row : Type} [DecidableEq Id] (mk : Id → Key) (un : Key → Option Id)
    (get : (i : Id) → Val (mk i) → Row) (log : Log Val) :
    ((table mk un get log).map Prod.fst).Nodup := by
  have hsub : ((table mk un get log).map Prod.fst).Sublist (ids un log) := by
    unfold table
    induction ids un log with
    | nil => simp
    | cons i is ih =>
        cases hrow : row (mk i) log with
        | none => simpa [hrow] using ih.trans (List.sublist_cons_self i is)
        | some v => simpa [hrow] using ih
  exact hsub.nodup (nodup_ids un log)

/-- A row that joins a table is counted once more. -/
theorem length_filter_table {Id Row : Type} [DecidableEq Id] {mk : Id → Key}
    {un : Key → Option Id} {get : (i : Id) → Val (mk i) → Row} (hun : ∀ i, un (mk i) = some i)
    {older newer : Log Val} {i : Id} {v : Val (mk i)} (hfresh : row (mk i) older = none)
    (hv : row (mk i) newer = some v)
    (hrest : ∀ j, j ≠ i → row (mk j) newer = row (mk j) older) (p : Id × Row → Bool) :
    ((table mk un get newer).filter p).length =
      ((table mk un get older).filter p).length + if p (i, get i v) then 1 else 0 := by
  have hnodup : ∀ log : Log Val, (table mk un get log).Nodup :=
    fun log => (nodup_table mk un get log).of_map
  have hnew : (i, get i v) ∉ table mk un get older := by
    intro hmem
    obtain ⟨v', hv', -⟩ := (mem_table hun).mp hmem
    rw [hfresh] at hv'
    cases hv'
  have hperm : (table mk un get newer).Perm ((i, get i v) :: table mk un get older) := by
    refine (List.perm_ext_iff_of_nodup (hnodup _) (List.nodup_cons.mpr ⟨hnew, hnodup _⟩)).mpr ?_
    rintro ⟨j, r⟩
    rw [List.mem_cons, mem_table hun, mem_table hun]
    by_cases hj : j = i
    · subst hj
      simp [hv, hfresh, eq_comm]
    · rw [hrest j hj]
      simp [hj]
  rw [(hperm.filter p).length_eq, List.filter_cons]
  split <;> simp

/-- Rows of other tables in front of a log leave a table as it is. -/
theorem table_append_of_others {Id Row : Type} [DecidableEq Id] {mk : Id → Key}
    {un : Key → Option Id} {get : (i : Id) → Val (mk i) → Row} (hun : ∀ i, un (mk i) = some i)
    {a b : Log Val} (h : ∀ s ∈ a, un s.1 = none) : table mk un get (a ++ b) = table mk un get b := by
  have hids : ids un (a ++ b) = ids un b := by
    have hnone : a.keys.filterMap un = [] := by
      refine List.filterMap_eq_nil_iff.mpr fun k hk => ?_
      obtain ⟨s, hs, rfl⟩ := List.mem_map.mp hk
      exact h s hs
    rw [ids, ids, List.keys, List.map_append, List.filterMap_append]
    exact congrArg (fun l => List.dedup (l ++ _)) hnone
  rw [table, table, hids]
  refine List.filterMap_congr fun i _ => ?_
  rw [row_append_of_not_mem b]
  intro hk
  obtain ⟨s, hs, hsame⟩ := List.mem_map.mp hk
  have hother := h s hs
  rw [hsame, hun] at hother
  cases hother

end Log
end ReadCommitted
