import BlocTrust.ReadCommitted.Log

/-!
The part of a log that a condition on keys leaves.
A row is in it with all its versions or not at all, and a table of the part holds the rows of the
table that the condition leaves, in the same order.
-/
namespace ReadCommitted

theorem dedup_filter {α : Type} [DecidableEq α] (P : α → Bool) (l : List α) :
    (l.filter P).dedup = l.dedup.filter P := by
  induction l with
  | nil => rfl
  | cons a l ih =>
      by_cases hP : P a = true
      · rw [List.filter_cons_of_pos hP]
        by_cases ha : a ∈ l
        · rw [List.dedup_cons_of_mem (List.mem_filter.mpr ⟨ha, hP⟩), List.dedup_cons_of_mem ha, ih]
        · have hfiltered : a ∉ l.filter P := fun h => ha (List.mem_filter.mp h).1
          rw [List.dedup_cons_of_notMem hfiltered, List.dedup_cons_of_notMem ha,
            List.filter_cons_of_pos hP, ih]
      · rw [List.filter_cons_of_neg hP]
        by_cases ha : a ∈ l
        · rw [List.dedup_cons_of_mem ha, ih]
        · rw [List.dedup_cons_of_notMem ha, List.filter_cons_of_neg hP, ih]

/-- A stronger condition makes a weaker one before it unnecessary. -/
theorem filter_of_imp {α : Type} {P Q : α → Bool} (h : ∀ a, P a = true → Q a = true) (l : List α) :
    (l.filter Q).filter P = l.filter P := by
  rw [List.filter_filter]
  refine List.filter_congr fun a _ => ?_
  by_cases hP : P a = true
  · rw [hP, h a hP]
    rfl
  · rw [eq_false_of_ne_true hP]
    rfl

namespace Log

variable {Key : Type} [DecidableEq Key] {Val : Key → Type} {P : Key → Bool} {log : Log Val}

def restrict (P : Key → Bool) (log : Log Val) : Log Val := log.filter fun s => P s.1

omit [DecidableEq Key] in
theorem keys_restrict (P : Key → Bool) (log : Log Val) :
    (restrict P log).keys = log.keys.filter P := by
  simp only [restrict, List.keys, List.filter_map]
  rfl

theorem row_restrict (P : Key → Bool) (log : Log Val) (k : Key) :
    row k (restrict P log) = if P k then row k log else none := by
  induction log with
  | nil => simp [restrict]
  | cons s log ih =>
      by_cases hs : P s.1 = true
      · have hcons : restrict P (s :: log) = s :: restrict P log := List.filter_cons_of_pos hs
        rw [hcons]
        by_cases hk : k = s.1
        · subst hk
          rw [if_pos hs]
          exact (row_cons_self ..).trans (row_cons_self ..).symm
        · rw [row_cons_ne _ _ hk, row_cons_ne _ _ hk, ih]
      · have hcons : restrict P (s :: log) = restrict P log := List.filter_cons_of_neg hs
        rw [hcons, ih]
        by_cases hk : k = s.1
        · subst hk
          rw [if_neg hs, if_neg hs]
        · rw [row_cons_ne _ _ hk]

theorem row_restrict_of_pos {k : Key} (h : P k = true) : row k (restrict P log) = row k log := by
  rw [row_restrict, if_pos h]

omit [DecidableEq Key] in
theorem ids_restrict {Id : Type} [DecidableEq Id] {mk : Id → Key} {un : Key → Option Id}
    (hun : ∀ k i, un k = some i → k = mk i) (P : Key → Bool) (log : Log Val) :
    ids un (restrict P log) = (ids un log).filter fun i => P (mk i) := by
  rw [ids, ids, keys_restrict, ← dedup_filter, List.filterMap_filter, List.filter_filterMap]
  refine congrArg List.dedup (List.filterMap_congr fun k _ => ?_)
  cases hk : un k with
  | none => simp
  | some i =>
      rw [hun k i hk]
      by_cases hP : P (mk i) = true
      · simp [Option.filter, hP]
      · simp [Option.filter, hP]

/-- A condition on the keys of a table that is one on its rows selects these rows. -/
theorem table_restrict {Id Row : Type} [DecidableEq Id] {mk : Id → Key} {un : Key → Option Id}
    {get : (i : Id) → Val (mk i) → Row} (hun : ∀ k i, un k = some i → k = mk i)
    (Q : Id × Row → Bool) (hQ : ∀ i v, row (mk i) log = some v → P (mk i) = Q (i, get i v)) :
    table mk un get (restrict P log) = (table mk un get log).filter Q := by
  rw [table, table, ids_restrict hun]
  induction ids un log with
  | nil => rfl
  | cons i is ih =>
      cases hrow : row (mk i) log with
      | none =>
          have hnone : row (mk i) (restrict P log) = none := by
            rw [row_restrict, hrow, ite_self]
          by_cases hP : P (mk i) = true
          · simpa [hP, hrow, hnone] using ih
          · simpa [hP, hrow, hnone] using ih
      | some v =>
          have hsame := hQ i v hrow
          by_cases hP : P (mk i) = true
          · have hrow' : row (mk i) (restrict P log) = some v := by
              rw [row_restrict_of_pos hP, hrow]
            simpa [hP, hrow, hrow', hsame ▸ hP] using ih
          · have hfalse : Q (i, get i v) = false := by
              rw [← hsame]
              exact eq_false_of_ne_true hP
            simpa [hP, hrow, hfalse] using ih

end Log
end ReadCommitted
