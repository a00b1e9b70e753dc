import Mathlib.Logic.Relation

/-!
Pointers that lead to one root.
A set grows by single elements, each without a pointer when the set is empty and with a
pointer into the set otherwise.  The pointers of such a set have one root, which every element
reaches, and no cycle.
-/
namespace Rooted

variable {α : Type} {S S' : α → Prop} {next next' : α → Option α} {root a b : α}

/-- One step along a pointer. -/
def Points (next : α → Option α) (a b : α) : Prop := next a = some b

structure OneRoot (S : α → Prop) (next : α → Option α) (root : α) : Prop where
  member : S root
  top : next root = none
  unique : ∀ a, S a → next a = none → a = root
  closed : ∀ a b, S a → next a = some b → S b
  reaches : ∀ a, S a → Relation.ReflTransGen (Points next) a root

/-- What lies behind an element of a cycle lies on it. -/
theorem cycle_closed (hcycle : Relation.TransGen (Points next) a a)
    (hreach : Relation.ReflTransGen (Points next) a b) :
    Relation.TransGen (Points next) b b := by
  induction hreach with
  | refl => exact hcycle
  | @tail b c _ hstep ih =>
      obtain ⟨d, hfirst, hrest⟩ := Relation.TransGen.head'_iff.mp ih
      have hsame : d = c := Option.some.inj (hfirst.symm.trans hstep)
      subst hsame
      exact Relation.TransGen.tail' hrest hstep

theorem OneRoot.acyclic (h : OneRoot S next root) (ha : S a) :
    ¬ Relation.TransGen (Points next) a a := by
  intro hcycle
  have hroot := cycle_closed hcycle (h.reaches a ha)
  obtain ⟨b, hstep, -⟩ := Relation.TransGen.head'_iff.mp hroot
  have hsome : next root = some b := hstep
  rw [h.top] at hsome
  cases hsome

/-- Pointers may change outside the set. -/
theorem OneRoot.reaches_congr (h : OneRoot S next root) (hnext : ∀ a, S a → next' a = next a)
    (ha : S a) : Relation.ReflTransGen (Points next') a root := by
  refine Relation.ReflTransGen.head_induction_on
    (motive := fun a _ => S a → Relation.ReflTransGen (Points next') a root) (h.reaches a ha)
    (fun _ => .refl) ?_ ha
  intro a b hstep _ ih hmem
  have hstep : next a = some b := hstep
  have hstep' : Points next' a b := (hnext a hmem).trans hstep
  exact Relation.ReflTransGen.head hstep' (ih (h.closed a b hmem hstep))

/-- The set is the same and so are the pointers of its elements. -/
theorem OneRoot.congr (h : OneRoot S next root) (hS : ∀ a, S' a ↔ S a)
    (hnext : ∀ a, S a → next' a = next a) : OneRoot S' next' root where
  member := (hS root).mpr h.member
  top := (hnext root h.member).trans h.top
  unique a ha hnone := by
    have hmem := (hS a).mp ha
    exact h.unique a hmem ((hnext a hmem).symm.trans hnone)
  closed a b ha hstep := by
    have hmem := (hS a).mp ha
    exact (hS b).mpr (h.closed a b hmem ((hnext a hmem).symm.trans hstep))
  reaches a ha := h.reaches_congr hnext ((hS a).mp ha)

/-- The first element of a set is its root. -/
theorem OneRoot.first (hS : ∀ b, S b ↔ b = a) (hnone : next a = none) : OneRoot S next a where
  member := (hS a).mpr rfl
  top := hnone
  unique b hb _ := (hS b).mp hb
  closed b c hb hstep := by
    rw [(hS b).mp hb, hnone] at hstep
    cases hstep
  reaches b hb := by
    rw [(hS b).mp hb]

/-- A new element points into the set. -/
theorem OneRoot.insert (h : OneRoot S next root) (hS : ∀ c, S' c ↔ S c ∨ c = a)
    (hnext : ∀ c, S c → next' c = next c) (hb : S b) (ha : next' a = some b) :
    OneRoot S' next' root where
  member := (hS root).mpr (.inl h.member)
  top := (hnext root h.member).trans h.top
  unique c hc hnone := by
    rcases (hS c).mp hc with hmem | rfl
    · exact h.unique c hmem ((hnext c hmem).symm.trans hnone)
    · rw [ha] at hnone
      cases hnone
  closed c d hc hstep := by
    rcases (hS c).mp hc with hmem | rfl
    · exact (hS d).mpr (.inl (h.closed c d hmem ((hnext c hmem).symm.trans hstep)))
    · have hsame : b = d := Option.some.inj (ha.symm.trans hstep)
      exact (hS d).mpr (.inl (hsame ▸ hb))
  reaches c hc := by
    have hold : ∀ {c}, S c → Relation.ReflTransGen (Points next') c root :=
      h.reaches_congr hnext
    rcases (hS c).mp hc with hmem | rfl
    · exact hold hmem
    · have hstep : Points next' c b := ha
      exact Relation.ReflTransGen.head hstep (hold hb)

end Rooted
