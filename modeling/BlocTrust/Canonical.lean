import BlocTrust.Json
import Mathlib.Data.List.Nodup

/-!
The canonical text does not depend on the order of keys.
`Reordered` relates a JSON value to every value that a store may give back for it: the
entries of an object come in some order, the values of an array in theirs.  A collation that
tells the keys of one object apart sorts both to one text.
-/
namespace BlocTrust

/-- A consistent comparator that tells the texts of `keys` apart. -/
structure Collation (localeCompare : Text → Text → Ordering) (keys : List Text) : Prop where
  swap : ∀ a b, localeCompare b a = (localeCompare a b).swap
  trans : ∀ a b c, localeCompare a b ≠ .gt → localeCompare b c ≠ .gt → localeCompare a c ≠ .gt
  separates : ∀ a b, a ∈ keys → b ∈ keys → localeCompare a b = .eq → a = b

mutual

inductive Json.Reordered : Json → Json → Prop
  | same (j : Json) : Json.Reordered j j
  | array {vs ws : List Json} (h : Json.ReorderedValues vs ws) :
      Json.Reordered (.array vs) (.array ws)
  | object {es fs gs : List (Text × Json)} (h : Json.ReorderedEntries es fs)
      (hperm : fs.Perm gs) : Json.Reordered (.object es) (.object gs)

inductive Json.ReorderedValues : List Json → List Json → Prop
  | nil : Json.ReorderedValues [] []
  | cons {v w : Json} {vs ws : List Json} (h : Json.Reordered v w)
      (ht : Json.ReorderedValues vs ws) : Json.ReorderedValues (v :: vs) (w :: ws)

inductive Json.ReorderedEntries : List (Text × Json) → List (Text × Json) → Prop
  | nil : Json.ReorderedEntries [] []
  | cons {k : Text} {v w : Json} {es fs : List (Text × Json)} (h : Json.Reordered v w)
      (ht : Json.ReorderedEntries es fs) : Json.ReorderedEntries ((k, v) :: es) ((k, w) :: fs)

end

mutual

/-- Every object has its keys among `keys`, each once. -/
def Json.keyed (keys : List Text) : Json → Prop
  | .array vs => valuesKeyed keys vs
  | .object es => (∀ k ∈ es.map Prod.fst, k ∈ keys) ∧ (es.map Prod.fst).Nodup ∧
      entriesKeyed keys es
  | _ => True

def Json.valuesKeyed (keys : List Text) : List Json → Prop
  | [] => True
  | v :: vs => v.keyed keys ∧ valuesKeyed keys vs

def Json.entriesKeyed (keys : List Text) : List (Text × Json) → Prop
  | [] => True
  | (_, v) :: es => v.keyed keys ∧ entriesKeyed keys es

end

section Sorting

variable {localeCompare : Text → Text → Ordering} {keys : List Text}

/-- The order in which entries are printed. -/
def Before (localeCompare : Text → Text → Ordering) (d e : Text × Text) : Prop :=
  localeCompare d.1 e.1 ≠ .gt

theorem insertEntry_perm {α : Type} (e : Text × α) (ds : List (Text × α)) :
    (insertEntry localeCompare e ds).Perm (e :: ds) := by
  induction ds with
  | nil => exact List.Perm.refl _
  | cons d ds ih =>
      unfold insertEntry
      by_cases h : localeCompare d.1 e.1 = .gt
      · rw [if_pos h]
      · rw [if_neg h]
        exact (ih.cons d).trans (List.Perm.swap e d ds)

/-- Sorting loses nothing, whatever the comparator. -/
theorem perm_sortEntries {α : Type} (es : List (Text × α)) :
    (sortEntries localeCompare es).Perm es := by
  have hloop : ∀ es sorted : List (Text × α),
      (es.foldl (fun sorted e => insertEntry localeCompare e sorted) sorted).Perm
        (sorted ++ es) := by
    intro es
    induction es with
    | nil =>
        intro sorted
        rw [List.append_nil]
        exact List.Perm.refl _
    | cons e es ih =>
        intro sorted
        have hfront := (@insertEntry_perm localeCompare α e sorted).append_right es
        exact (ih _).trans (hfront.trans List.perm_middle.symm)
  exact hloop es []

theorem insertEntry_sorted (hc : Collation localeCompare keys) (e : Text × Text)
    {ds : List (Text × Text)} (hs : ds.Pairwise (Before localeCompare)) :
    (insertEntry localeCompare e ds).Pairwise (Before localeCompare) := by
  induction ds with
  | nil => exact List.pairwise_singleton _ _
  | cons d ds ih =>
      obtain ⟨hd, hds⟩ := List.pairwise_cons.mp hs
      unfold insertEntry
      by_cases h : localeCompare d.1 e.1 = .gt
      · rw [if_pos h]
        have hed : Before localeCompare e d := by
          unfold Before
          rw [hc.swap d.1 e.1, h]
          decide
        refine List.pairwise_cons.mpr ⟨fun x hx => ?_, hs⟩
        rcases List.mem_cons.mp hx with rfl | hx
        · exact hed
        · exact hc.trans _ _ _ hed (hd x hx)
      · rw [if_neg h]
        refine List.pairwise_cons.mpr ⟨fun x hx => ?_, ih hds⟩
        rcases List.mem_cons.mp ((insertEntry_perm e ds).subset hx) with rfl | hx
        · exact h
        · exact hd x hx

theorem sortEntries_sorted (hc : Collation localeCompare keys) (es : List (Text × Text)) :
    (sortEntries localeCompare es).Pairwise (Before localeCompare) := by
  have hloop : ∀ (es sorted : List (Text × Text)), sorted.Pairwise (Before localeCompare) →
      (es.foldl (fun sorted e => insertEntry localeCompare e sorted) sorted).Pairwise
        (Before localeCompare) := by
    intro es
    induction es with
    | nil => exact fun sorted hs => hs
    | cons e es ih => exact fun sorted hs => ih _ (insertEntry_sorted hc e hs)
  exact hloop es [] List.Pairwise.nil

/-- Entries with different keys are sorted to one list, whatever order they come in. -/
theorem sortEntries_perm (hc : Collation localeCompare keys) {es fs : List (Text × Text)}
    (hperm : es.Perm fs) (hkeys : ∀ k ∈ es.map Prod.fst, k ∈ keys)
    (hnodup : (es.map Prod.fst).Nodup) :
    sortEntries localeCompare es = sortEntries localeCompare fs := by
  have hes : (sortEntries localeCompare es).Perm es := perm_sortEntries es
  have hfs : (sortEntries localeCompare fs).Perm fs := perm_sortEntries fs
  refine List.Perm.eq_of_pairwise ?_ (sortEntries_sorted hc es) (sortEntries_sorted hc fs)
    (hes.trans (hperm.trans hfs.symm))
  intro d e hd he hle hge
  have hd' := hes.subset hd
  have he' := hperm.symm.subset (hfs.subset he)
  have heq : localeCompare d.1 e.1 = .eq := by
    unfold Before at hle hge
    rw [hc.swap d.1 e.1] at hge
    cases hcompare : localeCompare d.1 e.1 with
    | lt => simp [hcompare] at hge
    | eq => rfl
    | gt => exact absurd hcompare hle
  have hkey : d.1 = e.1 := hc.separates _ _ (hkeys _ (List.mem_map_of_mem hd'))
    (hkeys _ (List.mem_map_of_mem he')) heq
  exact List.inj_on_of_nodup_map hnodup hd' he' hkey

end Sorting

section Encoding

variable {localeCompare : Text → Text → Ordering} {keys : List Text}

theorem canonicalEntries_eq_map (es : List (Text × Json)) :
    canonicalEntries localeCompare es = es.map fun e => (e.1, canonicalJson localeCompare e.2) := by
  induction es with
  | nil => rfl
  | cons e es ih =>
      obtain ⟨k, v⟩ := e
      rw [canonicalEntries, ih]
      rfl

theorem canonicalEntries_keys (es : List (Text × Json)) :
    (canonicalEntries localeCompare es).map Prod.fst = es.map Prod.fst := by
  rw [canonicalEntries_eq_map, List.map_map]
  rfl

mutual

/-- The canonical text of a value is that of all its reorderings. -/
theorem canonicalJson_reordered (hc : Collation localeCompare keys) {j j' : Json}
    (h : j.Reordered j') (hkeyed : j.keyed keys) :
    canonicalJson localeCompare j = canonicalJson localeCompare j' := by
  cases h with
  | same => rfl
  | array h =>
      rw [canonicalJson, canonicalJson, canonicalValues_reordered hc h hkeyed]
  | @object es fs gs h hperm =>
      obtain ⟨hkeys, hnodup, hentries⟩ := hkeyed
      have hsame := canonicalEntries_reordered hc h hentries
      have hperm' : (canonicalEntries localeCompare es).Perm (canonicalEntries localeCompare gs) := by
        rw [hsame, canonicalEntries_eq_map, canonicalEntries_eq_map]
        exact hperm.map _
      have hsorted := sortEntries_perm hc hperm' (by rwa [canonicalEntries_keys])
        (by rwa [canonicalEntries_keys])
      rw [canonicalJson, canonicalJson, hsorted]

theorem canonicalValues_reordered (hc : Collation localeCompare keys) {vs ws : List Json}
    (h : Json.ReorderedValues vs ws) (hkeyed : Json.valuesKeyed keys vs) :
    canonicalValues localeCompare vs = canonicalValues localeCompare ws := by
  cases h with
  | nil => rfl
  | cons h ht =>
      rw [canonicalValues, canonicalValues, canonicalJson_reordered hc h hkeyed.1,
        canonicalValues_reordered hc ht hkeyed.2]

theorem canonicalEntries_reordered (hc : Collation localeCompare keys)
    {es fs : List (Text × Json)} (h : Json.ReorderedEntries es fs)
    (hkeyed : Json.entriesKeyed keys es) :
    canonicalEntries localeCompare es = canonicalEntries localeCompare fs := by
  cases h with
  | nil => rfl
  | cons h ht =>
      rw [canonicalEntries, canonicalEntries, canonicalJson_reordered hc h hkeyed.1,
        canonicalEntries_reordered hc ht hkeyed.2]

end

end Encoding
end BlocTrust
