import BlocTrust.Encodings
import BlocTrust.FakeBankWebhook
import BlocTrust.JsonReader
import BlocTrust.Reproducible
import Mathlib.Data.List.Perm.Basic

/-!
The canonical text determines its value.
The canonical text of a value is the printed text of the value with its keys sorted at every
depth, and a printed text is read back.  So two values with one canonical text are sorted to one
value, of which both are reorderings.
-/
namespace BlocTrust

open JsonReader (stringify print printValues printEntries integers)

section Sorted

variable (localeCompare : Text → Text → Ordering)

mutual

/-- The value with the keys of its objects in the order of `localeCompare`. -/
def Json.sorted : Json → Json
  | .array vs => .array (sortedValues vs)
  | .object es => .object (sortEntries localeCompare (sortedEntries es))
  | v => v

def Json.sortedValues : List Json → List Json
  | [] => []
  | v :: vs => v.sorted :: sortedValues vs

def Json.sortedEntries : List (Text × Json) → List (Text × Json)
  | [] => []
  | (k, v) :: es => (k, v.sorted) :: sortedEntries es

end

variable {localeCompare}

/-- Printing the values of entries commutes with sorting them. -/
theorem map_insertEntry {f : Text × Json → Text × Text} (hf : ∀ e, (f e).1 = e.1)
    (e : Text × Json) (ds : List (Text × Json)) :
    (insertEntry localeCompare e ds).map f = insertEntry localeCompare (f e) (ds.map f) := by
  induction ds with
  | nil => rfl
  | cons d ds ih =>
      rw [insertEntry, List.map_cons, insertEntry, hf, hf]
      by_cases h : localeCompare d.1 e.1 = .gt
      · rw [if_pos h, if_pos h]
        rfl
      · rw [if_neg h, if_neg h, List.map_cons, ih]

theorem map_sortEntries {f : Text × Json → Text × Text} (hf : ∀ e, (f e).1 = e.1)
    (es : List (Text × Json)) :
    (sortEntries localeCompare es).map f = sortEntries localeCompare (es.map f) := by
  have hloop : ∀ es sorted : List (Text × Json),
      (es.foldl (fun sorted e => insertEntry localeCompare e sorted) sorted).map f =
        (es.map f).foldl (fun sorted e => insertEntry localeCompare e sorted) (sorted.map f) := by
    intro es
    induction es with
    | nil => exact fun sorted => rfl
    | cons e es ih =>
        intro sorted
        rw [List.foldl_cons, List.map_cons, List.foldl_cons, ih, map_insertEntry hf]
  exact hloop es []

theorem printEntries_eq_map (es : List (Text × Json)) : printEntries integers es =
    es.map fun e => stringifyText e.1 ++ ':' :: print integers e.2 := by
  induction es with
  | nil => rfl
  | cons e es ih =>
      obtain ⟨k, v⟩ := e
      rw [printEntries, ih]
      rfl

mutual

/-- The canonical text is the printed text of the sorted value. -/
theorem canonicalJson_eq (v : Json) :
    canonicalJson localeCompare v = print integers (v.sorted localeCompare) := by
  cases v with
  | null => rfl
  | bool b => rfl
  | number n => rfl
  | bigint n => exact n.elim
  | string t => rfl
  | array vs => rw [canonicalJson, Json.sorted, print, canonicalValues_eq vs]
  | object es =>
      have hentries := canonicalEntries_eq es
      rw [canonicalJson, Json.sorted, print, printEntries_eq_map]
      have hsorted := @map_sortEntries localeCompare
        (fun e : Text × Json => (e.1, print integers e.2)) (fun e => rfl)
        (Json.sortedEntries localeCompare es)
      rw [hentries, ← hsorted, List.map_map]
      rfl

theorem canonicalValues_eq (vs : List Json) : canonicalValues localeCompare vs =
    printValues integers (Json.sortedValues localeCompare vs) := by
  cases vs with
  | nil => rfl
  | cons v vs =>
      rw [canonicalValues, Json.sortedValues, printValues, canonicalJson_eq v,
        canonicalValues_eq vs]

theorem canonicalEntries_eq (es : List (Text × Json)) :
    canonicalEntries localeCompare es =
      (Json.sortedEntries localeCompare es).map fun e => (e.1, print integers e.2) := by
  cases es with
  | nil => rfl
  | cons e es =>
      obtain ⟨k, v⟩ := e
      rw [canonicalEntries, Json.sortedEntries, List.map_cons, canonicalJson_eq v,
        canonicalEntries_eq es]

end

mutual

theorem reordered_sorted (v : Json) : v.Reordered (v.sorted localeCompare) := by
  cases v with
  | null => exact .same _
  | bool b => exact .same _
  | number n => exact .same _
  | bigint n => exact n.elim
  | string t => exact .same _
  | array vs => exact .array (reordered_sortedValues vs)
  | object es => exact .object (reordered_sortedEntries es) (perm_sortEntries _).symm

theorem reordered_sortedValues (vs : List Json) :
    Json.ReorderedValues vs (Json.sortedValues localeCompare vs) := by
  cases vs with
  | nil => exact .nil
  | cons v vs => exact .cons (reordered_sorted v) (reordered_sortedValues vs)

theorem reordered_sortedEntries (es : List (Text × Json)) :
    Json.ReorderedEntries es (Json.sortedEntries localeCompare es) := by
  cases es with
  | nil => exact .nil
  | cons e es =>
      obtain ⟨k, v⟩ := e
      exact .cons (reordered_sorted v) (reordered_sortedEntries es)

end

end Sorted

section Joins

variable {u v w : Json}

theorem reorderedValues_refl (vs : List Json) : Json.ReorderedValues vs vs := by
  induction vs with
  | nil => exact .nil
  | cons v vs ih => exact .cons (.same v) ih

theorem reorderedEntries_iff {es fs : List (Text × Json)} : Json.ReorderedEntries es fs ↔
    List.Forall₂ (fun e f : Text × Json => e.1 = f.1 ∧ e.2.Reordered f.2) es fs := by
  constructor
  · intro h
    induction es generalizing fs with
    | nil =>
        cases h
        exact .nil
    | cons e es ih =>
        cases h with
        | cons h ht => exact .cons ⟨rfl, h⟩ (ih ht)
  · intro h
    induction h with
    | nil => exact .nil
    | @cons e f es fs hef _ ih =>
        obtain ⟨k, v⟩ := e
        obtain ⟨l, w⟩ := f
        obtain ⟨rfl, h⟩ := hef
        exact .cons h ih

theorem reorderedEntries_refl (es : List (Text × Json)) : Json.ReorderedEntries es es :=
  reorderedEntries_iff.mpr (List.forall₂_same.mpr fun e _ => ⟨rfl, .same e.2⟩)

theorem reordered_array {vs : List Json} :
    Json.Reordered (.array vs) u ↔ ∃ us, u = .array us ∧ Json.ReorderedValues vs us := by
  constructor
  · intro h
    cases h with
    | same => exact ⟨vs, rfl, reorderedValues_refl vs⟩
    | array h => exact ⟨_, rfl, h⟩
  · rintro ⟨us, rfl, h⟩
    exact .array h

theorem reordered_object {es : List (Text × Json)} : Json.Reordered (.object es) u ↔
    ∃ fs gs, u = .object gs ∧ Json.ReorderedEntries es fs ∧ fs.Perm gs := by
  constructor
  · intro h
    cases h with
    | same => exact ⟨es, es, rfl, reorderedEntries_refl es, List.Perm.refl es⟩
    | object h hperm => exact ⟨_, _, rfl, h, hperm⟩
  · rintro ⟨fs, gs, rfl, h, hperm⟩
    exact .object h hperm

theorem of_reordered_array {us : List Json} (h : w.Reordered (.array us)) :
    ∃ ws, w = .array ws ∧ Json.ReorderedValues ws us := by
  cases h with
  | same => exact ⟨us, rfl, reorderedValues_refl us⟩
  | array h => exact ⟨_, rfl, h⟩

theorem of_reordered_object {gs : List (Text × Json)} (h : w.Reordered (.object gs)) :
    ∃ es fs, w = .object es ∧ Json.ReorderedEntries es fs ∧ fs.Perm gs := by
  cases h with
  | same => exact ⟨gs, gs, rfl, reorderedEntries_refl gs, List.Perm.refl gs⟩
  | object h hperm => exact ⟨_, _, rfl, h, hperm⟩

/-- The order of the entries can be undone before their values are reordered. -/
theorem reorderedEntries_perm {es fs gs : List (Text × Json)} (h : Json.ReorderedEntries es fs)
    (hperm : fs.Perm gs) : ∃ es', es'.Perm es ∧ Json.ReorderedEntries es' gs := by
  have hflip := (reorderedEntries_iff.mp h).flip
  obtain ⟨es', hes', hperm'⟩ := List.perm_comp_forall₂ hperm.symm hflip
  exact ⟨es', hperm', reorderedEntries_iff.mpr hes'.flip⟩

mutual

/-- Two values with a common reordering are reorderings of each other. -/
theorem reordered_of_common (v : Json) (u w : Json) (h : v.Reordered u) (h' : w.Reordered u) :
    v.Reordered w := by
  cases v with
  | null => cases h; cases h'; exact .same _
  | bool b => cases h; cases h'; exact .same _
  | number n => cases h; cases h'; exact .same _
  | bigint n => exact n.elim
  | string t => cases h; cases h'; exact .same _
  | array vs =>
      obtain ⟨us, rfl, hvs⟩ := reordered_array.mp h
      obtain ⟨ws, rfl, hws⟩ := of_reordered_array h'
      exact .array (reorderedValues_of_common vs us ws hvs hws)
  | object es =>
      obtain ⟨fs, gs, rfl, hes, hperm⟩ := reordered_object.mp h
      obtain ⟨es', fs', rfl, hes', hperm'⟩ := of_reordered_object h'
      obtain ⟨ds, hds, hcommon⟩ := reorderedEntries_perm hes' (hperm'.trans hperm.symm)
      exact .object (reorderedEntries_of_common es fs ds hes hcommon) hds
termination_by structural v

theorem reorderedValues_of_common (vs us ws : List Json) (h : Json.ReorderedValues vs us)
    (h' : Json.ReorderedValues ws us) : Json.ReorderedValues vs ws := by
  cases vs with
  | nil => cases h; cases h'; exact .nil
  | cons v vs =>
      cases h with
      | cons h ht =>
          cases h' with
          | cons h' ht' =>
              exact .cons (reordered_of_common v _ _ h h') (reorderedValues_of_common vs _ _ ht ht')
termination_by structural vs

theorem reorderedEntries_of_common (es fs ds : List (Text × Json))
    (h : Json.ReorderedEntries es fs) (h' : Json.ReorderedEntries ds fs) :
    Json.ReorderedEntries es ds := by
  cases es with
  | nil => cases h; cases h'; exact .nil
  | cons e es =>
      obtain ⟨k, v⟩ := e
      cases h with
      | cons h ht =>
          cases h' with
          | cons h' ht' =>
              exact .cons (reordered_of_common v _ _ h h') (reorderedEntries_of_common es _ _ ht ht')
termination_by structural es

end

end Joins

section Unique

variable {localeCompare : Text → Text → Ordering} {keys : List Text} {v w : Json}

theorem canonicalJson_eq_iff (hc : Collation localeCompare keys) (hv : v.keyed keys) :
    canonicalJson localeCompare v = canonicalJson localeCompare w ↔ v.Reordered w := by
  refine ⟨fun h => ?_, fun h => canonicalJson_reordered hc h hv⟩
  rw [canonicalJson_eq, canonicalJson_eq] at h
  have hsorted : v.sorted localeCompare = w.sorted localeCompare :=
    JsonReader.stringify_injective h
  have hw : w.Reordered (v.sorted localeCompare) := by
    rw [hsorted]
    exact reordered_sorted w
  exact reordered_of_common v _ w (reordered_sorted v) hw

/-- A timestamp has a fixed length, so that it cannot run into the payload. -/
theorem signedText_inj {t t' : Text} (ht : FakeBank.isTimestamp t = true)
    (ht' : FakeBank.isTimestamp t' = true) :
    FakeBank.signedText localeCompare v t = FakeBank.signedText localeCompare w t' ↔
      t = t' ∧ canonicalJson localeCompare v = canonicalJson localeCompare w := by
  unfold FakeBank.isTimestamp at ht ht'
  simp only [Bool.and_eq_true, beq_iff_eq] at ht ht'
  unfold FakeBank.signedText
  constructor
  · intro h
    obtain ⟨htime, htail⟩ := List.append_inj h (ht.1.trans ht'.1.symm)
    exact ⟨htime, (List.cons.inj htail).2⟩
  · rintro ⟨rfl, h⟩
    rw [h]

theorem evidenceJson_keyed (invoiceId : Text) (facts : InvoiceRiskFacts)
    (policy : RiskPolicySnapshot) (contributions : List RiskContribution) (totalScore : Nat)
    (level : RiskLevel) :
    (evidenceJson invoiceId facts policy contributions totalScore level).keyed evidenceKeys :=
  evidence_keyed ..

/-- The evidence of an evaluation. -/
def RiskEvaluation.evidence (e : RiskEvaluation) (invoiceId : Text) (policy : RiskPolicySnapshot) :
    Json :=
  evidenceJson invoiceId e.facts policy e.contributions e.totalScore e.level

/-- One canonical text means one value up to the order of keys; and so do one evidence hash, and
one text that a webhook is signed over. -/
theorem canonicalJson_canonical (hc : Collation localeCompare keys) (hv : v.keyed keys) :
    (canonicalJson localeCompare v = canonicalJson localeCompare w ↔ v.Reordered w) ∧
    (∀ t t', FakeBank.isTimestamp t = true → FakeBank.isTimestamp t' = true →
      (FakeBank.signedText localeCompare v t = FakeBank.signedText localeCompare w t' ↔
        t = t' ∧ v.Reordered w)) ∧
    ∀ (sha256 : Bytes → Digest) (invoiceId invoiceId' : Text) (facts facts' : InvoiceRiskFacts)
      (policy policy' : RiskPolicySnapshot), Function.Injective sha256 →
      Collation localeCompare evidenceKeys →
      let e := evaluateInvoiceRisk invoiceId facts policy sha256 localeCompare
      let e' := evaluateInvoiceRisk invoiceId' facts' policy' sha256 localeCompare
      (e.evidenceHash = e'.evidenceHash ↔
        (e.evidence invoiceId policy).Reordered (e'.evidence invoiceId' policy')) := by
  refine ⟨canonicalJson_eq_iff hc hv, ?_, ?_⟩
  · intro t t' ht ht'
    rw [signedText_inj ht ht', canonicalJson_eq_iff hc hv]
  · intro sha256 invoiceId invoiceId' facts facts' policy policy' hsha hevidence e e'
    have hkeyed : (e.evidence invoiceId policy).keyed evidenceKeys := evidenceJson_keyed ..
    rw [← canonicalJson_eq_iff hevidence hkeyed]
    show sha256 (utf8 (canonicalJson localeCompare (e.evidence invoiceId policy))) =
      sha256 (utf8 (canonicalJson localeCompare (e'.evidence invoiceId' policy'))) ↔ _
    rw [hsha.eq_iff, utf8_injective.eq_iff]

end Unique

/-- Two objects that list their two keys in different orders. -/
theorem canonicalJson_canonical_sample :
    let v : Json := .object [("facts".toList, .null), ("evidence".toList, .array [.number 1])]
    let w : Json := .object [("evidence".toList, .array [.number 1]), ("facts".toList, .null)]
    canonicalJson compareCodePoints v = canonicalJson compareCodePoints w ∧
      ¬ v.Reordered (.object []) := by
  intro v w
  have hv : v.keyed evidenceKeys := by
    refine ⟨?_, ?_, trivial, ⟨trivial, trivial⟩, trivial⟩
    · show ∀ k ∈ ["facts".toList, "evidence".toList], k ∈ evidenceKeys
      decide
    · show ["facts".toList, "evidence".toList].Nodup
      decide
  have hreordered : v.Reordered w := .object (reorderedEntries_refl _) (List.Perm.swap _ _ _)
  refine ⟨(canonicalJson_canonical compareCodePoints_collation hv).1.mpr hreordered, fun h => ?_⟩
  obtain ⟨fs, gs, hgs, hes, hperm⟩ := reordered_object.mp h
  cases hgs
  cases hes with
  | cons _ _ => exact absurd hperm (List.not_perm_cons_nil)

end BlocTrust
