import BlocTrust.BankHistory
import BlocTrust.Canonical

/-!
Assessments can be reproduced from what is stored.
A policy changes its rule version with every update, so that one version of an organization
names one policy for good; the evaluation is a function of the facts and that policy, and its
hash is taken over a text that does not depend on the order in which columns list their keys.
-/
namespace BlocTrust

open ReadCommitted

/-- The policy was that of the organization at some time. -/
def PolicyOf (db : Db) (org : Id) (policy : OrganizationRiskPolicy) : Prop :=
  (⟨.policy org, policy⟩ : Sigma Val) ∈ db

/-- Every assessment is the evaluation of its facts under a policy of its organization. -/
def Evaluated (cfg : Config) (db : Db) : Prop :=
  ∀ id a, Db.risk db id = some a → ∃ policy, PolicyOf db a.organizationId policy ∧
    a.evaluation = evaluateInvoiceRisk (cfg.uuidText a.invoiceId) a.evaluation.facts
      policy.toRiskPolicySnapshot cfg.sha256 cfg.localeCompare

section Policies

variable {db : Db} {org : Id} {policy policy' : OrganizationRiskPolicy}

/-- The present policy has the highest rule version. -/
theorem policy_versions (hc : Log.Chain Legal db) (h : PolicyOf db org policy) :
    ∃ present, Db.policy db org = some present ∧
      (policy = present ∨ policy.ruleVersion < present.ruleVersion) := by
  induction db generalizing policy with
  | nil => exact absurd h List.not_mem_nil
  | cons s log ih =>
      obtain ⟨hlegal, hchain⟩ := (Log.chain_cons s log).mp hc
      rcases List.mem_cons.mp h with heq | hold
      · subst heq
        exact ⟨policy, Log.row_cons_self .., .inl rfl⟩
      · obtain ⟨present, hpresent, hle⟩ := ih hchain hold
        by_cases hk : Key.policy org = s.1
        · obtain ⟨k, v⟩ := s
          subst hk
          have hrow : Log.row (.policy org) log = some present := hpresent
          rw [hrow] at hlegal
          obtain ⟨c, hv⟩ := hlegal
          have hnext : v.ruleVersion = present.ruleVersion + 1 := by
            have happly : v = c.apply present := hv
            rw [happly]
            rfl
          refine ⟨v, Log.row_cons_self .., .inr ?_⟩
          rcases hle with rfl | hlt
          · omega
          · omega
        · exact ⟨present, (Log.row_cons_ne s log hk).trans hpresent, hle⟩

/-- A rule version names one policy of its organization. -/
theorem same_policy (hc : Log.Chain Legal db) (h : PolicyOf db org policy)
    (h' : PolicyOf db org policy') (hversion : policy.ruleVersion = policy'.ruleVersion) :
    policy = policy' := by
  induction db with
  | nil => exact absurd h List.not_mem_nil
  | cons s log ih =>
      obtain ⟨hlegal, hchain⟩ := (Log.chain_cons s log).mp hc
      have hnewest : ∀ {p q : OrganizationRiskPolicy}, s = ⟨.policy org, p⟩ → PolicyOf log org q →
          q.ruleVersion < p.ruleVersion := by
        intro p q heq hold
        subst heq
        obtain ⟨present, hpresent, hle⟩ := policy_versions hchain hold
        have hrow : Log.row (.policy org) log = some present := hpresent
        rw [hrow] at hlegal
        obtain ⟨c, hv⟩ := hlegal
        have hnext : p.ruleVersion = present.ruleVersion + 1 := by
          have happly : p = c.apply present := hv
          rw [happly]
          rfl
        rcases hle with rfl | hlt
        · omega
        · omega
      rcases List.mem_cons.mp h with heq | hold
      · rcases List.mem_cons.mp h' with heq' | hold'
        · cases heq.trans heq'.symm
          rfl
        · have hlt := hnewest heq.symm hold'
          omega
      · rcases List.mem_cons.mp h' with heq' | hold'
        · have hlt := hnewest heq'.symm hold
          omega
        · exact ih hchain hold hold'

end Policies

section Commit

variable {cfg : Config} {db : Db} {p : Process}

/-- What a transaction has read of a policy, or inserted, is in the log after its commit. -/
theorem policy_read (h : ProcOk (machine cfg) (conduct cfg) Legal db p) {org : Id}
    {policy : OrganizationRiskPolicy} (hread : Saw p.calls (.findPolicy org) (some policy) ∨
      Did p.calls (.insertPolicy org) policy) : PolicyOf (p.writes ++ db) org policy := by
  rcases hread with hsaw | hdid
  · obtain ⟨newer, older, base, choice, hcur, hanswer⟩ := saw_event h hsaw
    have hrow : Db.policy (writes older ++ base) org = some policy := Option.some.inj hanswer
    exact h.view_subset hcur (Log.mem_of_row hrow)
  · obtain ⟨newer, older, rows, base, hcur, hwrote, -⟩ := did_event h hdid
    cases hwrote with
    | insertPolicy hinserted =>
        refine List.mem_append_left _ (List.mem_flatMap.mpr ⟨_, mem_of_event hcur, ?_⟩)
        exact Log.mem_of_row hinserted.row

theorem Evaluated.commit (h : ProcOk (machine cfg) (conduct cfg) Legal db p)
    (hevidence : ProcOk (machine cfg) (evidenceConduct cfg) Legal db p)
    (heval : Evaluated cfg db) : Evaluated cfg (p.writes ++ db) := by
  intro id a ha
  rcases commit_risk h ha with hold | hdid
  · obtain ⟨policy, hpolicy, hsame⟩ := heval id a hold
    exact ⟨policy, List.mem_append_right _ hpolicy, hsame⟩
  · obtain ⟨newer, older, rows, base, hcur, -, hbefore⟩ := did_event h hdid
    obtain ⟨newer', older', rows', base', hcur', -, hcomputed⟩ := did_event hevidence hdid
    cases hop : p.op with
    | submit auth i dto key =>
        rw [hop] at hcomputed
        obtain ⟨v, vendorId, bank, policy, hc⟩ := hcomputed
        have hsub := calls_subset_of_event hcur'
        refine ⟨policy, ?_, ?_⟩
        · rw [hc.organization]
          exact policy_read h (hc.rules.imp (fun hs => hsub hs) fun hd => hsub hd)
        · rw [hc.subject]
          exact hc.evaluation
    | _ =>
        rw [hop] at hbefore
        exact hbefore.elim

theorem Evaluated.outside {rows : Db} (hext : (machine cfg).external db rows)
    (heval : Evaluated cfg db) : Evaluated cfg (rows ++ db) := by
  intro id a ha
  have hrow : Db.risk (rows ++ db) id = Db.risk db id := external_row hext rfl
  obtain ⟨policy, hpolicy, hsame⟩ := heval id a (hrow ▸ ha)
  exact ⟨policy, List.mem_append_right _ hpolicy, hsame⟩

end Commit

section Evidence

/-- The names of the columns and properties that the evidence is made of. -/
def evidenceKeys : List Text :=
  ["invoiceId", "ruleVersion", "facts", "contributions", "totalScore", "level",
    "bankAccountVersion", "exactDocumentDuplicate", "duplicateInvoiceNumber", "totalAmount",
    "contractValueLimit", "priorInvoiceAverage", "rule", "score", "explanation",
    "evidence"].map String.toList

def contributionsJson (contributions : List RiskContribution) : Json :=
  .array (contributions.map contributionJson)

/-- The evidence of a stored assessment, with its two JSON columns as the database returns them. -/
def storedEvidence (cfg : Config) (a : RiskAssessment) (facts contributions : Json) : Json :=
  .object
    [("invoiceId".toList, .string (cfg.uuidText a.invoiceId)),
     ("ruleVersion".toList, .number a.evaluation.ruleVersion), ("facts".toList, facts),
     ("contributions".toList, contributions), ("totalScore".toList, .number a.evaluation.totalScore),
     ("level".toList, .string (riskLevelName a.evaluation.level))]

theorem factsJson_keyed (facts : InvoiceRiskFacts) : (factsJson facts).keyed evidenceKeys := by
  refine ⟨?_, ?_, ?_⟩
  · show ∀ k ∈ ["bankAccountVersion".toList, "exactDocumentDuplicate".toList,
      "duplicateInvoiceNumber".toList, "totalAmount".toList, "contractValueLimit".toList,
      "priorInvoiceAverage".toList], k ∈ evidenceKeys
    decide
  · show ["bankAccountVersion".toList, "exactDocumentDuplicate".toList,
      "duplicateInvoiceNumber".toList, "totalAmount".toList, "contractValueLimit".toList,
      "priorInvoiceAverage".toList].Nodup
    decide
  · refine ⟨?_, trivial, trivial, ?_, ?_, ?_, trivial⟩
    · cases facts.bankAccountVersion <;> trivial
    · cases facts.totalAmount <;> trivial
    · cases facts.contractValueLimit <;> trivial
    · cases facts.priorInvoiceAverage <;> trivial

theorem contributionsJson_keyed (contributions : List RiskContribution) :
    (contributionsJson contributions).keyed evidenceKeys := by
  show Json.valuesKeyed evidenceKeys (contributions.map contributionJson)
  induction contributions with
  | nil => trivial
  | cons c cs ih =>
      refine ⟨⟨?_, ?_, trivial, trivial, trivial, trivial, trivial⟩, ih⟩
      · show ∀ k ∈ ["rule".toList, "score".toList, "explanation".toList, "evidence".toList],
          k ∈ evidenceKeys
        decide
      · show ["rule".toList, "score".toList, "explanation".toList, "evidence".toList].Nodup
        decide

theorem evidence_keyed (invoiceId level : Text) (ruleVersion totalScore : Nat)
    (facts : InvoiceRiskFacts) (contributions : List RiskContribution) :
    Json.keyed evidenceKeys (.object
      [("invoiceId".toList, .string invoiceId), ("ruleVersion".toList, .number ruleVersion),
        ("facts".toList, factsJson facts), ("contributions".toList, contributionsJson contributions),
        ("totalScore".toList, .number totalScore), ("level".toList, .string level)]) := by
  refine ⟨?_, ?_, trivial, trivial, factsJson_keyed _, contributionsJson_keyed _, trivial, trivial,
    trivial⟩
  · show ∀ k ∈ ["invoiceId".toList, "ruleVersion".toList, "facts".toList,
      "contributions".toList, "totalScore".toList, "level".toList], k ∈ evidenceKeys
    decide
  · show ["invoiceId".toList, "ruleVersion".toList, "facts".toList,
      "contributions".toList, "totalScore".toList, "level".toList].Nodup
    decide

/-- The evidence hash can be computed again from the stored columns. -/
theorem evidence_rebuilt {cfg : Config} (hc : Collation cfg.localeCompare evidenceKeys)
    {a : RiskAssessment} {policy : RiskPolicySnapshot}
    (ha : a.evaluation = evaluateInvoiceRisk (cfg.uuidText a.invoiceId) a.evaluation.facts policy
      cfg.sha256 cfg.localeCompare) {facts contributions : Json}
    (hfacts : (factsJson a.evaluation.facts).Reordered facts)
    (hcontributions : (contributionsJson a.evaluation.contributions).Reordered contributions) :
    a.evaluation.evidenceHash = cfg.sha256 (utf8 (canonicalJson cfg.localeCompare
      (storedEvidence cfg a facts contributions))) := by
  have hkeyed : (storedEvidence cfg a (factsJson a.evaluation.facts)
      (contributionsJson a.evaluation.contributions)).keyed evidenceKeys :=
    evidence_keyed ..
  have hreordered : (storedEvidence cfg a (factsJson a.evaluation.facts)
      (contributionsJson a.evaluation.contributions)).Reordered
      (storedEvidence cfg a facts contributions) :=
    .object (.cons (.same _) (.cons (.same _) (.cons hfacts (.cons hcontributions
      (.cons (.same _) (.cons (.same _) .nil)))))) (List.Perm.refl _)
  rw [← canonicalJson_reordered hc hreordered hkeyed]
  unfold storedEvidence
  generalize a.evaluation.facts = f at ha
  rw [ha]
  rfl

end Evidence

/-- Assessments of one invoice on the same facts under the same rule version are equal, and
their hash is that of the evidence rebuilt from their columns. -/
theorem risk_reproducible (cfg : Config) {ok : System → SystemAction → Prop} {s₀ s : System}
    (h₀ : Idle Legal s₀) (hnone : ∀ id, Db.risk s₀.db id = none)
    (hcollation : Collation cfg.localeCompare evidenceKeys) (h : Run (machine cfg) ok s₀ s) :
    (∀ i j a b, Db.risk s.db i = some a → Db.risk s.db j = some b →
      a.organizationId = b.organizationId → a.invoiceId = b.invoiceId →
      a.evaluation.ruleVersion = b.evaluation.ruleVersion →
      a.evaluation.facts = b.evaluation.facts →
        a.evaluation.contributions = b.evaluation.contributions ∧
        a.evaluation.totalScore = b.evaluation.totalScore ∧
        a.evaluation.level = b.evaluation.level ∧
        a.evaluation.evidenceHash = b.evaluation.evidenceHash) ∧
    ∀ i a facts contributions, Db.risk s.db i = some a →
      (factsJson a.evaluation.facts).Reordered facts →
      (contributionsJson a.evaluation.contributions).Reordered contributions →
        a.evaluation.evidenceHash = cfg.sha256 (utf8 (canonicalJson cfg.localeCompare
          (storedEvidence cfg a facts contributions))) := by
  have hchain := (Run.consistent (discipline cfg) h₀.consistent h).chain
  have heval : Evaluated cfg s.db := by
    refine (h.always (I := Evaluated cfg) h₀.procs ?_ (fun u i p next hrun hp _ hinv _ => ?_)
      fun u rows _ hext hinv => hinv.outside hext).1
    · intro id a ha
      rw [hnone id] at ha
      cases ha
    · exact hinv.commit ((Run.consistent (discipline cfg) h₀.consistent hrun).proc i p hp)
        ((Run.consistent (evidence cfg) h₀.consistent hrun).proc i p hp)
  constructor
  · intro i j a b ha hb horg hinvoice hversion hfacts
    obtain ⟨policy, hpolicy, hsame⟩ := heval i a ha
    obtain ⟨policy', hpolicy', hsame'⟩ := heval j b hb
    have hrule : policy.ruleVersion = policy'.ruleVersion := by
      rw [hsame, hsame'] at hversion
      exact hversion
    rw [← horg] at hpolicy'
    rw [← same_policy hchain hpolicy hpolicy' hrule, ← hinvoice, ← hfacts, ← hsame] at hsame'
    rw [hsame']
    exact ⟨rfl, rfl, rfl, rfl⟩
  · intro i a facts contributions ha hfacts hcontributions
    obtain ⟨policy, -, hsame⟩ := heval i a ha
    exact evidence_rebuilt hcollation hsame hfacts hcontributions

section Sample

/-- Comparison by code points; the evidence keys are sorted by it as by any collation of letters. -/
def compareCodePoints (a b : Text) : Ordering := compare (a.map Char.toNat) (b.map Char.toNat)

theorem compareCodePoints_collation : Collation compareCodePoints evidenceKeys where
  swap a b := by
    show compare (b.map Char.toNat) (a.map Char.toNat) =
      (compare (a.map Char.toNat) (b.map Char.toNat)).swap
    exact Std.OrientedOrd.eq_swap
  trans a b c hab hbc := by
    have hab' := Ordering.isLE_iff_ne_gt.mpr hab
    have hbc' := Ordering.isLE_iff_ne_gt.mpr hbc
    exact Ordering.isLE_iff_ne_gt.mp (Std.TransOrd.isLE_trans hab' hbc')
  separates a b _ _ h := by
    have heq : a.map Char.toNat = b.map Char.toNat := Std.LawfulEqOrd.eq_of_compare h
    exact List.map_injective_iff.mpr (fun c d hcd => Char.toNat_inj.mp hcd) heq

def collatingConfig : Config := { sampleConfig with localeCompare := compareCodePoints }

/-- The entries of an object, the last one first. -/
def reversedEntries : Json → List (Text × Json)
  | .object es => es.reverse
  | _ => []

/-- An invoice is submitted, edited without a change of its total, and submitted again. -/
def submittedTwice : List SystemAction :=
  .start (.submit (sampleAuth 1) 1 ⟨1⟩ (sampleKey 'a')) :: submission 0 ++
    .start (.update (sampleAuth 1) 1 (sampleEdit 2 100)) ::
    execs 1 (List.replicate 11 0 ++ [11, 12, 0]) ++
    .start (.submit (sampleAuth 1) 1 ⟨3⟩ (sampleKey 'b')) :: submission 2

/-- The two assessments agree, and the first hash is that of its facts listed backwards. -/
theorem risk_reproducible_sample : ∃ (s : System) (a b : RiskAssessment) (facts : Json),
    Db.risk s.db 0 = some a ∧ Db.risk s.db 2 = some b ∧ a.invoiceVersion ≠ b.invoiceVersion ∧
      a.evaluation.contributions = b.evaluation.contributions ∧
      a.evaluation.evidenceHash = b.evaluation.evidenceHash ∧
      (factsJson a.evaluation.facts).Reordered facts ∧
      a.evaluation.evidenceHash = collatingConfig.sha256 (utf8 (canonicalJson compareCodePoints
        (storedEvidence collatingConfig a facts (contributionsJson a.evaluation.contributions)))) := by
  obtain ⟨s, hrun, hcheck⟩ := exists_run (M := machine collatingConfig) (s := sampleStart)
    submittedTwice (fun s => (Db.risk s.db 0).any fun a => (Db.risk s.db 2).any fun b =>
      a.organizationId = b.organizationId ∧ a.invoiceId = b.invoiceId ∧
        a.evaluation.ruleVersion = b.evaluation.ruleVersion ∧
        a.evaluation.facts = b.evaluation.facts ∧ a.invoiceVersion ≠ b.invoiceVersion)
    permitted_always (by decide +kernel)
  obtain ⟨a, ha, hcheck⟩ := (Option.any_eq_true _ _).mp hcheck
  obtain ⟨b, hb, hcheck⟩ := (Option.any_eq_true _ _).mp hcheck
  obtain ⟨horg, hinvoice, hversion, hfacts, hlater⟩ := of_decide_eq_true hcheck
  have hnone : ∀ id, Db.risk sampleStart.db id = none := fun id =>
    Log.row_eq_none.mpr (by simp [sampleStart, sampleDb, List.keys])
  have hentries : ∀ es : List (Text × Json), Json.ReorderedEntries es es := by
    intro es
    induction es with
    | nil => exact .nil
    | cons e es ih => exact .cons (.same _) ih
  have hreordered : (factsJson a.evaluation.facts).Reordered
      (.object (reversedEntries (factsJson a.evaluation.facts))) :=
    .object (hentries _) (List.reverse_perm _).symm
  obtain ⟨hsame, hrebuilt⟩ := risk_reproducible collatingConfig sampleStart_idle hnone
    compareCodePoints_collation hrun
  obtain ⟨hcontributions, -, -, hhash⟩ := hsame 0 2 a b ha hb horg hinvoice hversion hfacts
  exact ⟨s, a, b, _, ha, hb, hlater, hcontributions, hhash, hreordered,
    hrebuilt 0 a _ _ ha hreordered (.same _)⟩

end Sample
end BlocTrust
