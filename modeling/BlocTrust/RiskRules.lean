import Mathlib.Algebra.BigOperators.Ring.Finset
import BlocTrust.ApprovalsService
import BlocTrust.Rounding

/-!
The money rules and the order of risk.
Amounts are compared as doubles.  Rounding keeps their order, so a contract limit is never
reported without being exceeded, and amounts below 2^46 keep their cents.  The mean of earlier
amounts is the rounded one.  A record of facts that is at least as risky in every respect is
assessed at least as high.
-/
namespace BlocTrust

section Numbers

variable {a b : Cents} {q : ℚ}

theorem number_mono (h : a ≤ b) : number a ≤ number b := by
  refine roundToDouble_mono (div_le_div_of_nonneg_right ?_ (by norm_num))
  exact_mod_cast h

theorem number_pos (h : 0 < a) : 0 < number a := by
  refine roundToDouble_pos (div_pos ?_ (by norm_num))
  exact_mod_cast h

theorem number_zero : number 0 = 0 := by
  unfold number
  exact roundToDouble_of_nonpos (by norm_num)

theorem number_pos_iff : 0 < number a ↔ 0 < a := by
  refine ⟨fun h => Nat.pos_of_ne_zero fun hzero => ?_, number_pos⟩
  rw [hzero, number_zero] at h
  exact lt_irrefl 0 h

theorem number_double (a : Cents) : number (2 * a) = number a * 2 := by
  unfold number
  rw [show ((2 * a : ℕ) : ℚ) / 100 = 2 * ((a : ℚ) / 100) by push_cast; ring,
    roundToDouble_double, mul_comm]

/-- The error of rounding below a power of two. -/
theorem roundToDouble_near {m : ℤ} (hq : 0 ≤ q) (h : q < (2 : ℚ) ^ m) :
    |roundToDouble q - q| ≤ (2 : ℚ) ^ (m - 54) := by
  by_cases hpos : 0 < q
  · have hlow := (binaryExponent_spec hpos).1
    have hexponent : binaryExponent q < m :=
      (zpow_lt_zpow_iff_right₀ (by norm_num : (1 : ℚ) < 2)).mp (lt_of_le_of_lt hlow h)
    calc |roundToDouble q - q| ≤ 1 / 2 * (2 : ℚ) ^ (binaryExponent q - 52) :=
          roundToDouble_error hpos
      _ = (2 : ℚ) ^ (binaryExponent q - 53) := by
          rw [show binaryExponent q - 52 = binaryExponent q - 53 + 1 by ring,
            zpow_add₀ (by norm_num), zpow_one]
          ring
      _ ≤ (2 : ℚ) ^ (m - 54) := zpow_le_zpow_right₀ (by norm_num) (by omega)
  · have hzero : q = 0 := le_antisymm (not_lt.mp hpos) hq
    rw [hzero, roundToDouble_of_nonpos (le_refl 0), sub_zero, abs_zero]
    positivity

/-- Below 2^46 doubles tell cents apart. -/
theorem number_lt (hab : a < b) (ha : a < 2 ^ 46 * 100) : number a < number b := by
  have hle : number (a + 1) ≤ number b := number_mono hab
  refine lt_of_lt_of_le ?_ hle
  have hbound : (a : ℚ) + 1 ≤ 7036874417766400 := by exact_mod_cast ha
  have ha₀ : (0 : ℚ) ≤ (a : ℚ) := by positivity
  have herror : (2 : ℚ) ^ ((46 : ℤ) - 54) = 1 / 256 := by norm_num
  have hvalue : (2 : ℚ) ^ (46 : ℤ) = 70368744177664 := by norm_num
  have hpos : (0 : ℚ) < (2 : ℚ) ^ (46 : ℤ) := by rw [hvalue]; norm_num
  have hexponent : binaryExponent ((2 : ℚ) ^ (46 : ℤ)) = 46 :=
    binaryExponent_unique hpos (le_refl _) (by norm_num)
  have hlow := (roundToDouble_bounds hpos).1
  rw [hexponent] at hlow
  have hnear := roundToDouble_near (m := 46) (q := (a : ℚ) / 100) (by linarith)
    (by rw [hvalue]; linarith)
  have hnear' := roundToDouble_near (m := 46) (q := ((a : ℚ) + 1) / 100) (by linarith)
  rw [herror] at hnear hnear'
  generalize (2 : ℚ) ^ (46 : ℤ) = power at hlow hnear' hvalue
  obtain ⟨-, hhigh⟩ := abs_le.mp hnear
  unfold number
  push_cast
  by_cases hlast : ((a : ℚ) + 1) / 100 < power
  · obtain ⟨hnext, -⟩ := abs_le.mp (hnear' hlast)
    linarith
  · -- the next amount is 2^46, which is a double
    have hpower : ((a : ℚ) + 1) / 100 = power := by linarith
    rw [hpower]
    linarith

end Numbers

section Means

/-- The exact mean of amounts, in cents. -/
def exactMean (amounts : List Cents) : ℚ := (amounts.map fun a : Cents => (a : ℚ)).sum / amounts.length

/-- The sum that `average` computes, from a partial sum on. -/
theorem sum_near {ε : ℚ} (hε : ε = 1 / 2048) (amounts : List Cents) (s e : ℚ) (n : ℕ)
    (hs : 0 ≤ s) (hnear : |s - e| ≤ 2 * n * ε) (hn : n + amounts.length ≤ 12)
    (hbound : e + (amounts.map fun a : Cents => (a : ℚ) / 100).sum < 2 ^ 42) :
    0 ≤ (amounts.map number).foldl (fun sum value => roundToDouble (sum + value)) s ∧
      |(amounts.map number).foldl (fun sum value => roundToDouble (sum + value)) s -
        (e + (amounts.map fun a : Cents => (a : ℚ) / 100).sum)| ≤ 2 * (n + amounts.length : ℕ) * ε := by
  induction amounts generalizing s e n with
  | nil => simpa using ⟨hs, hnear⟩
  | cons a amounts ih =>
      simp only [List.map_cons, List.foldl_cons, List.sum_cons, List.length_cons] at hn hbound ⊢
      have hrest : 0 ≤ (amounts.map fun a : Cents => (a : ℚ) / 100).sum := by
        refine List.sum_nonneg fun x hx => ?_
        obtain ⟨c, -, rfl⟩ := List.mem_map.mp hx
        positivity
      have ha₀ : (0 : ℚ) ≤ (a : ℚ) / 100 := by positivity
      have hn' : (n : ℚ) ≤ 11 := by exact_mod_cast (by omega : n ≤ 11)
      have hslack : 2 * n * ε ≤ 1 := by
        rw [hε]
        linarith
      obtain ⟨hlow, hhigh⟩ := abs_le.mp hnear
      -- the amount, and then the sum, are rounded
      have hpower : (2 : ℚ) ^ ((43 : ℤ) - 54) = ε := by rw [hε]; norm_num
      have hnumber := roundToDouble_near (m := 43) ha₀ (by norm_num at hbound ⊢; linarith)
      rw [hpower] at hnumber
      obtain ⟨hnlow, hnhigh⟩ := abs_le.mp hnumber
      have hnonneg : 0 ≤ number a := roundToDouble_nonneg _
      have hvalue : number a = roundToDouble ((a : ℚ) / 100) := rfl
      have hsum := roundToDouble_near (m := 43) (q := s + number a) (by linarith)
        (by rw [hvalue, hε] at *; norm_num at hbound ⊢; linarith)
      rw [hpower] at hsum
      obtain ⟨hslow, hshigh⟩ := abs_le.mp hsum
      have hstep : |roundToDouble (s + number a) - (e + (a : ℚ) / 100)| ≤
          2 * ((n + 1 : ℕ) : ℚ) * ε := by
        rw [abs_le]
        push_cast
        rw [hvalue] at *
        constructor <;> linarith
      have hnext := ih (roundToDouble (s + number a)) (e + (a : ℚ) / 100) (n + 1)
        (roundToDouble_nonneg _) hstep (by omega) (by linarith)
      rw [show n + 1 + amounts.length = n + (amounts.length + 1) by omega,
        add_assoc e] at hnext
      exact hnext

theorem toFixed2_near (hq : 0 ≤ (q : ℚ)) : |(toFixed2 q : ℚ) - q * 100| ≤ 1 / 2 := by
  have hfloor : ((q * 100 + 1 / 2).floor : ℚ) ≤ q * 100 + 1 / 2 := Rat.floor_le _
  have hlt : q * 100 + 1 / 2 < ((q * 100 + 1 / 2).floor : ℚ) + 1 := by
    have h := Rat.lt_floor_add_one (q * 100 + 1 / 2)
    exact_mod_cast h
  have hnonneg : 0 ≤ (q * 100 + 1 / 2).floor := Rat.le_floor_iff.mpr (by push_cast; linarith)
  have hcast : (toFixed2 q : ℚ) = ((q * 100 + 1 / 2).floor : ℚ) := by
    unfold toFixed2
    exact_mod_cast Int.toNat_of_nonneg hnonneg
  rw [hcast, abs_le]
  constructor <;> linarith

/-- The mean that is compared is less than a cent away from the exact one. -/
theorem average_near {amounts : List Cents} {mean : Cents} (hlength : amounts.length ≤ 12)
    (hbound : amounts.sum < 2 ^ 42 * 100) (h : average (amounts.map number) = some mean) :
    |(mean : ℚ) - exactMean amounts| < 1 := by
  have hne : amounts ≠ [] := by
    rintro rfl
    cases h
  have hpos : (0 : ℚ) < amounts.length := by exact_mod_cast List.length_pos_of_ne_nil hne
  have hcents : ∀ as : List Cents, (as.map fun a : Cents => (a : ℚ) / 100).sum =
      (as.map fun a : Cents => (a : ℚ)).sum / 100 := by
    intro as
    induction as with
    | nil => simp
    | cons a as ih => rw [List.map_cons, List.sum_cons, List.map_cons, List.sum_cons, ih]; ring
  have hcast : (amounts.map fun a : Cents => (a : ℚ)).sum = (amounts.sum : ℚ) := by
    rw [Nat.cast_list_sum]
  have hsum : (amounts.sum : ℚ) < 439804651110400 := by exact_mod_cast hbound
  have hnear := @sum_near (1 / 2048) rfl amounts 0 0 0 (le_refl 0) (by norm_num) (by omega)
    (by rw [zero_add, hcents, hcast]; linarith)
  generalize hs : (amounts.map number).foldl (fun sum value => roundToDouble (sum + value)) 0 = s
    at hnear
  obtain ⟨hs₀, herror⟩ := hnear
  rw [zero_add, zero_add, hcents, hcast] at herror
  have hlength' : (amounts.length : ℚ) ≤ 12 := by exact_mod_cast hlength
  -- the sum is divided and rounded
  have hquotient : |s / amounts.length - (amounts.sum : ℚ) / 100 / amounts.length| ≤ 1 / 1024 := by
    rw [← sub_div, abs_div, abs_of_pos hpos, div_le_iff₀ hpos]
    calc |s - (amounts.sum : ℚ) / 100| ≤ 2 * amounts.length * (1 / 2048) := herror
      _ = 1 / 1024 * amounts.length := by ring
  have hsmall : s / amounts.length < (2 : ℚ) ^ (43 : ℤ) := by
    rw [show (2 : ℚ) ^ (43 : ℤ) = 8796093022208 by norm_num, div_lt_iff₀ hpos]
    have hone : (1 : ℚ) ≤ amounts.length := by
      exact_mod_cast List.length_pos_of_ne_nil hne
    have hhigh := (abs_le.mp herror).2
    linarith
  have hround := roundToDouble_near (m := 43) (div_nonneg hs₀ (le_of_lt hpos)) hsmall
  rw [show (2 : ℚ) ^ ((43 : ℤ) - 54) = 1 / 2048 by norm_num] at hround
  have hmean : mean = toFixed2 (roundToDouble (s / amounts.length)) := by
    rw [average.eq_def] at h
    split at h
    · cases h
    · rename_i hmap
      rw [← Option.some.inj h, ← hs]
      simp only [List.length_map]
  have hfixed := toFixed2_near (roundToDouble_nonneg (s / amounts.length))
  rw [← hmean] at hfixed
  have hexact : exactMean amounts = (amounts.sum : ℚ) / 100 / amounts.length * 100 := by
    unfold exactMean
    rw [hcast]
    ring
  obtain ⟨h1, h1'⟩ := abs_le.mp hquotient
  obtain ⟨h2, h2'⟩ := abs_le.mp hround
  obtain ⟨h3, h3'⟩ := abs_le.mp hfixed
  rw [hexact, abs_lt]
  constructor <;> linarith

end Means

section Rules

/-- A rule contributes its score if a condition holds, and nothing otherwise. -/
structure Fires (cs : List RiskContribution) (rule : RiskRule) (score : Nat) (P : Prop) : Prop where
  hit : P → ∃ c, cs = [c] ∧ c.rule = rule ∧ c.score = score
  miss : ¬ P → cs = []

/-- The total is compared with the limit as doubles. -/
def ExceedsLimit (facts : InvoiceRiskFacts) : Prop := ∃ total limit,
  facts.totalAmount = some total ∧ facts.contractValueLimit = some limit ∧
    number limit < number total

def Spikes (facts : InvoiceRiskFacts) : Prop := ∃ total prior,
  facts.totalAmount = some total ∧ facts.priorInvoiceAverage = some prior ∧
    0 < number prior ∧ number prior * 2 ≤ number total

variable {invoiceId : Text} {facts : InvoiceRiskFacts} {policy : RiskPolicySnapshot}

theorem fires_ite {c : RiskContribution} {P : Prop} [Decidable P] :
    Fires (if P then [c] else []) c.rule c.score P :=
  ⟨fun h => ⟨c, if_pos h, rfl, rfl⟩, fun h => if_neg h⟩

theorem bankRule_fires : Fires (bankRule invoiceId facts policy) .vendorBankAccountChanged
    policy.changedBankAccountScore (1 < facts.bankAccountVersion.getD 0) := fires_ite

theorem documentRule_fires : Fires (documentRule invoiceId facts policy) .exactDocumentDuplicate
    policy.duplicateHashScore (facts.exactDocumentDuplicate = true) := fires_ite

theorem invoiceNumberRule_fires : Fires (invoiceNumberRule invoiceId facts policy)
    .duplicateInvoiceNumber policy.duplicateInvoiceNumberScore
      (facts.duplicateInvoiceNumber = true) := fires_ite

theorem contractRule_fires : Fires (contractRule invoiceId facts policy)
    .contractValueLimitExceeded policy.contractLimitScore (ExceedsLimit facts) := by
  unfold contractRule
  constructor
  · rintro ⟨total, limit, htotal, hlimit, hlt⟩
    rw [htotal, hlimit]
    exact ⟨_, if_pos hlt, rfl, rfl⟩
  · intro hmiss
    split
    · rename_i total limit htotal hlimit
      exact if_neg fun hlt => hmiss ⟨total, limit, htotal, hlimit, hlt⟩
    · rfl

theorem amountRule_fires : Fires (amountRule invoiceId facts policy) .amountSpike
    policy.amountSpikeScore (Spikes facts) := by
  unfold amountRule
  constructor
  · rintro ⟨total, prior, htotal, hprior, hspike⟩
    rw [htotal, hprior]
    exact ⟨_, if_pos hspike, rfl, rfl⟩
  · intro hmiss
    split
    · rename_i total prior htotal hprior
      exact if_neg fun hspike => hmiss ⟨total, prior, htotal, hprior, hspike⟩
    · rfl

theorem Fires.reports {cs : List RiskContribution} {rule rule' : RiskRule} {score : Nat} {P : Prop}
    (h : Fires cs rule score P) : (∃ c ∈ cs, c.rule = rule') ↔ P ∧ rule = rule' := by
  by_cases hP : P
  · obtain ⟨c, rfl, hrule, -⟩ := h.hit hP
    simp [hP, hrule]
  · simp [h.miss hP, hP]

/-- One list of contributions has all the rules and at least the score of another. -/
structure Covers (cs ds : List RiskContribution) : Prop where
  rules : ∀ c ∈ cs, ∃ d ∈ ds, d.rule = c.rule
  score : (cs.map (·.score)).sum ≤ (ds.map (·.score)).sum

theorem Fires.covers {cs ds : List RiskContribution} {rule : RiskRule} {score : Nat} {P P' : Prop}
    (h : Fires cs rule score P) (h' : Fires ds rule score P') (hP : P → P') : Covers cs ds := by
  by_cases hfires : P
  · obtain ⟨c, rfl, hrule, hscore⟩ := h.hit hfires
    obtain ⟨d, rfl, hrule', hscore'⟩ := h'.hit (hP hfires)
    constructor
    · simp [hrule, hrule']
    · simp [hscore, hscore']
  · rw [h.miss hfires]
    exact ⟨by simp, by simp⟩

theorem Covers.append {cs ds cs' ds' : List RiskContribution} (h : Covers cs ds)
    (h' : Covers cs' ds') : Covers (cs ++ cs') (ds ++ ds') := by
  constructor
  · intro c hc
    rcases List.mem_append.mp hc with hc | hc
    · obtain ⟨d, hd, hrule⟩ := h.rules c hc
      exact ⟨d, List.mem_append_left _ hd, hrule⟩
    · obtain ⟨d, hd, hrule⟩ := h'.rules c hc
      exact ⟨d, List.mem_append_right _ hd, hrule⟩
  · have hscore := h.score
    have hscore' := h'.score
    simp only [List.map_append, List.sum_append]
    omega

theorem totalScore_eq (cs : List RiskContribution) (n : Nat) :
    cs.foldl (fun sum c => sum + c.score) n = n + (cs.map (·.score)).sum := by
  induction cs generalizing n with
  | nil => rfl
  | cons c cs ih =>
      rw [List.foldl_cons, ih, List.map_cons, List.sum_cons]
      omega

end Rules

section Evaluations

/-- A rule contributes to an evaluation. -/
def RiskEvaluation.Reports (e : RiskEvaluation) (rule : RiskRule) : Prop :=
  ∃ c ∈ e.contributions, c.rule = rule

variable {invoiceId : Text} {facts f g : InvoiceRiskFacts} {policy : RiskPolicySnapshot}
  {sha256 : Bytes → Digest} {localeCompare : Text → Text → Ordering}

theorem reports_iff {rule : RiskRule} :
    (evaluateInvoiceRisk invoiceId facts policy sha256 localeCompare).Reports rule ↔
      (1 < facts.bankAccountVersion.getD 0 ∧ .vendorBankAccountChanged = rule) ∨
      (facts.exactDocumentDuplicate = true ∧ .exactDocumentDuplicate = rule) ∨
      (facts.duplicateInvoiceNumber = true ∧ .duplicateInvoiceNumber = rule) ∨
      (ExceedsLimit facts ∧ .contractValueLimitExceeded = rule) ∨
      (Spikes facts ∧ .amountSpike = rule) := by
  unfold RiskEvaluation.Reports evaluateInvoiceRisk
  simp only [List.mem_append, or_and_right, exists_or]
  rw [bankRule_fires.reports, documentRule_fires.reports, invoiceNumberRule_fires.reports,
    contractRule_fires.reports, amountRule_fires.reports]
  tauto

/-- The facts of `g` are at least as risky as those of `f` in every respect. -/
structure Riskier (f g : InvoiceRiskFacts) : Prop where
  bank : f.bankAccountVersion.getD 0 ≤ g.bankAccountVersion.getD 0
  document : f.exactDocumentDuplicate = true → g.exactDocumentDuplicate = true
  invoiceNumber : f.duplicateInvoiceNumber = true → g.duplicateInvoiceNumber = true
  total : ∀ total, f.totalAmount = some total → ∃ total', g.totalAmount = some total' ∧ total ≤ total'
  limit : ∀ limit, f.contractValueLimit = some limit →
    ∃ limit', g.contractValueLimit = some limit' ∧ limit' ≤ limit
  average : ∀ prior, f.priorInvoiceAverage = some prior → 0 < prior →
    ∃ prior', g.priorInvoiceAverage = some prior' ∧ 0 < prior' ∧ prior' ≤ prior

theorem Riskier.exceedsLimit (h : Riskier f g) (hf : ExceedsLimit f) : ExceedsLimit g := by
  obtain ⟨total, limit, htotal, hlimit, hlt⟩ := hf
  obtain ⟨total', htotal', hle⟩ := h.total total htotal
  obtain ⟨limit', hlimit', hle'⟩ := h.limit limit hlimit
  have hup := number_mono hle
  have hdown := number_mono hle'
  exact ⟨total', limit', htotal', hlimit', by linarith⟩

theorem Riskier.spikes (h : Riskier f g) (hf : Spikes f) : Spikes g := by
  obtain ⟨total, prior, htotal, hprior, hpos, hle⟩ := hf
  obtain ⟨total', htotal', htotals⟩ := h.total total htotal
  obtain ⟨prior', hprior', hpos', hpriors⟩ := h.average prior hprior (number_pos_iff.mp hpos)
  have hup := number_mono htotals
  have hdown := number_mono hpriors
  exact ⟨total', prior', htotal', hprior', number_pos hpos', by linarith⟩

theorem Riskier.covers (h : Riskier f g) :
    Covers (evaluateInvoiceRisk invoiceId f policy sha256 localeCompare).contributions
      (evaluateInvoiceRisk invoiceId g policy sha256 localeCompare).contributions := by
  have hbank : 1 < f.bankAccountVersion.getD 0 → 1 < g.bankAccountVersion.getD 0 :=
    fun hf => lt_of_lt_of_le hf h.bank
  unfold evaluateInvoiceRisk
  refine Covers.append (Covers.append (Covers.append (Covers.append ?_ ?_) ?_) ?_) ?_
  · exact bankRule_fires.covers bankRule_fires hbank
  · exact documentRule_fires.covers documentRule_fires h.document
  · exact invoiceNumberRule_fires.covers invoiceNumberRule_fires h.invoiceNumber
  · exact contractRule_fires.covers contractRule_fires h.exceedsLimit
  · exact amountRule_fires.covers amountRule_fires h.spikes

/-- The place of a level among the levels. -/
def RiskLevel.rank : RiskLevel → Nat
  | low => 0
  | medium => 1
  | high => 2

theorem riskLevel_rank_mono {m n : Nat} (h : m ≤ n) :
    (riskLevel policy m).rank ≤ (riskLevel policy n).rank := by
  unfold riskLevel
  by_cases hhigh : policy.highThreshold ≤ n
  · rw [if_pos hhigh]
    split
    · exact le_refl _
    · split <;> decide
  · rw [if_neg hhigh, if_neg (by omega)]
    by_cases hmedium : policy.mediumThreshold ≤ n
    · rw [if_pos hmedium]
      split <;> decide
    · rw [if_neg hmedium, if_neg (by omega)]

/-- Facts that are at least as risky get at least the score, the level and the decisions, and every
rule that contributed still does. -/
theorem risk_monotone (invoiceId : Text) (policy : RiskPolicySnapshot) (sha256 : Bytes → Digest)
    (localeCompare : Text → Text → Ordering) {f g : InvoiceRiskFacts} (h : Riskier f g) :
    let e := evaluateInvoiceRisk invoiceId f policy sha256 localeCompare
    let e' := evaluateInvoiceRisk invoiceId g policy sha256 localeCompare
    e.totalScore ≤ e'.totalScore ∧ e.level.rank ≤ e'.level.rank ∧
      (∀ rule, e.Reports rule → e'.Reports rule) ∧
      ∀ auth id v riskId bankId requestVersion keyHash,
        (ApprovalsService.newRequest auth id v e riskId bankId requestVersion
          keyHash).requiredDecisions ≤
        (ApprovalsService.newRequest auth id v e' riskId bankId requestVersion
          keyHash).requiredDecisions := by
  intro e e'
  have hcovers : Covers e.contributions e'.contributions := h.covers
  have htotal : e.totalScore ≤ e'.totalScore := by
    have hscore := hcovers.score
    have heq : e.totalScore = 0 + (e.contributions.map (·.score)).sum := totalScore_eq _ 0
    have heq' : e'.totalScore = 0 + (e'.contributions.map (·.score)).sum := totalScore_eq _ 0
    omega
  have hlevel : e.level.rank ≤ e'.level.rank := riskLevel_rank_mono htotal
  refine ⟨htotal, hlevel, ?_, ?_⟩
  · rintro rule ⟨c, hc, rfl⟩
    exact hcovers.rules c hc
  · intro auth id v riskId bankId requestVersion keyHash
    show (if e.level = .high then 2 else 1) ≤ if e'.level = .high then 2 else 1
    by_cases hhigh : e.level = .high
    · have hhigh' : e'.level = .high := by
        rw [hhigh] at hlevel
        cases hl : e'.level <;> rw [hl] at hlevel <;> simp [RiskLevel.rank] at hlevel
      rw [if_pos hhigh, if_pos hhigh']
    · rw [if_neg hhigh]
      split <;> omega

/-- The second invoice is dearer, and its account was changed. -/
theorem risk_monotone_sample :
    let f : InvoiceRiskFacts := ⟨some 1, true, false, some 500, some 400, some 300⟩
    let g : InvoiceRiskFacts := ⟨some 2, true, true, some 600, some 400, some 200⟩
    let policy : RiskPolicySnapshot := ⟨1, 30, 70, 70, 70, 35, 50, 25⟩
    Riskier f g ∧
      (evaluateInvoiceRisk [] f policy (fun _ => 0) fun _ _ => .eq).totalScore ≤
        (evaluateInvoiceRisk [] g policy (fun _ => 0) fun _ _ => .eq).totalScore := by
  intro f g policy
  have h : Riskier f g := by
    constructor <;> simp [f, g]
  exact ⟨h, (risk_monotone [] policy (fun _ => 0) (fun _ _ => .eq) h).1⟩

end Evaluations
end BlocTrust
