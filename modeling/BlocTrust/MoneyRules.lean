import BlocTrust.RiskRules
import BlocTrust.Tenant

/-!
What the money rules compare.
The total and the limit are compared as doubles, and the mean of the earlier totals is first
rounded to whole cents.  So both rules can differ from a comparison of the exact decimals; they
agree with it for limits below 2^46 and for means that are whole cents.
-/
namespace BlocTrust

section Submitted

variable {cfg : Config} {choice : Nat} {db : Db} {org vendorId invoiceId : Id}
  {amounts : List Cents}

theorem previousAmounts_length
    (h : answer cfg choice db (.previousAmounts org vendorId invoiceId) = some amounts) :
    amounts.length ≤ 12 := by
  simp only [answer, Option.some.injEq] at h
  subst h
  refine le_trans (List.length_filterMap_le _ _) ?_
  rw [List.length_take]
  exact min_le_left _ _

theorem average_le {mean : Cents} (hlength : amounts.length ≤ 12)
    (hbound : amounts.sum < 2 ^ 42 * 100) (h : average (amounts.map number) = some mean) :
    mean ≤ 2 ^ 42 * 100 := by
  have hnear := (abs_lt.mp (average_near hlength hbound h)).2
  have hsum : (amounts.sum : ℚ) + 1 ≤ 439804651110400 := by exact_mod_cast hbound
  have hexact : exactMean amounts ≤ amounts.sum := by
    unfold exactMean
    rw [show (amounts.map fun a : Cents => (a : ℚ)).sum = (amounts.sum : ℚ) by
      rw [Nat.cast_list_sum]]
    by_cases hnil : amounts = []
    · simp [hnil]
    · have hone : (1 : ℚ) ≤ amounts.length := by exact_mod_cast List.length_pos_of_ne_nil hnil
      exact div_le_self (by positivity) hone
  have hmean : (mean : ℚ) ≤ 439804651110400 := by linarith
  exact_mod_cast hmean

/-- Doubling and comparing doubles is exact below 2^46. -/
theorem number_double_le {mean total : Cents} (h : mean ≤ 2 ^ 42 * 100) :
    number mean * 2 ≤ number total ↔ 2 * mean ≤ total := by
  rw [← number_double]
  refine ⟨fun hle => ?_, number_mono⟩
  by_contra hlt
  have hsmall : total < 2 ^ 46 * 100 := calc
    total < 2 * mean := not_le.mp hlt
    _ ≤ 2 * (2 ^ 42 * 100) := Nat.mul_le_mul_left 2 h
    _ < 2 ^ 46 * 100 := by norm_num
  exact absurd hle (not_le.mpr (number_lt (not_le.mp hlt) hsmall))

/-- The rules on money in an assessment whose earlier amounts were read from a database. -/
theorem money_rules (bank : VendorBankAccountVersion) (documents : List (Id × Document))
    (duplicates : Nat) (total : Cents) (contract : Option Contract) (policy : RiskPolicySnapshot)
    (h : answer cfg choice db (.previousAmounts org vendorId invoiceId) = some amounts) :
    let e := evaluateInvoiceRisk (cfg.uuidText invoiceId)
      (ApprovalsService.riskFacts bank documents duplicates total contract amounts) policy cfg.sha256
      cfg.localeCompare
    (e.Reports .contractValueLimitExceeded ↔ ∃ limit,
      contract.bind (·.valueLimit) = some limit ∧ number limit < number total) ∧
    (e.Reports .contractValueLimitExceeded →
      ∃ limit, contract.bind (·.valueLimit) = some limit ∧ limit < total) ∧
    (∀ limit, contract.bind (·.valueLimit) = some limit → limit < total → limit < 2 ^ 46 * 100 →
      e.Reports .contractValueLimitExceeded) ∧
    (e.Reports .amountSpike ↔ ∃ mean, average (amounts.map number) = some mean ∧ 0 < mean ∧
      number mean * 2 ≤ number total) ∧
    (amounts.sum < 2 ^ 42 * 100 →
      (e.Reports .amountSpike ↔ ∃ mean, average (amounts.map number) = some mean ∧ 0 < mean ∧
        2 * mean ≤ total) ∧
      ∀ mean, average (amounts.map number) = some mean → |(mean : ℚ) - exactMean amounts| < 1) := by
  intro e
  have hlength := previousAmounts_length h
  have hlimit : e.Reports .contractValueLimitExceeded ↔
      ∃ limit, contract.bind (·.valueLimit) = some limit ∧ number limit < number total := by
    show (evaluateInvoiceRisk _ _ _ _ _).Reports _ ↔ _
    rw [reports_iff]
    simp [ExceedsLimit, ApprovalsService.riskFacts]
  have hspike : e.Reports .amountSpike ↔ ∃ mean, average (amounts.map number) = some mean ∧
      0 < mean ∧ number mean * 2 ≤ number total := by
    show (evaluateInvoiceRisk _ _ _ _ _).Reports _ ↔ _
    rw [reports_iff]
    simp [Spikes, ApprovalsService.riskFacts, number_pos_iff]
  refine ⟨hlimit, fun hreports => ?_, fun limit hcontract hlt hsmall => ?_, hspike,
    fun hbound => ⟨?_, ?_⟩⟩
  · obtain ⟨limit, hcontract, hlt⟩ := hlimit.mp hreports
    refine ⟨limit, hcontract, ?_⟩
    by_contra hle
    exact absurd hlt (not_lt.mpr (number_mono (not_lt.mp hle)))
  · exact hlimit.mpr ⟨limit, hcontract, number_lt hlt hsmall⟩
  · rw [hspike]
    refine exists_congr fun mean => and_congr_right fun hmean => and_congr_right fun _ => ?_
    exact number_double_le (average_le hlength hbound hmean)
  · exact fun mean hmean => average_near hlength hbound hmean

end Submitted

/-- A tenant on which the vendor has another invoice, of 100 cents. -/
def spikeDb : Db :=
  [⟨.invoice 1, sampleInvoice⟩, ⟨.invoice 2, sampleInvoice⟩]

/-- A total of 2 euro is a spike there, one of 1.99 euro is not. -/
theorem money_rules_sample :
    let e := fun total : Cents => evaluateInvoiceRisk (sampleConfig.uuidText 1)
      (ApprovalsService.riskFacts sampleBank [] 0 total none [100]) defaultPolicy.toRiskPolicySnapshot
      sampleConfig.sha256 sampleConfig.localeCompare
    answer sampleConfig 0 spikeDb (.previousAmounts 1 1 1) = some [100] ∧
      (e 200).Reports .amountSpike ∧ ¬ (e 199).Reports .amountSpike := by
  intro e
  have hread : answer sampleConfig 0 spikeDb (.previousAmounts 1 1 1) = some [100] := by
    decide +kernel
  have hmean : average ([100].map number) = some 100 := by decide +kernel
  have hrule : ∀ total, (e total).Reports .amountSpike ↔
      ∃ mean, average ([100].map number) = some mean ∧ 0 < mean ∧ 2 * mean ≤ total :=
    fun total => ((money_rules sampleBank [] 0 total none defaultPolicy.toRiskPolicySnapshot
      hread).2.2.2.2 (by decide)).1
  refine ⟨hread, ?_, ?_⟩
  · rw [hrule]
    exact ⟨100, hmean, by decide, by decide⟩
  · rw [hrule, hmean]
    rintro ⟨mean, heq, -, hle⟩
    cases heq
    exact absurd hle (by decide)

/-- A total and a limit one cent below it that are one double, and a mean of 1.5 cents that becomes
one cent. -/
theorem money_rules_inexact :
    ¬ (∀ (total limit : Cents) (policy : RiskPolicySnapshot),
      (evaluateInvoiceRisk []
        (ApprovalsService.riskFacts sampleBank [] 0 total (some ⟨1, 1, some limit⟩) []) policy
        sampleConfig.sha256 sampleConfig.localeCompare).Reports
          .contractValueLimitExceeded ↔ limit < total) ∧
    ¬ (∀ (total : Cents) (amounts : List Cents) (policy : RiskPolicySnapshot),
      (evaluateInvoiceRisk [] (ApprovalsService.riskFacts sampleBank [] 0 total none amounts)
        policy sampleConfig.sha256 sampleConfig.localeCompare).Reports .amountSpike ↔
          0 < exactMean amounts ∧ 2 * exactMean amounts ≤ total) := by
  constructor
  · intro h
    have hcollide : number 900719925474098999 = number 900719925474099000 := by decide +kernel
    have hreports := (h 900719925474099000 900719925474098999
      defaultPolicy.toRiskPolicySnapshot).mpr (by decide)
    rw [reports_iff] at hreports
    simp [ExceedsLimit, ApprovalsService.riskFacts, hcollide] at hreports
  · intro h
    have hmean : average ([1, 2].map number) = some 1 := by decide +kernel
    have hspike : number 1 * 2 ≤ number 2 := by decide +kernel
    have hexact := (h 2 [1, 2] defaultPolicy.toRiskPolicySnapshot).mp (by
      refine reports_iff.mpr (.inr (.inr (.inr (.inr ⟨⟨2, 1, rfl, hmean, ?_, hspike⟩, rfl⟩))))
      exact number_pos (by decide))
    norm_num [exactMean] at hexact

end BlocTrust
