import Mathlib.Data.Rat.Floor
import BlocTrust.Json

/-!
The explainable risk rules.
Amounts reach the rules as JavaScript numbers: `number` rounds a decimal with two places to
53 significant bits, and the comparisons are made on the rounded values.
-/
namespace BlocTrust

structure RiskPolicySnapshot where
  ruleVersion : Nat
  mediumThreshold : Nat
  highThreshold : Nat
  changedBankAccountScore : Nat
  duplicateHashScore : Nat
  duplicateInvoiceNumberScore : Nat
  contractLimitScore : Nat
  amountSpikeScore : Nat
  deriving DecidableEq, Repr

structure InvoiceRiskFacts where
  bankAccountVersion : Option Nat
  exactDocumentDuplicate : Bool
  duplicateInvoiceNumber : Bool
  totalAmount : Option Cents
  contractValueLimit : Option Cents
  priorInvoiceAverage : Option Cents
  deriving DecidableEq, Repr

inductive RiskRule
  | vendorBankAccountChanged | exactDocumentDuplicate | duplicateInvoiceNumber
  | contractValueLimitExceeded | amountSpike
  deriving DecidableEq, Repr

def RiskRule.name : RiskRule → Text
  | vendorBankAccountChanged => "VENDOR_BANK_ACCOUNT_CHANGED".toList
  | exactDocumentDuplicate => "EXACT_DOCUMENT_DUPLICATE".toList
  | duplicateInvoiceNumber => "DUPLICATE_INVOICE_NUMBER".toList
  | contractValueLimitExceeded => "CONTRACT_VALUE_LIMIT_EXCEEDED".toList
  | amountSpike => "AMOUNT_SPIKE".toList

def riskLevelName : RiskLevel → Text
  | .low => "LOW".toList
  | .medium => "MEDIUM".toList
  | .high => "HIGH".toList

structure RiskContribution where
  rule : RiskRule
  score : Nat
  explanation : Text
  evidence : Text
  deriving DecidableEq, Repr

structure RiskEvaluation where
  ruleVersion : Nat
  facts : InvoiceRiskFacts
  contributions : List RiskContribution
  totalScore : Nat
  level : RiskLevel
  evidenceHash : Digest
  deriving DecidableEq, Repr

/-- Nearest value with a 53-bit significand, ties to even. -/
def roundToDouble (q : ℚ) : ℚ :=
  if q ≤ 0 then 0 else
    let guess : ℤ := (Nat.log2 q.num.toNat : ℤ) - (Nat.log2 q.den : ℤ)
    let exponent : ℤ := if (2 : ℚ) ^ guess ≤ q then guess - 52 else guess - 53
    let scaled : ℚ := q / (2 : ℚ) ^ exponent
    let down : ℤ := scaled.floor
    let half : ℚ := scaled - down
    let mantissa : ℤ :=
      if half < 1 / 2 then down
      else if 1 / 2 < half then down + 1
      else if down % 2 = 0 then down else down + 1
    mantissa * (2 : ℚ) ^ exponent

/-- `Number(decimal)` of an amount with two decimal places. -/
def number (cents : Cents) : ℚ := roundToDouble ((cents : ℚ) / 100)

/-- `toFixed(2)`, in cents; the larger value is taken on a tie. -/
def toFixed2 (q : ℚ) : Cents := (q * 100 + 1 / 2).floor.toNat

def average : List ℚ → Option Cents
  | [] => none
  | values =>
      let sum := values.foldl (fun sum value => roundToDouble (sum + value)) 0
      some (toFixed2 (roundToDouble (sum / values.length)))

/-- A `Decimal` with two places as Prisma prints it, without trailing zeros. -/
def decimalText (cents : Cents) : Text :=
  if cents % 100 = 0 then digits (cents / 100)
  else if cents % 10 = 0 then digits (cents / 100) ++ '.' :: digits (cents / 10 % 10)
  else digits (cents / 100) ++ '.' :: digits (cents / 10 % 10) ++ digits (cents % 10)

/-- The output of `toFixed(2)`, which keeps trailing zeros. -/
def fixedText (cents : Cents) : Text :=
  digits (cents / 100) ++ '.' :: digits (cents / 10 % 10) ++ digits (cents % 10)

def evidencePath (invoiceId : Text) (page : String) : Text :=
  "/api/v1/invoices/".toList ++ invoiceId ++ "/risk/evidence/".toList ++ page.toList

section Rules

variable (invoiceId : Text) (facts : InvoiceRiskFacts) (policy : RiskPolicySnapshot)

def bankRule : List RiskContribution :=
  if 1 < facts.bankAccountVersion.getD 0 then
    [{ rule := .vendorBankAccountChanged
       score := policy.changedBankAccountScore
       explanation := "Vendor bank account version ".toList ++
         digits (facts.bankAccountVersion.getD 0) ++ " is newer than the original account.".toList
       evidence := evidencePath invoiceId "vendor-bank-history" }]
  else []

def documentRule : List RiskContribution :=
  if facts.exactDocumentDuplicate then
    [{ rule := .exactDocumentDuplicate
       score := policy.duplicateHashScore
       explanation := ("The approved source document matches an earlier tenant-scoped SHA-256 " ++
         "fingerprint.").toList
       evidence := evidencePath invoiceId "document-fingerprint" }]
  else []

def invoiceNumberRule : List RiskContribution :=
  if facts.duplicateInvoiceNumber then
    [{ rule := .duplicateInvoiceNumber
       score := policy.duplicateInvoiceNumberScore
       explanation :=
         "The vendor has another invoice with the same normalized invoice number.".toList
       evidence := evidencePath invoiceId "invoice-number" }]
  else []

def contractRule : List RiskContribution :=
  match facts.totalAmount, facts.contractValueLimit with
  | some total, some limit =>
      if number limit < number total then
        [{ rule := .contractValueLimitExceeded
           score := policy.contractLimitScore
           explanation := "Invoice total ".toList ++ decimalText total ++
             " exceeds the contract limit ".toList ++ decimalText limit ++ ".".toList
           evidence := evidencePath invoiceId "contract" }]
      else []
  | _, _ => []

def amountRule : List RiskContribution :=
  match facts.totalAmount, facts.priorInvoiceAverage with
  | some total, some prior =>
      if 0 < number prior ∧ number prior * 2 ≤ number total then
        [{ rule := .amountSpike
           score := policy.amountSpikeScore
           explanation := ("Invoice total is at least twice the vendor's prior invoice average " ++
             "of ").toList ++ fixedText prior ++ ".".toList
           evidence := evidencePath invoiceId "vendor-amount-history" }]
      else []
  | _, _ => []

def riskLevel (totalScore : Nat) : RiskLevel :=
  if policy.highThreshold ≤ totalScore then .high
  else if policy.mediumThreshold ≤ totalScore then .medium
  else .low

def factsJson : Json :=
  .object
    [("bankAccountVersion".toList, .ofOption (fun n : Nat => .number n) facts.bankAccountVersion),
     ("exactDocumentDuplicate".toList, .bool facts.exactDocumentDuplicate),
     ("duplicateInvoiceNumber".toList, .bool facts.duplicateInvoiceNumber),
     ("totalAmount".toList, .ofOption (.string ∘ decimalText) facts.totalAmount),
     ("contractValueLimit".toList, .ofOption (.string ∘ decimalText) facts.contractValueLimit),
     ("priorInvoiceAverage".toList, .ofOption (.string ∘ fixedText) facts.priorInvoiceAverage)]

def contributionJson (c : RiskContribution) : Json :=
  .object
    [("rule".toList, .string c.rule.name), ("score".toList, .number c.score),
     ("explanation".toList, .string c.explanation), ("evidence".toList, .string c.evidence)]

/-- The evidence that is hashed: identifier, rule version, facts, contributions and result. -/
def evidenceJson (contributions : List RiskContribution) (totalScore : Nat)
    (level : RiskLevel) : Json :=
  .object
    [("invoiceId".toList, .string invoiceId), ("ruleVersion".toList, .number policy.ruleVersion),
     ("facts".toList, factsJson facts),
     ("contributions".toList, .array (contributions.map contributionJson)),
     ("totalScore".toList, .number totalScore),
     ("level".toList, .string (riskLevelName level))]

variable (sha256 : Bytes → Digest) (localeCompare : Text → Text → Ordering)

def evaluateInvoiceRisk : RiskEvaluation :=
  let contributions := bankRule invoiceId facts policy ++ documentRule invoiceId facts policy ++
    invoiceNumberRule invoiceId facts policy ++ contractRule invoiceId facts policy ++
    amountRule invoiceId facts policy
  let totalScore := contributions.foldl (fun sum c => sum + c.score) 0
  { ruleVersion := policy.ruleVersion
    facts := facts
    contributions := contributions
    totalScore := totalScore
    level := riskLevel policy totalScore
    evidenceHash := sha256 (utf8 (canonicalJson localeCompare
      (evidenceJson invoiceId facts policy contributions totalScore
        (riskLevel policy totalScore)))) }

end Rules

end BlocTrust
