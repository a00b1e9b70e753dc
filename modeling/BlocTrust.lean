import BlocTrust.ReadCommitted.Invariants
import BlocTrust.RiskEngine
import BlocTrust.Schema
import BlocTrust.Statements
import BlocTrust.ApprovalsService
import BlocTrust.InvoicesService
import BlocTrust.VendorsService
import BlocTrust.InvoicePipeline
import BlocTrust.System
import BlocTrust.Conforms.Approvals
import BlocTrust.Conforms.Invoices
import BlocTrust.Conforms.Pipeline
import BlocTrust.ReadCommitted.Accounts
import BlocTrust.Events
import BlocTrust.Commits
import BlocTrust.Causes
import BlocTrust.History
import BlocTrust.Knowledge
import BlocTrust.Ledger
import BlocTrust.Tenant
import BlocTrust.ApprovalSafety
import BlocTrust.Completion
import BlocTrust.FinalStates
import BlocTrust.Ingestion
import BlocTrust.MalwareGate
import BlocTrust.JobDelivery
import BlocTrust.BankChange
import BlocTrust.Lockstep
import BlocTrust.Assessed
import BlocTrust.DecisionRecord
import BlocTrust.ReadCommitted.Outcomes
import BlocTrust.Rooted
import BlocTrust.Duplicates
import BlocTrust.Identity.LiveSessions
import BlocTrust.Identity.Conforms
import BlocTrust.Http.Cookies
import BlocTrust.Agreement
import BlocTrust.BankHistory
import BlocTrust.Canonical
import BlocTrust.Http.CsrfService
import BlocTrust.ObjectStore
import BlocTrust.Quarantine
import BlocTrust.Reproducible
import BlocTrust.AuditTrail
import BlocTrust.AuditedChanges
import BlocTrust.Crm.Guarantees
import BlocTrust.Crm.LostUpdates
import BlocTrust.ReadCommitted.Alone
import BlocTrust.Resumption
import BlocTrust.MoneyRules
import BlocTrust.CanonicalUnique
import BlocTrust.Crm.BankEncryption
import BlocTrust.SignedTokens
import BlocTrust.Crm.Lists
import BlocTrust.Crm.RedactedLength
import BlocTrust.FakeBankReplays
import BlocTrust.Identity.Passkeys
import BlocTrust.SanitizedInvoice
import BlocTrust.DocumentDownload
import BlocTrust.Identity.PasswordService
import BlocTrust.Crm.BuildingReads
import BlocTrust.Crm.Dashboard
import BlocTrust.ReadCommitted.Solo
import BlocTrust.FakeBankRetries
import BlocTrust.Onboarding
import BlocTrust.ApproverAgreement
import BlocTrust.ReadCommitted.Extend
import BlocTrust.Crm.Records
import BlocTrust.Crm.Coverage
import BlocTrust.Crm.Grants
import BlocTrust.Clamav
import BlocTrust.Downloads
import BlocTrust.Tenancy
import BlocTrust.Identity.SessionEnds
import BlocTrust.Doubles
import BlocTrust.InvoiceContracts
import BlocTrust.Transparency
import BlocTrust.Polls
import BlocTrust.Http.UriComponents
import BlocTrust.ObjectSigning
