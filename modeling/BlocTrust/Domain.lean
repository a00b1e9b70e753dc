import Mathlib.Init

/-!
Statuses and values shared by the API, the worker and the database.
`InvoiceState` and `canTransitionInvoice` are the state machine of the domain package; the
database has its own, smaller `InvoiceStatus`.  Texts are lists of characters, identifiers
and instants (milliseconds) are natural numbers, and money is counted in cents.
-/
namespace BlocTrust

abbrev Text := List Char
abbrev Id := Nat
abbrev Time := Nat
abbrev Cents := Nat
abbrev Bytes := List UInt8
abbrev Digest := Nat

inductive InvoiceState
  | uploaded | quarantined | scanning | parsed | needsReview | awaitingApproval | approved
  | rejected | blocked | manualReview
  deriving DecidableEq, Repr

open InvoiceState in
def allowedTransitions : InvoiceState → List InvoiceState
  | uploaded => [quarantined]
  | quarantined => [scanning]
  | scanning => [parsed, blocked, manualReview]
  | parsed => [needsReview, manualReview]
  | needsReview => [awaitingApproval, rejected]
  | awaitingApproval => [approved, rejected, needsReview]
  | approved => []
  | rejected => []
  | blocked => []
  | manualReview => [needsReview, rejected]

def canTransitionInvoice (source target : InvoiceState) : Bool :=
  (allowedTransitions source).contains target

inductive InvoiceStatus
  | processing | needsReview | manualReview | blocked | awaitingApproval | approved | rejected
  deriving DecidableEq, Repr

/-- The domain state a stored status names; the domain has none for `processing`. -/
def InvoiceStatus.state : InvoiceStatus → Option InvoiceState
  | processing => none
  | needsReview => some .needsReview
  | manualReview => some .manualReview
  | blocked => some .blocked
  | awaitingApproval => some .awaitingApproval
  | approved => some .approved
  | rejected => some .rejected

/-- The states that the domain lets no transition leave, as far as approvals reach them. -/
def InvoiceStatus.final : InvoiceStatus → Bool
  | approved | rejected => true
  | _ => false

inductive DocumentStorageState
  | quarantined | approved | blocked
  deriving DecidableEq, Repr

inductive DocumentProcessingState
  | quarantined | scanning | parsed | needsReview | manualReview | blocked
  deriving DecidableEq, Repr

inductive DocumentScanResult
  | pending | clean | infected | error
  deriving DecidableEq, Repr

inductive RiskLevel
  | low | medium | high
  deriving DecidableEq, Repr

inductive ApprovalRequestStatus
  | pending | approved | rejected | invalidated
  deriving DecidableEq, Repr

inductive ApprovalDecisionOutcome
  | approve | reject
  deriving DecidableEq, Repr

/-- The status that an approver's outcome gives a completed request. -/
def ApprovalDecisionOutcome.requestStatus : ApprovalDecisionOutcome → ApprovalRequestStatus
  | approve => .approved
  | reject => .rejected

/-- The status it gives the invoice. -/
def ApprovalDecisionOutcome.invoiceStatus : ApprovalDecisionOutcome → InvoiceStatus
  | approve => .approved
  | reject => .rejected

inductive MembershipRole
  | owner | administrator | accountant | resident | contractor | auditor
  deriving DecidableEq, Repr

inductive MembershipStatus
  | active | suspended | ended
  deriving DecidableEq, Repr

/-- What a request ends in: an HTTP error with its code, or an error of the database. -/
inductive Failure
  | badRequest (code : String)
  | forbidden (code : String)
  | notFound (code : String)
  | conflict (code : String)
  | payloadTooLarge (code : String)
  | unprocessable (code : String)
  | typeError
  | uniqueViolation
  | recordNotFound
  | raised (message : String)
  | check (constraint : String)
  | unavailable (name : String)
  deriving DecidableEq, Repr

/-- A property of a JSON body that may be absent, `null` or present. -/
inductive Field (α : Type)
  | absent
  | null
  | given (a : α)
  deriving DecidableEq, Repr

namespace Field

variable {α : Type}

/-- `field ?? fallback`. -/
def orElse (f : Field α) (fallback : Option α) : Option α :=
  match f with
  | given a => some a
  | _ => fallback

/-- `{ ...(field !== undefined ? { column: field } : {}) }`. -/
def overwrite (f : Field α) (column : Option α) : Option α :=
  match f with
  | absent => column
  | null => none
  | given a => some a

def isPresent : Field α → Bool
  | absent => false
  | _ => true

end Field

/-- White space as `String.prototype.trim` understands it. -/
def isTrimmed (c : Char) : Bool :=
  [9, 10, 11, 12, 13, 32, 160, 5760, 8232, 8233, 8239, 8287, 12288, 65279].contains c.toNat ||
    (8192 ≤ c.toNat && c.toNat ≤ 8202)

def trim (t : Text) : Text :=
  ((t.dropWhile isTrimmed).reverse.dropWhile isTrimmed).reverse

theorem dropWhile_of_head {t : Text} (h : ∀ c ∈ t.head?, isTrimmed c = false) :
    t.dropWhile isTrimmed = t := by
  cases t with
  | nil => rfl
  | cons c t => rw [List.dropWhile_cons, h c rfl, if_neg Bool.false_ne_true]

/-- `length` counts UTF-16 code units. -/
def textLength (t : Text) : Nat :=
  t.foldl (fun n c => n + if c.toNat < 65536 then 1 else 2) 0

/-- A stable sort by a numeric column, smallest first. -/
def sortBy {α : Type} (key : α → Nat) : List α → List α
  | [] => []
  | a :: as => insert a (sortBy key as)
where
  insert (a : α) : List α → List α
    | [] => [a]
    | b :: bs => if key a ≤ key b then a :: b :: bs else b :: insert a bs

/-- The elements whose numeric column is greatest. -/
def greatest {α : Type} (key : α → Nat) (as : List α) : List α :=
  as.filter fun a => as.all fun b => key b ≤ key a

/-- The elements whose numeric column is least. -/
def least {α : Type} (key : α → Nat) (as : List α) : List α :=
  as.filter fun a => as.all fun b => key a ≤ key b

end BlocTrust
