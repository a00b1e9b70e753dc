import BlocTrust.JsonText

/-!
`sanitizeInvoice`: what every endpoint of the invoices returns.
The value is written with a replacer that drops the storage keys, the fingerprint and the scan
detail, and read again.  The replacer sees every value under its key before the parts of the value,
the elements of an array under their indices.
-/
namespace BlocTrust.InvoicesService

open JsonReader JsonText

/-- What a replacer returns: `undefined`, a string, or the value that it was given. -/
inductive Replacement
  | undefined
  | text (t : Text)
  | same
  deriving DecidableEq, Repr

section Stringify

variable {N : Type} (F : NumberFormat N) (replacer : Text → Value N Int → Replacement)

mutual

/-- `JSON.stringify` of a property: `none` is `undefined`, and a big integer is a `TypeError`. -/
def stringifyProperty (key : Text) (value : Value N Int) : Except Failure (Option Text) :=
  match replacer key value with
  | .undefined => .ok none
  | .text t => .ok (some (stringifyText t))
  | .same =>
      match value with
      | .null => .ok (some "null".toList)
      | .bool b => .ok (some (if b then "true".toList else "false".toList))
      | .number n => .ok (some (F.text n))
      | .bigint _ => .error .typeError
      | .string t => .ok (some (stringifyText t))
      | .array values => do
          let texts ← stringifyElements 0 values
          return some (['['] ++ joinComma texts ++ [']'])
      | .object entries => do
          let texts ← stringifyMembers entries
          return some ([Char.ofNat 123] ++ joinComma texts ++ [Char.ofNat 125])

/-- An element that is `undefined` is written as `null`. -/
def stringifyElements (index : Nat) : List (Value N Int) → Except Failure (List Text)
  | [] => .ok []
  | value :: values => do
      let text ← stringifyProperty (digits index) value
      let texts ← stringifyElements (index + 1) values
      return text.getD "null".toList :: texts

/-- A member that is `undefined` is left out. -/
def stringifyMembers : List (Text × Value N Int) → Except Failure (List Text)
  | [] => .ok []
  | (key, value) :: entries => do
      let text ← stringifyProperty key value
      let texts ← stringifyMembers entries
      match text with
      | none => return texts
      | some text => return (stringifyText key ++ ':' :: text) :: texts

end

end Stringify

def restrictedKeys : List Text :=
  ["quarantineObjectKey".toList, "approvedObjectKey".toList, "sha256".toList, "scanDetail".toList]

def invoiceReplacer {N : Type} (key : Text) (value : Value N Int) : Replacement :=
  if restrictedKeys.contains key then .undefined
  else
    match value with
    | .bigint n => .text (stringifyInt n)
    | _ => .same

/-- `JSON.parse(JSON.stringify(invoice, replacer))` -/
def sanitizeInvoice {N : Type} (F : NumberFormat N) (invoice : Value N Int) :
    Except Failure (Value N Empty) := do
  let text ← stringifyProperty F invoiceReplacer [] invoice
  (text.bind (JsonText.parse F)).elim (.error (.raised "SyntaxError")) .ok

section Sanitized

variable {N : Type}

mutual

/-- The value without its restricted entries, its big integers in decimal. -/
def withoutRestricted : Value N Int → Value N Empty
  | .null => .null
  | .bool b => .bool b
  | .number n => .number n
  | .bigint n => .string (stringifyInt n)
  | .string t => .string t
  | .array values => .array (elementsWithout values)
  | .object entries => .object (entriesWithout entries)

def elementsWithout : List (Value N Int) → List (Value N Empty)
  | [] => []
  | value :: values => withoutRestricted value :: elementsWithout values

def entriesWithout : List (Text × Value N Int) → List (Text × Value N Empty)
  | [] => []
  | (key, value) :: entries =>
      if restrictedKeys.contains key then entriesWithout entries
      else (key, withoutRestricted value) :: entriesWithout entries

end

mutual

/-- The keys of all objects in a value. -/
def keysOf {B : Type} : Value N B → List Text
  | .array values => keysOfElements values
  | .object entries => keysOfEntries entries
  | _ => []

def keysOfElements {B : Type} : List (Value N B) → List Text
  | [] => []
  | value :: values => keysOf value ++ keysOfElements values

def keysOfEntries {B : Type} : List (Text × Value N B) → List Text
  | [] => []
  | (key, value) :: entries => key :: (keysOf value ++ keysOfEntries entries)

end

end Sanitized

section Proofs

variable {N : Type} {F : NumberFormat N}

/-- An index of an array is not among the keys that are dropped. -/
theorem not_restricted_digits (n : Nat) : restrictedKeys.contains (digits n) = false := by
  have hletter : restrictedKeys.all (fun key => key.any fun c => !c.isDigit) = true := by rfl
  rw [Bool.eq_false_iff]
  intro h
  have hkey := List.all_eq_true.mp hletter _ (List.contains_iff_mem.mp h)
  obtain ⟨c, hc, hdigit⟩ := List.any_eq_true.mp hkey
  rw [JsonReader.isDigit_of_mem_digits hc] at hdigit
  cases hdigit

mutual

/-- Under any key that is kept the text of a value is that of the value without its restricted
entries. -/
theorem stringifyProperty_eq (key : Text) (value : Value N Int) :
    stringifyProperty F invoiceReplacer key value =
      .ok (if restrictedKeys.contains key then none
        else some (print F (withoutRestricted value))) := by
  unfold stringifyProperty invoiceReplacer
  by_cases hkey : restrictedKeys.contains key = true
  · rw [if_pos hkey, if_pos hkey]
  rw [if_neg hkey, if_neg hkey]
  cases value with
  | null => rfl
  | bool b => rfl
  | number n => rfl
  | bigint n => rfl
  | string t => rfl
  | array values =>
      show (stringifyElements F invoiceReplacer 0 values >>= _) = _
      rw [stringifyElements_eq 0 values]
      rfl
  | object entries =>
      show (stringifyMembers F invoiceReplacer entries >>= _) = _
      rw [stringifyMembers_eq entries]
      rfl

theorem stringifyElements_eq (index : Nat) (values : List (Value N Int)) :
    stringifyElements F invoiceReplacer index values =
      .ok (printValues F (elementsWithout values)) := by
  cases values with
  | nil => rfl
  | cons value values =>
      rw [stringifyElements, stringifyProperty_eq, not_restricted_digits,
        stringifyElements_eq (index + 1) values]
      rfl

theorem stringifyMembers_eq (entries : List (Text × Value N Int)) :
    stringifyMembers F invoiceReplacer entries =
      .ok (printEntries F (entriesWithout entries)) := by
  cases entries with
  | nil => rfl
  | cons e entries =>
      obtain ⟨key, value⟩ := e
      rw [stringifyMembers, stringifyProperty_eq, stringifyMembers_eq entries, entriesWithout]
      by_cases hkey : restrictedKeys.contains key = true
      · rw [if_pos hkey, if_pos hkey]
        rfl
      · rw [if_neg hkey, if_neg hkey]
        rfl

end

theorem entriesWithout_mem {entries : List (Text × Value N Int)} {e : Text × Value N Empty}
    (h : e ∈ entriesWithout entries) : ∃ f ∈ entries, f.1 = e.1 := by
  induction entries with
  | nil => cases h
  | cons f entries ih =>
      rw [entriesWithout] at h
      split_ifs at h with hkey
      · obtain ⟨g, hg, heq⟩ := ih h
        exact ⟨g, .tail _ hg, heq⟩
      · rcases List.mem_cons.mp h with rfl | h
        · exact ⟨f, .head _, rfl⟩
        · obtain ⟨g, hg, heq⟩ := ih h
          exact ⟨g, .tail _ hg, heq⟩

/-- What is left of the properties is in their order. -/
theorem entriesWithout_ordered {entries : List (Text × Value N Int)} (h : Ordered entries) :
    Ordered (entriesWithout entries) := by
  induction entries with
  | nil => exact .nil
  | cons f entries ih =>
      obtain ⟨hfirst, hrest⟩ := List.pairwise_cons.mp h
      rw [entriesWithout]
      split_ifs with hkey
      · exact ih hrest
      · refine List.pairwise_cons.mpr ⟨fun e he => ?_, ih hrest⟩
        obtain ⟨g, hg, heq⟩ := entriesWithout_mem he
        rw [← heq]
        exact hfirst g hg

mutual

theorem allOrdered_without (value : Value N Int) (h : AllOrdered value) :
    AllOrdered (withoutRestricted value) := by
  cases value with
  | array values =>
      rw [AllOrdered] at h
      exact elementsOrdered_without values h
  | object entries =>
      rw [AllOrdered] at h
      exact ⟨entriesWithout_ordered h.1, entriesOrdered_without entries h.2⟩
  | null | bool | number | bigint | string => trivial

theorem elementsOrdered_without (values : List (Value N Int)) (h : AllOrderedValues values) :
    AllOrderedValues (elementsWithout values) := by
  cases values with
  | nil => trivial
  | cons value values =>
      rw [AllOrderedValues] at h
      exact ⟨allOrdered_without value h.1, elementsOrdered_without values h.2⟩

theorem entriesOrdered_without (entries : List (Text × Value N Int))
    (h : AllOrderedEntries entries) : AllOrderedEntries (entriesWithout entries) := by
  cases entries with
  | nil => trivial
  | cons e entries =>
      obtain ⟨key, value⟩ := e
      rw [AllOrderedEntries] at h
      rw [entriesWithout]
      split_ifs with hkey
      · exact entriesOrdered_without entries h.2
      · exact ⟨allOrdered_without value h.1, entriesOrdered_without entries h.2⟩

end

mutual

theorem keysOf_without (value : Value N Int) (key : Text)
    (h : key ∈ keysOf (withoutRestricted value)) : key ∉ restrictedKeys := by
  cases value with
  | array values => exact keysOfElements_without values key h
  | object entries => exact keysOfEntries_without entries key h
  | null | bool | number | bigint | string => cases h

theorem keysOfElements_without (values : List (Value N Int)) (key : Text)
    (h : key ∈ keysOfElements (elementsWithout values)) : key ∉ restrictedKeys := by
  cases values with
  | nil => cases h
  | cons value values =>
      rcases List.mem_append.mp h with h | h
      · exact keysOf_without value key h
      · exact keysOfElements_without values key h

theorem keysOfEntries_without (entries : List (Text × Value N Int)) (key : Text)
    (h : key ∈ keysOfEntries (entriesWithout entries)) : key ∉ restrictedKeys := by
  cases entries with
  | nil => cases h
  | cons e entries =>
      obtain ⟨name, value⟩ := e
      rw [entriesWithout] at h
      split_ifs at h with hname
      · exact keysOfEntries_without entries key h
      · rcases List.mem_cons.mp h with rfl | h
        · exact fun hmem => hname (List.contains_iff_mem.mpr hmem)
        · rcases List.mem_append.mp h with h | h
          · exact keysOf_without value key h
          · exact keysOfEntries_without entries key h

end

end Proofs

section Results

variable {N : Type}

/-- The text is that of the value without its restricted entries, and it is read back. -/
theorem sanitizeInvoice_eq (F : NumberFormat N) {invoice : Value N Int} (h : AllOrdered invoice) :
    sanitizeInvoice F invoice = .ok (withoutRestricted invoice) := by
  unfold sanitizeInvoice
  have hroot : restrictedKeys.contains ([] : Text) = false := rfl
  rw [stringifyProperty_eq, hroot]
  show (JsonText.parse F (print F (withoutRestricted invoice))).elim _ Except.ok = _
  rw [parse_print F (allOrdered_without invoice h)]
  rfl

/-- No restricted key is left at any depth, and nothing else has changed. -/
theorem sanitized_without_restricted (F : NumberFormat N) (invoice : Value N Int)
    (h : AllOrdered invoice) :
    ∃ value, sanitizeInvoice F invoice = .ok value ∧ value = withoutRestricted invoice ∧
      ∀ key ∈ keysOf value, key ∉ restrictedKeys :=
  ⟨_, sanitizeInvoice_eq F h, rfl, keysOf_without invoice⟩

/-- A document inside an invoice. -/
def sampleInvoiceValue : Value Int Int :=
  .object
    [("totalAmount".toList, .bigint 1250),
     ("documents".toList, .array
       [.object [("sha256".toList, .string "ab".toList), ("sizeBytes".toList, .number 17)]])]

theorem sampleInvoice_sanitized :
    ∃ value, sanitizeInvoice integers sampleInvoiceValue = .ok value ∧
      value = withoutRestricted sampleInvoiceValue ∧
      ∀ key ∈ keysOf value, key ∉ restrictedKeys := by
  refine sanitized_without_restricted integers sampleInvoiceValue ?_
  have hinvoice : precedes "totalAmount".toList "documents".toList = true := rfl
  have hdocument : precedes "sha256".toList "sizeBytes".toList = true := rfl
  simp only [sampleInvoiceValue, AllOrdered, AllOrderedValues, AllOrderedEntries, Ordered,
    List.pairwise_cons, List.Pairwise.nil, List.mem_singleton, List.not_mem_nil, forall_eq,
    false_implies, implies_true, and_true, hinvoice, hdocument]

end Results

end BlocTrust.InvoicesService
