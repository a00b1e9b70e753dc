import BlocTrust.DocumentValidation

/-!
The headers with which an approved document is served.
`safeFilename` replaces quotes, backslashes and line breaks of the stored filename; a header value
with any other control character, or with a character above 0xFF, is refused by Node.
`validateFilename` looks at a normalized copy and lets both through.
-/
namespace BlocTrust.InvoicesController

open DocumentValidation

section Headers

abbrev Headers := List (Text × Text)

/-- Tab, 0x20 to 0x7E and 0x80 to 0xFF. -/
def isHeaderChar (c : Char) : Bool :=
  c.toNat == 9 || (32 ≤ c.toNat && c.toNat ≤ 126) || (128 ≤ c.toNat && c.toNat ≤ 255)

def removeHeader (name : Text) (headers : Headers) : Headers := headers.filter (·.1 ≠ name)

/-- `setHeader` throws `ERR_INVALID_CHAR`. -/
def setHeader (name value : Text) (headers : Headers) : Except Failure Headers :=
  if value.all isHeaderChar then .ok (removeHeader name headers ++ [(name, value)])
  else .error (.raised "ERR_INVALID_CHAR")

/-- `replace(/["\\\r\n]/gu, '_')` -/
def safeFilename (filename : Text) : Text :=
  filename.map fun c => if c = '"' ∨ c = '\\' ∨ c = '\r' ∨ c = '\n' then '_' else c

def contentDisposition (filename : Text) : Text :=
  "inline; filename=".toList ++ '"' :: safeFilename filename ++ ['"']

/-- What `download` does to the response before it pipes the document; `frameAncestors` is what
`trustedFrameAncestors()` returns. -/
def download (mimeType frameAncestors filename : Text) (headers : Headers) :
    Except Failure Headers := do
  let headers ← setHeader "Content-Type".toList mimeType headers
  let headers := removeHeader "X-Frame-Options".toList headers
  let headers := removeHeader "Cross-Origin-Resource-Policy".toList headers
  let headers ← setHeader "Content-Security-Policy".toList
    ("default-src 'none'; frame-ancestors ".toList ++ frameAncestors) headers
  let headers ← setHeader "Cross-Origin-Resource-Policy".toList "cross-origin".toList headers
  setHeader "Content-Disposition".toList (contentDisposition filename) headers

end Headers

section Legality

variable {filename : Text}

/-- The characters of a filename that do no harm. -/
def isPlainChar (c : Char) : Bool :=
  [9, 10, 13].contains c.toNat || (32 ≤ c.toNat && c.toNat ≤ 255 && c.toNat ≠ 127)

theorem safeFilename_mem {c : Char} : c ∈ safeFilename filename ↔
    ∃ d ∈ filename, (if d = '"' ∨ d = '\\' ∨ d = '\r' ∨ d = '\n' then '_' else d) = c := by
  unfold safeFilename
  rw [List.mem_map]

/-- The two characters that would end or escape the quoted filename are gone. -/
theorem safeFilename_unquoted : '"' ∉ safeFilename filename ∧ '\\' ∉ safeFilename filename := by
  constructor
  all_goals
    intro h
    obtain ⟨d, -, hd⟩ := safeFilename_mem.mp h
    split_ifs at hd with hreplaced
    · exact absurd hd (by decide)
    · simp [hd] at hreplaced

/-- A character is legal once it has been escaped exactly when it is plain. -/
theorem isHeaderChar_escaped (c : Char) :
    isHeaderChar (if c = '"' ∨ c = '\\' ∨ c = '\r' ∨ c = '\n' then '_' else c) = isPlainChar c := by
  by_cases hreplaced : c = '"' ∨ c = '\\' ∨ c = '\r' ∨ c = '\n'
  · rw [if_pos hreplaced]
    obtain rfl | rfl | rfl | rfl := hreplaced <;> decide
  · rw [if_neg hreplaced]
    have hne : c.toNat ≠ 10 ∧ c.toNat ≠ 13 := by
      constructor
      · intro h
        exact hreplaced (.inr (.inr (.inr (Char.toNat_inj.mp h))))
      · intro h
        exact hreplaced (.inr (.inr (.inl (Char.toNat_inj.mp h))))
    unfold isHeaderChar isPlainChar
    rw [Bool.eq_iff_iff]
    simp only [List.contains_iff_mem, List.mem_cons, List.not_mem_nil, or_false, Bool.or_eq_true,
      Bool.and_eq_true, beq_iff_eq, decide_eq_true_eq]
    omega

theorem legal_safeFilename :
    (safeFilename filename).all isHeaderChar = filename.all isPlainChar := by
  unfold safeFilename
  rw [List.all_map]
  exact List.all_congr rfl fun c => isHeaderChar_escaped c

theorem legal_contentDisposition :
    (contentDisposition filename).all isHeaderChar = filename.all isPlainChar := by
  have hprefix : "inline; filename=".toList.all isHeaderChar = true := rfl
  unfold contentDisposition
  rw [List.all_append, List.all_append, List.all_cons, legal_safeFilename, hprefix,
    show isHeaderChar '"' = true by decide, show (['"'] : Text).all isHeaderChar = true by decide]
  simp

theorem quotes_contentDisposition : (contentDisposition filename).count '"' = 2 := by
  have hprefix : "inline; filename=".toList.count '"' = 0 := rfl
  have hname : (safeFilename filename).count '"' = 0 :=
    List.count_eq_zero.mpr safeFilename_unquoted.1
  unfold contentDisposition
  rw [List.count_append, List.count_append, List.count_cons, hname, hprefix]
  rfl

theorem backslash_contentDisposition : '\\' ∉ contentDisposition filename := by
  have hprefix : '\\' ∉ "inline; filename=".toList := by decide +kernel
  unfold contentDisposition
  simp only [List.mem_append, List.mem_cons, hprefix, safeFilename_unquoted.2, List.not_mem_nil]
  decide

end Legality

section Serving

variable {mimeType frameAncestors filename name value : Text} {headers : Headers}

theorem setHeader_of_legal (h : value.all isHeaderChar = true) :
    setHeader name value headers = .ok (removeHeader name headers ++ [(name, value)]) :=
  if_pos h

theorem setHeader_of_illegal (h : value.all isHeaderChar = false) :
    setHeader name value headers = .error (.raised "ERR_INVALID_CHAR") := by
  unfold setHeader
  rw [h]
  rfl

/-- With a type that validation knows and legal ancestors only the filename can do harm. -/
theorem download_ok_iff (hmime : mimeType ∈ allowedTypes.map Prod.fst)
    (hancestors : frameAncestors.all isHeaderChar = true) :
    (∃ sent, download mimeType frameAncestors filename headers = .ok sent) ↔
      filename.all isPlainChar = true := by
  have htypes : ∀ mimeType ∈ allowedTypes.map Prod.fst, mimeType.all isHeaderChar = true := by
    decide +kernel
  have hpolicy : ("default-src 'none'; frame-ancestors ".toList ++ frameAncestors).all
      isHeaderChar = true := by
    rw [List.all_append, hancestors, Bool.and_true]
    rfl
  have hcross : "cross-origin".toList.all isHeaderChar = true := rfl
  unfold download
  simp only [setHeader_of_legal (htypes mimeType hmime), setHeader_of_legal hpolicy,
    setHeader_of_legal hcross, bind, Except.bind]
  cases hname : filename.all isPlainChar with
  | true =>
      rw [setHeader_of_legal (legal_contentDisposition.trans hname)]
      simp
  | false =>
      rw [setHeader_of_illegal (legal_contentDisposition.trans hname)]
      simp

/-- The header is well formed, and setting it never throws. -/
structure Serves (filename : Text) : Prop where
  legal : ∀ c ∈ contentDisposition filename, isHeaderChar c = true
  quotes : (contentDisposition filename).count '"' = 2
  backslash : '\\' ∉ contentDisposition filename
  download : ∀ mimeType ∈ allowedTypes.map Prod.fst, ∀ frameAncestors,
    frameAncestors.all isHeaderChar = true → ∀ headers,
      ∃ sent, download mimeType frameAncestors filename headers = .ok sent

theorem serves_iff : Serves filename ↔ ∀ c ∈ filename, isPlainChar c = true := by
  have hlegal : (∀ c ∈ contentDisposition filename, isHeaderChar c = true) ↔
      ∀ c ∈ filename, isPlainChar c = true := by
    rw [← List.all_eq_true, ← List.all_eq_true, legal_contentDisposition]
  constructor
  · exact fun h => hlegal.mp h.legal
  · intro h
    refine ⟨hlegal.mpr h, quotes_contentDisposition, backslash_contentDisposition, ?_⟩
    intro mimeType hmime frameAncestors hancestors headers
    exact (download_ok_iff hmime hancestors).mpr (List.all_eq_true.mpr h)

/-- An accepted filename can be served when it has no control character but tabs and line breaks,
and none above 0xFF. -/
theorem accepted_filename_serves_iff (normalize : Text → Text) (filename : Text)
    (_ : validateFilename normalize filename = none) :
    Serves filename ↔ ∀ c ∈ filename, c.toNat ≤ 255 ∧ c.toNat ≠ 127 ∧
      (32 ≤ c.toNat ∨ c.toNat = 9 ∨ c.toNat = 10 ∨ c.toNat = 13) := by
  rw [serves_iff]
  refine forall_congr' fun c => imp_congr_right fun _ => ?_
  unfold isPlainChar
  simp only [List.contains_iff_mem, List.mem_cons, List.not_mem_nil, or_false, Bool.or_eq_true,
    Bool.and_eq_true, decide_eq_true_eq]
  omega

theorem plain_filename_serves : Serves "a\nb.pdf".toList ↔
    ∀ c ∈ "a\nb.pdf".toList, c.toNat ≤ 255 ∧ c.toNat ≠ 127 ∧
      (32 ≤ c.toNat ∨ c.toNat = 9 ∨ c.toNat = 10 ∨ c.toNat = 13) :=
  accepted_filename_serves_iff (List.map Char.toLower) _ rfl

/-- The letter a with a breve. -/
theorem breve_filename_accepted_not_served :
    validateFilename (List.map Char.toLower) (Char.ofNat 259 :: ".pdf".toList) = none ∧
      ¬ Serves (Char.ofNat 259 :: ".pdf".toList) := by
  refine ⟨rfl, fun h => ?_⟩
  have hplain := serves_iff.mp h _ (.head _)
  exact absurd hplain (by decide)

end Serving

end BlocTrust.InvoicesController
