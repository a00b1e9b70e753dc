import BlocTrust.Services

/-!
Validation of an uploaded file while it is read.
The loop over the stream keeps a window of sixteen bytes for the signature, the size and what has
been hashed.  Whatever the chunks are, it ends where one look at the whole file ends: with the
window at the beginning of the file, or with a rejection when the file is too large.  A file is
then accepted exactly when its name, size, type and signature agree, but for the signature of a
PDF, which is compared without the highest bits of its bytes.
-/
namespace BlocTrust.DocumentValidation

section Types

def maxInvoiceBytes : Nat := 15 * 1024 * 1024

def allowedTypes : List (Text × List Text) :=
  [("application/pdf".toList, [".pdf".toList]),
   ("image/png".toList, [".png".toList]),
   ("image/jpeg".toList, [".jpg".toList, ".jpeg".toList])]

def isSuffixChar (c : Char) : Bool :=
  (97 ≤ c.toNat && c.toNat ≤ 122) || (48 ≤ c.toNat && c.toNat ≤ 57)

/-- The number of matches of a dot followed by lower-case letters or digits. -/
def countSuffixes : Text → Nat
  | '.' :: c :: t => (if isSuffixChar c then 1 else 0) + countSuffixes (c :: t)
  | _ :: t => countSuffixes t
  | [] => 0

def endsWith (t suffix : Text) : Bool := suffix.isSuffixOf t

/-- `normalize` is the NFKC normalization followed by `toLowerCase`. -/
def validateFilename (normalize : Text → Text) (filename : Text) : Option Failure :=
  if 255 < textLength filename ∨ Char.ofNat 0 ∈ filename ∨
      countSuffixes (normalize filename) ≠ 1 then
    some (.badRequest "DOCUMENT_FILENAME_REJECTED")
  else if (allowedTypes.flatMap Prod.snd).any (endsWith (normalize filename)) then none
  else some (.badRequest "DOCUMENT_EXTENSION_REJECTED")

/-- `toString('ascii')` clears the highest bit of each byte. -/
def asciiText (bs : Bytes) : Text := bs.map fun b => Char.ofNat (b.toNat % 128)

def detectMimeType (signature : Bytes) : Text :=
  if asciiText (signature.take 5) = "%PDF-".toList then "application/pdf".toList
  else if signature.take 8 = [137, 80, 78, 71, 13, 10, 26, 10] then "image/png".toList
  else if signature.take 3 = [255, 216, 255] then "image/jpeg".toList
  else "application/octet-stream".toList

structure ValidatedDocument where
  detectedMimeType : Text
  sha256 : Digest
  sizeBytes : Nat
  deriving DecidableEq, Repr

end Types

section Streams

/-- The variables of the loop.  A hash has absorbed the bytes it was updated with. -/
structure Progress where
  signature : Bytes
  signatureLength : Nat
  sizeBytes : Nat
  hash : Bytes
  deriving DecidableEq, Repr

def start : Progress := ⟨List.replicate 16 0, 0, 0, []⟩

/-- `bytes.copy(target, targetStart, 0, sourceEnd)`: the target and the number of bytes copied. -/
def copy (bytes target : Bytes) (targetStart sourceEnd : Nat) : Bytes × Nat :=
  let copied := (bytes.take sourceEnd).take (target.length - targetStart)
  (target.take targetStart ++ copied ++ target.drop (targetStart + copied.length), copied.length)

def readChunk (p : Progress) (bytes : Bytes) : Except Failure Progress :=
  let sizeBytes := p.sizeBytes + bytes.length
  if maxInvoiceBytes < sizeBytes then .error (.payloadTooLarge "DOCUMENT_TOO_LARGE")
  else if p.signatureLength < p.signature.length then
    let copied := copy bytes p.signature p.signatureLength (p.signature.length - p.signatureLength)
    .ok ⟨copied.1, p.signatureLength + copied.2, sizeBytes, p.hash ++ bytes⟩
  else .ok { p with sizeBytes := sizeBytes, hash := p.hash ++ bytes }

def readStream (p : Progress) : List Bytes → Except Failure Progress
  | [] => .ok p
  | bytes :: chunks => readChunk p bytes >>= fun p => readStream p chunks

/-- What is done when the stream has ended. -/
def checkContent (sha256 : Bytes → Digest) (toLowerCase : Text → Text)
    (filename declaredMimeType : Text) (p : Progress) : Except Failure ValidatedDocument :=
  if p.sizeBytes = 0 then .error (.badRequest "DOCUMENT_EMPTY")
  else
    let detected := detectMimeType (p.signature.take p.signatureLength)
    match allowedTypes.lookup detected with
    | none => .error (.badRequest "DOCUMENT_MIME_SIGNATURE_MISMATCH")
    | some extensions =>
        if toLowerCase declaredMimeType ≠ detected then
          .error (.badRequest "DOCUMENT_MIME_SIGNATURE_MISMATCH")
        else if extensions.any (endsWith (toLowerCase filename)) then
          .ok ⟨detected, sha256 p.hash, p.sizeBytes⟩
        else .error (.badRequest "DOCUMENT_EXTENSION_SIGNATURE_MISMATCH")

/-- The file as the stream delivers it; `normalize` is the NFKC normalization followed by
`toLowerCase`. -/
def validateDocumentFile (sha256 : Bytes → Digest) (normalize toLowerCase : Text → Text)
    (chunks : List Bytes) (filename declaredMimeType : Text) (reportedSize : Option Nat) :
    Except Failure ValidatedDocument :=
  match validateFilename normalize filename with
  | some failure => .error failure
  | none =>
      if reportedSize.any (maxInvoiceBytes < ·) then
        .error (.payloadTooLarge "DOCUMENT_TOO_LARGE")
      else readStream start chunks >>= checkContent sha256 toLowerCase filename declaredMimeType

end Streams

section Chunks

/-- The loop has read these bytes. -/
structure Progress.Of (p : Progress) (read : Bytes) : Prop where
  signature : p.signature = read.take 16 ++ List.replicate (16 - read.length) 0
  signatureLength : p.signatureLength = min 16 read.length
  sizeBytes : p.sizeBytes = read.length
  hash : p.hash = read
  small : read.length ≤ maxInvoiceBytes

variable {p : Progress} {read bytes : Bytes}

theorem start_of : start.Of [] := ⟨rfl, rfl, rfl, rfl, Nat.zero_le _⟩

theorem Progress.Of.signature_length (h : p.Of read) : p.signature.length = 16 := by
  rw [h.signature, List.length_append, List.length_take, List.length_replicate]
  omega

theorem Progress.Of.window (h : p.Of read) : p.signature.take p.signatureLength = read.take 16 := by
  have hlength : (read.take 16).length = p.signatureLength := by
    rw [List.length_take, h.signatureLength]
  rw [h.signature, ← hlength, List.take_left]

/-- What is copied behind the window continues it. -/
theorem copy_of (h : p.Of read) (hopen : p.signatureLength < p.signature.length) :
    copy bytes p.signature p.signatureLength (p.signature.length - p.signatureLength) =
      ((read ++ bytes).take 16 ++ List.replicate (16 - (read ++ bytes).length) 0,
        min (16 - read.length) bytes.length) := by
  have hlength := h.signature_length
  have hshort : read.length < 16 := by
    have hwindow := h.signatureLength
    omega
  have hwindow : p.signatureLength = read.length := by
    rw [h.signatureLength]
    omega
  have hcopied : (bytes.take (16 - read.length)).length = min (16 - read.length) bytes.length :=
    List.length_take
  unfold copy
  rw [hlength, hwindow, List.take_take, Nat.min_self]
  refine Prod.ext ?_ hcopied
  have htake : read.take 16 = read := List.take_of_length_le (by omega)
  have hrest : List.drop (read.length + (bytes.take (16 - read.length)).length) p.signature =
      List.replicate (16 - (read ++ bytes).length) 0 := by
    rw [h.signature, htake, List.drop_append, List.drop_of_length_le (by omega), List.nil_append,
      List.drop_replicate, hcopied, List.length_append]
    congr 1
    omega
  show p.signature.take read.length ++ _ ++ _ = _
  rw [hrest, h.signature, htake, List.take_left, List.take_append, htake]

/-- A chunk extends what has been read, or makes it too large. -/
theorem readChunk_of (h : p.Of read) :
    (maxInvoiceBytes < (read ++ bytes).length ∧
      readChunk p bytes = .error (.payloadTooLarge "DOCUMENT_TOO_LARGE")) ∨
    ∃ q, readChunk p bytes = .ok q ∧ q.Of (read ++ bytes) := by
  have hsize : p.sizeBytes + bytes.length = (read ++ bytes).length := by
    rw [h.sizeBytes, List.length_append]
  unfold readChunk
  by_cases hlarge : maxInvoiceBytes < (read ++ bytes).length
  · left
    exact ⟨hlarge, by rw [hsize, if_pos hlarge]⟩
  right
  have hsmall : (read ++ bytes).length ≤ maxInvoiceBytes := Nat.le_of_not_lt hlarge
  have hlength := h.signature_length
  have hwindow := h.signatureLength
  rw [hsize, if_neg hlarge]
  by_cases hopen : p.signatureLength < p.signature.length
  · rw [if_pos hopen]
    refine ⟨_, rfl, ?_⟩
    rw [copy_of h hopen]
    constructor
    · rfl
    · show p.signatureLength + min (16 - read.length) bytes.length = _
      rw [List.length_append]
      omega
    · rfl
    · show p.hash ++ bytes = _
      rw [h.hash]
    · exact hsmall
  · -- the window is full, and the sixteen bytes are those of the beginning
    rw [if_neg hopen]
    have hfull : 16 ≤ read.length := by omega
    refine ⟨_, rfl, ?_⟩
    constructor
    · show p.signature = _
      rw [h.signature, List.length_append, List.take_append_of_le_length hfull]
      congr 2
      omega
    · show p.signatureLength = _
      rw [List.length_append]
      omega
    · rfl
    · show p.hash ++ bytes = _
      rw [h.hash]
    · exact hsmall

/-- The loop fails when the bytes are too many, and otherwise has read them all. -/
theorem readStream_of (chunks : List Bytes) (h : p.Of read) :
    (maxInvoiceBytes < (read ++ chunks.flatten).length ∧
      readStream p chunks = .error (.payloadTooLarge "DOCUMENT_TOO_LARGE")) ∨
    ∃ q, readStream p chunks = .ok q ∧ q.Of (read ++ chunks.flatten) := by
  induction chunks generalizing p read with
  | nil =>
      right
      refine ⟨p, rfl, ?_⟩
      rwa [List.flatten_nil, List.append_nil]
  | cons bytes chunks ih =>
      rw [List.flatten_cons, ← List.append_assoc]
      unfold readStream
      obtain ⟨hlarge, hfailed⟩ | ⟨q, hread, hq⟩ := @readChunk_of p read bytes h
      · left
        rw [hfailed, List.length_append]
        exact ⟨by omega, rfl⟩
      · rw [hread]
        exact ih hq

end Chunks

section Signatures

def pdfSignature : Bytes := [37, 80, 68, 70, 45]

def signatures : List (Text × Bytes) :=
  [("application/pdf".toList, pdfSignature),
   ("image/png".toList, [137, 80, 78, 71, 13, 10, 26, 10]),
   ("image/jpeg".toList, [255, 216, 255])]

/-- The bytes begin with the signature of this type, and the declared type and the name agree. -/
structure Agrees (toLowerCase : Text → Text) (bytes : Bytes) (filename declaredMimeType : Text)
    (mimeType : Text) : Prop where
  signature : ∃ signature, (mimeType, signature) ∈ signatures ∧ signature <+: bytes
  declared : toLowerCase declaredMimeType = mimeType
  extension : ∃ extensions, (mimeType, extensions) ∈ allowedTypes ∧
    ∃ extension ∈ extensions, endsWith (toLowerCase filename) extension = true

/-- What does not depend on the type. -/
structure Admits (normalize : Text → Text) (bytes : Bytes) (filename : Text)
    (reportedSize : Option Nat) : Prop where
  filename : validateFilename normalize filename = none
  reported : ∀ size ∈ reportedSize, size ≤ maxInvoiceBytes
  size : bytes.length ≤ maxInvoiceBytes
  nonempty : bytes ≠ []

/-- The first five bytes are a PDF signature once their highest bits are cleared, not before. -/
def Disguised (bytes : Bytes) : Prop :=
  asciiText (bytes.take 5) = "%PDF-".toList ∧ ¬ pdfSignature <+: bytes

variable {bytes : Bytes}

theorem prefix_iff_take {s : Bytes} : s <+: bytes ↔ bytes.take s.length = s := by
  constructor
  · rintro ⟨rest, rfl⟩
    exact List.take_left
  · intro h
    rw [← h]
    exact List.take_prefix ..

theorem asciiText_pdf (h : pdfSignature <+: bytes) :
    asciiText (bytes.take 5) = "%PDF-".toList := by
  have htake : bytes.take 5 = pdfSignature := prefix_iff_take.mp h
  rw [htake]
  decide

/-- A file that is read as a PDF begins with neither of the other signatures. -/
theorem asciiText_head (h : asciiText (bytes.take 5) = "%PDF-".toList) {b : UInt8}
    (hb : bytes.head? = some b) : b ≠ 137 ∧ b ≠ 255 := by
  cases bytes with
  | nil => cases hb
  | cons a rest =>
      cases Option.some.inj hb
      have hfirst : Char.ofNat (b.toNat % 128) = '%' := (List.cons.inj h).1
      constructor
      · rintro rfl
        exact absurd hfirst (by decide)
      · rintro rfl
        exact absurd hfirst (by decide)

theorem head_of_take {n : Nat} {b : UInt8} {s : Bytes} (h : bytes.take n = b :: s) :
    bytes.head? = some b := by
  cases n with
  | zero => cases h
  | succ n =>
      cases bytes with
      | nil => cases h
      | cons a rest => exact congrArg some (List.cons.inj h).1

theorem detectMimeType_pdf : detectMimeType (bytes.take 16) = "application/pdf".toList ↔
    asciiText (bytes.take 5) = "%PDF-".toList := by
  unfold detectMimeType
  rw [List.take_take]
  show ite (asciiText (bytes.take 5) = _) _ _ = _ ↔ _
  constructor
  · intro h
    by_contra hpdf
    rw [if_neg hpdf] at h
    split_ifs at h <;> exact absurd h (by decide)
  · exact fun hpdf => if_pos hpdf

theorem detectMimeType_png : detectMimeType (bytes.take 16) = "image/png".toList ↔
    [137, 80, 78, 71, 13, 10, 26, 10] <+: bytes := by
  unfold detectMimeType
  rw [List.take_take, List.take_take, List.take_take, prefix_iff_take]
  show ite (asciiText (bytes.take 5) = _) _ (ite (bytes.take 8 = _) _ _) = _ ↔ bytes.take 8 = _
  constructor
  · intro h
    by_contra hpng
    rw [if_neg hpng] at h
    split_ifs at h <;> exact absurd h (by decide)
  · intro hpng
    have hpdf : asciiText (bytes.take 5) ≠ "%PDF-".toList := fun hpdf =>
      (asciiText_head hpdf (head_of_take hpng)).1 rfl
    rw [if_neg hpdf, if_pos hpng]

theorem detectMimeType_jpeg : detectMimeType (bytes.take 16) = "image/jpeg".toList ↔
    [255, 216, 255] <+: bytes := by
  unfold detectMimeType
  rw [List.take_take, List.take_take, List.take_take, prefix_iff_take]
  show ite (asciiText (bytes.take 5) = _) _ (ite (bytes.take 8 = _) _ (ite (bytes.take 3 = _) _ _)) =
    _ ↔ bytes.take 3 = _
  constructor
  · intro h
    by_contra hjpeg
    rw [if_neg hjpeg] at h
    split_ifs at h <;> exact absurd h (by decide)
  · intro hjpeg
    have hpng : bytes.take 8 ≠ [137, 80, 78, 71, 13, 10, 26, 10] := by
      intro hpng
      have hhead := (head_of_take hjpeg).symm.trans (head_of_take hpng)
      exact absurd hhead (by decide)
    have hpdf : asciiText (bytes.take 5) ≠ "%PDF-".toList := fun hpdf =>
      (asciiText_head hpdf (head_of_take hjpeg)).2 rfl
    rw [if_neg hpdf, if_neg hpng, if_pos hjpeg]

/-- A type with extensions is detected when the bytes begin with its signature, or when they are
a PDF in disguise. -/
theorem detectMimeType_iff {mimeType : Text} {extensions : List Text}
    (h : (mimeType, extensions) ∈ allowedTypes) :
    detectMimeType (bytes.take 16) = mimeType ↔
      (∃ signature, (mimeType, signature) ∈ signatures ∧ signature <+: bytes) ∨
        mimeType = "application/pdf".toList ∧ Disguised bytes := by
  have hsignature : ∀ {m : Text} {s : Bytes}, (m, s) ∈ signatures →
      (∀ s', (m, s') ∈ signatures → s' = s) →
      ((∃ s', (m, s') ∈ signatures ∧ s' <+: bytes) ↔ s <+: bytes) := by
    intro m s hs honly
    constructor
    · rintro ⟨s', hs', hprefix⟩
      rwa [honly s' hs'] at hprefix
    · exact fun hprefix => ⟨s, hs, hprefix⟩
  simp only [allowedTypes, List.mem_cons, Prod.mk.injEq, List.not_mem_nil, or_false] at h
  obtain ⟨rfl, -⟩ | ⟨rfl, -⟩ | ⟨rfl, -⟩ := h
  · rw [detectMimeType_pdf, hsignature (.head _) (by simp [signatures])]
    by_cases hpdf : pdfSignature <+: bytes
    · simp [hpdf, asciiText_pdf hpdf]
    · simp [hpdf, Disguised]
  · rw [detectMimeType_png, hsignature (.tail _ (.head _)) (by simp [signatures])]
    simp
  · rw [detectMimeType_jpeg, hsignature (.tail _ (.tail _ (.head _))) (by simp [signatures])]
    simp

theorem lookup_allowedTypes {mimeType : Text} {extensions : List Text} :
    allowedTypes.lookup mimeType = some extensions ↔ (mimeType, extensions) ∈ allowedTypes := by
  constructor
  · intro h
    obtain ⟨before, behind, hsplit, -⟩ := List.lookup_eq_some_iff.mp h
    rw [hsplit]
    exact List.mem_append_right _ (.head _)
  · intro h
    simp only [allowedTypes, List.mem_cons, Prod.mk.injEq, List.not_mem_nil, or_false] at h
    obtain ⟨rfl, rfl⟩ | ⟨rfl, rfl⟩ | ⟨rfl, rfl⟩ := h <;> decide

end Signatures

section Acceptance

variable {sha256 : Bytes → Digest} {normalize toLowerCase : Text → Text} {chunks : List Bytes}
  {filename declaredMimeType : Text} {reportedSize : Option Nat}

theorem checkContent_ok_iff {p : Progress} {bytes : Bytes} (h : p.Of bytes)
    {d : ValidatedDocument} :
    checkContent sha256 toLowerCase filename declaredMimeType p = .ok d ↔
      bytes ≠ [] ∧
      (∃ extensions, (detectMimeType (bytes.take 16), extensions) ∈ allowedTypes ∧
        toLowerCase declaredMimeType = detectMimeType (bytes.take 16) ∧
        ∃ extension ∈ extensions, endsWith (toLowerCase filename) extension = true) ∧
      d = ⟨detectMimeType (bytes.take 16), sha256 bytes, bytes.length⟩ := by
  unfold checkContent
  rw [h.sizeBytes, h.window, h.hash]
  by_cases hempty : bytes = []
  · simp [hempty]
  rw [if_neg (mt List.length_eq_zero_iff.mp hempty)]
  dsimp only
  cases hlookup : allowedTypes.lookup (detectMimeType (bytes.take 16)) with
  | none =>
      have hnone : ∀ extensions, (detectMimeType (bytes.take 16), extensions) ∉ allowedTypes := by
        intro extensions hmem
        rw [lookup_allowedTypes.mpr hmem] at hlookup
        cases hlookup
      simp [hnone]
  | some extensions =>
      have hsome : ∀ extensions', (detectMimeType (bytes.take 16), extensions') ∈ allowedTypes ↔
          extensions' = extensions := by
        intro extensions'
        rw [← lookup_allowedTypes, hlookup, Option.some.injEq, eq_comm]
      by_cases hdeclared : toLowerCase declaredMimeType = detectMimeType (bytes.take 16)
      · by_cases hextension : extensions.any (endsWith (toLowerCase filename)) = true
        · have hany := List.any_eq_true.mp hextension
          simp only [hempty, hsome, hdeclared, hextension, ne_eq, not_true, not_false_eq_true,
            if_false, if_true, Except.ok.injEq, exists_eq_left, hany, true_and]
          exact eq_comm
        · have hany : ¬ ∃ extension ∈ extensions, endsWith (toLowerCase filename) extension = true :=
            fun hany => hextension (List.any_eq_true.mpr hany)
          simp only [hdeclared, hextension, hsome, exists_eq_left, hany, ne_eq, not_true, if_false,
            Bool.false_eq_true, reduceCtorEq, and_false, false_and]
      · simp [hdeclared]

theorem validateDocumentFile_ok_iff {d : ValidatedDocument} :
    validateDocumentFile sha256 normalize toLowerCase chunks filename declaredMimeType
        reportedSize = .ok d ↔
      Admits normalize chunks.flatten filename reportedSize ∧
      (∃ extensions, (detectMimeType (chunks.flatten.take 16), extensions) ∈ allowedTypes ∧
        toLowerCase declaredMimeType = detectMimeType (chunks.flatten.take 16) ∧
        ∃ extension ∈ extensions, endsWith (toLowerCase filename) extension = true) ∧
      d = ⟨detectMimeType (chunks.flatten.take 16), sha256 chunks.flatten,
        chunks.flatten.length⟩ := by
  unfold validateDocumentFile
  cases hname : validateFilename normalize filename with
  | some failure =>
      constructor
      · intro h
        cases h
      · rintro ⟨hadmits, -⟩
        exact absurd (hname.symm.trans hadmits.filename) (by simp)
  | none =>
      have hreported : reportedSize.any (maxInvoiceBytes < ·) = false ↔
          ∀ size ∈ reportedSize, size ≤ maxInvoiceBytes := by
        cases reportedSize <;> simp
      cases hany : reportedSize.any (maxInvoiceBytes < ·) with
      | true =>
          rw [if_pos rfl]
          constructor
          · intro h
            cases h
          · rintro ⟨hadmits, -⟩
            rw [hreported.mpr hadmits.reported] at hany
            cases hany
      | false =>
          rw [if_neg Bool.false_ne_true]
          obtain ⟨hlarge, hfailed⟩ | ⟨p, hok, hp⟩ := readStream_of chunks start_of
          · rw [hfailed]
            constructor
            · intro h
              cases h
            · rintro ⟨hadmits, -⟩
              exact absurd hlarge (Nat.not_lt.mpr hadmits.size)
          · rw [hok]
            show checkContent sha256 toLowerCase filename declaredMimeType p = .ok d ↔ _
            rw [checkContent_ok_iff hp]
            constructor
            · rintro ⟨hne, hrest⟩
              exact ⟨⟨hname, hreported.mp hany, hp.small, hne⟩, hrest⟩
            · rintro ⟨hadmits, hrest⟩
              exact ⟨hadmits.nonempty, hrest⟩

/-- The call accepts what is specified, whatever the chunks, and reports size and hash. -/
structure Meets (sha256 : Bytes → Digest) (normalize toLowerCase : Text → Text)
    (chunks : List Bytes) (filename declaredMimeType : Text) (reportedSize : Option Nat) :
    Prop where
  accepts : (∃ d, validateDocumentFile sha256 normalize toLowerCase chunks filename
      declaredMimeType reportedSize = .ok d) ↔
    Admits normalize chunks.flatten filename reportedSize ∧
      ∃ mimeType, Agrees toLowerCase chunks.flatten filename declaredMimeType mimeType
  reports : ∀ d, validateDocumentFile sha256 normalize toLowerCase chunks filename
      declaredMimeType reportedSize = .ok d →
    d.sizeBytes = chunks.flatten.length ∧ d.sha256 = sha256 chunks.flatten

/-- A disguised PDF for which all the rest is in order. -/
structure PassesDisguised (normalize toLowerCase : Text → Text) (bytes : Bytes)
    (filename declaredMimeType : Text) (reportedSize : Option Nat) : Prop where
  admits : Admits normalize bytes filename reportedSize
  disguised : Disguised bytes
  declared : toLowerCase declaredMimeType = "application/pdf".toList
  extension : endsWith (toLowerCase filename) ".pdf".toList = true

theorem Disguised.no_signature {bytes : Bytes} (h : Disguised bytes) {mimeType : Text}
    (hagrees : Agrees toLowerCase bytes filename declaredMimeType mimeType)
    (hpdf : toLowerCase declaredMimeType = "application/pdf".toList) : False := by
  obtain ⟨⟨s, hs, hprefix⟩, hdeclared, -⟩ := hagrees
  rw [← hdeclared, hpdf] at hs
  have hsame : s = pdfSignature := by simpa [signatures] using hs
  exact h.2 (hsame ▸ hprefix)

theorem PassesDisguised.not_meets
    (h : PassesDisguised normalize toLowerCase chunks.flatten filename declaredMimeType
      reportedSize) :
    ¬ Meets sha256 normalize toLowerCase chunks filename declaredMimeType reportedSize := by
  intro hmeets
  obtain ⟨hadmits, hdisguised, hdeclared, hextension⟩ := h
  have hpdf : detectMimeType (chunks.flatten.take 16) = "application/pdf".toList :=
    detectMimeType_pdf.mpr hdisguised.1
  have hok := (@validateDocumentFile_ok_iff sha256 normalize toLowerCase chunks filename
    declaredMimeType reportedSize _).mpr ⟨hadmits, ⟨[".pdf".toList], by rw [hpdf]; decide,
      hdeclared.trans hpdf.symm, _, .head _, hextension⟩, rfl⟩
  obtain ⟨-, mimeType, hagrees⟩ := hmeets.accepts.mp ⟨_, hok⟩
  exact hdisguised.no_signature hagrees hdeclared

/-- The specification is met unless a PDF in disguise passes. -/
theorem validates_iff_not_disguised (sha256 : Bytes → Digest) (normalize toLowerCase : Text → Text)
    (chunks : List Bytes) (filename declaredMimeType : Text) (reportedSize : Option Nat) :
    Meets sha256 normalize toLowerCase chunks filename declaredMimeType reportedSize ↔
      ¬ PassesDisguised normalize toLowerCase chunks.flatten filename declaredMimeType
        reportedSize := by
  constructor
  · exact fun h hpasses => hpasses.not_meets h
  · intro h
    constructor
    · constructor
      · rintro ⟨d, hd⟩
        obtain ⟨hadmits, ⟨extensions, hmem, hdeclared, hextension⟩, -⟩ :=
          validateDocumentFile_ok_iff.mp hd
        refine ⟨hadmits, detectMimeType (chunks.flatten.take 16), ?_, hdeclared,
          extensions, hmem, hextension⟩
        obtain hsignature | ⟨hpdf, hdisguised⟩ := (detectMimeType_iff hmem).mp rfl
        · exact hsignature
        · have hextensions : extensions = [".pdf".toList] := by
            rw [hpdf] at hmem
            simpa [allowedTypes] using hmem
          obtain ⟨extension, hin, hends⟩ := hextension
          rw [hextensions, List.mem_singleton] at hin
          exact absurd ⟨hadmits, hdisguised, hdeclared.trans hpdf, hin ▸ hends⟩ h
      · rintro ⟨hadmits, mimeType, hsignature, hdeclared, extensions, hmem, hextension⟩
        have hdetected := (detectMimeType_iff hmem).mpr (.inl hsignature)
        exact ⟨_, validateDocumentFile_ok_iff.mpr ⟨hadmits,
          ⟨extensions, by rw [hdetected]; exact hmem, hdeclared.trans hdetected.symm, hextension⟩,
          rfl⟩⟩
    · intro d hd
      obtain ⟨-, -, rfl⟩ := validateDocumentFile_ok_iff.mp hd
      exact ⟨rfl, rfl⟩

/-- Five bytes that are a PDF signature only without their highest bits. -/
theorem disguised_pdf_accepted :
    ¬ Meets (fun bytes => bytes.length) (List.map Char.toLower) (List.map Char.toLower)
      [[165, 208, 196], [], [198, 173]] "invoice.pdf".toList "application/pdf".toList none := by
  have hsmall : 5 ≤ maxInvoiceBytes := by
    unfold maxInvoiceBytes
    omega
  have hprefix : ¬ pdfSignature <+: ([165, 208, 196, 198, 173] : Bytes) := by decide
  exact PassesDisguised.not_meets ⟨⟨by decide +kernel, nofun, hsmall, by decide⟩,
    ⟨by decide, hprefix⟩, by decide +kernel, by decide +kernel⟩

end Acceptance

end BlocTrust.DocumentValidation
