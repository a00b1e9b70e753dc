import BlocTrust.Encodings
import BlocTrust.JsonReader

/-!
Access tokens and download tokens.
Both are a printed JSON object in base64url with its HMAC tag, and the two keys may be one.
Nobody but the two services makes tags, so a token that is accepted has a payload that one of
them signed; which one is seen from its fields and from the place of the payload in the token.
-/
namespace BlocTrust.Tokens

open JsonReader (stringify parse parse_stringify)

section Fields

/-- A property of an object; of two with one key the later counts. -/
def field (key : Text) : Json → Option Json
  | .object es => (es.reverse.find? fun e => e.1 = key).map Prod.snd
  | _ => none

def asText : Json → Option Text
  | .string t => some t
  | _ => none

def asNumber : Json → Option Int
  | .number n => some n
  | _ => none

def textField (key : Text) (j : Json) : Option Text := (field key j).bind asText

def numberField (key : Text) (j : Json) : Option Int := (field key j).bind asNumber

end Fields

structure AccessTokenPayload where
  sessionId : Text
  userId : Text
  organizationId : Text
  expiresAt : Int
  deriving DecidableEq, Repr

def AccessTokenPayload.toJson (p : AccessTokenPayload) : Json :=
  .object
    [("version".toList, .number 1), ("sessionId".toList, .string p.sessionId),
     ("userId".toList, .string p.userId), ("organizationId".toList, .string p.organizationId),
     ("expiresAt".toList, .number p.expiresAt)]

structure DownloadClaim where
  documentId : Text
  organizationId : Text
  expiresAt : Int
  deriving DecidableEq, Repr

def DownloadClaim.toJson (c : DownloadClaim) : Json :=
  .object
    [("documentId".toList, .string c.documentId),
     ("organizationId".toList, .string c.organizationId), ("expiresAt".toList, .number c.expiresAt)]

/-- `typeError` is that of a property of `null`. -/
inductive TokenError
  | accessSessionInvalid | downloadTokenInvalid | typeError
  deriving DecidableEq, Repr

/-- The keys of the two services, and HMAC-SHA-256. -/
structure Keys where
  hmac : Text → Bytes → Bytes
  signingKey : Text
  downloadSecret : Text

/-- `Buffer.from(JSON.stringify(payload)).toString('base64url')` -/
def encodePayload (payload : Json) : Text := base64url (utf8 (stringify payload))

def decodePayload (encoded : Text) : Option Json := (decodeUtf8 (decodeBase64 encoded)).bind parse

variable (k : Keys)

def sign (key value : Text) : Text := base64url (k.hmac key (utf8 value))

namespace SessionTokenService

def signAccessToken (payload : AccessTokenPayload) : Text :=
  let encodedPayload := encodePayload payload.toJson
  "v1".toList ++ '.' :: encodedPayload ++ '.' :: sign k k.signingKey encodedPayload

/-- The checks of a payload that has been read. -/
def isValid (payload : Json) (now : Time) : Bool :=
  numberField "version".toList payload == some 1 && (textField "sessionId".toList payload).isSome &&
    (textField "userId".toList payload).isSome &&
    (textField "organizationId".toList payload).isSome &&
    (numberField "expiresAt".toList payload).any fun expiresAt => (now : Int) < expiresAt

/-- A fourth part is allowed when it is empty. -/
def verifyAccessToken (token : Text) (now : Time) : Except TokenError Json :=
  match token.splitOn '.' with
  | version :: encodedPayload :: suppliedSignature :: extra =>
      if version ≠ "v1".toList ∨ encodedPayload = [] ∨ suppliedSignature = [] ∨
          extra.head?.getD [] ≠ [] then .error .accessSessionInvalid
      else if utf8 (sign k k.signingKey encodedPayload) ≠ utf8 suppliedSignature then
        .error .accessSessionInvalid
      else
        match decodePayload encodedPayload with
        | some payload =>
            if isValid payload now then .ok payload else .error .accessSessionInvalid
        | none => .error .accessSessionInvalid
  | _ => .error .accessSessionInvalid

end SessionTokenService

namespace DownloadTokenService

def issue (documentId organizationId : Text) (ttlSeconds : Int) (now : Time) : Text :=
  let payload := encodePayload
    (DownloadClaim.toJson ⟨documentId, organizationId, now + ttlSeconds * 1000⟩)
  payload ++ '.' :: sign k k.downloadSecret payload

/-- `expiresAt < Date.now()`.  What is missing is not smaller; a text or a list would be
converted, but the services sign none. -/
def isExpired (expiresAt : Option Json) (now : Time) : Bool :=
  match expiresAt with
  | some (.number n) => n < (now : Int)
  | some .null => 0 < now
  | some (.bool b) => b.toNat < now
  | _ => false

/-- The parts after the second are not looked at. -/
def verify (token : Option Text) (documentId organizationId : Text) (now : Time) :
    Except TokenError Unit :=
  match (token.getD []).splitOn '.' with
  | payload :: suppliedSignature :: _ =>
      if payload = [] ∨ suppliedSignature = [] then .error .downloadTokenInvalid
      else if utf8 (sign k k.downloadSecret payload) ≠ utf8 suppliedSignature then
        .error .downloadTokenInvalid
      else
        match decodePayload payload with
        | none => .error .downloadTokenInvalid
        | some .null => .error .typeError
        | some claim =>
            if textField "documentId".toList claim ≠ some documentId ∨
                textField "organizationId".toList claim ≠ some organizationId ∨
                isExpired (field "expiresAt".toList claim) now then
              .error .downloadTokenInvalid
            else .ok ()
  | _ => .error .downloadTokenInvalid

end DownloadTokenService

section Payloads

variable {now : Time} {p : AccessTokenPayload} {c : DownloadClaim}

@[simp] theorem decodePayload_encodePayload (payload : Json) :
    decodePayload (encodePayload payload) = some payload := by
  unfold decodePayload encodePayload
  rw [decodeBase64_base64url, decodeUtf8_utf8]
  exact parse_stringify payload

/-- The last of the entries with a name. -/
theorem field_concat (key name : String) (es : List (Text × Json)) (v : Json) :
    field key.toList (.object (es ++ [(name.toList, v)])) =
      if name = key then some v else field key.toList (.object es) := by
  simp only [field, List.reverse_append, List.reverse_singleton, List.singleton_append,
    List.find?_cons, String.toList_inj]
  by_cases h : name = key
  · simp [h]
  · simp [h]

theorem field_nil (key : Text) : field key (.object []) = none := rfl

/-- The entries of an object, the last one first. -/
theorem field_access (key : String) : field key.toList p.toJson =
    if "expiresAt" = key then some (.number p.expiresAt)
    else if "organizationId" = key then some (.string p.organizationId)
    else if "userId" = key then some (.string p.userId)
    else if "sessionId" = key then some (.string p.sessionId)
    else if "version" = key then some (.number 1) else none := by
  rw [← field_nil key.toList, ← field_concat, ← field_concat, ← field_concat, ← field_concat,
    ← field_concat]
  rfl

theorem field_claim (key : String) : field key.toList c.toJson =
    if "expiresAt" = key then some (.number c.expiresAt)
    else if "organizationId" = key then some (.string c.organizationId)
    else if "documentId" = key then some (.string c.documentId) else none := by
  rw [← field_nil key.toList, ← field_concat, ← field_concat, ← field_concat]
  rfl

theorem isValid_access : SessionTokenService.isValid p.toJson now = true ↔
    (now : Int) < p.expiresAt := by
  unfold SessionTokenService.isValid numberField textField
  simp only [field_access]
  simp [asText, asNumber]

/-- A download claim has no version. -/
theorem isValid_claim : SessionTokenService.isValid c.toJson now = false := by
  unfold SessionTokenService.isValid numberField textField
  simp only [field_claim]
  simp

/-- An access payload names no document. -/
theorem documentId_access : textField "documentId".toList p.toJson = none := by
  unfold textField
  rw [field_access]
  simp

theorem fields_claim : textField "documentId".toList c.toJson = some c.documentId ∧
    textField "organizationId".toList c.toJson = some c.organizationId ∧
    field "expiresAt".toList c.toJson = some (.number c.expiresAt) := by
  unfold textField
  simp only [field_claim]
  simp [asText]

end Payloads

section Tokens

open SessionTokenService DownloadTokenService

variable {k : Keys} {now : Time} {t documentId organizationId : Text} {payload : Json}

theorem sign_no_dot {key value : Text} : '.' ∉ sign k key value :=
  fun h => base64url_no_dot h rfl

theorem encodePayload_no_dot : '.' ∉ encodePayload payload := fun h => base64url_no_dot h rfl

theorem encodePayload_ne_nil (payload : Json) : encodePayload payload ≠ [] := by
  refine base64url_ne_nil (utf8_ne_nil fun hnil => ?_)
  have hpos := JsonReader.stringify_length_pos payload
  rw [hnil] at hpos
  exact absurd hpos (by decide)

/-- No payload is encoded as the version of an access token. -/
theorem encodePayload_ne_version : encodePayload payload ≠ "v1".toList := by
  intro h
  have hdecode := decodePayload_encodePayload payload
  rw [h] at hdecode
  have hnone : decodeUtf8 (decodeBase64 "v1".toList) = none := by decide +kernel
  unfold decodePayload at hdecode
  rw [hnone] at hdecode
  cases hdecode

theorem splitOn_access (p : AccessTokenPayload) : (signAccessToken k p).splitOn '.' =
    ["v1".toList, encodePayload p.toJson, sign k k.signingKey (encodePayload p.toJson)] := by
  unfold signAccessToken
  simp only [List.append_assoc, List.cons_append]
  rw [List.splitOn_append_cons_self_of_not_mem (by decide +kernel),
    List.splitOn_append_cons_self_of_not_mem encodePayload_no_dot,
    List.splitOn_eq_singleton sign_no_dot]

theorem splitOn_issue (ttlSeconds : Int) :
    (issue k documentId organizationId ttlSeconds now).splitOn '.' =
      [encodePayload (DownloadClaim.toJson ⟨documentId, organizationId, now + ttlSeconds * 1000⟩),
        sign k k.downloadSecret (encodePayload
          (DownloadClaim.toJson ⟨documentId, organizationId, now + ttlSeconds * 1000⟩))] := by
  unfold issue
  simp only
  rw [List.splitOn_append_cons_self_of_not_mem encodePayload_no_dot,
    List.splitOn_eq_singleton sign_no_dot]

/-- The parts of an accepted access token. -/
theorem verifyAccessToken_ok (h : verifyAccessToken k t now = .ok payload) :
    ∃ encodedPayload extra, t.splitOn '.' =
      "v1".toList :: encodedPayload :: sign k k.signingKey encodedPayload :: extra ∧
      decodePayload encodedPayload = some payload ∧ isValid payload now = true := by
  unfold verifyAccessToken at h
  split at h
  · rename_i version encodedPayload suppliedSignature extra hparts
    split at h
    · cases h
    · rename_i hshape
      split at h
      · cases h
      · rename_i htag
        split at h
        · rename_i found hfound
          split at h
          · rename_i hvalid
            cases h
            refine ⟨encodedPayload, extra, ?_, hfound, hvalid⟩
            rw [hparts, utf8_injective (not_not.mp htag)]
            simp only [ne_eq, not_or, not_not] at hshape
            rw [hshape.1]
          · cases h
        · cases h
  · cases h

/-- The parts of an accepted download token. -/
theorem verify_ok {token : Option Text}
    (h : verify k token documentId organizationId now = .ok ()) :
    ∃ payload rest claim, (token.getD []).splitOn '.' =
      payload :: sign k k.downloadSecret payload :: rest ∧ decodePayload payload = some claim ∧
      textField "documentId".toList claim = some documentId ∧
      textField "organizationId".toList claim = some organizationId ∧
      isExpired (field "expiresAt".toList claim) now = false := by
  unfold verify at h
  split at h
  · rename_i payload suppliedSignature rest hparts
    split at h
    · cases h
    · split at h
      · cases h
      · rename_i htag
        split at h
        · cases h
        · cases h
        · rename_i claim _ hfound
          split at h
          · cases h
          · rename_i hchecks
            simp only [ne_eq, not_or, not_not, Bool.not_eq_true] at hchecks
            refine ⟨payload, rest, claim, ?_, hfound, hchecks⟩
            rw [hparts, utf8_injective (not_not.mp htag)]
  · cases h

end Tokens

section Runs

open SessionTokenService DownloadTokenService

/-- A call that makes a token; `issue` reads the clock. -/
inductive Call
  | signAccessToken (payload : AccessTokenPayload)
  | issue (documentId organizationId : Text) (ttlSeconds : Int) (now : Time)
  deriving DecidableEq, Repr

namespace Call

def payload : Call → Json
  | signAccessToken p => p.toJson
  | issue documentId organizationId ttlSeconds now =>
      DownloadClaim.toJson ⟨documentId, organizationId, now + ttlSeconds * 1000⟩

def key (k : Keys) : Call → Text
  | signAccessToken _ => k.signingKey
  | issue .. => k.downloadSecret

def token (k : Keys) : Call → Text
  | signAccessToken p => SessionTokenService.signAccessToken k p
  | issue documentId organizationId ttlSeconds now =>
      DownloadTokenService.issue k documentId organizationId ttlSeconds now

end Call

/-- Tags come from the services: a part of the string that is the tag of another part, under one
of the two keys, was made by a call that signed that part. -/
def Unforged (k : Keys) (calls : List Call) (t : Text) : Prop :=
  ∀ key, key = k.signingKey ∨ key = k.downloadSecret → ∀ message ∈ t.splitOn '.',
    sign k key message ∈ t.splitOn '.' →
      ∃ c ∈ calls, c.key k = key ∧ encodePayload c.payload = message

variable {k : Keys} {calls : List Call} {t : Text} {now : Time}

/-- An access token that is accepted was signed, and has not expired. -/
theorem access_sound (hu : Unforged k calls t) {payload : Json}
    (h : verifyAccessToken k t now = .ok payload) :
    ∃ p, Call.signAccessToken p ∈ calls ∧ payload = p.toJson ∧ (now : Int) < p.expiresAt := by
  obtain ⟨encodedPayload, extra, hparts, hdecode, hvalid⟩ := verifyAccessToken_ok h
  obtain ⟨c, hc, -, hpayload⟩ := hu _ (.inl rfl) encodedPayload (by simp [hparts])
    (by simp [hparts])
  rw [← hpayload, decodePayload_encodePayload] at hdecode
  cases hdecode
  cases c with
  | signAccessToken p => exact ⟨p, hc, rfl, isValid_access.mp hvalid⟩
  | issue d o ttl issued =>
      have hclaim : isValid (Call.issue d o ttl issued).payload now = false := isValid_claim
      rw [hclaim] at hvalid
      cases hvalid

/-- A download token that is accepted was issued for its document and organization, and has not
expired. -/
theorem download_sound (hu : Unforged k calls t) {documentId organizationId : Text}
    (h : verify k (some t) documentId organizationId now = .ok ()) :
    ∃ ttl issued, Call.issue documentId organizationId ttl issued ∈ calls ∧
      (now : Int) ≤ issued + ttl * 1000 := by
  obtain ⟨payload, rest, claim, hparts, hdecode, hdocument, horganization, hexpired⟩ := verify_ok h
  replace hparts : t.splitOn '.' = payload :: sign k k.downloadSecret payload :: rest := hparts
  obtain ⟨c, hc, -, hpayload⟩ := hu _ (.inr rfl) payload (by simp [hparts]) (by simp [hparts])
  rw [← hpayload, decodePayload_encodePayload] at hdecode
  cases hdecode
  cases c with
  | signAccessToken p =>
      rw [show (Call.signAccessToken p).payload = p.toJson from rfl, documentId_access] at hdocument
      cases hdocument
  | issue d o ttl issued =>
      obtain ⟨hd, ho, he⟩ := fields_claim (c := ⟨d, o, issued + ttl * 1000⟩)
      replace hdocument := hd.symm.trans hdocument
      replace horganization := ho.symm.trans horganization
      replace hexpired : isExpired (field "expiresAt".toList
        (DownloadClaim.toJson ⟨d, o, issued + ttl * 1000⟩)) now = false := hexpired
      cases hdocument
      cases horganization
      rw [he] at hexpired
      refine ⟨ttl, issued, hc, ?_⟩
      simpa [isExpired] using hexpired

/-- One string is not both an access token and a download token. -/
theorem kinds_disjoint (hu : Unforged k calls t) {payload : Json} {now' : Time}
    {documentId organizationId : Text} (h : verifyAccessToken k t now = .ok payload) :
    verify k (some t) documentId organizationId now' ≠ .ok () := by
  intro h'
  obtain ⟨encodedPayload, extra, hparts, -, -⟩ := verifyAccessToken_ok h
  obtain ⟨message, rest, claim, hparts', -, -⟩ := verify_ok h'
  replace hparts' : t.splitOn '.' = message :: sign k k.downloadSecret message :: rest := hparts'
  obtain ⟨c, -, -, hpayload⟩ := hu _ (.inr rfl) message (by simp [hparts']) (by simp [hparts'])
  have hversion : message = "v1".toList := by
    rw [hparts] at hparts'
    exact (List.cons.inj hparts').1.symm
  exact encodePayload_ne_version (hpayload.trans hversion)

theorem access_fresh (hk : ∀ key bytes, k.hmac key bytes ≠ []) {p : AccessTokenPayload}
    (h : (now : Int) < p.expiresAt) :
    verifyAccessToken k (signAccessToken k p) now = .ok p.toJson := by
  have hsign : sign k k.signingKey (encodePayload p.toJson) ≠ [] := base64url_ne_nil (hk _ _)
  unfold verifyAccessToken
  rw [splitOn_access]
  simp [encodePayload_ne_nil, hsign, isValid_access.mpr h]

theorem download_fresh (hk : ∀ key bytes, k.hmac key bytes ≠ []) {documentId organizationId : Text}
    {ttlSeconds : Int} {issued : Time} (h : (now : Int) ≤ issued + ttlSeconds * 1000) :
    verify k (some (issue k documentId organizationId ttlSeconds issued)) documentId organizationId
      now = .ok () := by
  obtain ⟨hd, ho, he⟩ := fields_claim
    (c := ⟨documentId, organizationId, issued + ttlSeconds * 1000⟩)
  have hsign : ∀ message, sign k k.downloadSecret message ≠ [] :=
    fun message => base64url_ne_nil (hk _ _)
  have hexpired : isExpired (some (.number (issued + ttlSeconds * 1000))) now = false := by
    simpa [isExpired] using h
  have hchecks : ¬ (textField "documentId".toList
      (DownloadClaim.toJson ⟨documentId, organizationId, issued + ttlSeconds * 1000⟩) ≠
        some documentId ∨
      textField "organizationId".toList
        (DownloadClaim.toJson ⟨documentId, organizationId, issued + ttlSeconds * 1000⟩) ≠
          some organizationId ∨
      isExpired (field "expiresAt".toList
        (DownloadClaim.toJson ⟨documentId, organizationId, issued + ttlSeconds * 1000⟩)) now =
          true) := by
    rw [hd, ho, he, hexpired]
    simp
  unfold verify
  rw [Option.getD_some, splitOn_issue]
  simp only [encodePayload_ne_nil, hsign, or_self, if_false, ne_eq, not_true_eq_false,
    decodePayload_encodePayload]
  exact if_neg hchecks

/-- Tokens are sound and of one kind, and a fresh token is accepted until it expires. -/
theorem tokens_sound (hk : ∀ key bytes, k.hmac key bytes ≠ []) (calls : List Call) :
    (∀ t now, Unforged k calls t →
      (∀ payload, verifyAccessToken k t now = .ok payload →
        ∃ p, Call.signAccessToken p ∈ calls ∧ payload = p.toJson ∧ (now : Int) < p.expiresAt) ∧
      (∀ documentId organizationId, verify k (some t) documentId organizationId now = .ok () →
        ∃ ttl issued, Call.issue documentId organizationId ttl issued ∈ calls ∧
          (now : Int) ≤ issued + ttl * 1000) ∧
      ∀ payload documentId organizationId now', verifyAccessToken k t now = .ok payload →
        verify k (some t) documentId organizationId now' ≠ .ok ()) ∧
    (∀ documentId organizationId ttl issued now payload,
      verifyAccessToken k (issue k documentId organizationId ttl issued) now ≠ .ok payload) ∧
    (∀ p documentId organizationId now, Unforged k calls (signAccessToken k p) →
      verify k (some (signAccessToken k p)) documentId organizationId now ≠ .ok ()) ∧
    (∀ (p : AccessTokenPayload) (now : Time), (now : Int) < p.expiresAt →
      verifyAccessToken k (signAccessToken k p) now = .ok p.toJson) ∧
    ∀ documentId organizationId (ttl : Int) (issued now : Time),
      (now : Int) ≤ issued + ttl * 1000 →
      verify k (some (issue k documentId organizationId ttl issued)) documentId organizationId
        now = .ok () := by
  refine ⟨?_, ?_, ?_, fun p now h => access_fresh hk h, fun d o ttl issued now h =>
    download_fresh hk h⟩
  · intro t now hu
    exact ⟨fun _ => access_sound hu, fun _ _ => download_sound hu, fun _ _ _ _ => kinds_disjoint hu⟩
  · intro d o ttl issued now payload h
    obtain ⟨encodedPayload, extra, hparts, -, -⟩ := verifyAccessToken_ok h
    rw [splitOn_issue] at hparts
    cases (List.cons.inj (List.cons.inj hparts).2).2
  · intro p d o now hu h
    obtain ⟨message, rest, claim, hparts, -, -⟩ := verify_ok h
    replace hparts : (signAccessToken k p).splitOn '.' =
      message :: sign k k.downloadSecret message :: rest := hparts
    obtain ⟨c, -, -, hpayload⟩ := hu _ (.inr rfl) message (by simp [hparts]) (by simp [hparts])
    rw [splitOn_access] at hparts
    exact encodePayload_ne_version (hpayload.trans (List.cons.inj hparts).1.symm)

end Runs

section Sample

open SessionTokenService DownloadTokenService

/-- One key for both services, and a tag that repeats what it signs and under which key. -/
def sampleKeys : Keys where
  hmac key bytes := 0 :: (utf8 key ++ bytes)
  signingKey := ['k']
  downloadSecret := ['k']

def samplePayload : AccessTokenPayload where
  sessionId := "s1".toList
  userId := "u1".toList
  organizationId := "o1".toList
  expiresAt := 10

def sampleCalls : List Call :=
  [.signAccessToken samplePayload, .issue "d1".toList "o1".toList 60 5]

def sampleAccess : Text := signAccessToken sampleKeys samplePayload

def sampleDownload : Text := issue sampleKeys "d1".toList "o1".toList 60 5

theorem sampleAccess_unforged : Unforged sampleKeys sampleCalls sampleAccess := by
  intro key hkey message hmessage htag
  have hsame : sampleKeys.signingKey = key := by rcases hkey with rfl | rfl <;> rfl
  subst hsame
  have hone : ∀ message ∈ sampleAccess.splitOn '.',
      sign sampleKeys sampleKeys.signingKey message ∈ sampleAccess.splitOn '.' →
        encodePayload samplePayload.toJson = message := by
    unfold sampleAccess
    rw [splitOn_access]
    decide +kernel
  exact ⟨_, .head _, rfl, hone message hmessage htag⟩

theorem sampleDownload_unforged : Unforged sampleKeys sampleCalls sampleDownload := by
  intro key hkey message hmessage htag
  have hsame : sampleKeys.downloadSecret = key := by rcases hkey with rfl | rfl <;> rfl
  subst hsame
  have hone : ∀ message ∈ sampleDownload.splitOn '.',
      sign sampleKeys sampleKeys.downloadSecret message ∈ sampleDownload.splitOn '.' →
        encodePayload (DownloadClaim.toJson ⟨"d1".toList, "o1".toList, 5 + 60 * 1000⟩) =
          message := by
    unfold sampleDownload
    rw [splitOn_issue]
    decide +kernel
  exact ⟨_, .tail _ (.head _), rfl, hone message hmessage htag⟩

/-- Two tokens that are presented in time, each to both services. -/
theorem tokens_sound_sample :
    verifyAccessToken sampleKeys sampleAccess 9 = .ok samplePayload.toJson ∧
    (∃ p, Call.signAccessToken p ∈ sampleCalls ∧ samplePayload.toJson = p.toJson ∧
      (9 : Int) < p.expiresAt) ∧
    verify sampleKeys (some sampleAccess) "d1".toList "o1".toList 9 ≠ .ok () ∧
    verify sampleKeys (some sampleDownload) "d1".toList "o1".toList 9 = .ok () ∧
    (∃ ttl issued, Call.issue "d1".toList "o1".toList ttl issued ∈ sampleCalls ∧
      (9 : Int) ≤ issued + ttl * 1000) ∧
    ∀ payload, verifyAccessToken sampleKeys sampleDownload 9 ≠ .ok payload := by
  obtain ⟨hsound, hdownload, haccess, hfresh, hserved⟩ :=
    tokens_sound (k := sampleKeys) (fun _ _ => List.cons_ne_nil _ _) sampleCalls
  have hok := hfresh samplePayload 9 (by decide)
  have hok' := hserved "d1".toList "o1".toList 60 5 9 (by decide)
  exact ⟨hok, (hsound _ 9 sampleAccess_unforged).1 _ hok,
    haccess samplePayload _ _ 9 sampleAccess_unforged, hok',
    (hsound _ 9 sampleDownload_unforged).2.1 _ _ hok', hdownload _ _ _ _ 9⟩

end Sample

end BlocTrust.Tokens
