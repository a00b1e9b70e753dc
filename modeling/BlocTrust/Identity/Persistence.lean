import BlocTrust.Identity.Conforms

/-!
What stays of a row, and of what was read of it.
The identity of a row never changes, and a session or token that is revoked, or a token or
challenge that is used, stays so.
-/
namespace BlocTrust.Identity

open ReadCommitted Tables

section Kept

structure SessionKept (old new : Session) : Prop where
  userId : new.userId = old.userId
  organizationId : new.organizationId = old.organizationId
  tokenFamilyId : new.tokenFamilyId = old.tokenFamilyId
  revokedAt : old.revokedAt ≠ none → new.revokedAt ≠ none
  stepUpVerifiedAt : old.stepUpVerifiedAt ≠ none → new.stepUpVerifiedAt ≠ none

structure TokenKept (old new : SessionRefreshToken) : Prop where
  sessionId : new.sessionId = old.sessionId
  usedAt : old.usedAt ≠ none → new.usedAt ≠ none
  revokedAt : old.revokedAt ≠ none → new.revokedAt ≠ none

structure ChallengeKept (old new : PasskeyChallenge) : Prop where
  userId : new.userId = old.userId
  sessionId : new.sessionId = old.sessionId
  purpose : new.purpose = old.purpose
  challenge : new.challenge = old.challenge
  expiresAt : new.expiresAt = old.expiresAt
  usedAt : old.usedAt ≠ none → new.usedAt ≠ none

structure CredentialKept (old new : WebAuthnCredential) : Prop where
  userId : new.userId = old.userId
  publicKey : new.publicKey = old.publicKey

def Kept : (k : Key) → Val k → Val k → Prop
  | .session _, old, new => SessionKept old new
  | .token _, old, new => TokenKept old new
  | .challenge _, old, new => ChallengeKept old new
  | .credential _, old, new => CredentialKept old new
  | _, _, _ => True

theorem SessionKept.refl (x : Session) : SessionKept x x := ⟨rfl, rfl, rfl, id, id⟩

theorem TokenKept.refl (t : SessionRefreshToken) : TokenKept t t := ⟨rfl, id, id⟩

theorem ChallengeKept.refl (c : PasskeyChallenge) : ChallengeKept c c :=
  ⟨rfl, rfl, rfl, rfl, rfl, id⟩

theorem CredentialKept.refl (x : WebAuthnCredential) : CredentialKept x x := ⟨rfl, rfl⟩

theorem SessionKept.trans {x y z : Session} (h : SessionKept x y) (h' : SessionKept y z) :
    SessionKept x z :=
  ⟨h'.userId.trans h.userId, h'.organizationId.trans h.organizationId,
    h'.tokenFamilyId.trans h.tokenFamilyId, fun hx => h'.revokedAt (h.revokedAt hx),
    fun hx => h'.stepUpVerifiedAt (h.stepUpVerifiedAt hx)⟩

theorem TokenKept.trans {t u v : SessionRefreshToken} (h : TokenKept t u) (h' : TokenKept u v) :
    TokenKept t v :=
  ⟨h'.sessionId.trans h.sessionId, fun ht => h'.usedAt (h.usedAt ht),
    fun ht => h'.revokedAt (h.revokedAt ht)⟩

theorem ChallengeKept.trans {c d e : PasskeyChallenge} (h : ChallengeKept c d)
    (h' : ChallengeKept d e) : ChallengeKept c e :=
  ⟨h'.userId.trans h.userId, h'.sessionId.trans h.sessionId, h'.purpose.trans h.purpose,
    h'.challenge.trans h.challenge, h'.expiresAt.trans h.expiresAt,
    fun hc => h'.usedAt (h.usedAt hc)⟩

theorem CredentialKept.trans {x y z : WebAuthnCredential} (h : CredentialKept x y)
    (h' : CredentialKept y z) : CredentialKept x z :=
  ⟨h'.userId.trans h.userId, h'.publicKey.trans h.publicKey⟩

theorem SessionChange.kept (c : SessionChange) (x : Session) : SessionKept x (c.apply x) := by
  cases c with
  | rotated hash csrf now metadata => exact ⟨rfl, rfl, rfl, id, id⟩
  | revoked now => exact ⟨rfl, rfl, rfl, fun _ => Option.some_ne_none now, id⟩
  | verified now => exact ⟨rfl, rfl, rfl, id, fun _ => Option.some_ne_none now⟩

theorem TokenChange.kept (c : TokenChange) (t : SessionRefreshToken) : TokenKept t (c.apply t) := by
  cases c with
  | consumed now => exact ⟨rfl, fun _ => Option.some_ne_none now, id⟩
  | revoked now => exact ⟨rfl, id, fun _ => Option.some_ne_none now⟩

theorem ChallengeChange.kept (c : ChallengeChange) (x : PasskeyChallenge) :
    ChallengeKept x (c.apply x) := by
  cases c with
  | replaced now => exact ⟨rfl, rfl, rfl, rfl, rfl, fun _ => Option.some_ne_none now⟩
  | consumed first now => exact ⟨rfl, rfl, rfl, rfl, rfl, fun _ => Option.some_ne_none now⟩

theorem CredentialChange.kept (c : CredentialChange) (x : WebAuthnCredential) :
    CredentialKept x (c.apply x) := by
  cases c with
  | used counter backedUp now => exact ⟨rfl, rfl⟩

/-- A legal new version of a row of these tables is one of the listed changes. -/
theorem legal_change {k : Key} {old new : Val k} (h : Legal k (some old) new)
    (hk : k.internal = false) (ho : k.outside = false) :
    ∃ c, applies k c old = true ∧ new = apply k c old := by
  rcases h with hinternal | houtside | hchange
  · exact absurd (hk.symm.trans hinternal) (by simp)
  · exact absurd (ho.symm.trans houtside) (by simp)
  · exact hchange

theorem persists : Log.Persists Legal Kept where
  refl k v := by
    cases k with
    | session id => exact SessionKept.refl v
    | token hash => exact TokenKept.refl v
    | challenge id => exact ChallengeKept.refl v
    | credential credentialId => exact CredentialKept.refl v
    | _ => trivial
  trans k u v w h h' := by
    cases k with
    | session id => exact SessionKept.trans h h'
    | token hash => exact TokenKept.trans h h'
    | challenge id => exact ChallengeKept.trans h h'
    | credential credentialId => exact CredentialKept.trans h h'
    | _ => trivial
  legal k u v h := by
    cases k with
    | session id =>
        obtain ⟨c, -, rfl⟩ := legal_change h rfl rfl
        exact SessionChange.kept c u
    | token hash =>
        obtain ⟨c, -, rfl⟩ := legal_change h rfl rfl
        exact TokenChange.kept c u
    | challenge id =>
        obtain ⟨c, -, rfl⟩ := legal_change h rfl rfl
        exact ChallengeChange.kept c u
    | credential credentialId =>
        obtain ⟨c, -, rfl⟩ := legal_change h rfl rfl
        exact CredentialChange.kept c u
    | _ => trivial

/-- Every row is still there in some later version. -/
def Carries (db db' : Db) : Prop :=
  ∀ k v, Log.row k db = some v → ∃ w, Log.row k db' = some w ∧ Kept k v w

variable {db db' : Db}

theorem carries_of_suffix (hc : Log.Chain Legal db') (hs : db <:+ db') : Carries db db' :=
  fun _ _ h => hc.related persists hs h

theorem Carries.refl (db : Db) : Carries db db := fun k v h => ⟨v, h, persists.refl k v⟩

theorem Carries.trans {a b c : Db} (h : Carries a b) (h' : Carries b c) : Carries a c := by
  intro k v hv
  obtain ⟨w, hw, hkept⟩ := h k v hv
  obtain ⟨x, hx, hkept'⟩ := h' k w hw
  exact ⟨x, hx, persists.trans k v w x hkept hkept'⟩

theorem Carries.session (h : Carries db db') {id : Id} {x : Session}
    (hx : db.session id = some x) : ∃ y, db'.session id = some y ∧ SessionKept x y := h _ _ hx

theorem Carries.token (h : Carries db db') {hash : Digest} {t : SessionRefreshToken}
    (ht : db.token hash = some t) : ∃ u, db'.token hash = some u ∧ TokenKept t u := h _ _ ht

theorem Carries.challenge (h : Carries db db') {id : Id} {c : PasskeyChallenge}
    (hc : db.challenge id = some c) : ∃ d, db'.challenge id = some d ∧ ChallengeKept c d :=
  h _ _ hc

theorem Carries.credential (h : Carries db db') {credentialId : Text} {x : WebAuthnCredential}
    (hx : db.credential credentialId = some x) :
    ∃ y, db'.credential credentialId = some y ∧ CredentialKept x y := h _ _ hx

variable {cfg : Config} {p : Process} {s : Stmt} {out : Out s}
  {newer older : List (Event Val Out)} {rows base : Db}

/-- What a statement of a transaction found is there when the transaction commits. -/
theorem carries_commit (h : ProcOk (machine cfg) (conduct cfg) Legal db p)
    (hx : Executed tables client (conduct cfg) p s out newer older rows base) :
    Carries (writes older ++ base) (p.writes ++ db) :=
  fun _ _ hv => h.carried persists hx.current hv

end Kept

section Seen

/-- A row that a query returned is still there. -/
def Seen : (s : Stmt) → Out s → Db → Prop
  | .read (.findToken hash), some t, db => ∃ u, db.token hash = some u ∧ TokenKept t u
  | .read (.findSession id), some x, db => ∃ y, db.session id = some y ∧ SessionKept x y
  | .read (.findCredential credentialId), some x, db =>
      ∃ y, db.credential credentialId = some y ∧ CredentialKept x y
  | .read (.findCredentials userId), rows, db => ∀ r ∈ rows, r.2.userId = userId ∧
      ∃ y, db.credential r.1 = some y ∧ CredentialKept r.2 y
  | .read (.activeChallenge userId sessionId purpose _), some (id, c), db =>
      c.userId = userId ∧ c.sessionId = sessionId ∧ c.purpose = purpose ∧
        ∃ d, db.challenge id = some d ∧ ChallengeKept c d
  | _, _, _ => True

variable {db db' : Db}

theorem Seen.carried (hc : Carries db db') {s : Stmt} {out : Out s} (h : Seen s out db) :
    Seen s out db' := by
  unfold Seen at h ⊢
  split
  · obtain ⟨u, hu, hkept⟩ := h
    obtain ⟨v, hv, hkept'⟩ := hc.token hu
    exact ⟨v, hv, hkept.trans hkept'⟩
  · obtain ⟨u, hu, hkept⟩ := h
    obtain ⟨v, hv, hkept'⟩ := hc.session hu
    exact ⟨v, hv, hkept.trans hkept'⟩
  · obtain ⟨u, hu, hkept⟩ := h
    obtain ⟨v, hv, hkept'⟩ := hc.credential hu
    exact ⟨v, hv, hkept.trans hkept'⟩
  · intro r hr
    obtain ⟨howner, u, hu, hkept⟩ := h r hr
    obtain ⟨v, hv, hkept'⟩ := hc.credential hu
    exact ⟨howner, v, hv, hkept.trans hkept'⟩
  · obtain ⟨huser, hsession, hpurpose, u, hu, hkept⟩ := h
    obtain ⟨v, hv, hkept'⟩ := hc.challenge hu
    exact ⟨huser, hsession, hpurpose, v, hv, hkept.trans hkept'⟩
  · trivial

theorem mem_of_latest {α : Type} {key : α → Nat} {choice : Nat} {rows : List α} {a : α}
    (h : latest key choice rows = some (some a)) : a ∈ rows := by
  unfold latest at h
  split at h
  · cases h
  · obtain ⟨b, hb, heq⟩ := Option.map_eq_some_iff.mp h
    cases heq
    exact (List.mem_filter.mp (List.mem_of_getElem? hb)).1

theorem seen_of_answer {choice : Nat} {view : Db} {q : Query} {out : q.Out}
    (h : answer choice view q = some out) : Seen (.read q) out view := by
  cases q with
  | findToken hash =>
      cases out with
      | none => trivial
      | some t => exact ⟨t, Option.some.inj h, .refl t⟩
  | findSession id =>
      cases out with
      | none => trivial
      | some x => exact ⟨x, Option.some.inj h, .refl x⟩
  | findCredential credentialId =>
      cases out with
      | none => trivial
      | some x => exact ⟨x, Option.some.inj h, .refl x⟩
  | findCredentials userId =>
      cases h
      rintro ⟨credentialId, x⟩ hr
      obtain ⟨hmem, howner⟩ := List.mem_filter.mp hr
      exact ⟨of_decide_eq_true howner, x, Db.mem_credentials.mp hmem, .refl x⟩
  | activeChallenge userId sessionId purpose now =>
      cases out with
      | none => trivial
      | some found =>
          obtain ⟨id, c⟩ := found
          obtain ⟨hmem, hactive⟩ := List.mem_filter.mp (mem_of_latest h)
          have hactive := of_decide_eq_true hactive
          exact ⟨hactive.1, hactive.2.1, hactive.2.2.1, c, Db.mem_challenges.mp hmem, .refl c⟩
  | findUser id => trivial
  | findMembership organizationId userId => trivial
  | unrevokedSessions scope => trivial
  | unrevokedTokens scope => trivial
  | openChallenges sessionId purpose => trivial

variable {cfg : Config} {p : Process}

theorem seen_commit (h : ProcOk (machine cfg) (conduct cfg) Legal db p) {e : Event Val Out}
    (he : e ∈ p.current) : Seen e.stmt e.out (p.writes ++ db) := by
  obtain ⟨newer, older, hcur⟩ := List.append_of_mem he
  have hx := executed_of_split setup h hcur
  have hcarries := carries_commit h hx
  obtain ⟨s, out, rows, base⟩ := e
  have hran := hx.ran
  cases hran with
  | read choice hanswer => exact (seen_of_answer hanswer).carried hcarries
  | inserted hfresh hentries hcheck => trivial
  | missed h => trivial
  | updated old hrow happlies hcheck => trivial
  | called choice h => trivial

end Seen
end BlocTrust.Identity
