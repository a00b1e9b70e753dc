import BlocTrust.Identity.System

/-!
What each call has seen before it writes.
A revocation updates what it found, sessions first; a token is consumed by a transaction that
has written nothing yet and ends with a successor; a challenge is consumed by the response that
was checked against it, together with what the response is for.
-/
namespace BlocTrust.Identity

open ReadCommitted Tables

variable (cfg : Config)

section Revocation

/-- The first `updateMany` of a revocation is done. -/
def SessionsRevoked (cur : Calls Out) (scope : Scope) : Prop :=
  ∃ ids, Saw cur (.unrevokedSessions scope) ids ∧
    ∀ id ∈ ids, ∃ now n, Did cur (.session id) (.revoked now) n

/-- Both of them are. -/
structure ScopeRevoked (cur : Calls Out) (scope : Scope) : Prop where
  sessions : SessionsRevoked cur scope
  tokens : ∃ hashes, Saw cur (.unrevokedTokens scope) hashes ∧
    ∀ hash ∈ hashes, ∃ now n, Did cur (.token hash) (.revoked now) n

/-- What a call revokes. -/
def Revokes (op : Op) (past cur : Calls Out) (scope : Scope) : Prop :=
  match op with
  | .rotate refreshToken _ => ∃ t s, Saw cur (.findToken (cfg.hashOpaqueToken refreshToken)) (some t) ∧
      Saw cur (.findSession t.sessionId) (some s) ∧ scope = .family s.tokenFamilyId
  | .revoke sessionId => ∃ s, Saw past (.findSession sessionId) (some s) ∧
      scope = .family s.tokenFamilyId
  | .revokeAll userId => scope = .user userId
  | _ => False

end Revocation

section Rotation

variable (op : Op) (cur : Calls Out)

/-- The token that a rotation replaces, as it was found together with its session. -/
structure Presented (hash : Digest) (t : SessionRefreshToken) (s : Session) : Prop where
  op : ∃ refreshToken metadata, op = .rotate refreshToken metadata ∧
    hash = cfg.hashOpaqueToken refreshToken
  token : Saw cur (.findToken hash) (some t)
  session : Saw cur (.findSession t.sessionId) (some s)
  unrevoked : s.revokedAt = none

/-- The new session of `create`. -/
structure NewSession (s : Session) : Prop where
  op : ∃ metadata, op = .create s.userId s.organizationId metadata
  fresh : s.revokedAt = none ∧ s.rotationCounter = 0 ∧ s.stepUpVerifiedAt = none
  family : Called cur .randomUUID s.tokenFamilyId
  first : ∀ k v, ¬ Made cur k v

/-- A refresh token comes with a new session, or takes the place of a consumed one. -/
def NewToken (hash : Digest) (t : SessionRefreshToken) : Prop :=
  t.usedAt = none ∧ t.revokedAt = none ∧
    ((∃ s, Made cur (.session t.sessionId) s ∧ s.refreshTokenHash = hash) ∨
      ∃ old o s now csrf metadata, Presented cfg op cur old o s ∧ o.sessionId = t.sessionId ∧
        Did cur (.token old) (.consumed now) 1 ∧
        Did cur (.session t.sessionId) (.rotated hash csrf now metadata) 1) ∧
    ∀ hash' t', ¬ Made cur (.token hash') t'

end Rotation

section Passkeys

def Op.accessToken : Op → Option Text
  | .authenticate accessToken => some accessToken
  | .registrationOptions accessToken => some accessToken
  | .verifyRegistration accessToken _ _ => some accessToken
  | .stepUpOptions accessToken => some accessToken
  | .verifyStepUp accessToken _ => some accessToken
  | _ => none

variable (op : Op) (past : Calls Out)

/-- The caller, as the session row showed it. -/
structure Authenticated (auth : AuthContext) (s : Session) : Prop where
  token : ∃ accessToken payload, op.accessToken = some accessToken ∧
    cfg.openAccessToken accessToken = some payload ∧ payload.sessionId = auth.sessionId
  session : Saw past (.findSession auth.sessionId) (some s)
  unrevoked : s.revokedAt = none
  userId : auth.userId = s.userId
  stepUpVerifiedAt : auth.stepUpVerifiedAt = s.stepUpVerifiedAt

/-- The challenge that a response is checked against. -/
structure Chosen (purpose : PasskeyChallengePurpose) (auth : AuthContext) (s : Session) (id : Id)
    (c : PasskeyChallenge) : Prop where
  caller : Authenticated cfg op past auth s
  active : ∃ now, Saw past (.activeChallenge auth.userId auth.sessionId purpose now) (some (id, c))

/-- A statement that stores what a challenge was issued for. -/
def Yields : Sigma Out → Prop
  | ⟨.insert (.credential _) _, _⟩ => True
  | ⟨.update (.session _) (.verified _), n⟩ => n = (1 : Nat)
  | _ => False

/-- A response to a registration challenge that the library verified. -/
structure Registers (auth : AuthContext) (s : Session) (id : Id) (c : PasskeyChallenge)
    (info : RegistrationInfo) : Prop where
  chosen : Chosen cfg op past .registration auth s id c
  op : ∃ accessToken response deviceName, op = .verifyRegistration accessToken response deviceName ∧
    cfg.verifyRegistrationResponse response c.challenge = some info

/-- A response to a step-up challenge that it verified with a stored credential. -/
structure StepsUp (auth : AuthContext) (s : Session) (id : Id) (c : PasskeyChallenge)
    (credentialId : Text) (x : WebAuthnCredential) (info : AuthenticationInfo) : Prop where
  chosen : Chosen cfg op past .stepUp auth s id c
  op : ∃ accessToken response, op = .verifyStepUp accessToken response ∧
    credentialId = response.id ∧ cfg.verifyAuthenticationResponse response c.challenge response.id
      x.publicKey x.counter = some info
  credential : Saw past (.findCredential credentialId) (some x)
  owner : x.userId = auth.userId

/-- A challenge is issued to the caller, for another passkey only after a step-up. -/
def NewChallenge (c : PasskeyChallenge) : Prop :=
  ∃ auth s, Authenticated cfg op past auth s ∧ c.userId = auth.userId ∧
    c.sessionId = auth.sessionId ∧ c.usedAt = none ∧
    ((∃ accessToken credentials, op = .registrationOptions accessToken ∧
        c.purpose = .registration ∧ Saw past (.findCredentials auth.userId) credentials ∧
        (credentials ≠ [] → auth.stepUpVerifiedAt ≠ none)) ∨
      ∃ accessToken, op = .stepUpOptions accessToken ∧ c.purpose = .stepUp)

end Passkeys

/-- The calls that lead to a statement. -/
def before (op : Op) (past cur : Calls Out) : Stmt → Prop
  | .read (.findSession id) => Silent cur ∧ ∀ refreshToken metadata, op = .rotate refreshToken metadata →
      ∃ t, Saw cur (.findToken (cfg.hashOpaqueToken refreshToken)) (some t) ∧ id = t.sessionId
  | .read (.findCredentials _) => cur = []
  | .read (.findCredential _) => cur = []
  | .read (.activeChallenge _ _ _ _) => cur = []
  | .read (.unrevokedSessions scope) => Revokes cfg op past cur scope ∧ Silent cur ∧
      ∀ scope' ids, ¬ Saw cur (.unrevokedSessions scope') ids
  | .read (.unrevokedTokens scope) => SessionsRevoked cur scope
  | .read _ => True
  | .call _ => True
  | .insert (.session _) s => NewSession op cur s
  | .insert (.token hash) t => NewToken cfg op cur hash t
  | .insert (.challenge _) c => NewChallenge cfg op past c ∧ ∀ id c', ¬ Made cur (.challenge id) c'
  | .insert (.credential credentialId) x => ∃ auth s id c info first used,
      Registers cfg op past auth s id c info ∧ Did cur (.challenge id) (.consumed first used) 1 ∧
        credentialId = info.credentialId ∧ x.userId = auth.userId ∧
          ∀ call ∈ cur ++ past, ¬ Yields call
  | .insert _ _ => False
  | .update (.session id) (.revoked _) =>
      (∃ scope ids, Saw cur (.unrevokedSessions scope) ids ∧ id ∈ ids) ∧
        ∀ scope hashes, ¬ Saw cur (.unrevokedTokens scope) hashes
  | .update (.session id) (.rotated _ _ now _) => ∃ old t s, Presented cfg op cur old t s ∧
      id = t.sessionId ∧ Did cur (.token old) (.consumed now) 1 ∧
      ∀ k v, ¬ Made cur k v
  | .update (.session id) (.verified _) => ∃ auth s cid c credentialId x info counter backedUp now,
      StepsUp cfg op past auth s cid c credentialId x info ∧ id = auth.sessionId ∧
        Did cur (.challenge cid) (.consumed now now) 1 ∧
        Did cur (.credential credentialId) (.used counter backedUp now) 1 ∧
          ∀ call ∈ cur ++ past, ¬ Yields call
  | .update (.token hash) (.revoked _) =>
      ∃ scope hashes, Saw cur (.unrevokedTokens scope) hashes ∧ hash ∈ hashes
  | .update (.token hash) (.consumed _) => (∃ t s, Presented cfg op cur hash t s) ∧ Silent cur ∧
      ∀ scope ids, ¬ Saw cur (.unrevokedSessions scope) ids
  | .update (.challenge id) (.replaced _) => ∃ sessionId purpose ids,
      Saw cur (.openChallenges sessionId purpose) ids ∧ id ∈ ids
  | .update (.challenge id) (.consumed _ _) =>
      ((∃ auth s c info, Registers cfg op past auth s id c info) ∨
        ∃ auth s c credentialId x info, StepsUp cfg op past auth s id c credentialId x info) ∧
      (∀ id c n, ¬ Did cur (.challenge id) c n) ∧ ∀ id c n, ¬ Did past (.challenge id) c n
  | .update (.credential credentialId) (.used counter _ now) =>
      ∃ auth s cid c x info, StepsUp cfg op past auth s cid c credentialId x info ∧
        Did cur (.challenge cid) (.consumed now now) 1 ∧ counter = info.newCounter

/-- No row is changed after it has been written. -/
def writesOnce (cur : Calls Out) : Stmt → Prop
  | .update k _ => Untouched cur k
  | _ => True

/-- What a transaction has completed when it commits. -/
structure Due (cur : Calls Out) : Prop where
  created : ∀ id s, Made cur (.session id) s →
    ∃ t, Made cur (.token s.refreshTokenHash) t ∧ t.sessionId = id
  consumed : ∀ hash now, Did cur (.token hash) (.consumed now) 1 →
    ∃ id new csrf metadata, Did cur (.session id) (.rotated new csrf now metadata) 1
  rotated : ∀ id hash csrf now metadata, Did cur (.session id) (.rotated hash csrf now metadata) 1 →
    ∃ t, Made cur (.token hash) t ∧ t.sessionId = id
  revoked : ∀ scope ids, Saw cur (.unrevokedSessions scope) ids → ScopeRevoked cur scope
  verified : ∀ id first used, Did cur (.challenge id) (.consumed first used) 1 →
    (∃ credentialId x, Made cur (.credential credentialId) x) ∨
      ∃ id at_, Did cur (.session id) (.verified at_) 1

/-- The multi-row updates name each row once, and each of their updates is of one row. -/
def Answers : (s : Stmt) → Out s → Prop
  | .read (.unrevokedSessions _), ids => List.Nodup ids
  | .read (.unrevokedTokens _), hashes => List.Nodup hashes
  | .read (.openChallenges _ _), ids => List.Nodup ids
  | .update _ _, n => n = (0 : Nat) ∨ n = (1 : Nat)
  | _, _ => True

def conduct (op : Op) : Conduct Out where
  before past cur s := writesOnce cur s ∧ before cfg op past cur s
  due _ cur := Due cur
  answers := Answers

end BlocTrust.Identity
