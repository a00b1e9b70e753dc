import BlocTrust.Identity.Statements

/-!
`SessionService`: refresh tokens are consumed one after another, and a family is revoked as a
whole.  `prisma.transaction` and `$transaction` run their statements between `BEGIN` and
`COMMIT`; everything else commits by itself.
-/
namespace BlocTrust.Identity

open ReadCommitted Prog

abbrev Program := Prog Out Failure

def query (q : Query) : Program q.Out := Prog.sql (Tables.Stmt.read q)

def insert (k : Key) (v : Val k) : Program Unit := Prog.sql (Tables.Stmt.insert k v)

def update (k : Key) (c : Change k) : Program Nat := Prog.sql (Tables.Stmt.update k c)

/-- A call in the middle of a transaction. -/
def call (c : External) : Program c.Out := Prog.sql (Tables.Stmt.call c)

/-- A call, and a query, outside every transaction. -/
def external (c : External) : Program c.Out := Prog.auto (Tables.Stmt.call c)

def read (q : Query) : Program q.Out := Prog.auto (Tables.Stmt.read q)

/-- `update` of a single row throws when there is none. -/
def updateFound (k : Key) (c : Change k) : Program Unit := do
  let count ← update k c
  require (count ≠ 0) .recordNotFound

structure AuthContext where
  userId : Id
  membershipId : Id
  sessionId : Id
  organizationId : Id
  role : MembershipRole
  authenticatedAt : Time
  stepUpVerifiedAt : Option Time
  deriving DecidableEq, Repr

structure SessionBundle where
  sessionId : Id
  accessToken : Text
  refreshToken : Nat
  csrfToken : Nat
  accessExpiresAt : Time
  refreshExpiresAt : Time
  deriving DecidableEq, Repr

namespace SessionService

variable (cfg : Config)

def bundle (sessionId userId organizationId : Id) (refreshToken csrfToken : Nat)
    (refreshExpiresAt : Time) : Program SessionBundle := do
  let now ← external .clock
  let accessExpiresAt := now + cfg.accessTtlMilliseconds
  return {
    sessionId := sessionId
    accessToken := cfg.signAccessToken ⟨sessionId, userId, organizationId, accessExpiresAt⟩
    refreshToken := refreshToken
    csrfToken := csrfToken
    accessExpiresAt := accessExpiresAt
    refreshExpiresAt := refreshExpiresAt }

/-- The transaction of `create`. -/
def createStored (userId organizationId : Id) (metadata : RequestMetadata) (now : Time)
    (refreshTokenHash csrfTokenHash : Digest) : Program Id := do
  let tokenFamilyId ← call .randomUUID
  let id ← call .randomUUID
  let createdAt ← call .clock
  insert (.session id)
    { userId := userId
      organizationId := organizationId
      tokenFamilyId := tokenFamilyId
      refreshTokenHash := refreshTokenHash
      csrfTokenHash := csrfTokenHash
      metadata := metadata
      rotationCounter := 0
      stepUpVerifiedAt := none
      lastUsedAt := createdAt
      expiresAt := now + cfg.refreshTtlMilliseconds
      revokedAt := none
      createdAt := createdAt }
  insert (.token refreshTokenHash)
    { sessionId := id
      expiresAt := now + cfg.refreshTtlMilliseconds
      usedAt := none
      revokedAt := none }
  return id

def create (userId organizationId : Id) (metadata : RequestMetadata) : Program SessionBundle := do
  let now ← external .clock
  let refreshToken ← external .randomToken
  let csrfToken ← external .randomToken
  let sessionId ← transaction (createStored cfg userId organizationId metadata now
    (cfg.hashOpaqueToken refreshToken) (cfg.hashOpaqueToken csrfToken))
  bundle cfg sessionId userId organizationId refreshToken csrfToken
    (now + cfg.refreshTtlMilliseconds)

def invalidAccessSession : Failure := .unauthorized "ACCESS_SESSION_INACTIVE"

def invalidRefreshSession : Failure := .unauthorized "REFRESH_SESSION_INVALID"

/-- `SessionTokenService.verifyAccessToken`. -/
def verifyAccessToken (accessToken : Text) : Program AccessTokenPayload := do
  let payload ← orThrow (cfg.openAccessToken accessToken) (.unauthorized "ACCESS_SESSION_INVALID")
  let now ← external .clock
  require (now < payload.expiresAt) (.unauthorized "ACCESS_SESSION_INVALID")
  return payload

/-- The user and the membership of a session admit it at `now`. -/
def admits (now : Time) : Option User → Option Membership → Option Membership
  | some user, some membership =>
      if user.status = .active ∧ membership.status = .active ∧
          membership.validUntil.all (now < ·) then some membership
      else none
  | _, _ => none

def authenticateAccessToken (accessToken : Text) : Program AuthContext := do
  let payload ← verifyAccessToken cfg accessToken
  let found ← read (.findSession payload.sessionId)
  let session ← orThrow found invalidAccessSession
  let now ← external .clock
  require (session.userId = payload.userId ∧ session.organizationId = payload.organizationId ∧
    session.revokedAt = none ∧ now < session.expiresAt) invalidAccessSession
  let user ← read (.findUser session.userId)
  let membership ← read (.findMembership session.organizationId session.userId)
  let now ← external .clock
  let membership ← orThrow (admits now user membership) invalidAccessSession
  return {
    userId := session.userId
    membershipId := membership.id
    sessionId := payload.sessionId
    organizationId := session.organizationId
    role := membership.role
    authenticatedAt := session.createdAt
    stepUpVerifiedAt := session.stepUpVerifiedAt }

/-- The two `updateMany` of a revocation. -/
def revokeScope (scope : Scope) (revokedAt : Time) : Program Unit := do
  let sessions ← query (.unrevokedSessions scope)
  let _ ← each (fun id => update (.session id) (.revoked revokedAt)) sessions
  let tokens ← query (.unrevokedTokens scope)
  let _ ← each (fun tokenHash => update (.token tokenHash) (.revoked revokedAt)) tokens
  return ()

def revokeFamily (tokenFamilyId : Id) (revokedAt : Time) : Program Unit :=
  revokeScope (.family tokenFamilyId) revokedAt

inductive RotateResult
  | invalid
  | reused
  | rotated (sessionId : Id) (session : Session)
  deriving DecidableEq, Repr

/-- Consume the token and put a successor in its place. -/
def consume (suppliedHash newRefreshHash newCsrfHash : Digest) (metadata : RequestMetadata)
    (now : Time) (sessionId : Id) (session : Session) : Program RotateResult := do
  let count ← update (.token suppliedHash) (.consumed now)
  if count = 1 then do
    updateFound (.session sessionId) (.rotated newRefreshHash newCsrfHash now metadata)
    insert (.token newRefreshHash)
      { sessionId := sessionId
        expiresAt := session.expiresAt
        usedAt := none
        revokedAt := none }
    return .rotated sessionId session
  else do
    revokeFamily session.tokenFamilyId now
    return .reused

/-- The transaction of `rotate`. -/
def rotateStored (suppliedHash newRefreshHash newCsrfHash : Digest) (metadata : RequestMetadata)
    (now : Time) : Program RotateResult := do
  match ← query (.findToken suppliedHash) with
  | none => return .invalid
  | some storedToken => do
      let found ← query (.findSession storedToken.sessionId)
      let session ← orThrow found .recordNotFound
      if storedToken.usedAt ≠ none ∨ storedToken.revokedAt ≠ none then do
        revokeFamily session.tokenFamilyId now
        return .reused
      else if session.revokedAt ≠ none ∨ session.expiresAt ≤ now ∨ storedToken.expiresAt ≤ now then do
        revokeFamily session.tokenFamilyId now
        return .invalid
      else do
        let membership ← query (.findMembership session.organizationId session.userId)
        let user ← query (.findUser session.userId)
        match admits now user membership with
        | none => do
            revokeFamily session.tokenFamilyId now
            return .invalid
        | some _ =>
            consume suppliedHash newRefreshHash newCsrfHash metadata now storedToken.sessionId session

def rotate (refreshToken : Nat) (metadata : RequestMetadata) : Program SessionBundle := do
  let newRefreshToken ← external .randomToken
  let newCsrfToken ← external .randomToken
  let now ← external .clock
  match ← transaction (rotateStored (cfg.hashOpaqueToken refreshToken)
    (cfg.hashOpaqueToken newRefreshToken) (cfg.hashOpaqueToken newCsrfToken) metadata now) with
  | .reused => throw (.unauthorized "REFRESH_TOKEN_REUSED")
  | .invalid => throw invalidRefreshSession
  | .rotated sessionId session =>
      bundle cfg sessionId session.userId session.organizationId newRefreshToken newCsrfToken
        session.expiresAt

def revoke (sessionId : Id) : Program Unit := do
  let now ← external .clock
  match ← read (.findSession sessionId) with
  | none => return ()
  | some session => transaction (revokeFamily session.tokenFamilyId now)

def revokeAll (userId : Id) : Program Unit := do
  let now ← external .clock
  transaction (revokeScope (.user userId) now)

end SessionService
end BlocTrust.Identity
