import BlocTrust.Identity.SessionService

/-!
`PasskeyService`: a challenge is stored with the options, selected again when the response
arrives, and consumed together with what the response is for.
-/
namespace BlocTrust.Identity.PasskeyService

open ReadCommitted Prog

variable (cfg : Config) (auth : AuthContext)

def challengeTtlMilliseconds : Nat := 5 * 60 * 1000

def verificationFailed : Failure := .badRequest "PASSKEY_VERIFICATION_FAILED"

def challengeConsumed : Failure := .badRequest "PASSKEY_CHALLENGE_REPLAYED"

/-- `Number.isSafeInteger`. -/
def isSafeInteger (counter : Nat) : Bool := counter ≤ 9007199254740991

/-- An instant that is not further back than `limit`. -/
def recent (limit : Nat) (now at_ : Time) : Bool := now - at_ ≤ limit

structure RegistrationOptions where
  userId : Id
  userName : Text
  userDisplayName : Text
  challenge : Nat
  excludeCredentials : List (Text × List Text)
  deriving DecidableEq, Repr

structure AuthenticationOptions where
  challenge : Nat
  allowCredentials : List (Text × List Text)
  deriving DecidableEq, Repr

def isAuthenticatorTransport (value : Text) : Bool :=
  ["ble", "cable", "hybrid", "internal", "nfc", "smart-card", "usb"].any (·.toList = value)

/-- A credential with the transports that WebAuthn knows. -/
def descriptor (credential : Text × WebAuthnCredential) : Text × List Text :=
  (credential.1, credential.2.transports.filter isAuthenticatorTransport)

def assertRegistrationAuthorized (credentialCount : Nat) : Program Unit := do
  let now ← external .clock
  let hasRecentStepUp := auth.stepUpVerifiedAt.any (recent (5 * 60 * 1000) now)
  let now ← external .clock
  let hasRecentLogin := recent (10 * 60 * 1000) now auth.authenticatedAt
  require (¬ (0 < credentialCount ∧ hasRecentStepUp = false ∨
      credentialCount = 0 ∧ hasRecentLogin = false))
    (.forbidden (if 0 < credentialCount then "STEP_UP_REQUIRED" else "RECENT_LOGIN_REQUIRED"))

def replaceChallenge (purpose : PasskeyChallengePurpose) (challenge : Nat) : Program Unit := do
  let now ← external .clock
  transaction do
    let open_ ← query (.openChallenges auth.sessionId purpose)
    let _ ← each (fun id => update (.challenge id) (.replaced now)) open_
    let id ← call .randomUUID
    let createdAt ← call .clock
    insert (.challenge id)
      { userId := auth.userId
        sessionId := auth.sessionId
        purpose := purpose
        challenge := challenge
        expiresAt := now + challengeTtlMilliseconds
        usedAt := none
        createdAt := createdAt }

def registrationOptions : Program RegistrationOptions := do
  let found ← read (.findUser auth.userId)
  let user ← orThrow found .recordNotFound
  let credentials ← read (.findCredentials auth.userId)
  assertRegistrationAuthorized auth credentials.length
  let challenge ← external .randomToken
  replaceChallenge auth .registration challenge
  return {
    userId := auth.userId
    userName := user.email
    userDisplayName := user.displayName
    challenge := challenge
    excludeCredentials := credentials.map descriptor }

def activeChallenge (purpose : PasskeyChallengePurpose) : Program (Id × PasskeyChallenge) := do
  let now ← external .clock
  let found ← read (.activeChallenge auth.userId auth.sessionId purpose now)
  orThrow found (.badRequest "PASSKEY_CHALLENGE_INVALID")

/-- Consume the challenge and store the credential. -/
def storeCredential (challengeId : Id) (info : RegistrationInfo) (deviceName : Option Text) :
    Program (Option (Text × Option Text)) := do
  let before ← call .clock
  let usedAt ← call .clock
  let count ← update (.challenge challengeId) (.consumed before usedAt)
  if count ≠ 1 then return none
  else do
    let deviceName := deviceName.filter (· ≠ [])
    insert (.credential info.credentialId)
      { userId := auth.userId
        publicKey := info.publicKey
        counter := info.counter
        transports := info.transports
        deviceName := deviceName
        backedUp := info.credentialBackedUp
        lastUsedAt := none }
    return some (info.credentialId, deviceName)

def verifyRegistration (response : RegistrationResponse) (deviceName : Option Text) :
    Program (Text × Option Text) := do
  let (challengeId, challenge) ← activeChallenge auth .registration
  let info ← orThrow (cfg.verifyRegistrationResponse response challenge.challenge) verificationFailed
  let consumed ← transaction (storeCredential auth challengeId info deviceName)
  orThrow consumed challengeConsumed

def stepUpOptions : Program AuthenticationOptions := do
  let credentials ← read (.findCredentials auth.userId)
  require (credentials.length ≠ 0) (.forbidden "PASSKEY_REQUIRED")
  let challenge ← external .randomToken
  replaceChallenge auth .stepUp challenge
  return {
    challenge := challenge
    allowCredentials := credentials.map descriptor }

/-- Consume the challenge, store the new counter and mark the session. -/
def recordStepUp (challengeId : Id) (credentialId : Text) (info : AuthenticationInfo)
    (verifiedAt : Time) : Program Bool := do
  let count ← update (.challenge challengeId) (.consumed verifiedAt verifiedAt)
  if count ≠ 1 then return false
  else do
    updateFound (.credential credentialId) (.used info.newCounter info.credentialBackedUp verifiedAt)
    updateFound (.session auth.sessionId) (.verified verifiedAt)
    return true

def verifyStepUp (response : AuthenticationResponse) : Program Time := do
  let (challengeId, challenge) ← activeChallenge auth .stepUp
  let found ← read (.findCredential response.id)
  let storedCredential ← orThrow found verificationFailed
  require (storedCredential.userId = auth.userId) verificationFailed
  require (isSafeInteger storedCredential.counter = true) verificationFailed
  let info ← orThrow (cfg.verifyAuthenticationResponse response challenge.challenge response.id
    storedCredential.publicKey storedCredential.counter) verificationFailed
  require (info.userVerified = true) verificationFailed
  let verifiedAt ← external .clock
  let consumed ← transaction (recordStepUp auth challengeId response.id info verifiedAt)
  require (consumed = true) challengeConsumed
  return verifiedAt

end BlocTrust.Identity.PasskeyService
