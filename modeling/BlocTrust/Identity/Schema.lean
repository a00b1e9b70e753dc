import BlocTrust.Domain
import BlocTrust.ReadCommitted.Tables

/-!
The tables of sessions and passkeys.
A refresh-token record is keyed by its unique `tokenHash` and a credential by its unique
`credentialId`, which stand for their identifiers; tokens and challenges, which are only hashed
and compared, are numbers.  Users and memberships are changed by other services.
-/
namespace BlocTrust.Identity

open ReadCommitted

inductive UserStatus
  | active | disabled
  deriving DecidableEq, Repr

inductive PasskeyChallengePurpose
  | registration | stepUp
  deriving DecidableEq, Repr

structure RequestMetadata where
  userAgent : Option Text
  ipAddress : Option Text
  deriving DecidableEq, Repr

structure Session where
  userId : Id
  organizationId : Id
  tokenFamilyId : Id
  refreshTokenHash : Digest
  csrfTokenHash : Digest
  metadata : RequestMetadata
  rotationCounter : Nat
  stepUpVerifiedAt : Option Time
  lastUsedAt : Time
  expiresAt : Time
  revokedAt : Option Time
  createdAt : Time
  deriving DecidableEq, Repr

structure SessionRefreshToken where
  sessionId : Id
  expiresAt : Time
  usedAt : Option Time
  revokedAt : Option Time
  deriving DecidableEq, Repr

structure PasskeyChallenge where
  userId : Id
  sessionId : Id
  purpose : PasskeyChallengePurpose
  challenge : Nat
  expiresAt : Time
  usedAt : Option Time
  createdAt : Time
  deriving DecidableEq, Repr

structure WebAuthnCredential where
  userId : Id
  publicKey : Bytes
  counter : Nat
  transports : List Text
  deviceName : Option Text
  backedUp : Bool
  lastUsedAt : Option Time
  deriving DecidableEq, Repr

structure User where
  email : Text
  displayName : Text
  status : UserStatus
  deriving DecidableEq, Repr

structure Membership where
  id : Id
  role : MembershipRole
  status : MembershipStatus
  validUntil : Option Time
  deriving DecidableEq, Repr

/-- Rows, entries of the unique indexes on `Session.refreshTokenHash` and
`PasskeyChallenge.challenge`, and random identifiers. -/
inductive Key
  | session (id : Id)
  | token (tokenHash : Digest)
  | challenge (id : Id)
  | credential (credentialId : Text)
  | user (id : Id)
  | membership (organizationId userId : Id)
  | refreshTokenHash (hash : Digest)
  | challengeText (challenge : Nat)
  | drawn (id : Id)
  deriving DecidableEq, Repr

@[reducible] def Val : Key → Type
  | .session _ => Session
  | .token _ => SessionRefreshToken
  | .challenge _ => PasskeyChallenge
  | .credential _ => WebAuthnCredential
  | .user _ => User
  | .membership _ _ => Membership
  | .refreshTokenHash _ => Unit
  | .challengeText _ => Unit
  | .drawn _ => Unit

abbrev Db := Log Val

namespace Db

def session (db : Db) (id : Id) : Option Session := Log.row (.session id) db
def token (db : Db) (tokenHash : Digest) : Option SessionRefreshToken :=
  Log.row (.token tokenHash) db
def challenge (db : Db) (id : Id) : Option PasskeyChallenge := Log.row (.challenge id) db
def credential (db : Db) (credentialId : Text) : Option WebAuthnCredential :=
  Log.row (.credential credentialId) db
def user (db : Db) (id : Id) : Option User := Log.row (.user id) db
def membership (db : Db) (organizationId userId : Id) : Option Membership :=
  Log.row (.membership organizationId userId) db

def sessions (db : Db) : List (Id × Session) :=
  Log.table Key.session (fun | .session i => some i | _ => none) (fun _ v => v) db
def tokens (db : Db) : List (Digest × SessionRefreshToken) :=
  Log.table Key.token (fun | .token h => some h | _ => none) (fun _ v => v) db
def challenges (db : Db) : List (Id × PasskeyChallenge) :=
  Log.table Key.challenge (fun | .challenge i => some i | _ => none) (fun _ v => v) db
def credentials (db : Db) : List (Text × WebAuthnCredential) :=
  Log.table Key.credential (fun | .credential i => some i | _ => none) (fun _ v => v) db

variable {db : Db}

@[simp] theorem mem_sessions {i : Id} {v : Session} :
    (i, v) ∈ db.sessions ↔ db.session i = some v := by
  simp [sessions, session, Log.mem_table]

@[simp] theorem mem_tokens {h : Digest} {v : SessionRefreshToken} :
    (h, v) ∈ db.tokens ↔ db.token h = some v := by
  simp [tokens, token, Log.mem_table]

@[simp] theorem mem_challenges {i : Id} {v : PasskeyChallenge} :
    (i, v) ∈ db.challenges ↔ db.challenge i = some v := by
  simp [challenges, challenge, Log.mem_table]

@[simp] theorem mem_credentials {i : Text} {v : WebAuthnCredential} :
    (i, v) ∈ db.credentials ↔ db.credential i = some v := by
  simp [credentials, credential, Log.mem_table]

end Db

section Changes

/-- The assignments of the `UPDATE`s on sessions, the last one being a step-up. -/
inductive SessionChange
  | rotated (refreshTokenHash csrfTokenHash : Digest) (lastUsedAt : Time)
      (metadata : RequestMetadata)
  | revoked (revokedAt : Time)
  | verified (stepUpVerifiedAt : Time)
  deriving DecidableEq, Repr

namespace SessionChange

def applies : SessionChange → Session → Bool
  | revoked _, s => s.revokedAt = none
  | _, _ => true

def apply : SessionChange → Session → Session
  | rotated refresh csrf now metadata, s =>
      { s with
        refreshTokenHash := refresh
        csrfTokenHash := csrf
        lastUsedAt := now
        rotationCounter := s.rotationCounter + 1
        metadata := ⟨metadata.userAgent.or s.metadata.userAgent,
          metadata.ipAddress.or s.metadata.ipAddress⟩ }
  | revoked now, s => { s with revokedAt := some now }
  | verified now, s => { s with stepUpVerifiedAt := some now }

end SessionChange

inductive TokenChange
  | consumed (usedAt : Time)
  | revoked (revokedAt : Time)
  deriving DecidableEq, Repr

namespace TokenChange

def applies : TokenChange → SessionRefreshToken → Bool
  | consumed _, t => t.usedAt = none ∧ t.revokedAt = none
  | revoked _, t => t.revokedAt = none

def apply : TokenChange → SessionRefreshToken → SessionRefreshToken
  | consumed now, t => { t with usedAt := some now }
  | revoked now, t => { t with revokedAt := some now }

end TokenChange

/-- A challenge is consumed only before it expires. -/
inductive ChallengeChange
  | replaced (usedAt : Time)
  | consumed (before usedAt : Time)
  deriving DecidableEq, Repr

namespace ChallengeChange

def applies : ChallengeChange → PasskeyChallenge → Bool
  | replaced _, c => c.usedAt = none
  | consumed before _, c => c.usedAt = none ∧ before < c.expiresAt

def apply : ChallengeChange → PasskeyChallenge → PasskeyChallenge
  | replaced now, c => { c with usedAt := some now }
  | consumed _ now, c => { c with usedAt := some now }

end ChallengeChange

inductive CredentialChange
  | used (counter : Nat) (backedUp : Bool) (lastUsedAt : Time)
  deriving DecidableEq, Repr

def CredentialChange.apply : CredentialChange → WebAuthnCredential → WebAuthnCredential
  | used counter backedUp now, c =>
      { c with counter := counter, backedUp := backedUp, lastUsedAt := some now }

@[reducible] def Change : Key → Type
  | .session _ => SessionChange
  | .token _ => TokenChange
  | .challenge _ => ChallengeChange
  | .credential _ => CredentialChange
  | _ => Empty

end Changes
end BlocTrust.Identity
