import BlocTrust.Identity.Schema

/-!
The statements of `SessionService` and `PasskeyService` and how the database answers them.
An `updateMany` is a read of the rows that match in its snapshot, followed by an update of each
that looks at the row again.
-/
namespace BlocTrust.Identity

open ReadCommitted

/-- What a request ends in: an HTTP error with its code, or an error of the database. -/
inductive Failure
  | unauthorized (code : String)
  | forbidden (code : String)
  | badRequest (code : String)
  | uniqueViolation
  | foreignKeyViolation
  | recordNotFound
  | unavailable (name : String)
  deriving DecidableEq, Repr

structure AccessTokenPayload where
  sessionId : Id
  userId : Id
  organizationId : Id
  expiresAt : Time
  deriving DecidableEq, Repr

/-- `RegistrationResponseJSON` with the challenge of its client data. -/
structure RegistrationResponse where
  challenge : Nat
  attestation : Bytes
  deriving DecidableEq, Repr

/-- `AuthenticationResponseJSON` with the challenge of its client data and the sign count of its
authenticator data. -/
structure AuthenticationResponse where
  id : Text
  challenge : Nat
  counter : Nat
  signature : Bytes
  deriving DecidableEq, Repr

structure RegistrationInfo where
  credentialId : Text
  publicKey : Bytes
  counter : Nat
  transports : List Text
  credentialBackedUp : Bool
  deriving DecidableEq, Repr

structure AuthenticationInfo where
  userVerified : Bool
  newCounter : Nat
  credentialBackedUp : Bool
  deriving DecidableEq, Repr

/-- The settings of the services, the hash and the signature of tokens, and the two
verifications of the WebAuthn library: `none` when it does not verify the response. -/
structure Config where
  accessTtlMilliseconds : Nat
  refreshTtlMilliseconds : Nat
  hashOpaqueToken : Nat → Digest
  signAccessToken : AccessTokenPayload → Text
  openAccessToken : Text → Option AccessTokenPayload
  verifyRegistrationResponse : RegistrationResponse → Nat → Option RegistrationInfo
  verifyAuthenticationResponse : AuthenticationResponse → Nat → Text → Bytes → Nat →
    Option AuthenticationInfo

/-- The sessions that a revocation is about. -/
inductive Scope
  | family (tokenFamilyId : Id)
  | user (userId : Id)
  deriving DecidableEq, Repr

def Scope.covers : Scope → Session → Bool
  | family id, s => s.tokenFamilyId = id
  | user id, s => s.userId = id

inductive Query
  | findToken (tokenHash : Digest)
  | findSession (id : Id)
  | findUser (id : Id)
  | findMembership (organizationId userId : Id)
  | unrevokedSessions (scope : Scope)
  | unrevokedTokens (scope : Scope)
  | findCredentials (userId : Id)
  | findCredential (credentialId : Text)
  | openChallenges (sessionId : Id) (purpose : PasskeyChallengePurpose)
  | activeChallenge (userId sessionId : Id) (purpose : PasskeyChallengePurpose) (now : Time)
  deriving DecidableEq, Repr

@[reducible] def Query.Out : Query → Type
  | findToken _ => Option SessionRefreshToken
  | findSession _ => Option Session
  | findUser _ => Option User
  | findMembership _ _ => Option Membership
  | unrevokedSessions _ => List Id
  | unrevokedTokens _ => List Digest
  | findCredentials _ => List (Text × WebAuthnCredential)
  | findCredential _ => Option WebAuthnCredential
  | openChallenges _ _ => List Id
  | activeChallenge _ _ _ _ => Option (Id × PasskeyChallenge)

inductive External
  | clock
  | randomUUID
  | randomToken
  deriving DecidableEq, Repr

@[reducible] def External.Out : External → Type
  | clock => Time
  | randomUUID => Id
  | randomToken => Nat

abbrev Stmt := Tables.Stmt Val Change Query External

abbrev Out : Stmt → Type := Tables.Answer Val Change Query.Out External.Out

/-- Rows of a result in the order that a choice picks. -/
def arrange {α : Type} : Nat → List α → List α
  | _, [] => []
  | choice, a :: as => (arrange (choice / (as.length + 1)) as).insertIdx (choice % (as.length + 1)) a

theorem arrange_perm {α : Type} (choice : Nat) (as : List α) : (arrange choice as).Perm as := by
  induction as generalizing choice with
  | nil => exact .refl _
  | cons a as ih =>
      unfold arrange
      have hrest := ih (choice / (as.length + 1))
      have hlt : choice % (as.length + 1) ≤ (arrange (choice / (as.length + 1)) as).length := by
        rw [hrest.length_eq]
        exact Nat.le_of_lt_succ (Nat.mod_lt _ (Nat.succ_pos _))
      exact (List.perm_insertIdx a _ hlt).trans (hrest.cons a)

section Answers

/-- A latest row, any one where several are latest. -/
def latest {α : Type} (key : α → Nat) (choice : Nat) (rows : List α) : Option (Option α) :=
  if rows.isEmpty then some none
  else ((rows.filter fun a => rows.all fun b => key b ≤ key a)[choice]?).map some

def answer (choice : Nat) (db : Db) : (q : Query) → Option q.Out
  | .findToken hash => some (db.token hash)
  | .findSession id => some (db.session id)
  | .findUser id => some (db.user id)
  | .findMembership organizationId userId => some (db.membership organizationId userId)
  | .unrevokedSessions scope =>
      some (arrange choice ((db.sessions.filter fun (_, s) =>
        scope.covers s ∧ s.revokedAt = none).map Prod.fst))
  | .unrevokedTokens scope =>
      some (arrange choice ((db.tokens.filter fun (_, t) =>
        (db.session t.sessionId).any scope.covers ∧ t.revokedAt = none).map Prod.fst))
  | .findCredentials userId => some (db.credentials.filter fun (_, c) => c.userId = userId)
  | .findCredential credentialId => some (db.credential credentialId)
  | .openChallenges sessionId purpose =>
      some (arrange choice ((db.challenges.filter fun (_, c) =>
        c.sessionId = sessionId ∧ c.purpose = purpose ∧ c.usedAt = none).map Prod.fst))
  | .activeChallenge userId sessionId purpose now =>
      latest (·.2.createdAt) choice (db.challenges.filter fun (_, c) =>
        c.userId = userId ∧ c.sessionId = sessionId ∧ c.purpose = purpose ∧ c.usedAt = none ∧
          now < c.expiresAt)

/-- A random identifier has never been drawn before; `none` excludes the other choices. -/
def reply (choice : Nat) (db : Db) : (c : External) → Option (Except Failure (c.Out × Db))
  | .clock => some (.ok (choice, []))
  | .randomUUID =>
      if Key.drawn choice ∈ db.keys then none
      else some (.ok (choice, [⟨.drawn choice, ()⟩]))
  | .randomToken => some (.ok (choice, []))

def client : Tables.Client Val Failure Query.Out External.Out where
  answer := answer
  reply := reply

end Answers

section Rows

def applies : (k : Key) → Change k → Val k → Bool
  | .session _, c, s => c.applies s
  | .token _, c, t => c.applies t
  | .challenge _, c, x => c.applies x
  | .credential _, _, _ => true
  | .user _, c, _ => c.elim
  | .membership _ _, c, _ => c.elim
  | .refreshTokenHash _, c, _ => c.elim
  | .challengeText _, c, _ => c.elim
  | .drawn _, c, _ => c.elim

def apply : (k : Key) → Change k → Val k → Val k
  | .session _, c, s => c.apply s
  | .token _, c, t => c.apply t
  | .challenge _, c, x => c.apply x
  | .credential _, c, x => c.apply x
  | .user _, c, _ => c.elim
  | .membership _ _, c, _ => c.elim
  | .refreshTokenHash _, c, _ => c.elim
  | .challengeText _, c, _ => c.elim
  | .drawn _, c, _ => c.elim

def entries : (k : Key) → Val k → Db
  | .session _, s => [⟨.refreshTokenHash s.refreshTokenHash, ()⟩]
  | .challenge _, c => [⟨.challengeText c.challenge, ()⟩]
  | _, _ => []

def moved : (k : Key) → Change k → Db
  | .session _, .rotated hash _ _ _ => [⟨.refreshTokenHash hash, ()⟩]
  | _, _ => []

/-- The foreign keys, as far as their tables are modelled. -/
def check : (k : Key) → Db → Option (Val k) → Val k → Except Failure Unit
  | .session _, db, _, s => if (db.user s.userId).isSome then .ok () else .error .foreignKeyViolation
  | .token _, db, _, t =>
      if (db.session t.sessionId).isSome then .ok () else .error .foreignKeyViolation
  | .challenge _, db, _, c =>
      if (db.user c.userId).isSome ∧ (db.session c.sessionId).isSome then .ok ()
      else .error .foreignKeyViolation
  | .credential _, db, _, c =>
      if (db.user c.userId).isSome then .ok () else .error .foreignKeyViolation
  | _, _, _, _ => .ok ()

def Key.internal : Key → Bool
  | refreshTokenHash _ | challengeText _ | drawn _ => true
  | _ => false

def Key.outside : Key → Bool
  | user _ | membership _ _ => true
  | _ => false

def tables : Tables Val Change Failure where
  applies := applies
  apply := apply
  entries := entries
  moved := moved
  check := check
  taken := .uniqueViolation
  internal := Key.internal
  outside := Key.outside
  entries_internal k v s hs := by
    cases k <;> simp only [entries, List.mem_singleton, List.not_mem_nil] at hs <;>
      subst hs <;> rfl
  moved_internal k c s hs := by
    cases k with
    | session id =>
        cases c with
        | rotated hash csrf now metadata =>
            rw [List.mem_singleton.mp hs]
            rfl
        | revoked now => exact absurd hs List.not_mem_nil
        | verified now => exact absurd hs List.not_mem_nil
    | _ => exact absurd hs List.not_mem_nil

theorem client_internal : client.Internal tables := by
  intro choice view x out rows h s hs
  have h : reply choice view x = some (.ok (out, rows)) := h
  cases x with
  | clock =>
      cases h
      exact absurd hs List.not_mem_nil
  | randomToken =>
      cases h
      exact absurd hs List.not_mem_nil
  | randomUUID =>
      simp only [reply] at h
      split at h
      · cases h
      · cases h
        rw [List.mem_singleton.mp hs]
        rfl

end Rows
end BlocTrust.Identity
