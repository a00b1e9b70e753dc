import BlocTrust.Identity.SessionService
import BlocTrust.ReadCommitted.Faults

/-!
`AuthService.onboard`.
The user, the organization and the membership are created in one transaction, the session and its
refresh token in another, and one handler reports every unique violation of either as a conflict.
A call leaves nothing behind and blames only what was registered before exactly when the first
transaction fails or nothing fails after it.
-/
namespace BlocTrust.Onboarding

open ReadCommitted Prog
open Identity (UserStatus Membership Session SessionRefreshToken SessionBundle RequestMetadata)

section Tables

structure User where
  email : Text
  displayName : Text
  passwordHash : Text
  status : UserStatus
  deriving DecidableEq, Repr

structure Organization where
  slug : Text
  name : Text
  deriving DecidableEq, Repr

/-- A refresh-token record is keyed by its unique `tokenHash`. -/
inductive Key
  | user (id : Id)
  | organization (id : Id)
  | membership (organizationId userId : Id)
  | session (id : Id)
  | token (tokenHash : Digest)
  deriving DecidableEq, Repr

@[reducible] def Val : Key → Type
  | .user _ => User
  | .organization _ => Organization
  | .membership _ _ => Membership
  | .session _ => Session
  | .token _ => SessionRefreshToken

abbrev Db := Log Val

namespace Db

def user (db : Db) (id : Id) : Option User := Log.row (.user id) db
def organization (db : Db) (id : Id) : Option Organization := Log.row (.organization id) db
def session (db : Db) (id : Id) : Option Session := Log.row (.session id) db

def users (db : Db) : List (Id × User) :=
  Log.table Key.user (fun | .user i => some i | _ => none) (fun _ v => v) db
def organizations (db : Db) : List (Id × Organization) :=
  Log.table Key.organization (fun | .organization i => some i | _ => none) (fun _ v => v) db
def sessions (db : Db) : List (Id × Session) :=
  Log.table Key.session (fun | .session i => some i | _ => none) (fun _ v => v) db

@[simp] theorem mem_users {db : Db} {i : Id} {v : User} :
    (i, v) ∈ db.users ↔ db.user i = some v := by
  simp [users, user, Log.mem_table]

@[simp] theorem mem_organizations {db : Db} {i : Id} {v : Organization} :
    (i, v) ∈ db.organizations ↔ db.organization i = some v := by
  simp [organizations, organization, Log.mem_table]

@[simp] theorem mem_sessions {db : Db} {i : Id} {v : Session} :
    (i, v) ∈ db.sessions ↔ db.session i = some v := by
  simp [sessions, session, Log.mem_table]

end Db

/-- An email, a slug and a refresh-token hash stand in one row at most. -/
def distinct : (k : Key) → Val k → Db → Bool
  | .user _, u, db => db.users.all fun (_, v) => v.email ≠ u.email
  | .organization _, o, db => db.organizations.all fun (_, v) => v.slug ≠ o.slug
  | .session _, s, db => db.sessions.all fun (_, v) => v.refreshTokenHash ≠ s.refreshTokenHash
  | _, _, _ => true

/-- The foreign keys. -/
def references : (k : Key) → Val k → Db → Bool
  | .membership organizationId userId, _, db =>
      (db.organization organizationId).isSome && (db.user userId).isSome
  | .session _, s, db => (db.user s.userId).isSome && (db.organization s.organizationId).isSome
  | .token _, t, db => (db.session t.sessionId).isSome
  | _, _, _ => true

/-- The statements are `INSERT`s. -/
structure Stmt where
  key : Key
  row : Val key

abbrev Out (_ : Stmt) := Unit

def exec : Exec Val Out Failure := fun s view =>
  if s.key ∈ view.keys ∨ distinct s.key s.row view = false then .error .uniqueViolation
  else if references s.key s.row view then .ok ((), [⟨s.key, s.row⟩])
  else .error (.check "fkey")

end Tables

abbrev Program := Prog Out Failure

def insert (k : Key) (v : Val k) : Program Unit := Prog.sql ⟨k, v⟩

structure OnboardOrganizationDto where
  organizationName : Text
  organizationSlug : Text
  displayName : Text
  email : Text
  password : Text

structure Request where
  userAgent : Option Text
  ip : Option Text

structure CreatedUser where
  id : Id
  email : Text
  displayName : Text
  deriving DecidableEq, Repr

structure CreatedOrganization where
  id : Id
  slug : Text
  name : Text
  role : MembershipRole
  deriving DecidableEq, Repr

structure AuthResult where
  session : SessionBundle
  user : CreatedUser
  organization : CreatedOrganization
  deriving DecidableEq, Repr

/-- The services that are called.  The screening is `none` where it is unavailable, and the hash
where the library throws. -/
structure Services where
  sessions : Identity.Config
  exposureCount : Text → Option Nat
  hash : Text → Option Text

/-- The identifiers and tokens that a call draws and the instants that it reads. -/
structure Draws where
  userId : Id
  organizationId : Id
  membershipId : Id
  sessionId : Id
  tokenFamilyId : Id
  refreshToken : Nat
  csrfToken : Nat
  now : Time
  createdAt : Time
  bundledAt : Time

section Sessions

/-- `text.replace(/^::ffff:/u, '')` -/
def withoutMapped (text : Text) : Text :=
  if "::ffff:".toList.isPrefixOf text then text.drop 7 else text

/-- An empty text is left out.  The characters of a header are one code unit each. -/
def metadataFrom (request : Request) : RequestMetadata where
  userAgent := (request.userAgent.map (·.take 512)).filter (· ≠ [])
  ipAddress := (request.ip.map withoutMapped).filter (· ≠ [])

variable (cfg : Identity.Config) (draws : Draws) (userId organizationId : Id)

def refreshTokenHash : Digest := cfg.hashOpaqueToken draws.refreshToken

def refreshExpiresAt : Time := draws.now + cfg.refreshTtlMilliseconds

def newSession (metadata : RequestMetadata) : Session where
  userId := userId
  organizationId := organizationId
  tokenFamilyId := draws.tokenFamilyId
  refreshTokenHash := refreshTokenHash cfg draws
  csrfTokenHash := cfg.hashOpaqueToken draws.csrfToken
  metadata := metadata
  rotationCounter := 0
  stepUpVerifiedAt := none
  lastUsedAt := draws.createdAt
  expiresAt := refreshExpiresAt cfg draws
  revokedAt := none
  createdAt := draws.createdAt

def newToken : SessionRefreshToken where
  sessionId := draws.sessionId
  expiresAt := refreshExpiresAt cfg draws
  usedAt := none
  revokedAt := none

/-- The transaction of `SessionService.create`. -/
def createStored (metadata : RequestMetadata) : Program Unit := do
  insert (.session draws.sessionId) (newSession cfg draws userId organizationId metadata)
  insert (.token (refreshTokenHash cfg draws)) (newToken cfg draws)

def bundle : SessionBundle where
  sessionId := draws.sessionId
  accessToken := cfg.signAccessToken ⟨draws.sessionId, userId, organizationId,
    draws.bundledAt + cfg.accessTtlMilliseconds⟩
  refreshToken := draws.refreshToken
  csrfToken := draws.csrfToken
  accessExpiresAt := draws.bundledAt + cfg.accessTtlMilliseconds
  refreshExpiresAt := refreshExpiresAt cfg draws

/-- `SessionService.create` -/
def create (metadata : RequestMetadata) : Program SessionBundle := do
  transaction (createStored cfg draws userId organizationId metadata)
  return bundle cfg draws userId organizationId

end Sessions

section Onboard

def newUser (dto : OnboardOrganizationDto) (passwordHash : Text) : User :=
  ⟨dto.email, trim dto.displayName, passwordHash, .active⟩

def newOrganization (dto : OnboardOrganizationDto) : Organization :=
  ⟨dto.organizationSlug, trim dto.organizationName⟩

def newMembership (draws : Draws) : Membership := ⟨draws.membershipId, .owner, .active, none⟩

/-- The first transaction. -/
def register (dto : OnboardOrganizationDto) (passwordHash : Text) (draws : Draws) :
    Program Unit := do
  insert (.user draws.userId) (newUser dto passwordHash)
  insert (.organization draws.organizationId) (newOrganization dto)
  insert (.membership draws.organizationId draws.userId) (newMembership draws)

def onboardingConflict : Failure := .conflict "ONBOARDING_CONFLICT"

/-- What the handler throws. -/
def handled (e : Failure) : Failure := if e = .uniqueViolation then onboardingConflict else e

variable (services : Services) (dto : OnboardOrganizationDto) (request : Request) (draws : Draws)

/-- The `try` block. -/
def enroll (passwordHash : Text) : Program AuthResult := do
  transaction (register dto passwordHash draws)
  let session ← create services.sessions draws draws.userId draws.organizationId
    (metadataFrom request)
  return {
    session := session
    user := ⟨draws.userId, dto.email, trim dto.displayName⟩
    organization := ⟨draws.organizationId, dto.organizationSlug, trim dto.organizationName,
      .owner⟩ }

def onboard : Program AuthResult := do
  let exposureCount ← orThrow (services.exposureCount dto.password)
    (.unavailable "PASSWORD_SCREENING_UNAVAILABLE")
  require (exposureCount = 0) (.unprocessable "PASSWORD_COMPROMISED")
  let passwordHash ← orThrow (services.hash dto.password) (.raised "argon2")
  tryCatch (enroll services dto request draws passwordHash) fun e => throw (handled e)

/-- The statements and commits of the call are numbered, and those that the plan names fail. -/
def outage (plan : Nat → Option String) (n : Nat) : Option Failure :=
  (plan n).map Failure.unavailable

/-- What the call ends in, and the database that it leaves. -/
def onboarded (plan : Nat → Option String) (db : Db) : Except Failure AuthResult × Db :=
  let outcome := (onboard services dto request draws).execute exec (outage plan) ⟨0, [], db⟩
  (outcome.1, outcome.2.db)

/-- The email or the slug is registered. -/
def Registered (db : Db) : Prop :=
  (∃ id u, db.user id = some u ∧ u.email = dto.email) ∨
    ∃ id o, db.organization id = some o ∧ o.slug = dto.organizationSlug

/-- A call that throws leaves no row that it created, and reports a conflict only where the email
or the slug was registered. -/
def AllOrNothing (db : Db) (outcome : Except Failure AuthResult × Db) : Prop :=
  ∀ e, outcome.1 = .error e → (∀ k ∈ outcome.2.keys, k ∈ db.keys) ∧
    (e = onboardingConflict → Registered dto db)

/-- The identifiers that are drawn are new. -/
structure Draws.Fresh (db : Db) : Prop where
  user : Key.user draws.userId ∉ db.keys
  organization : Key.organization draws.organizationId ∉ db.keys
  membership : Key.membership draws.organizationId draws.userId ∉ db.keys
  session : Key.session draws.sessionId ∉ db.keys

/-- The call ends before its first transaction is committed. -/
def Stopped (plan : Nat → Option String) (db : Db) : Prop :=
  services.exposureCount dto.password ≠ some 0 ∨ services.hash dto.password = none ∨
    Registered dto db ∨ ∃ n < 4, plan n ≠ none

/-- None of the steps of the session fails. -/
def SessionStarts (plan : Nat → Option String) (db : Db) : Prop :=
  (∀ n < 7, 4 ≤ n → plan n = none) ∧
    Key.token (refreshTokenHash services.sessions draws) ∉ db.keys ∧
    ∀ id s, db.session id = some s → s.refreshTokenHash ≠ refreshTokenHash services.sessions draws

end Onboard

section Inserts

variable {plan : Nat → Option String} {σ : Point Val} {k : Key} {v : Val k} {db : Db}

theorem outage_none {n : Nat} (h : plan n = none) : outage plan n = none := by
  rw [outage, h]
  rfl

theorem outage_some {n : Nat} {name : String} (h : plan n = some name) :
    outage plan n = some (.unavailable name) := by
  rw [outage, h]
  rfl

/-- Nothing refuses the row at this point. -/
def Admitted (plan : Nat → Option String) (σ : Point Val) (k : Key) (v : Val k) : Prop :=
  plan σ.step = none ∧ k ∉ (σ.writes ++ σ.db).keys ∧ distinct k v (σ.writes ++ σ.db) = true ∧
    references k v (σ.writes ++ σ.db) = true

theorem insert_admitted (h : Admitted plan σ k v) :
    (insert k v).execute exec (outage plan) σ = (.ok (), σ.written [⟨k, v⟩]) := by
  obtain ⟨hplan, hkey, hdistinct, hreferences⟩ := h
  refine execute_sql_ok (outage_none hplan) ?_
  have hfree : ¬ (k ∈ (σ.writes ++ σ.db).keys ∨ distinct k v (σ.writes ++ σ.db) = false) := by
    rintro (hmem | hfalse)
    · exact hkey hmem
    · rw [hdistinct] at hfalse
      cases hfalse
  rw [exec, if_neg hfree, if_pos hreferences]

/-- A row that is not admitted is refused, with a unique violation only where a value is taken. -/
theorem insert_refused (h : ¬ Admitted plan σ k v) :
    ∃ e, (insert k v).execute exec (outage plan) σ = (.error e, σ.failed) ∧
      (e = .uniqueViolation → k ∈ (σ.writes ++ σ.db).keys ∨
        distinct k v (σ.writes ++ σ.db) = false) ∧ e ≠ onboardingConflict := by
  cases hplan : plan σ.step with
  | some name =>
      exact ⟨.unavailable name, execute_sql_planned (outage_some hplan), nofun, nofun⟩
  | none =>
      have hnone := outage_none hplan
      by_cases htaken : k ∈ (σ.writes ++ σ.db).keys ∨ distinct k v (σ.writes ++ σ.db) = false
      · exact ⟨.uniqueViolation, execute_sql_refused hnone (if_pos htaken), fun _ => htaken, nofun⟩
      · refine ⟨.check "fkey", execute_sql_refused hnone ?_, nofun, nofun⟩
        have hreferences : ¬ references k v (σ.writes ++ σ.db) = true := by
          intro hreferences
          rw [not_or, Bool.not_eq_false] at htaken
          exact h ⟨hplan, htaken.1, htaken.2, hreferences⟩
        rw [exec, if_neg htaken, if_neg hreferences]

theorem distinct_user {id : Id} {u : User} :
    distinct (.user id) u db = true ↔ ∀ i v, db.user i = some v → v.email ≠ u.email := by
  simp [distinct, List.all_eq_true]

theorem distinct_organization {id : Id} {o : Organization} :
    distinct (.organization id) o db = true ↔
      ∀ i v, db.organization i = some v → v.slug ≠ o.slug := by
  simp [distinct, List.all_eq_true]

theorem distinct_session {id : Id} {s : Session} :
    distinct (.session id) s db = true ↔
      ∀ i v, db.session i = some v → v.refreshTokenHash ≠ s.refreshTokenHash := by
  simp [distinct, List.all_eq_true]

theorem uncommitted_insert : (insert k v).Uncommitted := uncommitted_sql _

end Inserts

section FirstTransaction

variable {dto : OnboardOrganizationDto} {passwordHash : Text} {draws : Draws}
  {plan : Nat → Option String} {db : Db}

/-- The rows of the first transaction. -/
def enrolled (dto : OnboardOrganizationDto) (passwordHash : Text) (draws : Draws) : Db :=
  [⟨.membership draws.organizationId draws.userId, newMembership draws⟩,
    ⟨.organization draws.organizationId, newOrganization dto⟩,
    ⟨.user draws.userId, newUser dto passwordHash⟩]

/-- The points before the second and the third row. -/
def withUser (dto : OnboardOrganizationDto) (passwordHash : Text) (draws : Draws) (db : Db) :
    Point Val :=
  ⟨1, [⟨.user draws.userId, newUser dto passwordHash⟩], db⟩

def withOrganization (dto : OnboardOrganizationDto) (passwordHash : Text) (draws : Draws)
    (db : Db) : Point Val :=
  ⟨2, [⟨.organization draws.organizationId, newOrganization dto⟩,
    ⟨.user draws.userId, newUser dto passwordHash⟩], db⟩

theorem organization_withUser (i : Id) :
    Db.organization ((withUser dto passwordHash draws db).writes ++ db) i = db.organization i :=
  Log.row_cons_ne _ _ nofun

theorem organization_key (hfresh : draws.Fresh db) :
    Key.organization draws.organizationId ∉
      ((withUser dto passwordHash draws db).writes ++ db).keys := by
  simpa [withUser] using hfresh.organization

theorem membership_key (hfresh : draws.Fresh db) :
    Key.membership draws.organizationId draws.userId ∉
      ((withOrganization dto passwordHash draws db).writes ++ db).keys := by
  simpa [withOrganization] using hfresh.membership

theorem not_registered : ¬ Registered dto db ↔
    (∀ i v, db.user i = some v → v.email ≠ dto.email) ∧
      ∀ i v, db.organization i = some v → v.slug ≠ dto.organizationSlug := by
  simp [Registered, not_or]

theorem user_admitted (hplan : plan 0 = none) (hfresh : draws.Fresh db)
    (hfree : ¬ Registered dto db) :
    Admitted plan ⟨0, [], db⟩ (.user draws.userId) (newUser dto passwordHash) :=
  ⟨hplan, hfresh.user, distinct_user.mpr (not_registered.mp hfree).1, rfl⟩

variable (passwordHash) in
theorem organization_admitted (hplan : plan 1 = none) (hfresh : draws.Fresh db)
    (hfree : ¬ Registered dto db) :
    Admitted plan (withUser dto passwordHash draws db) (.organization draws.organizationId)
      (newOrganization dto) := by
  refine ⟨hplan, organization_key hfresh, distinct_organization.mpr fun i v hv => ?_, rfl⟩
  exact (not_registered.mp hfree).2 i v ((organization_withUser i).symm.trans hv)

theorem membership_admitted (hplan : plan 2 = none) (hfresh : draws.Fresh db) :
    Admitted plan (withOrganization dto passwordHash draws db)
      (.membership draws.organizationId draws.userId) (newMembership draws) := by
  refine ⟨hplan, membership_key hfresh, rfl, ?_⟩
  simp [references, withOrganization, Db.organization, Db.user, Log.row_cons_ne]

/-- What takes the value of the user or of the organization was registered. -/
theorem registered_of_user (hfresh : draws.Fresh db)
    (h : Key.user draws.userId ∈ db.keys ∨
      distinct (.user draws.userId) (newUser dto passwordHash) db = false) :
    Registered dto db := by
  by_contra hfree
  rcases h with hmem | hfalse
  · exact hfresh.user hmem
  · rw [distinct_user.mpr (not_registered.mp hfree).1] at hfalse
    cases hfalse

theorem registered_of_organization (hfresh : draws.Fresh db)
    (h : Key.organization draws.organizationId ∈
        ((withUser dto passwordHash draws db).writes ++ db).keys ∨
      distinct (.organization draws.organizationId) (newOrganization dto)
        ((withUser dto passwordHash draws db).writes ++ db) = false) :
    Registered dto db := by
  by_contra hfree
  rcases h with hmem | hfalse
  · exact organization_key hfresh hmem
  · have hadmitted := @organization_admitted dto passwordHash draws (fun _ => none) db rfl hfresh
      hfree
    have htrue : distinct (.organization draws.organizationId) (newOrganization dto)
        ((withUser dto passwordHash draws db).writes ++ db) = true := hadmitted.2.2.1
    rw [htrue] at hfalse
    cases hfalse

theorem uncommitted_register : (register dto passwordHash draws).Uncommitted :=
  .bind uncommitted_insert fun _ => .bind uncommitted_insert fun _ => uncommitted_insert

theorem register_ok (hplan : ∀ n < 4, plan n = none) (hfresh : draws.Fresh db)
    (hfree : ¬ Registered dto db) :
    (transaction (register dto passwordHash draws)).execute exec (outage plan) ⟨0, [], db⟩ =
      (.ok (), ⟨4, [], enrolled dto passwordHash draws ++ db⟩) := by
  have hbody : (register dto passwordHash draws).execute exec (outage plan) ⟨0, [], db⟩ =
      (.ok (), ⟨3, enrolled dto passwordHash draws, db⟩) := by
    refine (execute_bind_ok (insert_admitted
      (user_admitted (hplan 0 (by omega)) hfresh hfree))).trans ?_
    refine (execute_bind_ok (insert_admitted
      (organization_admitted passwordHash (hplan 1 (by omega)) hfresh hfree))).trans ?_
    exact insert_admitted (membership_admitted (hplan 2 (by omega)) hfresh)
  exact execute_transaction_ok hbody (outage_none (hplan 3 (by omega)))

/-- A failure of the first transaction is no conflict of its own, and a unique violation is about
the email or the slug. -/
theorem register_fails (hfresh : draws.Fresh db)
    (h : Registered dto db ∨ ∃ n < 4, plan n ≠ none) :
    ∃ e τ, (transaction (register dto passwordHash draws)).execute exec (outage plan)
        ⟨0, [], db⟩ = (.error e, τ) ∧
      (e = .uniqueViolation → Registered dto db) ∧ e ≠ onboardingConflict := by
  by_cases huser : Admitted plan ⟨0, [], db⟩ (.user draws.userId) (newUser dto passwordHash)
  · have hfirst := execute_bind_ok (f := fun _ => do
      insert (.organization draws.organizationId) (newOrganization dto)
      insert (.membership draws.organizationId draws.userId) (newMembership draws))
      (insert_admitted huser)
    by_cases horg : Admitted plan (withUser dto passwordHash draws db)
      (.organization draws.organizationId) (newOrganization dto)
    · have hsecond := hfirst.trans (execute_bind_ok (insert_admitted horg))
      by_cases hmember : plan 2 = none
      · have hbody := hsecond.trans (insert_admitted (membership_admitted hmember hfresh))
        cases hcommit : plan 3 with
        | some name =>
            exact ⟨_, _, execute_transaction_planned hbody (outage_some hcommit),
              nofun, nofun⟩
        | none =>
            exfalso
            rcases h with hregistered | ⟨n, hn, hfails⟩
            · refine not_registered.mpr ⟨distinct_user.mp huser.2.2.1, fun i v hv => ?_⟩ hregistered
              exact distinct_organization.mp horg.2.2.1 i v ((organization_withUser i).trans hv)
            · obtain rfl | rfl | rfl | rfl : n = 0 ∨ n = 1 ∨ n = 2 ∨ n = 3 := by omega
              · exact hfails huser.1
              · exact hfails horg.1
              · exact hfails hmember
              · exact hfails hcommit
      · obtain ⟨e, hrun, hreason, hother⟩ := @insert_refused plan
          (withOrganization dto passwordHash draws db)
          (.membership draws.organizationId draws.userId) (newMembership draws)
          fun hadmitted => hmember hadmitted.1
        refine ⟨e, _, execute_transaction_error (hsecond.trans hrun), fun he => ?_, hother⟩
        rcases hreason he with hmem | hfalse
        · exact absurd hmem (membership_key hfresh)
        · cases hfalse
    · obtain ⟨e, hrun, hreason, hother⟩ := insert_refused horg
      exact ⟨e, _, execute_transaction_error (hfirst.trans (execute_bind_error hrun)),
        fun he => registered_of_organization hfresh (hreason he), hother⟩
  · obtain ⟨e, hrun, hreason, hother⟩ := insert_refused huser
    exact ⟨e, _, execute_transaction_error (execute_bind_error hrun),
      fun he => registered_of_user hfresh (hreason he), hother⟩

end FirstTransaction

section SecondTransaction

variable {services : Services} {dto : OnboardOrganizationDto} {passwordHash : Text}
  {draws : Draws} {metadata : RequestMetadata} {plan : Nat → Option String} {db : Db}

/-- The point at which the first transaction is committed, and the one before the last row. -/
def afterRegister (dto : OnboardOrganizationDto) (passwordHash : Text) (draws : Draws) (db : Db) :
    Point Val :=
  ⟨4, [], enrolled dto passwordHash draws ++ db⟩

def withSession (services : Services) (dto : OnboardOrganizationDto) (passwordHash : Text)
    (draws : Draws) (metadata : RequestMetadata) (db : Db) : Point Val :=
  ⟨5, [⟨.session draws.sessionId,
    newSession services.sessions draws draws.userId draws.organizationId metadata⟩],
    enrolled dto passwordHash draws ++ db⟩

theorem session_afterRegister (i : Id) :
    Db.session (enrolled dto passwordHash draws ++ db) i = db.session i :=
  Log.row_append_of_not_mem _ (by simp [enrolled])

variable (services dto passwordHash draws metadata) in
theorem session_admitted (hfresh : draws.Fresh db) :
    Admitted plan (afterRegister dto passwordHash draws db) (.session draws.sessionId)
        (newSession services.sessions draws draws.userId draws.organizationId metadata) ↔
      plan 4 = none ∧ ∀ id s, db.session id = some s →
        s.refreshTokenHash ≠ refreshTokenHash services.sessions draws := by
  have hkey : Key.session draws.sessionId ∉ (enrolled dto passwordHash draws ++ db).keys := by
    simpa [enrolled] using hfresh.session
  have hreferences : references (.session draws.sessionId)
      (newSession services.sessions draws draws.userId draws.organizationId metadata)
      (enrolled dto passwordHash draws ++ db) = true := by
    simp [references, newSession, enrolled, Db.user, Db.organization, Log.row_cons_ne]
  constructor
  · rintro ⟨hplan, -, hdistinct, -⟩
    refine ⟨hplan, fun id s hs => ?_⟩
    exact distinct_session.mp hdistinct id s ((session_afterRegister id).trans hs)
  · rintro ⟨hplan, hunused⟩
    refine ⟨hplan, hkey, distinct_session.mpr fun id s hs => ?_, hreferences⟩
    exact hunused id s ((session_afterRegister id).symm.trans hs)

variable (services dto passwordHash draws metadata) in
theorem token_admitted :
    Admitted plan (withSession services dto passwordHash draws metadata db)
        (.token (refreshTokenHash services.sessions draws)) (newToken services.sessions draws) ↔
      plan 5 = none ∧ Key.token (refreshTokenHash services.sessions draws) ∉ db.keys := by
  have hkeys : Key.token (refreshTokenHash services.sessions draws) ∉
      ((withSession services dto passwordHash draws metadata db).writes ++
        (enrolled dto passwordHash draws ++ db)).keys ↔
      Key.token (refreshTokenHash services.sessions draws) ∉ db.keys := by
    simp [withSession, enrolled]
  constructor
  · rintro ⟨hplan, hkey, -, -⟩
    exact ⟨hplan, hkeys.mp hkey⟩
  · rintro ⟨hplan, hkey⟩
    refine ⟨hplan, hkeys.mpr hkey, rfl, ?_⟩
    simp [references, withSession, newToken, Db.session]

theorem uncommitted_createStored {cfg : Identity.Config} {userId organizationId : Id} :
    (createStored cfg draws userId organizationId metadata).Uncommitted :=
  .bind uncommitted_insert fun _ => uncommitted_insert

theorem create_ok (hfresh : draws.Fresh db) (h : SessionStarts services draws plan db) :
    ∃ τ, (create services.sessions draws draws.userId draws.organizationId metadata).execute exec
      (outage plan) (afterRegister dto passwordHash draws db) =
        (.ok (bundle services.sessions draws draws.userId draws.organizationId), τ) := by
  obtain ⟨hplan, htoken, hunused⟩ := h
  have hsession := (session_admitted services dto passwordHash draws metadata hfresh).mpr
    ⟨hplan 4 (by omega) (by omega), hunused⟩
  have hlast := (token_admitted services dto passwordHash draws metadata).mpr
    ⟨hplan 5 (by omega) (by omega), htoken⟩
  have hbody := (execute_bind_ok (f := fun _ => insert (.token (refreshTokenHash services.sessions
    draws)) (newToken services.sessions draws)) (insert_admitted hsession)).trans
      (insert_admitted hlast)
  exact ⟨_, execute_bind_ok (execute_transaction_ok hbody
    (outage_none (hplan 6 (by omega) (by omega))))⟩

/-- A failure in the session's transaction leaves what the first one committed. -/
theorem create_fails (hfresh : draws.Fresh db) (h : ¬ SessionStarts services draws plan db) :
    ∃ e τ, (create services.sessions draws draws.userId draws.organizationId metadata).execute exec
        (outage plan) (afterRegister dto passwordHash draws db) = (.error e, τ) ∧
      τ.db = enrolled dto passwordHash draws ++ db := by
  suffices hfails : ∃ e τ, (transaction (createStored services.sessions draws draws.userId
      draws.organizationId metadata)).execute exec (outage plan)
        (afterRegister dto passwordHash draws db) = (.error e, τ) by
    obtain ⟨e, τ, hrun⟩ := hfails
    exact ⟨e, τ, execute_bind_error hrun, (uncommitted_createStored.transaction_failed hrun).2⟩
  by_cases hsession : Admitted plan (afterRegister dto passwordHash draws db)
    (.session draws.sessionId)
    (newSession services.sessions draws draws.userId draws.organizationId metadata)
  · have hfirst := execute_bind_ok (f := fun _ => insert (.token (refreshTokenHash
      services.sessions draws)) (newToken services.sessions draws)) (insert_admitted hsession)
    by_cases htoken : Admitted plan (withSession services dto passwordHash draws metadata db)
      (.token (refreshTokenHash services.sessions draws)) (newToken services.sessions draws)
    · have hbody := hfirst.trans (insert_admitted htoken)
      cases hcommit : plan 6 with
      | some name => exact ⟨_, _, execute_transaction_planned hbody (outage_some hcommit)⟩
      | none =>
          exfalso
          obtain ⟨hfour, hunused⟩ :=
            (session_admitted services dto passwordHash draws metadata hfresh).mp hsession
          obtain ⟨hfive, hkey⟩ :=
            (token_admitted services dto passwordHash draws metadata).mp htoken
          refine h ⟨fun n hn hle => ?_, hkey, hunused⟩
          obtain rfl | rfl | rfl : n = 4 ∨ n = 5 ∨ n = 6 := by omega
          · exact hfour
          · exact hfive
          · exact hcommit
    · obtain ⟨e, hrun, -⟩ := insert_refused htoken
      exact ⟨e, _, execute_transaction_error (hfirst.trans hrun)⟩
  · obtain ⟨e, hrun, -⟩ := insert_refused hsession
    exact ⟨e, _, execute_transaction_error (execute_bind_error hrun)⟩

end SecondTransaction

section Calls

variable {services : Services} {dto : OnboardOrganizationDto} {request : Request}
  {passwordHash : Text} {draws : Draws} {plan : Nat → Option String} {db : Db}

/-- What is screened out does not reach the database. -/
theorem onboard_refused (h : services.exposureCount dto.password ≠ some 0 ∨
    services.hash dto.password = none) {σ : Point Val} :
    ∃ e, (onboard services dto request draws).execute exec (outage plan) σ = (.error e, σ) ∧
      e ≠ onboardingConflict := by
  unfold onboard
  cases hcount : services.exposureCount dto.password with
  | none => exact ⟨_, execute_bind_error (execute_orThrow_none rfl), nofun⟩
  | some n =>
      by_cases hzero : n = 0
      · have hhash : services.hash dto.password = none :=
          h.resolve_left (not_not_intro (hzero ▸ hcount))
        refine ⟨.raised "argon2", ?_, nofun⟩
        refine (execute_bind_ok (execute_orThrow rfl)).trans ?_
        refine (execute_bind_ok (execute_require hzero)).trans ?_
        exact execute_bind_error (execute_orThrow_none hhash)
      · refine ⟨.unprocessable "PASSWORD_COMPROMISED", ?_, nofun⟩
        refine (execute_bind_ok (execute_orThrow rfl)).trans ?_
        exact execute_bind_error (execute_require_not hzero)

variable (request draws) in
/-- A call whose password passes is the `try` block with its handler. -/
theorem onboard_passed (hcount : services.exposureCount dto.password = some 0)
    (hhash : services.hash dto.password = some passwordHash) {σ : Point Val} :
    (onboard services dto request draws).execute exec (outage plan) σ =
      (tryCatch (enroll services dto request draws passwordHash) fun e =>
        throw (handled e)).execute exec (outage plan) σ := by
  refine (execute_bind_ok (execute_orThrow hcount)).trans ?_
  refine (execute_bind_ok (execute_require rfl)).trans ?_
  exact execute_bind_ok (execute_orThrow hhash)

theorem handled_eq_conflict {e : Failure} (he : e ≠ onboardingConflict)
    (h : handled e = onboardingConflict) : e = .uniqueViolation := by
  unfold handled at h
  split at h
  · assumption
  · exact absurd h he

theorem not_stopped (h : ¬ Stopped services dto plan db) :
    services.exposureCount dto.password = some 0 ∧
      (∃ passwordHash, services.hash dto.password = some passwordHash) ∧
        ¬ Registered dto db ∧ ∀ n < 4, plan n = none := by
  unfold Stopped at h
  push Not at h
  exact ⟨h.1, Option.ne_none_iff_exists'.mp h.2.1, h.2.2⟩

/-- A call that stops leaves the database as it was. -/
theorem onboarded_stopped (hfresh : draws.Fresh db) (h : Stopped services dto plan db) :
    AllOrNothing dto db (onboarded services dto request draws plan db) := by
  by_cases hpasses : services.exposureCount dto.password = some 0 ∧
    services.hash dto.password ≠ none
  · obtain ⟨passwordHash, hhash⟩ := Option.ne_none_iff_exists'.mp hpasses.2
    have hfails : Registered dto db ∨ ∃ n < 4, plan n ≠ none := by
      rcases h with hcount | hnone | hfails
      · exact absurd hpasses.1 hcount
      · exact absurd hnone hpasses.2
      · exact hfails
    obtain ⟨e, τ, hrun, hreason, hother⟩ :=
      @register_fails dto passwordHash draws plan db hfresh hfails
    have hdb := (uncommitted_register.transaction_failed hrun).2
    have hcall : (onboard services dto request draws).execute exec (outage plan) ⟨0, [], db⟩ =
        (.error (handled e), τ) :=
      (onboard_passed request draws hpasses.1 hhash).trans
        (execute_tryCatch_error (execute_bind_error hrun))
    intro e' he'
    rw [onboarded, hcall] at he' ⊢
    cases he'
    refine ⟨fun k hk => ?_, fun hconflict => hreason (handled_eq_conflict hother hconflict)⟩
    rwa [hdb] at hk
  · have hrefused : services.exposureCount dto.password ≠ some 0 ∨
        services.hash dto.password = none := by
      rw [not_and_or, not_not] at hpasses
      exact hpasses
    obtain ⟨e, hcall, hother⟩ :=
      @onboard_refused services dto request draws plan hrefused ⟨0, [], db⟩
    intro e' he'
    rw [onboarded, hcall] at he' ⊢
    cases he'
    exact ⟨fun k hk => hk, fun hconflict => absurd hconflict hother⟩

variable (request) in
theorem enroll_registered (hplan : ∀ n < 4, plan n = none) (hfresh : draws.Fresh db)
    (hfree : ¬ Registered dto db) :
    (enroll services dto request draws passwordHash).execute exec (outage plan) ⟨0, [], db⟩ =
      ((create services.sessions draws draws.userId draws.organizationId
        (metadataFrom request)) >>= fun session => pure (AuthResult.mk session
          ⟨draws.userId, dto.email, trim dto.displayName⟩
          ⟨draws.organizationId, dto.organizationSlug, trim dto.organizationName,
            .owner⟩)).execute exec (outage plan) (afterRegister dto passwordHash draws db) :=
  execute_bind_ok (register_ok hplan hfresh hfree)

variable (request) in
/-- A call that goes through returns. -/
theorem onboarded_starts (hfresh : draws.Fresh db) (hgoes : ¬ Stopped services dto plan db)
    (h : SessionStarts services draws plan db) :
    ∃ result, (onboarded services dto request draws plan db).1 = .ok result := by
  obtain ⟨hcount, ⟨passwordHash, hhash⟩, hfree, hplan⟩ := not_stopped hgoes
  obtain ⟨τ, hcreate⟩ := @create_ok services dto passwordHash draws (metadataFrom request) plan db
    hfresh h
  have hcall := (onboard_passed request draws hcount hhash).trans (execute_tryCatch_ok
    ((enroll_registered request hplan hfresh hfree).trans (execute_bind_ok hcreate)))
  rw [onboarded, hcall]
  exact ⟨_, rfl⟩

variable (request) in
/-- A call whose session fails throws, and leaves the user, the organization and the
membership. -/
theorem onboarded_strands (hfresh : draws.Fresh db) (hgoes : ¬ Stopped services dto plan db)
    (h : ¬ SessionStarts services draws plan db) :
    ∃ e passwordHash, onboarded services dto request draws plan db =
      (.error e, enrolled dto passwordHash draws ++ db) := by
  obtain ⟨hcount, ⟨passwordHash, hhash⟩, hfree, hplan⟩ := not_stopped hgoes
  obtain ⟨e, τ, hcreate, hdb⟩ := @create_fails services dto passwordHash draws
    (metadataFrom request) plan db hfresh h
  have hcall := (onboard_passed request draws hcount hhash).trans (execute_tryCatch_error
    ((enroll_registered request hplan hfresh hfree).trans
      (execute_bind_error hcreate)))
  refine ⟨handled e, passwordHash, ?_⟩
  rw [onboarded, hcall, ← hdb]
  rfl

/-- The call is all or nothing exactly when it stops in time or its session starts. -/
theorem all_or_nothing_iff (services : Services) (dto : OnboardOrganizationDto)
    (request : Request) (draws : Draws) (plan : Nat → Option String) (db : Db)
    (hfresh : draws.Fresh db) :
    AllOrNothing dto db (onboarded services dto request draws plan db) ↔
      Stopped services dto plan db ∨ SessionStarts services draws plan db := by
  constructor
  · intro hall
    by_contra hneither
    rw [not_or] at hneither
    obtain ⟨e, passwordHash, houtcome⟩ := onboarded_strands request hfresh
      hneither.1 hneither.2
    rw [houtcome] at hall
    have hmem : Key.user draws.userId ∈ (enrolled dto passwordHash draws ++ db).keys := by
      simp [enrolled]
    exact hfresh.user ((hall e rfl).1 _ hmem)
  · intro h
    by_cases hstop : Stopped services dto plan db
    · exact onboarded_stopped hfresh hstop
    · obtain ⟨result, hok⟩ := onboarded_starts request hfresh hstop
        (h.resolve_left hstop)
      intro e he
      rw [hok] at he
      cases he

/-- A refresh-token hash that is in use is reported as a conflict of the email or the slug. -/
theorem onboarded_blames (hfresh : draws.Fresh db) (hgoes : ¬ Stopped services dto plan db)
    (hplan : plan 4 = none) {id : Id} {s : Session} (hs : db.session id = some s)
    (hused : s.refreshTokenHash = refreshTokenHash services.sessions draws) :
    (onboarded services dto request draws plan db).1 = .error onboardingConflict ∧
      ¬ Registered dto db := by
  obtain ⟨hcount, ⟨passwordHash, hhash⟩, hfree, hfirst⟩ := not_stopped hgoes
  have hrefused : (insert (.session draws.sessionId) (newSession services.sessions draws
      draws.userId draws.organizationId (metadataFrom request))).execute exec (outage plan)
        (afterRegister dto passwordHash draws db) = (.error .uniqueViolation,
          (afterRegister dto passwordHash draws db).failed) := by
    refine execute_sql_refused (outage_none hplan) (if_pos (.inr ?_))
    rw [← Bool.not_eq_true]
    exact fun hdistinct => distinct_session.mp hdistinct id s
      ((session_afterRegister id).trans hs) hused
  have hcall := (onboard_passed request draws hcount hhash).trans (execute_tryCatch_error
    ((enroll_registered request hfirst hfresh hfree).trans
      (execute_bind_error (execute_bind_error (execute_transaction_error
        (execute_bind_error hrefused))))))
  refine ⟨?_, hfree⟩
  rw [onboarded, hcall]
  rfl

/-- The same call, made again after its session failed, is refused as a conflict. -/
theorem retry_conflicts {draws' : Draws} {request' : Request} (hfresh : draws.Fresh db)
    (hgoes : ¬ Stopped services dto plan db) (h : ¬ SessionStarts services draws plan db) :
    onboarded services dto request' draws' (fun _ => none)
        (onboarded services dto request draws plan db).2 =
      (.error onboardingConflict, (onboarded services dto request draws plan db).2) := by
  obtain ⟨hcount, ⟨passwordHash', hhash⟩, -⟩ := not_stopped hgoes
  obtain ⟨e, passwordHash, houtcome⟩ := onboarded_strands request hfresh hgoes h
  rw [houtcome]
  have huser : Db.user (enrolled dto passwordHash draws ++ db) draws.userId =
      some (newUser dto passwordHash) := by
    simp [enrolled, Db.user, Log.row_cons_ne]
  have hrefused : (insert (.user draws'.userId) (newUser dto passwordHash')).execute exec
      (outage fun _ => none) ⟨0, [], enrolled dto passwordHash draws ++ db⟩ =
        (.error .uniqueViolation, ⟨1, [], enrolled dto passwordHash draws ++ db⟩) := by
    refine execute_sql_refused (outage_none rfl) (if_pos (.inr ?_))
    rw [← Bool.not_eq_true]
    exact fun hdistinct => distinct_user.mp hdistinct draws.userId _ huser rfl
  have hcall := (onboard_passed request' draws' hcount hhash).trans
    (execute_tryCatch_error (execute_bind_error (execute_transaction_error
      (execute_bind_error hrefused))))
  rw [onboarded, hcall]
  rfl

/-- What is computed is a call that is made while nothing else moves. -/
theorem onboarded_completes (services : Services) (dto : OnboardOrganizationDto)
    (request : Request) (draws : Draws) (plan : Nat → Option String) (db : Db) :
    (onboard services dto request draws).Completes exec.engine
      (fun e => ∃ n, outage plan n = some e) [] db
      (onboarded services dto request draws plan db).1
      (onboarded services dto request draws plan db).2 :=
  execute_completes (σ := ⟨0, [], db⟩) _

end Calls

section Sample

/-- Tokens are their own hashes, and every password passes. -/
def sampleServices : Services where
  sessions := {
    accessTtlMilliseconds := 900000
    refreshTtlMilliseconds := 2592000000
    hashOpaqueToken := fun token => token
    signAccessToken := fun payload =>
      [payload.sessionId, payload.userId, payload.organizationId, payload.expiresAt].map Char.ofNat
    openAccessToken := fun _ => none
    verifyRegistrationResponse := fun _ _ => none
    verifyAuthenticationResponse := fun _ _ _ _ _ => none }
  exposureCount := fun _ => some 0
  hash := fun password => some ("$argon2id$".toList ++ password)

def sampleDto : OnboardOrganizationDto where
  organizationName := "Bloc 7".toList
  organizationSlug := "bloc-7".toList
  displayName := "Ana".toList
  email := "ana@bloc.md".toList
  password := "correct horse".toList

def sampleRequest : Request := ⟨none, some "10.0.0.7".toList⟩

def sampleDraws : Draws where
  userId := 1
  organizationId := 2
  membershipId := 3
  sessionId := 4
  tokenFamilyId := 5
  refreshToken := 6
  csrfToken := 7
  now := 1000
  createdAt := 1000
  bundledAt := 1000

theorem sampleDraws_fresh : sampleDraws.Fresh [] :=
  ⟨List.not_mem_nil, List.not_mem_nil, List.not_mem_nil, List.not_mem_nil⟩

/-- The insert of the session fails. -/
def sessionOutage (n : Nat) : Option String := if n = 4 then some "P1001" else none

/-- The user, the organization and the membership stay behind. -/
theorem session_outage_strands :
    ¬ AllOrNothing sampleDto []
      (onboarded sampleServices sampleDto sampleRequest sampleDraws sessionOutage []) := by
  intro hall
  exact absurd ((hall (.unavailable "P1001") rfl).1 (.user 1) (by decide)) List.not_mem_nil

/-- The insert of the membership fails. -/
def membershipOutage (n : Nat) : Option String := if n = 2 then some "P1001" else none

/-- The email belongs to a user. -/
def knownDb : Db := [⟨.user 9, newUser sampleDto "$argon2id$other".toList⟩]

theorem sampleDraws_fresh_known : sampleDraws.Fresh knownDb :=
  ⟨by decide, by decide, by decide, by decide⟩

/-- A call whose third insert fails throws and leaves no row, and a call for an email that is
registered is refused as a conflict and adds none. -/
theorem failed_onboarding_leaves_nothing :
    ((onboarded sampleServices sampleDto sampleRequest sampleDraws membershipOutage []).1 =
        .error (.unavailable "P1001") ∧
      (onboarded sampleServices sampleDto sampleRequest sampleDraws membershipOutage []).2.keys =
        []) ∧
    (onboarded sampleServices sampleDto sampleRequest sampleDraws (fun _ => none) knownDb).1 =
        .error onboardingConflict ∧
      (∀ k ∈ (onboarded sampleServices sampleDto sampleRequest sampleDraws (fun _ => none)
        knownDb).2.keys, k = .user 9) ∧
      Registered sampleDto knownDb := by
  have hfails := (all_or_nothing_iff sampleServices sampleDto sampleRequest sampleDraws
    membershipOutage [] sampleDraws_fresh).mpr
      (.inl (.inr (.inr (.inr ⟨2, by decide, by decide⟩)))) (.unavailable "P1001") rfl
  have hknown := (all_or_nothing_iff sampleServices sampleDto sampleRequest sampleDraws
    (fun _ => none) knownDb sampleDraws_fresh_known).mpr
      (.inl (.inr (.inr (.inl (.inl ⟨9, _, rfl, rfl⟩))))) onboardingConflict rfl
  exact ⟨⟨rfl, List.eq_nil_iff_forall_not_mem.mpr fun k hk => List.not_mem_nil (hfails.1 k hk)⟩,
    rfl, fun k hk => List.mem_singleton.mp (hknown.1 k hk), hknown.2 rfl⟩

end Sample

end BlocTrust.Onboarding
