import BlocTrust.Encodings
import BlocTrust.Http.Cookies
import Mathlib.Tactic.Common

/-!
`CsrfService.assertRequest` and the two places that take a session from a cookie.
The guard looks for a session with `access ?? refresh`, the session guard and the refresh
endpoint with a test for truth; an empty access cookie hides the refresh cookie from the guard.
-/
namespace BlocTrust.Http

/-- A method as the HTTP parser hands it over. -/
structure Method where
  name : Text
  upperCase : ∀ c ∈ name, c.isUpper ∨ c = '-'

inductive HeaderValue
  | absent
  | single (value : Text)
  | several (values : List Text)
  deriving DecidableEq, Repr

structure Request where
  method : Method
  origin : Option Text
  cookie : Option Text
  csrfToken : HeaderValue

namespace CsrfService

def safeMethods : List Text := ["GET".toList, "HEAD".toList, "OPTIONS".toList]

/-- `toUpperCase` of the letters that a method has. -/
def toUpperCase (t : Text) : Text := t.map Char.toUpper

/-- `replace(/\/$/u, '')` -/
def withoutSlash (t : Text) : Text := if t.getLast? = some '/' then t.dropLast else t

def trustedOrigins (env : Environment) : List Text :=
  (((env.trustedOrigins.getD "http://localhost:3000".toList).splitOn ',').map fun value =>
    withoutSlash (trim value)).filter (· ≠ [])

def assertTrustedOrigin (env : Environment) (origin : Option Text) : Except Failure Unit :=
  match present origin with
  | none => .error (.forbidden "ORIGIN_NOT_TRUSTED")
  | some origin =>
      if withoutSlash origin ∈ trustedOrigins env then .ok ()
      else .error (.forbidden "ORIGIN_NOT_TRUSTED")

def headerToken : HeaderValue → Option Text
  | .absent => none
  | .single value => some value
  | .several values => values.head?

/-- `timingSafeEqual` compares the bytes of two buffers of one length. -/
def equal (left right : Text) : Bool :=
  (utf8 left).length == (utf8 right).length && utf8 left == utf8 right

def assertToken (cookieToken headerToken : Option Text) : Except Failure Unit :=
  match present cookieToken, present headerToken with
  | some cookieToken, some headerToken =>
      if equal cookieToken headerToken then .ok () else .error (.forbidden "CSRF_INVALID")
  | _, _ => .error (.forbidden "CSRF_INVALID")

/-- `Boolean(cookies[cookieNames.access] ?? cookies[cookieNames.refresh])` -/
def isCookieAuthenticated (env : Environment) (cookies : Cookies) : Bool :=
  (present (cookies (cookieNames env).access <|> cookies (cookieNames env).refresh)).isSome

def assertRequest (env : Environment) (request : Request) : Except Failure Unit :=
  if toUpperCase request.method.name ∈ safeMethods then .ok ()
  else do
    assertTrustedOrigin env request.origin
    let cookies := readCookies request.cookie
    if isCookieAuthenticated env cookies then
      assertToken (cookies (cookieNames env).csrf) (headerToken request.csrfToken)

end CsrfService

/-- The token that `SessionAuthGuard` authenticates. -/
def accessToken (env : Environment) (request : Request) : Option Text :=
  present (readCookies request.cookie (cookieNames env).access)

/-- The token that `AuthController.refresh` rotates. -/
def refreshToken (env : Environment) (request : Request) : Option Text :=
  present (readCookies request.cookie (cookieNames env).refresh)

open CsrfService

variable (env : Environment)

def Method.Mutates (method : Method) : Prop := method.name ∉ safeMethods

/-- A session guard or the refresh endpoint would use one of the cookies. -/
def Request.Authenticates (request : Request) : Prop :=
  (accessToken env request).isSome ∨ (refreshToken env request).isSome

/-- The origin is trusted, and the CSRF cookie is not empty and equal to the header. -/
structure Request.Verified (request : Request) : Prop where
  origin : ∃ origin, request.origin = some origin ∧ withoutSlash origin ∈ trustedOrigins env
  token : ∃ token, readCookies request.cookie (cookieNames env).csrf = some token ∧
    token ≠ [] ∧ headerToken request.csrfToken = some token

def Request.Protected (request : Request) : Prop :=
  request.method.Mutates → request.Authenticates env → assertRequest env request = .ok () →
    request.Verified env

section Checks

variable {env} {request : Request}

theorem toUpper_of_isUpper {c : Char} (h : c.isUpper = true) : c.toUpper = c := by
  have hle : c.val ≤ 'Z'.val := by
    have hrange : 'A'.val ≤ c.val ∧ c.val ≤ 'Z'.val := of_decide_eq_true h
    exact hrange.2
  unfold Char.toUpper
  by_cases hlower : 'a'.val ≤ c.val ∧ c.val ≤ 'z'.val
  · exact absurd (UInt32.le_trans hlower.1 hle) (by decide)
  · exact dif_neg hlower

theorem toUpperCase_name (method : Method) : toUpperCase method.name = method.name := by
  unfold toUpperCase
  have hsame : ∀ c ∈ method.name, c.toUpper = id c := by
    intro c hc
    rcases method.upperCase c hc with hupper | rfl
    · exact toUpper_of_isUpper hupper
    · rfl
  rw [List.map_congr_left hsame, List.map_id]

@[simp] theorem equal_iff {left right : Text} : equal left right = true ↔ left = right := by
  constructor
  · intro h
    simp only [equal, Bool.and_eq_true, beq_iff_eq] at h
    exact utf8_injective h.2
  · rintro rfl
    simp [equal]

theorem ne_nil_of_trusted {origin : Text} (h : origin ∈ trustedOrigins env) : origin ≠ [] := by
  simpa using (List.mem_filter.mp h).2

theorem assertTrustedOrigin_ok {origin : Option Text} :
    assertTrustedOrigin env origin = .ok () ↔
      ∃ value, origin = some value ∧ withoutSlash value ∈ trustedOrigins env := by
  unfold assertTrustedOrigin
  constructor
  · intro h
    split at h
    · cases h
    · rename_i value hvalue
      by_cases htrusted : withoutSlash value ∈ trustedOrigins env
      · exact ⟨value, (present_eq_some.mp hvalue).1, htrusted⟩
      · rw [if_neg htrusted] at h
        cases h
  · rintro ⟨value, rfl, htrusted⟩
    have hne : value ≠ [] := by
      rintro rfl
      exact ne_nil_of_trusted htrusted rfl
    rw [present_eq_some.mpr ⟨rfl, hne⟩]
    exact if_pos htrusted

theorem assertToken_ok {cookieToken headerToken : Option Text} :
    assertToken cookieToken headerToken = .ok () ↔
      ∃ token, cookieToken = some token ∧ token ≠ [] ∧ headerToken = some token := by
  unfold assertToken
  constructor
  · intro h
    split at h
    · rename_i cookie header hcookie hheader
      by_cases heq : equal cookie header = true
      · rw [equal_iff] at heq
        subst heq
        obtain ⟨hcookie, hne⟩ := present_eq_some.mp hcookie
        exact ⟨cookie, hcookie, hne, (present_eq_some.mp hheader).1⟩
      · rw [if_neg heq] at h
        cases h
    · cases h
  · rintro ⟨token, rfl, hne, rfl⟩
    have htoken : present (some token) = some token := present_eq_some.mpr ⟨rfl, hne⟩
    rw [htoken]
    exact if_pos (equal_iff.mpr rfl)

/-- What the guard checks of a request that is no safe one. -/
theorem assertRequest_ok (hmutates : request.method.Mutates) : assertRequest env request = .ok () ↔
    (∃ origin, request.origin = some origin ∧ withoutSlash origin ∈ trustedOrigins env) ∧
      (isCookieAuthenticated env (readCookies request.cookie) = true →
        ∃ token, readCookies request.cookie (cookieNames env).csrf = some token ∧
          token ≠ [] ∧ headerToken request.csrfToken = some token) := by
  have hunsafe : toUpperCase request.method.name ∉ safeMethods := by
    rw [toUpperCase_name]
    exact hmutates
  rw [← assertTrustedOrigin_ok, ← assertToken_ok]
  unfold assertRequest
  rw [if_neg hunsafe]
  cases assertTrustedOrigin env request.origin with
  | error failure =>
      constructor
      · intro h
        cases h
      · intro h
        cases h.1
  | ok _ =>
      by_cases hcookie : isCookieAuthenticated env (readCookies request.cookie) = true
      · show (if _ then _ else _) = _ ↔ _
        rw [if_pos hcookie]
        simp [hcookie]
      · show (if _ then _ else _) = _ ↔ _
        rw [if_neg hcookie]
        simp [hcookie]
        rfl

end Checks

section Protection

/-- A present but empty access cookie stands before a refresh cookie. -/
structure HidesRefresh (cookies : Cookies) : Prop where
  access : cookies (cookieNames env).access = some []
  refresh : (present (cookies (cookieNames env).refresh)).isSome

variable {env} {request : Request}

/-- The guard misses the cookies that the endpoints use in one case only. -/
theorem authenticates_cases (h : request.Authenticates env) :
    isCookieAuthenticated env (readCookies request.cookie) = true ∨
      HidesRefresh env (readCookies request.cookie) := by
  unfold isCookieAuthenticated
  cases haccess : readCookies request.cookie (cookieNames env).access with
  | none =>
      left
      rcases h with h | h
      · simp [accessToken, haccess] at h
        cases h
      · exact h
  | some access =>
      by_cases hempty : access = []
      · subst hempty
        right
        rcases h with h | h
        · simp [accessToken, haccess, present] at h
        · exact ⟨haccess, h⟩
      · left
        show (present (some access)).isSome = true
        rw [present_eq_some.mpr ⟨rfl, hempty⟩]
        rfl

theorem HidesRefresh.not_authenticated {cookies : Cookies} (h : HidesRefresh env cookies) :
    isCookieAuthenticated env cookies = false := by
  unfold isCookieAuthenticated
  rw [h.access]
  rfl

theorem trusted_slash {origin : Text} (h : origin ∈ trustedOrigins env) :
    withoutSlash (origin ++ ['/']) ∈ trustedOrigins env := by
  have hstripped : withoutSlash (origin ++ ['/']) = origin := by simp [withoutSlash]
  rw [hstripped]
  exact h

end Protection

/-- Requests with a `Cookie` header are protected whatever else they carry, unless the header
hides the refresh cookie from the guard and the request can come from a trusted origin. -/
theorem csrf_protection (method : Method) (cookie : Option Text) :
    (∀ origin csrfToken, Request.Protected env ⟨method, origin, cookie, csrfToken⟩) ↔
      ¬ (method.Mutates ∧ trustedOrigins env ≠ [] ∧
        HidesRefresh env (readCookies cookie)) := by
  constructor
  · rintro hprotected ⟨hmutates, htrusted, hhidden⟩
    obtain ⟨origin, horigin⟩ := List.exists_mem_of_ne_nil _ htrusted
    have hok : assertRequest env ⟨method, some (origin ++ ['/']), cookie, .absent⟩ = .ok () := by
      refine (assertRequest_ok hmutates).mpr
        ⟨⟨_, rfl, trusted_slash horigin⟩, fun h => ?_⟩
      rw [hhidden.not_authenticated] at h
      cases h
    obtain ⟨token, -, -, hheader⟩ :=
      (hprotected (some (origin ++ ['/'])) .absent hmutates (.inr hhidden.refresh) hok).token
    cases hheader
  · intro hcondition origin csrfToken hmutates hauth hok
    obtain ⟨⟨value, horigin, htrusted⟩, htoken⟩ := (assertRequest_ok hmutates).mp hok
    rcases authenticates_cases hauth with hseen | hhidden
    · exact ⟨⟨value, horigin, htrusted⟩, htoken hseen⟩
    · exact absurd ⟨hmutates, List.ne_nil_of_mem htrusted, hhidden⟩ hcondition

section Sample

def post : Method where
  name := "POST".toList
  upperCase := by
    have hall : "POST".toList.all (fun c => c.isUpper || c == '-') = true := by decide +kernel
    intro c hc
    simpa using List.all_eq_true.mp hall c hc

def developmentEnv : Environment := ⟨none, none, none⟩

/-- A refresh request without a CSRF token, behind an empty access cookie. -/
def hiddenRefresh : Request where
  method := post
  origin := some "http://localhost:3000".toList
  cookie := some "bt_access=; bt_refresh=secret".toList
  csrfToken := .absent

theorem hidden_refresh : refreshToken developmentEnv hiddenRefresh = some "secret".toList ∧
    assertRequest developmentEnv hiddenRefresh = .ok () ∧
    ¬ hiddenRefresh.Protected developmentEnv := by
  have htoken : refreshToken developmentEnv hiddenRefresh = some "secret".toList := by
    decide +kernel
  have hok : assertRequest developmentEnv hiddenRefresh = .ok () := by decide +kernel
  refine ⟨htoken, hok, fun hprotected => ?_⟩
  have hauth : hiddenRefresh.Authenticates developmentEnv := by
    right
    rw [htoken]
    rfl
  obtain ⟨token, -, -, hheader⟩ := (hprotected (by unfold Method.Mutates; decide) hauth hok).token
  cases hheader

end Sample

end BlocTrust.Http
