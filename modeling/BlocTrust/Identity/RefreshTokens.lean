import BlocTrust.Identity.Endings
import BlocTrust.Identity.Revocation

/-!
Refresh tokens are consumed once, and a replay or a revocation closes the family.
A call that begins later reads the session of the family as revoked, so it neither rotates nor
authenticates.
-/
namespace BlocTrust.Identity

open ReadCommitted Tables Log

variable {cfg : Config}

section Later

variable {db : Db} {p : Process} {id : Id} {x : Session}

/-- What the calls that begin after a session was committed find out about it. -/
def Since (id : Id) (x : Session) : Sigma Out → Db → Prop
  | ⟨.read (.findSession id'), found⟩, _ => id' = id → ∃ y, found = some y ∧ SessionKept x y
  | ⟨.read (.unrevokedSessions scope), _⟩, db => scope.covers x = true →
      ∃ y, db.session id = some y ∧ y.revokedAt ≠ none
  | ⟨.update (.token hash) (.consumed _), n⟩, db => n = (1 : Nat) → x.revokedAt ≠ none →
      ∃ t, db.token hash = some t ∧ t.sessionId ≠ id
  | _, _ => True

theorem Since.later {c : Sigma Out} {db' : Db} (hc : Chain Legal db') (hs : db <:+ db')
    (h : Since id x c db) : Since id x c db' := by
  have hcarries := carries_of_suffix hc hs
  unfold Since at h ⊢
  split
  · exact h
  · intro hcovers
    obtain ⟨y, hy, hrevoked⟩ := h hcovers
    obtain ⟨z, hz, hkept⟩ := hcarries.session hy
    exact ⟨z, hz, hkept.revokedAt hrevoked⟩
  · intro hn hrevoked
    obtain ⟨t, ht, hne⟩ := h hn hrevoked
    obtain ⟨u, hu, hkept⟩ := hcarries.token ht
    exact ⟨u, hu, hkept.sessionId ▸ hne⟩
  · trivial

variable {older newer : List (Event Val Out)} {rows base : Db}

theorem covers_kept {scope : Scope} {y : Session} (h : SessionKept x y) :
    scope.covers y = scope.covers x := by
  cases scope with
  | family familyId => simp only [Scope.covers, h.tokenFamilyId]
  | user userId => simp only [Scope.covers, h.userId]

/-- A session is looked up in the committed log. -/
theorem findSession_base (h : ProcOk (machine cfg) (conduct cfg) Legal db p) {found : Option Session}
    (hx : Executed tables client (conduct cfg) p (.read (.findSession id)) found newer older rows
      base) : found = Db.session base id := by
  obtain ⟨⟨choice, hanswer⟩, -⟩ := hx.ran.answer
  have hwrites : writes older = [] := silent_writes setup h hx.current hx.before.2.1
  rw [hwrites] at hanswer
  exact (Option.some.inj hanswer).symm

theorem since_commit {start : Db} (h : ProcOk (machine cfg) (conduct cfg) Legal db p) {next}
    (hq : p.prog = .commit next) (hx : start.session id = some x)
    (hbases : ∀ e ∈ p.current, start <:+ e.base) :
    ∀ e ∈ p.current, Since id x e.call (p.writes ++ db) := by
  have hlater : ∀ e ∈ p.current, ∃ y, Db.session e.base id = some y ∧ SessionKept x y := by
    intro e he
    have hchain : Chain Legal e.base := h.view.of_append.of_suffix (h.bases he)
    exact (carries_of_suffix hchain (hbases e he)).session hx
  have hfound : ∀ newer older rows base found, Executed tables client (conduct cfg) p
      (.read (.findSession id)) found newer older rows base → ∃ y, found = some y ∧
        SessionKept x y := by
    intro newer older rows base found hexec
    obtain ⟨y, hy, hkept⟩ := hlater _ hexec.mem
    exact ⟨y, (findSession_base h hexec).trans hy, hkept⟩
  intro e he
  obtain ⟨newer, older, hcur⟩ := List.append_of_mem he
  have hexec := executed_of_split setup h hcur
  obtain ⟨s, out, rows, base⟩ := e
  show Since id x ⟨s, out⟩ (p.writes ++ db)
  unfold Since
  split
  · rename_i id' found heq
    cases heq
    rintro rfl
    exact hfound _ _ _ _ _ hexec
  · rename_i scope ids heq
    cases heq
    intro hcovers
    obtain ⟨y, hy, hkept⟩ := hlater _ he
    exact scan_revokes h (due_of_commit h hq) hexec hy ((covers_kept hkept).trans hcovers)
  · rename_i hash now n heq
    cases heq
    intro hn hrevoked
    obtain ⟨⟨t, s, hpresented⟩, -⟩ := hexec.before.2
    obtain ⟨mid, older', rows', base', hold, htoken⟩ :=
      Executed.earlier setup h hexec hpresented.token
    obtain ⟨u, hu, hkept⟩ := seen_commit h htoken.mem
    refine ⟨u, hu, ?_⟩
    rw [hkept.sessionId]
    intro hsame
    obtain ⟨mid, older', rows', base', hold, hsession⟩ :=
      Executed.earlier setup h hexec hpresented.session
    rw [hsame] at hsession
    obtain ⟨y, heq, hkept⟩ := hfound _ _ _ _ _ hsession
    cases heq
    exact hkept.revokedAt hrevoked hpresented.unrevoked
  · trivial

end Later

section Account

variable {db : Db} {p : Process}

/-- A scan of a family that was committed has left its session revoked. -/
def Closes : Stmt → Db → Prop
  | .read (.unrevokedSessions (.family familyId)), db => ∃ id x, db.session id = some x ∧
      x.tokenFamilyId = familyId ∧ x.revokedAt ≠ none
  | _, _ => True

theorem Closes.later {s : Stmt} {db' : Db} (hc : Chain Legal db') (hs : db <:+ db')
    (h : Closes s db) : Closes s db' := by
  unfold Closes at h ⊢
  split
  · obtain ⟨id, x, hx, hfamily, hrevoked⟩ := h
    obtain ⟨y, hy, hkept⟩ := (carries_of_suffix hc hs).session hx
    exact ⟨id, y, hy, hkept.tokenFamilyId.trans hfamily, hkept.revokedAt hrevoked⟩
  · trivial

def families : Account Val Out Op where
  inv := Families
  rel := NewFamilies
  fact _ c db := Seen c.1 c.2 db ∧ Closes c.1 db

variable {older newer : List (Event Val Out)} {rows base : Db}

theorem closes_commit (h : ProcOk (machine cfg) (conduct cfg) Legal db p) {next}
    (hq : p.prog = .commit next) (hobs : families.Observed db p) {e : Event Val Out}
    (he : e ∈ p.current) : Closes e.stmt (p.writes ++ db) := by
  obtain ⟨newer, older, hcur⟩ := List.append_of_mem he
  have hexec := executed_of_split setup h hcur
  obtain ⟨s, out, rows, base⟩ := e
  show Closes s (p.writes ++ db)
  unfold Closes
  split
  · rename_i familyId
    have hdue := due_of_commit h hq
    obtain ⟨hrevokes, -⟩ := hexec.before.2
    have hsession := scan_family h hexec fun sessionId x hsaw => (hobs.known _ he _ hsaw).1
    obtain ⟨id, x, hx, hfamily⟩ := hsession
    obtain ⟨y, hy, hrevoked⟩ := scan_revokes h hdue hexec hx (decide_eq_true hfamily)
    have hview : Db.session (writes older ++ base) id = some x := by
      rw [scan_base h hexec]
      exact hx
    obtain ⟨z, hz, hkept⟩ := (carries_commit h hexec).session hview
    cases hy.symm.trans hz
    exact ⟨id, y, hy, hkept.tokenFamilyId.trans hfamily, hrevoked⟩
  · trivial

variable {s₀ s : System}

theorem families_sound : families.Sound (machine cfg) (conduct cfg) Legal interrupted s₀ where
  refl := NewFamilies.refl
  trans _ _ _ h h' := h.trans h'
  keep _ _ _ _ hs hc _ h := ⟨h.1.carried (carries_of_suffix hc hs), h.2.later hc hs⟩
  commit _ _ _ _ _ _ hq h hobs hinv :=
    ⟨families_commit h hinv, newFamilies_commit h, fun _ he =>
      ⟨seen_commit h he, closes_commit h hq hobs he⟩⟩
  external _ _ hc hout hinv := ⟨families_outside hout hinv, newFamilies_outside hc hout⟩

end Account

section Results

variable {s₀ s₁ s t : System} {i : Nat} {p : Process}

/-- A change that consumes a refresh token. -/
def Consumes : (k : Key) → Change k → Prop
  | .token _, .consumed _ => True
  | _, _ => False

def Used : (k : Key) → Val k → Prop
  | .token _, t => t.usedAt ≠ none
  | _, _ => False

theorem consumes_once : Once tables Consumes Used where
  key k c h := by
    cases k with
    | token hash => rfl
    | _ => exact h.elim
  marks k c v h := by
    cases k with
    | token hash =>
        cases c with
        | consumed now => exact Option.some_ne_none now
        | revoked now => exact h.elim
    | _ => exact h.elim
  stays k old new h hlegal := by
    cases k with
    | token hash => exact TokenKept.usedAt (persists.legal _ _ _ hlegal) h
    | _ => exact h.elim
  blocks k c v h hused := by
    cases k with
    | token hash =>
        cases c with
        | consumed now => exact decide_eq_false fun hfree => hused hfree.1
        | revoked now => exact h.elim
    | _ => exact h.elim

/-- The call has not begun its work. -/
def Unbegun (s : System) (i : Nat) : Prop :=
  ∀ p, s.procs[i]? = some p → p.past = [] ∧ p.current = []

/-- A call that has ended after it revoked a family: a rotation that reported a replay, or a
revocation of a session of the family that was there before it began. -/
inductive Closed (cfg : Config) (s₁ s : System) (p : Process) (familyId : Id) : Prop
  | replayed (refreshToken : Nat) (metadata : RequestMetadata) (t : SessionRefreshToken)
      (x : Session) (hop : p.op = .rotate refreshToken metadata)
      (hprog : p.prog = .fail (.unauthorized "REFRESH_TOKEN_REUSED"))
      (ht : Db.token s.db (cfg.hashOpaqueToken refreshToken) = some t)
      (hx : Db.session s.db t.sessionId = some x) (hfamily : x.tokenFamilyId = familyId)
  | revoked (sessionId : Id) (x : Session) (r : Response) (hop : p.op = .revoke sessionId)
      (hprog : p.prog = .ret r) (hx : Db.session s₁.db sessionId = some x)
      (hfamily : x.tokenFamilyId = familyId)
  | revokedAll (userId id : Id) (x : Session) (r : Response) (hop : p.op = .revokeAll userId)
      (hprog : p.prog = .ret r) (hx : Db.session s₁.db id = some x) (huser : x.userId = userId)
      (hfamily : x.tokenFamilyId = familyId)

/-- A rotation of a refresh token of the family, or an authentication by one of its access
tokens. -/
inductive Uses (cfg : Config) (db : Db) (familyId : Id) : Op → Prop
  | rotate (refreshToken : Nat) (metadata : RequestMetadata) (t : SessionRefreshToken)
      (x : Session) (ht : db.token (cfg.hashOpaqueToken refreshToken) = some t)
      (hx : db.session t.sessionId = some x) (hfamily : x.tokenFamilyId = familyId) :
      Uses cfg db familyId (.rotate refreshToken metadata)
  | access (op : Op) (accessToken : Text) (payload : AccessTokenPayload) (x : Session)
      (hop : op.accessToken = some accessToken)
      (hpayload : cfg.openAccessToken accessToken = some payload)
      (hx : db.session payload.sessionId = some x) (hfamily : x.tokenFamilyId = familyId) :
      Uses cfg db familyId op

theorem ended (h₀ : Idle Legal s₀) (h : Run (machine cfg) interrupted s₀ s)
    (hp : s.procs[i]? = some p) : p.prog.ends Failure.database (fun _ past _ => Returned cfg p.op past)
      (fun e past _ => Reported cfg p.op e past) p.past p.calls :=
  h.ending (Q := fun op _ past _ => Returned cfg op past)
    (F := fun op e past _ => Reported cfg op e past) faults
    (fun _ _ _ he heq => absurd heq he.ne_replayed) program_ends h₀.procs i p hp

theorem since (h₀ : Idle Legal s₀) (h : Run (machine cfg) interrupted s₀ s)
    (hst : Run (machine cfg) interrupted s t) {id : Id} {x : Session}
    (hx : Db.session s.db id = some x) (hbegun : Unbegun s i) (hp : t.procs[i]? = some p) :
    ∀ c ∈ p.past, Since id x c t.db :=
  hst.since (P := fun _ c db => Since id x c db) discipline
    (Run.consistent discipline h₀.consistent h) (fun _ _ _ _ hs hc hsince => hsince.later hc hs)
    (fun _ _ _ _ _ _ hq hok hbases => since_commit hok hq hx hbases) hbegun hp

/-- A call that begins when a session is revoked neither rotates one of its tokens nor
authenticates. -/
theorem revoked_excludes (h₀ : Idle Legal s₀) (h : Run (machine cfg) interrupted s₀ s)
    (hst : Run (machine cfg) interrupted s t) {id : Id} {x : Session}
    (hx : Db.session s.db id = some x) (hrevoked : x.revokedAt ≠ none) (hbegun : Unbegun s i)
    (hp : t.procs[i]? = some p) {r : Response} (hprog : p.prog = .ret r) :
    (∀ refreshToken metadata u, p.op = .rotate refreshToken metadata →
        Db.token t.db (cfg.hashOpaqueToken refreshToken) = some u → u.sessionId ≠ id) ∧
      ∀ accessToken payload, p.op.accessToken = some accessToken →
        cfg.openAccessToken accessToken = some payload → payload.sessionId ≠ id := by
  have hsince := since h₀ h hst hx hbegun hp
  have hreturned := ended h₀ (h.trans hst) hp
  rw [hprog] at hreturned
  have hreturned : Returned cfg p.op p.past := hreturned
  constructor
  · intro refreshToken metadata u hop hu
    rw [hop] at hreturned
    obtain ⟨now, hdid⟩ := hreturned
    obtain ⟨v, hv, hne⟩ := hsince _ hdid rfl hrevoked
    cases hu.symm.trans hv
    exact hne
  · intro accessToken payload hop hpayload hsame
    have hopened : Opened cfg accessToken p.past := by
      cases hp : p.op with
      | create userId organizationId metadata =>
          rw [hp] at hop
          cases hop
      | rotate refreshToken metadata =>
          rw [hp] at hop
          cases hop
      | revoke sessionId =>
          rw [hp] at hop
          cases hop
      | revokeAll userId =>
          rw [hp] at hop
          cases hop
      | _ =>
          rw [hp] at hreturned hop
          exact hreturned accessToken hop
    obtain ⟨payload', y, hpayload', hsaw, hlive⟩ := hopened
    cases hpayload.symm.trans hpayload'
    obtain ⟨z, heq, hkept⟩ := hsince _ hsaw hsame
    cases heq
    exact hkept.revokedAt hrevoked hlive

theorem respects : families.Respects (E := Failure) (R := Response) interrupted :=
  ⟨fun _ _ _ => trivial, fun _ _ _ _ _ _ _ _ _ => trivial⟩

/-- The session of a family that a call has closed is revoked. -/
theorem Closed.session (h₀ : Idle Legal s₀) (hF : Families s₀.db)
    (h : Run (machine cfg) interrupted s₀ s₁) (hbegun : Unbegun s₁ i)
    (hrun : Run (machine cfg) interrupted s₁ s) (hp : s.procs[i]? = some p) {familyId : Id}
    (hclosed : Closed cfg s₁ s p familyId) :
    ∃ id x, Db.session s.db id = some x ∧ x.tokenFamilyId = familyId ∧ x.revokedAt ≠ none := by
  have hended := ended h₀ (h.trans hrun) hp
  have hscan : ∀ id x scope ids, Db.session s₁.db id = some x → scope.covers x = true →
      Saw p.past (.unrevokedSessions scope) ids →
      ∃ y, Db.session s.db id = some y ∧ y.tokenFamilyId = x.tokenFamilyId ∧ y.revokedAt ≠ none := by
    intro id x scope ids hx hcovers hsaw
    obtain ⟨y, hy, hrevoked⟩ := since h₀ h hrun hx hbegun hp _ hsaw hcovers
    have hchain := (Run.consistent discipline h₀.consistent (h.trans hrun)).chain
    obtain ⟨z, hz, hkept⟩ := (carries_of_suffix hchain hrun.suffix).session hx
    cases hy.symm.trans hz
    exact ⟨y, hy, hkept.tokenFamilyId, hrevoked⟩
  cases hclosed with
  | replayed refreshToken metadata t x hop hprog ht hx hfamily =>
      obtain ⟨hinv, hobs⟩ := families_sound.run respects discipline h₀ hF (h.trans hrun)
      have hfact := (hobs i p hp).fact
      rw [hprog] at hended
      obtain ⟨refreshToken', metadata', t', x', ids, hop', htoken, hsession, hscan⟩ :=
        (hended : Reported cfg p.op (.unauthorized "REFRESH_TOKEN_REUSED") p.past) rfl
      rw [hop] at hop'
      cases hop'
      obtain ⟨u, hu, hkeptToken⟩ := (hfact _ htoken).1
      cases ht.symm.trans hu
      obtain ⟨y, hy, hkept⟩ := (hfact _ hsession).1
      rw [hkeptToken.sessionId] at hx
      cases hx.symm.trans hy
      obtain ⟨id, z, hz, hsame, hrevoked⟩ := (hfact _ hscan).2
      exact ⟨id, z, hz, hsame.trans (hkept.tokenFamilyId.symm.trans hfamily), hrevoked⟩
  | revoked sessionId x r hop hprog hx hfamily =>
      rw [hprog, hop] at hended
      obtain ⟨found, hsaw, hids⟩ : Returned cfg (.revoke sessionId) p.past := hended
      obtain ⟨y, heq, hkept⟩ := since h₀ h hrun hx hbegun hp _ hsaw rfl
      obtain ⟨ids, hids⟩ := hids y heq
      have hcovers : (Scope.family y.tokenFamilyId).covers x = true :=
        decide_eq_true hkept.tokenFamilyId.symm
      obtain ⟨z, hz, hsame, hrevoked⟩ := hscan sessionId x _ ids hx hcovers hids
      exact ⟨sessionId, z, hz, hsame.trans hfamily, hrevoked⟩
  | revokedAll userId id x r hop hprog hx huser hfamily =>
      rw [hprog, hop] at hended
      obtain ⟨ids, hids⟩ : Returned cfg (.revokeAll userId) p.past := hended
      obtain ⟨z, hz, hsame, hrevoked⟩ := hscan id x _ ids hx (decide_eq_true huser) hids
      exact ⟨id, z, hz, hsame.trans hfamily, hrevoked⟩

/-- A call that begins after its family was closed does not succeed. -/
theorem closed_excludes (h₀ : Idle Legal s₀) (hF : Families s₀.db)
    (h : Run (machine cfg) interrupted s₀ s) (hst : Run (machine cfg) interrupted s t)
    {familyId : Id}
    (hclosed : ∃ id x, Db.session s.db id = some x ∧ x.tokenFamilyId = familyId ∧
      x.revokedAt ≠ none)
    (hbegun : Unbegun s i) (hp : t.procs[i]? = some p) (huses : Uses cfg t.db familyId p.op)
    (r : Response) : p.prog ≠ .ret r := by
  intro hprog
  obtain ⟨id, x, hx, hfamily, hrevoked⟩ := hclosed
  have hchain := (Run.consistent discipline h₀.consistent (h.trans hst)).chain
  have hfamilies := (families_sound.run respects discipline h₀ hF (h.trans hst)).1
  obtain ⟨y, hy, hkept⟩ := (carries_of_suffix hchain hst.suffix).session hx
  obtain ⟨hrotate, haccess⟩ := revoked_excludes h₀ h hst hx hrevoked hbegun hp hprog
  have hsame : ∀ id' z, Db.session t.db id' = some z → z.tokenFamilyId = familyId → id' = id :=
    fun id' z hz hzfamily => hfamilies.unique id' id z y hz hy
      (hzfamily.trans (hfamily.symm.trans hkept.tokenFamilyId.symm))
  generalize hop : p.op = op at huses
  cases huses with
  | rotate refreshToken metadata u z hu hz hzfamily =>
      exact hrotate refreshToken metadata u hop hu (hsame _ z hz hzfamily)
  | access op accessToken payload z haccessToken hpayload hz hzfamily =>
      rw [← hop] at haccessToken
      exact haccess accessToken payload haccessToken hpayload (hsame _ z hz hzfamily)

/-- In every interleaving a refresh token leads to one successful rotation at most, and once a
replay was reported on a family, or a revocation that covers it has returned, no call that begins
later rotates a token of the family or authenticates with one of its access tokens. -/
theorem refresh_tokens_once (h₀ : Idle Legal s₀) (hF : Families s₀.db)
    (h : Run (machine cfg) interrupted s₀ s) :
    (∀ (i j : Nat) p q refreshToken metadata metadata' r r', s.procs[i]? = some p →
      s.procs[j]? = some q → p.op = .rotate refreshToken metadata →
      q.op = .rotate refreshToken metadata' → p.prog = .ret r → q.prog = .ret r' → i = j) ∧
    ∀ s₁ (i : Nat) p familyId, Run (machine cfg) interrupted s₀ s₁ → Unbegun s₁ i →
      Run (machine cfg) interrupted s₁ s → s.procs[i]? = some p → Closed cfg s₁ s p familyId →
      ∀ t (j : Nat) q, Run (machine cfg) interrupted s t → s.procs.length ≤ j →
        t.procs[j]? = some q → Uses cfg t.db familyId q.op → ∀ r, q.prog ≠ .ret r := by
  constructor
  · intro i j p q refreshToken metadata metadata' r r' hp hq hop hop' hprog hprog'
    have hended := ended h₀ h hp
    have hended' := ended h₀ h hq
    rw [hprog, hop] at hended
    rw [hprog', hop'] at hended'
    obtain ⟨now, hdid⟩ : Returned cfg (.rotate refreshToken metadata) p.past := hended
    obtain ⟨now', hdid'⟩ : Returned cfg (.rotate refreshToken metadata') q.past := hended'
    have hconsumes : ∀ now, Consumes (.token (cfg.hashOpaqueToken refreshToken)) (.consumed now) :=
      fun _ => trivial
    exact consumes_once.unique setup discipline h₀ h hp hq (hconsumes now) (hconsumes now') hdid
      hdid'
  · intro s₁ i p familyId h₁ hbegun hrun hp hclosed t j q hst hj hq huses r
    have hfirst : Unbegun s j := by
      intro q' hq'
      exact absurd (List.getElem?_eq_some_iff.mp hq').1 (Nat.not_lt.mpr hj)
    have hsession := hclosed.session h₀ hF h₁ hbegun hrun hp
    exact closed_excludes h₀ hF h hst hsession hfirst hq huses r

end Results

section Sample

def sampleConfig : Config where
  accessTtlMilliseconds := 900
  refreshTtlMilliseconds := 9000
  hashOpaqueToken token := token
  signAccessToken payload :=
    [payload.sessionId, payload.userId, payload.organizationId, payload.expiresAt].map Char.ofNat
  openAccessToken text :=
    match text.map Char.toNat with
    | [sessionId, userId, organizationId, expiresAt] =>
        some ⟨sessionId, userId, organizationId, expiresAt⟩
    | _ => none
  verifyRegistrationResponse response challenge :=
    if response.challenge = challenge then
      some ⟨response.attestation.map fun b => Char.ofNat b.toNat, response.attestation, 0, [], false⟩
    else none
  verifyAuthenticationResponse response challenge _ publicKey counter :=
    if response.challenge = challenge ∧ response.signature = publicKey ∧
        (counter < response.counter ∨ counter = 0 ∧ response.counter = 0) then
      some ⟨true, response.counter, false⟩
    else none

/-- A member before the first login. -/
def sampleDb : Db :=
  [⟨.user 1, ⟨['a'], ['A'], .active⟩⟩, ⟨.membership 1 1, ⟨1, .administrator, .active, none⟩⟩]

def sampleStart : System := ⟨sampleDb, []⟩

theorem sampleStart_idle : Idle Legal sampleStart :=
  ⟨⟨trivial, trivial, trivial⟩, rfl⟩

theorem sampleStart_families : Families sampleStart.db :=
  ⟨fun _ _ h => (by cases h), fun _ _ _ _ h => (by cases h)⟩

/-- Statements of process `i`, with the choices of their answers. -/
def answers (i : Nat) (choices : List Nat) : List SystemAction := choices.map (.exec i)

/-- A login that gets the refresh token 5, for session 11 of family 10. -/
def login (i : Nat) : List SystemAction :=
  .start (.create 1 1 ⟨none, none⟩) ::
    answers i [1, 0, 5, 0, 6, 0, 10, 11, 1, 0, 0, 0, 1, 0]

/-- Calls that nothing interrupts. -/
def uninterrupted (_ : System) : SystemAction → Bool
  | .start _ => true
  | .exec _ _ => true
  | _ => false

theorem interrupted_of_uninterrupted (s : System) (a : SystemAction)
    (h : uninterrupted s a = true) : interrupted s a := by
  cases a with
  | fault i e => cases h
  | kill i e => cases h
  | _ => trivial

/-- A rotation of the token that has reported its replay. -/
def reports (refreshToken : Nat) (p : Process) : Bool :=
  match p.op, p.prog with
  | .rotate token _, .fail e => token = refreshToken ∧ e = replayed
  | _, _ => false

theorem of_reports {refreshToken : Nat} {p : Process} (h : reports refreshToken p = true) :
    (∃ metadata, p.op = .rotate refreshToken metadata) ∧ p.prog = .fail replayed := by
  unfold reports at h
  split at h
  · rename_i token metadata e hop hprog
    obtain ⟨rfl, rfl⟩ := of_decide_eq_true h
    exact ⟨⟨metadata, hop⟩, hprog⟩
  · cases h

/-- The token of a login is rotated and presented again. -/
theorem refresh_tokens_once_sample : ∃ (s : System) (p : Process),
    s.procs[2]? = some p ∧ Closed sampleConfig sampleStart s p 10 ∧
      ∀ t (j : Nat) q, Run (machine sampleConfig) interrupted s t → s.procs.length ≤ j →
        t.procs[j]? = some q → Uses sampleConfig t.db 10 q.op → ∀ r, q.prog ≠ .ret r := by
  obtain ⟨s, hrun, hcheck⟩ := exists_run (M := machine sampleConfig) (s := sampleStart)
    (login 0 ++ .start (.rotate 5 ⟨none, none⟩) ::
      answers 1 [7, 0, 8, 0, 2, 0, 0, 0, 0, 0, 0, 0, 0, 0, 3, 0] ++
      .start (.rotate 5 ⟨none, none⟩) :: answers 2 [9, 0, 10, 0, 4, 0, 0, 0, 0, 0, 0, 0, 0, 0])
    (fun s => (s.procs[2]?).any (reports 5) ∧ (Db.token s.db 5).any (·.sessionId = 11) ∧
      (Db.session s.db 11).any (·.tokenFamilyId = 10))
    interrupted_of_uninterrupted (by decide +kernel)
  obtain ⟨hp, ht, hx⟩ := of_decide_eq_true hcheck
  obtain ⟨p, hp, hreports⟩ := (Option.any_eq_true _ _).mp hp
  obtain ⟨t, ht, hsession⟩ := (Option.any_eq_true _ _).mp ht
  obtain ⟨x, hx, hfamily⟩ := (Option.any_eq_true _ _).mp hx
  obtain ⟨⟨metadata, hop⟩, hprog⟩ := of_reports hreports
  have hclosed : Closed sampleConfig sampleStart s p 10 := by
    refine .replayed 5 metadata t x hop hprog ht ?_ (of_decide_eq_true hfamily)
    rw [of_decide_eq_true hsession]
    exact hx
  have hbegun : Unbegun sampleStart 2 := fun p hp => by cases hp
  exact ⟨s, p, hp, hclosed, (refresh_tokens_once sampleStart_idle sampleStart_families hrun).2
    sampleStart 2 p 10 .refl hbegun hrun hp hclosed⟩

end Sample

end BlocTrust.Identity
