import BlocTrust.Identity.RotationConduct
import BlocTrust.Identity.TokenStore
import BlocTrust.ReadCommitted.Alone

/-!
Sessions end for a cause.
A session is revoked because its user has logged out, because two calls have presented the same
refresh token, or because a call has found the session expired or its user excluded.  A browser
that presents every refresh token once stays logged in.
-/
namespace BlocTrust.Identity

open ReadCommitted Tables Log

section Lasting

/-- What never changes of a session and of a token, their expiry included. -/
def Lasting : (k : Key) → Val k → Val k → Prop
  | .session _, old, new => SessionKept old new ∧ new.expiresAt = old.expiresAt
  | .token _, old, new => TokenKept old new ∧ new.expiresAt = old.expiresAt
  | _, _, _ => True

theorem lasting : Log.Persists Legal Lasting where
  refl k v := by
    cases k with
    | session id => exact ⟨SessionKept.refl v, rfl⟩
    | token hash => exact ⟨TokenKept.refl v, rfl⟩
    | _ => trivial
  trans k u v w h h' := by
    cases k with
    | session id => exact ⟨SessionKept.trans h.1 h'.1, h'.2.trans h.2⟩
    | token hash => exact ⟨TokenKept.trans h.1 h'.1, h'.2.trans h.2⟩
    | _ => trivial
  legal k u v h := by
    cases k with
    | session id =>
        obtain ⟨c, -, rfl⟩ := legal_change h rfl rfl
        exact ⟨SessionChange.kept c u, by cases c <;> rfl⟩
    | token hash =>
        obtain ⟨c, -, rfl⟩ := legal_change h rfl rfl
        exact ⟨TokenChange.kept c u, by cases c <;> rfl⟩
    | _ => trivial

def Lasts (db db' : Db) : Prop :=
  ∀ k v, Log.row k db = some v → ∃ w, Log.row k db' = some w ∧ Lasting k v w

theorem lasts_of_suffix {db db' : Db} (hc : Chain Legal db') (hs : db <:+ db') : Lasts db db' :=
  fun _ _ h => hc.related lasting hs h

end Lasting

section Causes

variable (cfg : Config) (s : System) (id : Id)

/-- A rotation of a refresh token of the session. -/
structure Presents (i : Nat) (p : Process) (refreshToken : Nat) (t : SessionRefreshToken) :
    Prop where
  proc : s.procs[i]? = some p
  op : ∃ metadata, p.op = .rotate refreshToken metadata
  token : Db.token s.db (cfg.hashOpaqueToken refreshToken) = some t
  session : t.sessionId = id

/-- Why the session `x` has ended. -/
inductive Cause (x : Session) : Prop
  | loggedOut (i : Nat) (p : Process) (hp : s.procs[i]? = some p) (hop : p.op = .revoke id)
  | loggedOutAll (i : Nat) (p : Process) (hp : s.procs[i]? = some p)
      (hop : p.op = .revokeAll x.userId)
  | replayed (i j : Nat) (p q : Process) (refreshToken refreshToken' : Nat)
      (t t' : SessionRefreshToken) (hne : i ≠ j) (h : Presents cfg s id i p refreshToken t)
      (h' : Presents cfg s id j q refreshToken' t')
      (hsame : cfg.hashOpaqueToken refreshToken' = cfg.hashOpaqueToken refreshToken)
  | expired (i : Nat) (p : Process) (refreshToken : Nat) (t : SessionRefreshToken) (now : Time)
      (h : Presents cfg s id i p refreshToken t) (hclock : Called p.past .clock now)
      (hexpired : x.expiresAt ≤ now ∨ t.expiresAt ≤ now)
  | excluded (i : Nat) (p : Process) (refreshToken : Nat) (t : SessionRefreshToken) (now : Time)
      (user : Option User) (membership : Option Membership)
      (h : Presents cfg s id i p refreshToken t) (hclock : Called p.past .clock now)
      (hmembership : Saw p.past (.findMembership x.organizationId x.userId) membership)
      (huser : Saw p.past (.findUser x.userId) user)
      (hadmits : SessionService.admits now user membership = none)

/-- Whatever is revoked or used in the store has its cause. -/
structure Caused : Prop where
  used : ∀ hash t, Db.token s.db hash = some t → t.usedAt ≠ none →
    ∃ (i : Nat) (p : Process) (refreshToken : Nat) (now : Time),
      Presents cfg s t.sessionId i p refreshToken t ∧ hash = cfg.hashOpaqueToken refreshToken ∧
        Did p.past (.token hash) (.consumed now) 1
  tokens : ∀ hash t, Db.token s.db hash = some t → t.revokedAt ≠ none →
    ∃ x, Db.session s.db t.sessionId = some x ∧ Cause cfg s t.sessionId x
  sessions : ∀ id x, Db.session s.db id = some x → x.revokedAt ≠ none → Cause cfg s id x

end Causes

section Later

variable {cfg : Config} {s s' : System} {id : Id} {x y : Session}

/-- Calls stay, and so do the rows. -/
structure Later (s s' : System) : Prop where
  procs : ∀ (i : Nat) p, s.procs[i]? = some p →
    ∃ p', s'.procs[i]? = some p' ∧ p'.op = p.op ∧ p.past ⊆ p'.past
  rows : Lasts s.db s'.db

theorem later_of_step {a : SystemAction} (hs : Step (machine cfg) s a s')
    (hc : Chain Legal s'.db) : Later s s' :=
  ⟨fun _ _ hp => hs.past_subset hp, lasts_of_suffix hc hs.suffix⟩

theorem Presents.later (hl : Later s s') {i : Nat} {p : Process} {refreshToken : Nat}
    {t : SessionRefreshToken} (h : Presents cfg s id i p refreshToken t) :
    ∃ p' t', Presents cfg s' id i p' refreshToken t' ∧ p.past ⊆ p'.past ∧
      t'.expiresAt = t.expiresAt := by
  obtain ⟨p', hp', hop, hpast⟩ := hl.procs i p h.proc
  obtain ⟨t', ht', hkept⟩ := hl.rows (.token (cfg.hashOpaqueToken refreshToken)) t h.token
  have hkept : TokenKept t t' ∧ t'.expiresAt = t.expiresAt := hkept
  refine ⟨p', t', ⟨hp', ?_, ht', hkept.1.sessionId.trans h.session⟩, hpast, hkept.2⟩
  rw [hop]
  exact h.op

theorem Cause.later (hl : Later s s') (hx : SessionKept x y) (he : y.expiresAt = x.expiresAt)
    (h : Cause cfg s id x) : Cause cfg s' id y := by
  cases h with
  | loggedOut i p hp hop =>
      obtain ⟨p', hp', hop', -⟩ := hl.procs i p hp
      exact .loggedOut i p' hp' (hop'.trans hop)
  | loggedOutAll i p hp hop =>
      obtain ⟨p', hp', hop', -⟩ := hl.procs i p hp
      refine .loggedOutAll i p' hp' (hop'.trans ?_)
      rw [hx.userId]
      exact hop
  | replayed i j p q refreshToken refreshToken' t t' hne h h' hsame =>
      obtain ⟨p', u, hu, -, -⟩ := h.later hl
      obtain ⟨q', u', hu', -, -⟩ := h'.later hl
      exact .replayed i j p' q' refreshToken refreshToken' u u' hne hu hu' hsame
  | expired i p refreshToken t now h hclock hexpired =>
      obtain ⟨p', u, hu, hpast, hexpiresAt⟩ := h.later hl
      refine .expired i p' refreshToken u now hu (hpast hclock) ?_
      rw [he, hexpiresAt]
      exact hexpired
  | excluded i p refreshToken t now user membership h hclock hmembership huser hadmits =>
      obtain ⟨p', u, hu, hpast, -⟩ := h.later hl
      refine .excluded i p' refreshToken u now user membership hu (hpast hclock) ?_ ?_ hadmits
      · rw [hx.organizationId, hx.userId]
        exact hpast hmembership
      · rw [hx.userId]
        exact hpast huser

/-- A cause for the session in its old version is one for the new version. -/
theorem Cause.carried (hl : Later s s') (hx : Db.session s.db id = some x)
    (h : Cause cfg s id x) : ∃ y, Db.session s'.db id = some y ∧ Cause cfg s' id y := by
  obtain ⟨y, hy, hkept⟩ := hl.rows (.session id) x hx
  have hkept : SessionKept x y ∧ y.expiresAt = x.expiresAt := hkept
  exact ⟨y, hy, h.later hl hkept.1 hkept.2⟩

end Later

section Commit

variable {cfg : Config} {s s' : System} {i : Nat} {p : Process} {id : Id} {x y : Session}
  {hash : Digest} {t u : SessionRefreshToken}

/-- Process `i` commits. -/
structure Commits (s s' : System) (i : Nat) (p : Process) : Prop where
  proc : s.procs[i]? = some p
  db : s'.db = p.writes ++ s.db
  after : ∃ p', s'.procs[i]? = some p' ∧ p'.op = p.op ∧ p'.past = p.calls ++ p.past
  later : Later s s'

/-- The call that has consumed a token is still there. -/
theorem used_later (hl : Later s s')
    (hused : ∃ (i : Nat) (p : Process) (refreshToken : Nat) (now : Time),
      Presents cfg s u.sessionId i p refreshToken u ∧ hash = cfg.hashOpaqueToken refreshToken ∧
        Did p.past (.token hash) (.consumed now) 1) (ht : Db.token s'.db hash = some t) :
    ∃ (i : Nat) (p : Process) (refreshToken : Nat) (now : Time),
      Presents cfg s' t.sessionId i p refreshToken t ∧ hash = cfg.hashOpaqueToken refreshToken ∧
        Did p.past (.token hash) (.consumed now) 1 := by
  obtain ⟨i, p, refreshToken, now, hpresents, hhash, hdid⟩ := hused
  obtain ⟨p', t', hpresents', hpast, -⟩ := hpresents.later hl
  have htoken := hpresents'.token
  rw [← hhash] at htoken
  have heq : t' = t := Option.some.inj (htoken.symm.trans ht)
  rw [heq, ← (heq ▸ hpresents'.session : t.sessionId = u.sessionId)] at hpresents'
  exact ⟨i, p', refreshToken, now, hpresents', hhash, hpast hdid⟩

variable {st : Stmt} {out : Out st} {newer older : List (Event Val Out)} {rows base : Db}

/-- What a transaction has read before it writes is committed. -/
theorem silent_row (h : ProcOk (machine cfg) (conduct cfg) Legal s.db p)
    (hx : Executed tables client (conduct cfg) p st out newer older rows base)
    (hsilent : Silent (older.map Event.call)) {k : Key} {v : Val k}
    (hv : Log.row k (writes older ++ base) = some v) :
    ∃ w, Log.row k s.db = some w ∧ Lasting k v w := by
  rw [silent_writes setup h hx.current hsilent] at hv
  exact lasts_of_suffix h.view.of_append (h.bases hx.mem) k v hv

theorem silent_earlier {mid older' : List (Event Val Out)} {e : Event Val Out}
    (h : Silent (older.map Event.call)) (hold : older = mid ++ e :: older') :
    Silent (older'.map Event.call) := by
  intro c hc
  apply h
  rw [hold, List.map_append, List.map_cons]
  exact List.mem_append_right _ (List.mem_cons_of_mem _ hc)

/-- A rotation that presents a spent token of the session. -/
theorem spent_cause (hC : Caused cfg s) (hcommit : Commits s s' i p) (honly : OnlyCalls p.past)
    {p' : Process} {refreshToken : Nat} (hpresents : Presents cfg s' id i p' refreshToken t)
    (hu : Db.token s.db (cfg.hashOpaqueToken refreshToken) = some u) (hid : u.sessionId = id)
    (hspent : u.usedAt ≠ none ∨ u.revokedAt ≠ none) (hy : Db.session s'.db id = some y) :
    Cause cfg s' id y := by
  rcases hspent with hused | hrevoked
  · obtain ⟨j, q, refreshToken', now, hfirst, hsame, hdid⟩ := hC.used _ u hu hused
    have hne : i ≠ j := by
      intro heq
      have hpq : p = q := by
        rw [heq] at hcommit
        exact Option.some.inj (hcommit.proc.symm.trans hfirst.proc)
      rw [← hpq] at hdid
      obtain ⟨c, out, hcall⟩ := honly _ hdid
      cases hcall
    rw [hid] at hfirst
    obtain ⟨q', u', hsecond, -, -⟩ := hfirst.later hcommit.later
    exact .replayed i j p' q' refreshToken refreshToken' t u' hne hpresents hsecond hsame.symm
  · obtain ⟨x, hx, hcause⟩ := hC.tokens _ u hu hrevoked
    rw [hid] at hx hcause
    obtain ⟨z, hz, hcause'⟩ := hcause.carried hcommit.later hx
    have heq : z = y := Option.some.inj (hz.symm.trans hy)
    rw [← heq]
    exact hcause'

variable (h : ProcOk (machine cfg) (conduct cfg) Legal s.db p)
  (hr : ProcOk (machine cfg) (rotationConduct cfg) Legal s.db p)
  (hobs : families.Observed s.db p) (hF : Families s'.db) (hC : Caused cfg s)
  (hcommit : Commits s s' i p)

include h hr hF hC hcommit

/-- A rotation that revokes has a cause for the session that it revokes. -/
theorem rotation_cause {refreshToken : Nat} {metadata : RequestMetadata} {scope : Scope}
    {ids : List Id} (hop : p.op = .rotate refreshToken metadata)
    (hscan : Executed tables client (conduct cfg) p (.read (.unrevokedSessions scope)) ids newer
      older rows base) (hy : Db.session s'.db id = some y) (hcovers : scope.covers y = true) :
    Cause cfg s' id y := by
  have hsilent : Silent (older.map Event.call) := hscan.before.2.2.1
  have htrace := hr.trace
  rw [hscan.current] at htrace
  obtain ⟨honly, t, x, htoken, hsession, hscope, hobjection⟩ :=
    htrace.executed.allowed refreshToken metadata scope hop rfl
  obtain ⟨p', hp', hop', hpast⟩ := hcommit.after
  have hcalls : older.map Event.call ⊆ p'.past := by
    rw [hpast]
    exact fun c hc => List.mem_append_left _ (hscan.calls_subset hc)
  have hearlier : p.past ⊆ p'.past := by
    rw [hpast]
    exact fun c hc => List.mem_append_right _ hc
  -- the token and its session, as they are committed now
  obtain ⟨mid, older₁, rows₁, base₁, hold₁, hx₁⟩ := Executed.earlier setup h hscan htoken
  obtain ⟨⟨choice₁, hanswer₁⟩, -⟩ := hx₁.ran.answer
  obtain ⟨u, hu, hkeptToken⟩ :=
    silent_row h hx₁ (silent_earlier hsilent hold₁) (k := .token _) (Option.some.inj hanswer₁)
  obtain ⟨u', hu', hkeptToken'⟩ := hcommit.later.rows _ _ hu
  obtain ⟨mid₂, older₂, rows₂, base₂, hold₂, hx₂⟩ := Executed.earlier setup h hscan hsession
  obtain ⟨⟨choice₂, hanswer₂⟩, -⟩ := hx₂.ran.answer
  obtain ⟨z, hz, hkept⟩ :=
    silent_row h hx₂ (silent_earlier hsilent hold₂) (k := .session _) (Option.some.inj hanswer₂)
  obtain ⟨z', hz', hkept'⟩ := hcommit.later.rows _ _ hz
  have hkeptToken : TokenKept t u ∧ u.expiresAt = t.expiresAt := hkeptToken
  have hkeptToken' : TokenKept u u' ∧ u'.expiresAt = u.expiresAt := hkeptToken'
  have hkept : SessionKept x z ∧ z.expiresAt = x.expiresAt := hkept
  have hkept' : SessionKept z z' ∧ z'.expiresAt = z.expiresAt := hkept'
  have hid : t.sessionId = id := by
    refine hF.unique t.sessionId id z' y hz' hy ?_
    rw [hscope] at hcovers
    rw [hkept'.1.tokenFamilyId, hkept.1.tokenFamilyId]
    exact (of_decide_eq_true hcovers).symm
  rw [hid] at hz hz'
  have heq : z' = y := Option.some.inj (hz'.symm.trans hy)
  rw [heq] at hkept'
  have huid : u.sessionId = id := hkeptToken.1.sessionId.trans hid
  have hpresents : Presents cfg s' id i p' refreshToken u' :=
    ⟨hp', ⟨metadata, hop'.trans hop⟩, hu', hkeptToken'.1.sessionId.trans huid⟩
  cases hobjection with
  | spent hspent =>
      refine spent_cause hC hcommit honly hpresents hu huid ?_ hy
      exact hspent.imp hkeptToken.1.usedAt hkeptToken.1.revokedAt
  | ended hended =>
      have hcause := hC.sessions id z hz (hkept.1.revokedAt hended)
      exact hcause.later hcommit.later hkept'.1 hkept'.2
  | expired now hclock hexpired =>
      refine .expired i p' refreshToken u' now hpresents (hearlier hclock) ?_
      rw [hkept'.2, hkept.2, hkeptToken'.2, hkeptToken.2]
      exact hexpired
  | excluded now user membership hclock hmembership huser hadmits =>
      refine .excluded i p' refreshToken u' now user membership hpresents (hearlier hclock) ?_ ?_
        hadmits
      · rw [hkept'.1.organizationId, hkept.1.organizationId, hkept'.1.userId, hkept.1.userId]
        exact hcalls hmembership
      · rw [hkept'.1.userId, hkept.1.userId]
        exact hcalls huser
  | overtaken now hmissed =>
      -- the update that found no free token saw the one that was looked up, spent meanwhile
      obtain ⟨mid₃, older₃, rows₃, base₃, hold₃, hx₃⟩ := Executed.earlier setup h hscan hmissed
      obtain ⟨⟨t₃, x₃, hpresented⟩, -⟩ := hx₃.before.2
      obtain ⟨mid₄, older₄, rows₄, base₄, hold₄, hx₄⟩ :=
        Executed.earlier setup h hx₃ hpresented.token
      obtain ⟨⟨choice₄, hanswer₄⟩, -⟩ := hx₄.ran.answer
      have hfound : Db.token (writes older₄ ++ base₄) (cfg.hashOpaqueToken refreshToken) =
          some t₃ := Option.some.inj hanswer₄
      obtain ⟨w, hw, -⟩ := Executed.sees lasting h hx₃ hold₄ hfound
      have hspent : w.usedAt ≠ none ∨ w.revokedAt ≠ none := by
        have hran := hx₃.ran
        cases hran with
        | missed hnone =>
            have hblocked := of_decide_eq_false (hnone w hw)
            by_cases hused : w.usedAt = none
            · exact .inr fun hrevoked => hblocked ⟨hused, hrevoked⟩
            · exact .inl hused
      obtain ⟨w', hw', hkeptW⟩ := silent_row h hx₃ (silent_earlier hsilent hold₃) hw
      have heq : w' = u := Option.some.inj (hw'.symm.trans hu)
      rw [heq] at hkeptW
      have hkeptW : TokenKept w u ∧ u.expiresAt = w.expiresAt := hkeptW
      refine spent_cause hC hcommit honly hpresents hu huid ?_ hy
      exact hspent.imp hkeptW.1.usedAt hkeptW.1.revokedAt

include hobs

/-- Whatever a transaction revokes has its cause. -/
theorem scan_cause {scope : Scope} {ids : List Id}
    (hscan : Executed tables client (conduct cfg) p (.read (.unrevokedSessions scope)) ids newer
      older rows base) (hy : Db.session s'.db id = some y) (hcovers : scope.covers y = true) :
    Cause cfg s' id y := by
  have hrevokes := hscan.before.2.1
  obtain ⟨p', hp', hop', -⟩ := hcommit.after
  cases hop : p.op with
  | rotate refreshToken metadata =>
      exact rotation_cause h hr hF hC hcommit hop hscan hy hcovers
  | revoke sessionId =>
      rw [hop] at hrevokes
      obtain ⟨x, hsaw, hscope⟩ := hrevokes
      obtain ⟨z, hz, hkept⟩ := (hobs.fact _ hsaw).1
      obtain ⟨z', hz', hkept'⟩ := hcommit.later.rows _ _ hz
      have hkept' : SessionKept z z' ∧ z'.expiresAt = z.expiresAt := hkept'
      have hid : sessionId = id := by
        refine hF.unique sessionId id z' y hz' hy ?_
        rw [hscope] at hcovers
        rw [hkept'.1.tokenFamilyId, hkept.tokenFamilyId]
        exact (of_decide_eq_true hcovers).symm
      rw [hid] at hop
      exact .loggedOut i p' hp' (hop'.trans hop)
  | revokeAll userId =>
      rw [hop] at hrevokes
      have hscope : scope = .user userId := hrevokes
      rw [hscope] at hcovers
      refine .loggedOutAll i p' hp' (hop'.trans ?_)
      rw [hop, of_decide_eq_true hcovers]
  | _ =>
      rw [hop] at hrevokes
      exact hrevokes.elim

theorem Caused.commit : Caused cfg s' := by
  obtain ⟨p', hp', hop', hpast⟩ := hcommit.after
  have hcalls : p.calls ⊆ p'.past := by
    rw [hpast]
    exact fun c hc => List.mem_append_left _ hc
  have hcarries : Carries (p.writes ++ s.db) s'.db := by
    rw [hcommit.db]
    exact .refl _
  constructor
  · intro hash t ht hused
    have hrow := ht
    rw [hcommit.db] at hrow
    cases token_after h hrow with
    | kept hold hfree => exact used_later hcommit.later (hC.used hash t hold hused) ht
    | made hmade => exact absurd (made_token h hmade).1 hused
    | consumed u now hold hdid htu =>
        obtain ⟨newer, older, rows, base, hexec⟩ := exists_executed setup h hdid
        obtain ⟨⟨v, x, hpresented⟩, -⟩ := hexec.before.2
        obtain ⟨refreshToken, metadata, hop, hhash⟩ := hpresented.op
        rw [hhash] at ht
        exact ⟨i, p', refreshToken, now, ⟨hp', ⟨metadata, hop'.trans hop⟩, ht, rfl⟩, hhash,
          hcalls hdid⟩
    | revoked u now hold hdid htu =>
        rw [htu] at hused
        exact used_later hcommit.later (hC.used hash u hold hused) ht
  · intro hash t ht hrevoked
    have hrow := ht
    rw [hcommit.db] at hrow
    have hkept : ∀ u, Db.token s.db hash = some u → u.sessionId = t.sessionId →
        u.revokedAt ≠ none → ∃ x, Db.session s'.db t.sessionId = some x ∧
          Cause cfg s' t.sessionId x := by
      intro u hu hid hu'
      obtain ⟨x, hx, hcause⟩ := hC.tokens hash u hu hu'
      rw [hid] at hx hcause
      exact hcause.carried hcommit.later hx
    cases token_after h hrow with
    | kept hold hfree => exact hkept t hold rfl hrevoked
    | made hmade => exact absurd (made_token h hmade).2.1 hrevoked
    | consumed u now hold hdid htu =>
        rw [htu] at hrevoked
        exact hkept u hold (by rw [htu]) hrevoked
    | revoked u now hold hdid htu =>
        obtain ⟨newer, older, rows, base, hexec⟩ := exists_executed setup h hdid
        obtain ⟨scope, hashes, hsaw, hmem⟩ := hexec.before.2
        obtain ⟨mid, older', rows', base', hsplit, hscan⟩ := Executed.earlier setup h hexec hsaw
        obtain ⟨ids, hsessions, -⟩ := hscan.before.2
        obtain ⟨mid₀, older₀, rows₀, base₀, -, hscan₀⟩ := Executed.earlier setup h hscan hsessions
        obtain ⟨⟨choice, hanswer⟩, -⟩ := hscan.ran.answer
        obtain ⟨v, x, hv, hx, hcovers, -⟩ := (mem_unrevokedTokens hanswer).mp hmem
        obtain ⟨w, hw, hkeptToken⟩ := ((carries_commit h hscan).trans hcarries).token hv
        obtain ⟨y, hy, hkeptSession⟩ := ((carries_commit h hscan).trans hcarries).session hx
        have heq : w = t := Option.some.inj (hw.symm.trans ht)
        have hid : v.sessionId = t.sessionId := by
          rw [← heq]
          exact hkeptToken.sessionId.symm
        rw [hid] at hy
        exact ⟨y, hy, scan_cause h hr hobs hF hC hcommit hscan₀ hy
          ((covers_kept hkeptSession).trans hcovers)⟩
  · intro id x hx hrevoked
    have hrow := hx
    rw [hcommit.db] at hrow
    have hkept : ∀ y, Db.session s.db id = some y → y.revokedAt ≠ none → Cause cfg s' id x := by
      intro y hy hy'
      obtain ⟨z, hz, hcause⟩ := (hC.sessions id y hy hy').carried hcommit.later hy
      have heq : z = x := Option.some.inj (hz.symm.trans hx)
      rw [← heq]
      exact hcause
    have hcommitted : Committed tables client (conduct cfg) s.db p (.session id) x :=
      commit_row setup h rfl hrow
    cases hcommitted with
    | kept hfree hold => exact hkept x hold hrevoked
    | made newer older rows base hexec hfresh hmem =>
        have hnew : NewSession p.op (older.map Event.call) x := hexec.before.2
        exact absurd hnew.fresh.1 hrevoked
    | changed newer older rows base c old hexec hold hbase happlies hnew hmem =>
        rw [hnew] at hrevoked
        cases c with
        | rotated hash csrf now metadata => exact hkept old hold hrevoked
        | verified now => exact hkept old hold hrevoked
        | revoked now =>
            obtain ⟨⟨scope, ids, hsaw, hid⟩, -⟩ := hexec.before.2
            obtain ⟨mid, older', rows', base', -, hscan⟩ := Executed.earlier setup h hexec hsaw
            obtain ⟨⟨choice, hanswer⟩, -⟩ := hscan.ran.answer
            obtain ⟨y, hy, hcovers, -⟩ := (mem_unrevokedSessions hanswer).mp hid
            obtain ⟨z, hz, hkeptSession⟩ := ((carries_commit h hscan).trans hcarries).session hy
            have heq : z = x := Option.some.inj (hz.symm.trans hx)
            rw [heq] at hkeptSession
            exact scan_cause h hr hobs hF hC hcommit hscan hx
              ((covers_kept hkeptSession).trans hcovers)

end Commit

section Refusals

open Prog

variable {cfg : Config} {past cur : Calls Out} {hash : Digest}

/-- A rotation has not found its token, or has revoked the family of it. -/
def Turned (hash : Digest) (cur : Calls Out) : Prop :=
  Saw cur (.findToken hash) none ∨ ∃ t x ids, Saw cur (.findToken hash) (some t) ∧
    Saw cur (.findSession t.sessionId) (some x) ∧
    Saw cur (.unrevokedSessions (.family x.tokenFamilyId)) ids

theorem turned_of_scan {t : SessionRefreshToken} {x : Session} {ids : List Id} {cur' : Calls Out}
    (hsub : cur ⊆ cur') (htoken : Saw cur (.findToken hash) (some t))
    (hsession : Saw cur (.findSession t.sessionId) (some x))
    (hscan : Saw cur' (.unrevokedSessions (.family x.tokenFamilyId)) ids) : Turned hash cur' :=
  .inr ⟨t, x, ids, hsub htoken, hsub hsession, hscan⟩

def NotRotated : SessionService.RotateResult → Prop
  | .rotated _ _ => False
  | _ => True

theorem rotateStored_turns {newRefreshHash newCsrfHash : Digest} {metadata : RequestMetadata}
    {now : Time} :
    (SessionService.rotateStored hash newRefreshHash newCsrfHash metadata now).ends
      Failure.database (fun result _ cur => NotRotated result → Turned hash cur)
      (fun e _ _ => e.database) past [] := by
  have hF : ∀ (e : Failure) (past cur : Calls Out), e.database → e.database := fun _ _ _ h => h
  rw [SessionService.rotateStored, ends_bind]
  refine ends_sql _ (fun found => ?_) fun e h => h
  cases found with
  | none => exact fun _ => .inl List.mem_cons_self
  | some t =>
      simp only
      rw [ends_bind]
      refine ends_sql _ (fun found => ?_) fun e h => h
      rw [ends_bind]
      refine ends_orThrow _ _ (fun x hx => ?_) fun _ => trivial
      subst hx
      split
      · rw [ends_bind]
        refine revokeScope_ends hF fun ids cur' hsub hscan _ => ?_
        exact turned_of_scan (t := t) (x := x) hsub (by simp) (by simp) hscan
      split
      · rw [ends_bind]
        refine revokeScope_ends hF fun ids cur' hsub hscan _ => ?_
        exact turned_of_scan (t := t) (x := x) hsub (by simp) (by simp) hscan
      rw [ends_bind]
      refine ends_sql _ (fun membership => ?_) fun e h => h
      rw [ends_bind]
      refine ends_sql _ (fun user => ?_) fun e h => h
      cases SessionService.admits now user membership with
      | none =>
          simp only
          rw [ends_bind]
          refine revokeScope_ends hF fun ids cur' hsub hscan _ => ?_
          exact turned_of_scan (t := t) (x := x) hsub (by simp) (by simp) hscan
      | some _ =>
          simp only
          rw [SessionService.consume, ends_bind]
          refine ends_sql _ (fun count => ?_) fun e h => h
          split
          · rw [ends_bind]
            refine updateFound_ends (fun e _ h => h) fun n => ?_
            rw [ends_bind]
            exact ends_sql _ (fun _ h => h.elim) fun e h => h
          · rw [ends_bind]
            refine revokeScope_ends hF fun ids cur' hsub hscan _ => ?_
            exact turned_of_scan (t := t) (x := x) hsub (by simp) (by simp) hscan

/-- The two refusals of a rotation. -/
def Refusal (e : Failure) : Prop := e = replayed ∨ e = SessionService.invalidRefreshSession

theorem Refusal.not_database {e : Failure} (h : Refusal e) : ¬ e.database := by
  rcases h with rfl | rfl <;> exact id

def Refuses (cfg : Config) (op : Op) (e : Failure) (past : Calls Out) : Prop :=
  ∀ refreshToken metadata, op = .rotate refreshToken metadata → Refusal e →
    Turned (cfg.hashOpaqueToken refreshToken) past

theorem bundle_ends {sessionId userId organizationId : Id} {refreshToken csrfToken : Nat}
    {refreshExpiresAt : Time} {F : Failure → Calls Out → Calls Out → Prop}
    (hF : ∀ e cur, e.database → F e past cur) :
    (SessionService.bundle cfg sessionId userId organizationId refreshToken csrfToken
      refreshExpiresAt).ends Failure.database (fun _ _ _ => True) F past [] := by
  rw [SessionService.bundle, ends_bind]
  exact ends_auto _ (fun _ => trivial) fun e => hF e []

theorem rotate_refuses {refreshToken : Nat} {metadata : RequestMetadata} :
    (SessionService.rotate cfg refreshToken metadata).ends Failure.database
      (fun _ _ _ => True) (fun e past _ => Refuses cfg (.rotate refreshToken metadata) e past)
      [] [] := by
  have hF : ∀ (e : Failure) past, e.database → Refuses cfg (.rotate refreshToken metadata) e past :=
    fun e _ he _ _ _ hrefusal => absurd he hrefusal.not_database
  rw [SessionService.rotate, ends_bind]
  refine ends_auto _ (fun newRefreshToken => ?_) fun e => hF e []
  rw [ends_bind]
  refine ends_auto _ (fun newCsrfToken => ?_) fun e => hF e _
  rw [ends_bind]
  refine ends_auto _ (fun now => ?_) fun e => hF e _
  rw [ends_bind, ends_transaction]
  refine ends_mono (fun result past cur hturned => ⟨?_, fun e => hF e past⟩)
    (fun e past _ => hF e past) rotateStored_turns
  have hrefused : NotRotated result →
      ∀ e, Refuses cfg (.rotate refreshToken metadata) e (cur ++ past) := by
    intro hresult e r m hop _
    cases hop
    rcases hturned hresult with hnone | ⟨t, x, ids, htoken, hsession, hscan⟩
    · exact .inl (List.mem_append_left _ hnone)
    · exact .inr ⟨t, x, ids, List.mem_append_left _ htoken, List.mem_append_left _ hsession,
        List.mem_append_left _ hscan⟩
  cases result with
  | invalid => exact hrefused trivial _
  | reused => exact hrefused trivial _
  | rotated sessionId session =>
      exact bundle_ends fun e _ => hF e _

theorem program_refuses (op : Op) : (program cfg op).ends Failure.database
    (fun _ _ _ => True) (fun e past _ => Refuses cfg op e past) [] [] := by
  cases op with
  | rotate refreshToken metadata =>
      exact (ends_bind _ _).mpr
        (ends_mono (fun _ _ _ _ => trivial) (fun _ _ _ h => h) rotate_refuses)
  | _ =>
      exact ends_mono (fun _ _ _ _ => trivial) (fun e past cur _ refreshToken metadata hop => by
        cases hop) (ends_any _ [] [])

end Refusals

section Runs

variable {cfg : Config} {s₀ s t : System}

/-- Nothing has been used or revoked. -/
structure Unspent (db : Db) : Prop where
  tokens : ∀ hash t, db.token hash = some t → t.usedAt = none ∧ t.revokedAt = none
  sessions : ∀ id x, db.session id = some x → x.revokedAt = none

theorem Unspent.caused (h : Unspent s.db) : Caused cfg s where
  used hash t ht hused := absurd (h.tokens hash t ht).1 hused
  tokens hash t ht hrevoked := absurd (h.tokens hash t ht).2 hrevoked
  sessions id x hx hrevoked := absurd (h.sessions id x hx) hrevoked

/-- A step that leaves sessions and tokens as they are. -/
theorem Caused.kept (hC : Caused cfg s) (hl : Later s t)
    (htoken : ∀ hash, Db.token t.db hash = Db.token s.db hash)
    (hsession : ∀ id, Db.session t.db id = Db.session s.db id) : Caused cfg t := by
  constructor
  · intro hash u hu hused
    have hold := hu
    rw [htoken] at hold
    exact used_later hl (hC.used hash u hold hused) hu
  · intro hash u hu hrevoked
    rw [htoken] at hu
    obtain ⟨x, hx, hcause⟩ := hC.tokens hash u hu hrevoked
    exact hcause.carried hl hx
  · intro id x hx hrevoked
    have hold := hx
    rw [hsession] at hold
    obtain ⟨y, hy, hcause⟩ := (hC.sessions id x hold hrevoked).carried hl hold
    have heq : y = x := Option.some.inj (hy.symm.trans hx)
    rw [← heq]
    exact hcause

theorem caused_run (h₀ : Idle Legal s₀) (hF : Families s₀.db) (hunspent : Unspent s₀.db)
    (h : Run (machine cfg) interrupted s₀ s) : Caused cfg s := by
  induction h with
  | refl => exact hunspent.caused
  | @step u a v hu ha hstep ih =>
      have hrun : Run (machine cfg) interrupted s₀ v := hu.step ha hstep
      have hchain := (Run.consistent discipline h₀.consistent hrun).chain
      have hl := later_of_step hstep hchain
      have hfamilies := (families_sound.run respects discipline h₀ hF hrun).1
      cases hstep.effect with
      | quiet hdb hprocs =>
          refine ih.kept hl (fun hash => ?_) fun id => ?_
          · rw [hdb]
          · rw [hdb]
      | answered i c p q next out rows hp hq hanswer =>
          exact ih.kept hl (fun hash => rfl) fun id => rfl
      | committed i c p next hp hq =>
          have hproc := (Run.consistent discipline h₀.consistent hu).proc i p hp
          have hrotation := (Run.consistent (rotations cfg) h₀.consistent hu).proc i p hp
          have hobs := (families_sound.run respects discipline h₀ hF hu).2 i p hp
          have hlt := (List.getElem?_eq_some_iff.mp hp).1
          refine Caused.commit hproc hrotation hobs hfamilies ih (i := i) ⟨hp, rfl, ?_, hl⟩
          exact ⟨p.close (next (.ok ())), by simp [hlt], rfl, rfl⟩
      | outside rows hext =>
          exact ih.kept hl (fun hash => outside_row (S := tables) hext rfl) fun id =>
            session_outside hext id

/-- Calls that begin when a token is stored find it. -/
theorem token_found (h₀ : Idle Legal s₀) (h : Run (machine cfg) interrupted s₀ s)
    (hst : Run (machine cfg) interrupted s t) {hash : Digest} {u : SessionRefreshToken}
    (hu : Db.token s.db hash = some u) {i : Nat} {p : Process} (hbegun : Unbegun s i)
    (hp : t.procs[i]? = some p) : ¬ Saw p.past (.findToken hash) none := by
  have hall := hst.since (P := fun _ c _ => c ≠ (⟨.read (.findToken hash), none⟩ : Sigma Out))
    discipline (Run.consistent discipline h₀.consistent h) (fun _ _ _ _ _ _ hne => hne) ?_ hbegun hp
  · exact fun hsaw => hall _ hsaw rfl
  · intro v i p next hrun hp hq hproc hbases e he hcall
    obtain ⟨newer, older, hcur⟩ := List.append_of_mem he
    have hexec := executed_of_split setup hproc hcur
    obtain ⟨st, out, rows, base⟩ := e
    cases hcall
    obtain ⟨⟨choice, hanswer⟩, -⟩ := hexec.ran.answer
    have hnone : Db.token (writes older ++ base) hash = none := Option.some.inj hanswer
    have hsuffix : s.db <:+ writes older ++ base :=
      (hbases _ he).trans (List.suffix_append (writes older) base)
    obtain ⟨w, hw, -⟩ := lasts_of_suffix (hproc.view_chain hcur) hsuffix (.token hash) u hu
    cases hnone.symm.trans hw

/-- Every session that has ended has ended for a cause, and so has one whose stored token a
rotation has refused. -/
theorem sessions_end_for_cause (h₀ : Idle Legal s₀) (hF : Families s₀.db)
    (hunspent : Unspent s₀.db) (h : Run (machine cfg) interrupted s₀ s)
    (hst : Run (machine cfg) interrupted s t) :
    (∀ id x, Db.session t.db id = some x → x.revokedAt ≠ none → Cause cfg t id x) ∧
    ∀ (i : Nat) p refreshToken metadata u e, Unbegun s i →
      Db.token s.db (cfg.hashOpaqueToken refreshToken) = some u → t.procs[i]? = some p →
      p.op = .rotate refreshToken metadata → p.prog = .fail e → Refusal e →
      ∃ x, Db.session t.db u.sessionId = some x ∧ Cause cfg t u.sessionId x := by
  have hC := caused_run h₀ hF hunspent (h.trans hst)
  refine ⟨hC.sessions, ?_⟩
  intro i p refreshToken metadata u e hbegun hu hp hop hprog hrefusal
  have hends := (h.trans hst).ending (Q := fun _ _ _ _ => True)
    (F := fun op e past _ => Refuses cfg op e past) faults
    (fun _ _ _ he _ _ _ hr => absurd he hr.not_database) program_refuses h₀.procs i p hp
  rw [hprog] at hends
  have hturned : Turned (cfg.hashOpaqueToken refreshToken) p.past :=
    hends refreshToken metadata hop hrefusal
  rcases hturned with hnone | ⟨v, x, ids, htoken, hsession, hscan⟩
  · exact absurd hnone (token_found h₀ h hst hu hbegun hp)
  · obtain ⟨hfamilies, hobs⟩ := families_sound.run respects discipline h₀ hF (h.trans hst)
    have hfact := (hobs i p hp).fact
    obtain ⟨w, hw, hkeptToken⟩ := (hfact _ htoken).1
    obtain ⟨y, hy, hkept⟩ := (hfact _ hsession).1
    obtain ⟨id, z, hz, hsame, hrevoked⟩ := (hfact _ hscan).2
    have hchain := (Run.consistent discipline h₀.consistent (h.trans hst)).chain
    obtain ⟨u', hu', hkeptToken'⟩ := (carries_of_suffix hchain hst.suffix).token hu
    have heq : w = u' := Option.some.inj (hw.symm.trans hu')
    have hid : v.sessionId = u.sessionId := by
      rw [← hkeptToken.sessionId, heq]
      exact hkeptToken'.sessionId
    have hfamily : id = v.sessionId :=
      hfamilies.unique id v.sessionId z y hz hy (hsame.trans hkept.tokenFamilyId.symm)
    rw [hfamily, hid] at hz
    exact ⟨z, hz, hC.sessions _ z hz hrevoked⟩

end Runs

section Sample

theorem sampleStart_unspent : Unspent sampleStart.db :=
  ⟨fun _ _ h => (by cases h), fun _ _ h => (by cases h)⟩

/-- The token of a login is rotated, and presented again by another call. -/
theorem sessions_end_for_cause_sample : ∃ (t : System) (p : Process) (x : Session),
    t.procs[2]? = some p ∧ p.prog = .fail replayed ∧ Db.session t.db 11 = some x ∧
      Cause sampleConfig t 11 x := by
  obtain ⟨s, hrun, hcheck⟩ := exists_run (M := machine sampleConfig) (s := sampleStart)
    (login 0 ++ .start (.rotate 5 ⟨none, none⟩) ::
      answers 1 [7, 0, 8, 0, 2, 0, 0, 0, 0, 0, 0, 0, 0, 0, 3, 0])
    (fun s => s.procs.length = 2 ∧ (Db.token s.db 5).any (·.sessionId = 11) ∧
      (perform (machine sampleConfig) uninterrupted (.start (.rotate 5 ⟨none, none⟩) ::
        answers 2 [9, 0, 10, 0, 4, 0, 0, 0, 0, 0, 0, 0, 0, 0]) s).any
          fun t => (t.procs[2]?).any (reports 5))
    interrupted_of_uninterrupted (by decide +kernel)
  obtain ⟨hlength, htoken, hrest⟩ := of_decide_eq_true hcheck
  obtain ⟨t, hrun', hreports⟩ := exists_run _ _ interrupted_of_uninterrupted hrest
  obtain ⟨u, hu, hid⟩ := (Option.any_eq_true _ _).mp htoken
  obtain ⟨p, hp, hreports⟩ := (Option.any_eq_true _ _).mp hreports
  obtain ⟨⟨metadata, hop⟩, hprog⟩ := of_reports hreports
  have hbegun : Unbegun s 2 := by
    intro q hq
    have hlt := (List.getElem?_eq_some_iff.mp hq).1
    omega
  obtain ⟨x, hx, hcause⟩ := (sessions_end_for_cause sampleStart_idle sampleStart_families
    sampleStart_unspent hrun hrun').2 2 p 5 metadata u replayed hbegun hu hp hop hprog (.inl rfl)
  rw [of_decide_eq_true hid] at hx hcause
  exact ⟨t, p, x, hp, hprog, hx, hcause⟩

end Sample
end BlocTrust.Identity
