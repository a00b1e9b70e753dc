import BlocTrust.Identity.RefreshTokens

/-!
The token store of a session, and what a transaction writes of it.
Rotation consumes the one live token of a session and puts another in its place, under the lock
of the session row.  A revocation locks the session before it looks for its tokens, so it finds
them all; only a session that is committed between its two updates is left without a live token.
-/
namespace BlocTrust.Identity

open ReadCommitted Tables Log

variable {cfg : Config} {db : Db} {p : Process}

section Store

/-- The used tokens of a session. -/
def Db.usedTokens (db : Db) (id : Id) : List Digest :=
  (db.tokens.filter fun (_, t) => t.sessionId = id ∧ t.usedAt ≠ none).map Prod.fst

theorem mem_usedTokens {id : Id} {hash : Digest} :
    hash ∈ db.usedTokens id ↔
      ∃ t, db.token hash = some t ∧ t.sessionId = id ∧ t.usedAt ≠ none := by
  simp [Db.usedTokens]

theorem nodup_usedTokens (id : Id) : (db.usedTokens id).Nodup :=
  (List.filter_sublist.map Prod.fst).nodup (nodup_table ..)

/-- The tokens of a session that is not revoked: the current one, and used ones. -/
structure Live (db : Db) (id : Id) (x : Session) : Prop where
  current : ∃ t, db.token x.refreshTokenHash = some t ∧ t.sessionId = id ∧ t.usedAt = none ∧
    t.revokedAt = none
  others : ∀ hash t, db.token hash = some t → t.sessionId = id → hash ≠ x.refreshTokenHash →
    t.usedAt ≠ none
  counter : x.rotationCounter = (db.usedTokens id).length

structure TokenStore (db : Db) : Prop where
  owner : ∀ hash t, db.token hash = some t → ∃ x, db.session t.sessionId = some x
  live : ∀ id x, db.session id = some x → x.revokedAt = none → Live db id x
  revoked : ∀ id x, db.session id = some x → x.revokedAt ≠ none → ∀ hash t,
    db.token hash = some t → t.sessionId = id → t.revokedAt ≠ none

/-- Tokens come with a new version of their session. -/
def NewTokens (db db' : Db) : Prop :=
  ∃ new, db' = new ++ db ∧ ∀ hash t, db'.token hash = some t →
    (∃ u, db.token hash = some u) ∨ Key.session t.sessionId ∈ new.keys

theorem NewTokens.refl (db : Db) : NewTokens db db := ⟨[], rfl, fun _ t h => .inl ⟨t, h⟩⟩

theorem NewTokens.trans {a b c : Db} (hcarries : Carries b c) (h : NewTokens a b)
    (h' : NewTokens b c) : NewTokens a c := by
  obtain ⟨new, rfl, hnew⟩ := h
  obtain ⟨new', rfl, hnew'⟩ := h'
  refine ⟨new' ++ new, (List.append_assoc ..).symm, fun hash t ht => ?_⟩
  rw [keys_append, List.mem_append]
  rcases hnew' hash t ht with ⟨u, hu⟩ | hwritten
  · obtain ⟨v, hv, hkept⟩ := hcarries.token hu
    cases ht.symm.trans hv
    refine (hnew hash u hu).imp_right fun hwritten => .inr ?_
    rw [hkept.sessionId]
    exact hwritten
  · exact .inr (.inl hwritten)

end Store

section Commit

variable (h : ProcOk (machine cfg) (conduct cfg) Legal db p)
  {newer older : List (Event Val Out)} {rows base : Db} {hash : Digest} {t : SessionRefreshToken}

/-- A token of the log after a commit. -/
inductive TokenAfter (db : Db) (p : Process) (hash : Digest) (t : SessionRefreshToken) : Prop
  | kept (hrow : db.token hash = some t) (hfree : Key.token hash ∉ p.writes.keys)
  | made (hmade : Made p.calls (.token hash) t)
  | consumed (u : SessionRefreshToken) (now : Time) (hrow : db.token hash = some u)
      (hdid : Did p.calls (.token hash) (.consumed now) 1) (ht : t = { u with usedAt := some now })
  | revoked (u : SessionRefreshToken) (now : Time) (hrow : db.token hash = some u)
      (hdid : Did p.calls (.token hash) (.revoked now) 1)
      (ht : t = { u with revokedAt := some now })

/-- A new token is that of a new session, or takes the place of the consumed one. -/
inductive TokenFor (p : Process) (hash : Digest) (id : Id) : Prop
  | created (x : Session) (hmade : Made p.calls (.session id) x) (hhash : x.refreshTokenHash = hash)
  | rotated (csrf : Digest) (now : Time) (metadata : RequestMetadata)
      (hdid : Did p.calls (.session id) (.rotated hash csrf now metadata) 1)

/-- What a rotation has consumed. -/
structure Rotation (cfg : Config) (db : Db) (p : Process) (id : Id) (old : Digest)
    (u : SessionRefreshToken) : Prop where
  op : ∃ refreshToken metadata, p.op = .rotate refreshToken metadata ∧
    old = cfg.hashOpaqueToken refreshToken
  consumed : ∃ now, Did p.calls (.token old) (.consumed now) 1
  row : db.token old = some u
  unused : u.usedAt = none
  unrevoked : u.revokedAt = none
  owner : u.sessionId = id

include h

theorem token_after (ht : Db.token (p.writes ++ db) hash = some t) : TokenAfter db p hash t := by
  have hcommitted : Committed tables client (conduct cfg) db p (.token hash) t :=
    commit_row setup h rfl ht
  cases hcommitted with
  | kept hfree hrow => exact .kept hrow hfree
  | made newer older rows base hexec hfresh hmem => exact .made hexec.call
  | changed newer older rows base c old hexec hold hbase happlies hnew hmem =>
      cases c with
      | consumed now => exact .consumed old now hold hexec.call hnew
      | revoked now => exact .revoked old now hold hexec.call hnew

theorem made_token (hmade : Made p.calls (.token hash) t) :
    t.usedAt = none ∧ t.revokedAt = none ∧ TokenFor p hash t.sessionId := by
  obtain ⟨newer, older, rows, base, hexec⟩ := exists_executed setup h hmade
  have hnew : NewToken cfg p.op (older.map Event.call) hash t := hexec.before.2
  obtain ⟨hunused, hunrevoked, hfor, -⟩ := hnew
  refine ⟨hunused, hunrevoked, ?_⟩
  rcases hfor with ⟨x, hx, hhash⟩ | ⟨old, o, x, now, csrf, metadata, -, -, -, hdid⟩
  · exact .created x (hexec.calls_subset hx) hhash
  · exact .rotated csrf now metadata (hexec.calls_subset hdid)

theorem made_token_unique {hash' : Digest} {t' : SessionRefreshToken}
    (hmade : Made p.calls (.token hash) t) (hmade' : Made p.calls (.token hash') t') :
    hash = hash' := by
  have heq := only_once setup h
    (A := fun c => ∃ hash t, c = ⟨.insert (.token hash) t, ()⟩) ?_ hmade hmade' ⟨hash, t, rfl⟩
    ⟨hash', t', rfl⟩
  · cases heq
    rfl
  · rintro cur s out hbefore ⟨hash, t, heq⟩ c hc ⟨hash', t', rfl⟩
    cases heq
    have hnew : NewToken cfg p.op cur hash t := hbefore.2
    exact hnew.2.2.2 _ _ hc

/-- Two writes of a row by a transaction are one. -/
theorem wrote_unique {k : Key} {c c' : Sigma Out} (hk : k.internal = false) (hc : c ∈ p.calls)
    (hc' : c' ∈ p.calls) (hw : Wrote k c) (hw' : Wrote k c') : c = c' := by
  obtain ⟨s, out⟩ := c
  obtain ⟨s', out'⟩ := c'
  obtain ⟨newer, older, rows, base, hexec⟩ := exists_executed setup h hc
  obtain ⟨newer', older', rows', base', hexec'⟩ := exists_executed setup h hc'
  have heq := Executed.unique setup h hexec hexec' hk (hexec.wrote hw) (hexec'.wrote hw')
  exact congrArg Event.call heq

omit h in
/-- The statement that a token is for writes its session. -/
theorem TokenFor.wrote {id : Id} (hfor : TokenFor p hash id) :
    ∃ call ∈ p.calls, Wrote (.session id) call ∧
      ((∃ x, call = ⟨.insert (.session id) x, ()⟩) ∨ ∃ csrf now metadata,
        call = ⟨.update (.session id) (.rotated hash csrf now metadata), (1 : Nat)⟩) := by
  cases hfor with
  | created x hmade hhash => exact ⟨_, hmade, .inl ⟨x, rfl⟩, .inl ⟨x, rfl⟩⟩
  | rotated csrf now metadata hdid =>
      exact ⟨_, hdid, .inr ⟨_, rfl⟩, .inr ⟨csrf, now, metadata, rfl⟩⟩

/-- A transaction that changes the session of a new token rotates it. -/
theorem TokenFor.only {id : Id} {c : SessionChange} (hfor : TokenFor p hash id)
    (hdid : Did p.calls (.session id) c 1) :
    ∃ csrf now metadata, c = .rotated hash csrf now metadata := by
  obtain ⟨call, hcall, hwrote, hkind⟩ := hfor.wrote
  have heq := wrote_unique h (k := .session id) rfl hcall hdid hwrote (.inr ⟨c, rfl⟩)
  rcases hkind with ⟨x, hmade⟩ | ⟨csrf, now, metadata, hrotated⟩
  · cases hmade.symm.trans heq
  · cases hrotated.symm.trans heq
    exact ⟨csrf, now, metadata, rfl⟩

theorem rotation {id : Id} {csrf : Digest} {now : Time} {metadata : RequestMetadata}
    (hdid : Did p.calls (.session id) (.rotated hash csrf now metadata) 1) :
    ∃ old u, Rotation cfg db p id old u := by
  obtain ⟨newer, older, rows, base, hexec⟩ := exists_executed setup h hdid
  obtain ⟨old, o, x, hpresented, rfl, hconsumed, -⟩ := hexec.before.2
  obtain ⟨refreshToken, metadata', hop, hold⟩ := hpresented.op
  have hconsumed := hexec.calls_subset hconsumed
  obtain ⟨u, hu, happlies, hafter⟩ := did_update setup h (k := .token old) rfl hconsumed
  obtain ⟨hunused, hunrevoked⟩ := of_decide_eq_true happlies
  obtain ⟨mid, older', rows', base', hsplit, hfound⟩ :=
    Executed.earlier setup h hexec hpresented.token
  obtain ⟨v, hv, hkept⟩ := seen_commit h hfound.mem
  cases hafter.symm.trans hv
  exact ⟨old, u, ⟨refreshToken, metadata', hop, hold⟩, ⟨now, hconsumed⟩, hu, hunused, hunrevoked,
    hkept.sessionId⟩

/-- A transaction consumes no other token than the presented one. -/
theorem Rotation.consumed_eq {id : Id} {old : Digest} {u : SessionRefreshToken}
    (hrotation : Rotation cfg db p id old u) {now : Time}
    (hdid : Did p.calls (.token hash) (.consumed now) 1) : hash = old := by
  obtain ⟨newer, older, rows, base, hexec⟩ := exists_executed setup h hdid
  obtain ⟨⟨t, x, hpresented⟩, -⟩ := hexec.before.2
  obtain ⟨refreshToken, metadata, hop, hhash⟩ := hpresented.op
  obtain ⟨refreshToken', metadata', hop', hold⟩ := hrotation.op
  cases hop.symm.trans hop'
  exact hhash.trans hold.symm

theorem no_scan_of_consumed {now : Time} (hdid : Did p.calls (.token hash) (.consumed now) 1)
    {scope : Scope} {ids : List Id} : ¬ Saw p.calls (.unrevokedSessions scope) ids := by
  intro hsaw
  obtain ⟨newer, older, rows, base, hexec⟩ := exists_executed setup h hdid
  obtain ⟨newer', older', rows', base', hscan⟩ := exists_executed setup h hsaw
  rcases hexec.order hscan with heq | hold | hold
  · cases heq
  · have hsilent : Silent (older'.map Event.call) := hscan.before.2.2.1
    rcases hsilent _ hold with ⟨q, out, heq⟩ | ⟨k, c, heq⟩ <;> cases heq
  · have hnone := hexec.before.2.2.2
    exact hnone scope ids hold

variable (hdue : Due p.calls)

include hdue

/-- A consumed token belongs to the session that the transaction rotates. -/
theorem rotated_of_consumed {u : SessionRefreshToken} {now : Time}
    (hdid : Did p.calls (.token hash) (.consumed now) 1) (hu : db.token hash = some u) :
    ∃ new csrf now metadata,
      Did p.calls (.session u.sessionId) (.rotated new csrf now metadata) 1 := by
  obtain ⟨id, new, csrf, metadata, hrotated⟩ := hdue.consumed hash now hdid
  obtain ⟨old, v, hrotation⟩ := rotation h hrotated
  have hsame : hash = old := hrotation.consumed_eq h hdid
  subst hsame
  cases hu.symm.trans hrotation.row
  rw [hrotation.owner]
  exact ⟨new, csrf, now, metadata, hrotated⟩

end Commit

section Revocations

/-- When a revocation looks for tokens, it has left no session of its scope unrevoked. -/
def Complete (older : List (Event Val Out)) (db : Db) (q : Stmt) : Prop :=
  ∀ scope, q = .read (.unrevokedTokens scope) → ∀ id x,
    Db.session (writes older ++ db) id = some x → scope.covers x = true → x.revokedAt ≠ none

/-- The token store, and what a transaction knows of it. -/
def store : Account Val Out Op where
  guard _ _ older db q := Complete older db q
  inv := TokenStore
  rel db db' := NewTokens db db' ∧ Carries db db'

variable (h : ProcOk (machine cfg) (conduct cfg) Legal db p) (hobs : store.Observed db p)
  {id : Id} {hash : Digest} {t u : SessionRefreshToken} {x y : Session} {now : Time}

include h

/-- A token that was in the view of a scan is revoked when the transaction commits. -/
theorem scanned_token {scope : Scope} {hashes : List Digest}
    {newer older : List (Event Val Out)} {rows base : Db}
    (hscan : Executed tables client (conduct cfg) p (.read (.unrevokedTokens scope)) hashes newer
      older rows base)
    (hdid : ∀ hash ∈ hashes, ∃ now n, Did p.calls (.token hash) (.revoked now) n)
    (hu : Db.token (writes older ++ base) hash = some u)
    (hx : Db.session (writes older ++ base) u.sessionId = some x)
    (hcovers : scope.covers x = true) :
    ∃ t, Db.token (p.writes ++ db) hash = some t ∧ t.revokedAt ≠ none := by
  by_cases hlive : u.revokedAt = none
  · obtain ⟨⟨choice, hanswer⟩, -⟩ := hscan.ran.answer
    have hmem := (mem_unrevokedTokens hanswer).mpr ⟨u, x, hu, hx, hcovers, hlive⟩
    obtain ⟨now, n, hrevoked⟩ := hdid hash hmem
    refine did_settled setup persists h rfl hrevoked (P := fun t => t.revokedAt ≠ none) ?_
      (fun _ _ hkept => TokenKept.revokedAt hkept) (fun _ _ => Option.some_ne_none now)
      (fun v happlies => of_decide_eq_false happlies)
    intro newer older rows base hexec
    obtain ⟨scope', hashes', hsaw, hmem'⟩ := hexec.before.2
    obtain ⟨mid, older', rows', base', hold, hscan'⟩ := Executed.earlier setup h hexec hsaw
    obtain ⟨⟨choice', hanswer'⟩, -⟩ := hscan'.ran.answer
    obtain ⟨v, -, hv, -⟩ := (mem_unrevokedTokens hanswer').mp hmem'
    obtain ⟨w, hw, -⟩ := Executed.sees persists h hexec hold hv
    exact ⟨w, hw⟩
  · obtain ⟨t, ht, hkept⟩ := (carries_commit h hscan).token hu
    exact ⟨t, ht, hkept.revokedAt hlive⟩

include hobs

/-- The session of a token that a transaction revokes is revoked. -/
theorem revoked_owner (hdid : Did p.calls (.token hash) (.revoked now) 1)
    (hu : db.token hash = some u) :
    ∃ y, Db.session (p.writes ++ db) u.sessionId = some y ∧ y.revokedAt ≠ none := by
  obtain ⟨newer, older, rows, base, hexec⟩ := exists_executed setup h hdid
  obtain ⟨scope, hashes, hsaw, hmem⟩ := hexec.before.2
  obtain ⟨mid, older', rows', base', hold, hscan⟩ := Executed.earlier setup h hexec hsaw
  obtain ⟨⟨choice, hanswer⟩, -⟩ := hscan.ran.answer
  obtain ⟨v, x, hv, hx, hcovers, -⟩ := (mem_unrevokedTokens hanswer).mp hmem
  have hcomplete : Complete older' base' (.read (.unrevokedTokens scope)) :=
    hobs.guard _ _ _ hscan.current
  have hrevoked := hcomplete scope rfl _ x hx hcovers
  obtain ⟨y, hy, hkept⟩ := (carries_commit h hscan).session hx
  obtain ⟨w, hw, hkeptToken⟩ := (carries_commit h hscan).token hv
  obtain ⟨old, hrow, -, hafter⟩ := did_update setup h (k := .token hash) rfl hdid
  cases hu.symm.trans hrow
  cases hw.symm.trans hafter
  rw [← hkeptToken.sessionId] at hy
  exact ⟨y, hy, hkept.revokedAt hrevoked⟩

/-- No token of a session that a transaction revokes stays unrevoked. -/
theorem revoked_tokens (hdue : Due p.calls) (hdid : Did p.calls (.session id) (.revoked now) 1)
    (ht : Db.token (p.writes ++ db) hash = some t) (hid : t.sessionId = id) :
    t.revokedAt ≠ none := by
  obtain ⟨newer, older, rows, base, hexec⟩ := exists_executed setup h hdid
  obtain ⟨⟨scope, ids, hsaw, hmem⟩, hnoscan⟩ := hexec.before.2
  obtain ⟨mid₀, older₀, rows₀, base₀, hold₀, hscan₀⟩ := Executed.earlier setup h hexec hsaw
  obtain ⟨hashes, hsaw', hrevoked⟩ := (hdue.revoked scope ids hscan₀.call).tokens
  obtain ⟨newer', older', rows', base', hscan⟩ := exists_executed setup h hsaw'
  -- the session is locked before the scan of the tokens
  have hbefore : (⟨.update (.session id) (.revoked now), (1 : Nat)⟩ : Sigma Out) ∈
      older'.map Event.call := by
    rcases hexec.order hscan with heq | hold | hold
    · cases heq
    · exact hold
    · exact absurd hold (hnoscan scope hashes)
  obtain ⟨mid, older'', rows'', base'', hold, hexec'⟩ := Executed.earlier setup h hscan hbefore
  have hlocked : Key.session id ∈ rows''.keys := hexec'.wrote (.inr ⟨_, rfl⟩)
  have hmember : (⟨.update (.session id) (.revoked now), 1, rows'', base''⟩ : Event Val Out) ∈
      older' := by
    rw [hold]
    exact List.mem_append_right _ List.mem_cons_self
  -- so the scan sees it, and it is covered
  obtain ⟨⟨choice₀, hanswer₀⟩, -⟩ := hscan₀.ran.answer
  obtain ⟨x₀, hx₀, hcovers₀, -⟩ := (mem_unrevokedSessions hanswer₀).mp hmem
  have hsession : ∃ x, Db.session (writes older' ++ base') id = some x ∧ scope.covers x = true := by
    have hrun := hexec'.ran
    cases hrun with
    | updated old hrow happlies hcheck =>
        obtain ⟨w, hw, hkept⟩ := Executed.sees persists h hscan hold hrow
        obtain ⟨z, hz, hkept₀⟩ := (carries_commit h hscan₀).session hx₀
        obtain ⟨z', hz', hkept'⟩ := (carries_commit h hscan).session hw
        cases hz.symm.trans hz'
        refine ⟨w, hw, ?_⟩
        rw [← covers_kept hkept', covers_kept hkept₀]
        exact hcovers₀
  obtain ⟨x, hx, hcovers⟩ := hsession
  -- a token that the scan did not see would have come with a new version of the session
  have hseen : ∀ u, db.token hash = some u → u.sessionId = id →
      ∃ v, Db.token (writes older' ++ base') hash = some v ∧ v.sessionId = id := by
    intro u hu huid
    obtain ⟨new, hdb, hnew⟩ := (hobs.rel _ hscan.mem).1
    obtain ⟨rest, hrest, hfree⟩ := h.locked_since hscan.current hmember hlocked
    have hsame : new = rest := List.append_cancel_right (hdb.symm.trans hrest)
    rcases hnew hash u hu with ⟨v, hv⟩ | hwritten
    · have hchain := h.view_chain hscan.current
      obtain ⟨w, hw, hkept⟩ :=
        (carries_of_suffix hchain (List.suffix_append (writes older') base')).token hv
      obtain ⟨u', hu', hkept'⟩ := (hobs.rel _ hscan.mem).2.token hv
      cases hu.symm.trans hu'
      exact ⟨w, hw, hkept.sessionId.trans (hkept'.sessionId.symm.trans huid)⟩
    · rw [huid, hsame] at hwritten
      exact absurd hwritten hfree
  have hsettled : ∀ u, db.token hash = some u → u.sessionId = id → t.revokedAt ≠ none := by
    intro u hu huid
    obtain ⟨v, hv, hvid⟩ := hseen u hu huid
    obtain ⟨t', ht', hrevoked'⟩ := scanned_token h hscan hrevoked hv (hvid ▸ hx) hcovers
    cases ht.symm.trans ht'
    exact hrevoked'
  cases token_after h ht with
  | kept hrow hfree => exact hsettled t hrow hid
  | consumed u now' hrow hconsumed htu =>
      exact absurd hscan₀.call (no_scan_of_consumed h hconsumed)
  | revoked u now' hrow hrevoked' htu =>
      rw [htu]
      exact Option.some_ne_none now'
  | made hmade =>
      obtain ⟨-, -, hfor⟩ := made_token h hmade
      rw [hid] at hfor
      obtain ⟨csrf, now', metadata, heq⟩ := hfor.only h hdid
      cases heq

end Revocations

end BlocTrust.Identity
