import BlocTrust.Identity.TokenStore

/-!
Live sessions in every run.
A commit leaves the tokens of a session as they were, gives a new session its one token, or
replaces the current token of a session by the next.
-/
namespace BlocTrust.Identity

open ReadCommitted Tables Log

variable {cfg : Config} {db : Db} {p : Process}

section Kept

/-- A session that keeps its tokens, its current one and its counter stays live. -/
theorem Live.same {db' : Db} {id : Id} {x y : Session} (h : Live db id x)
    (hcurrent : y.refreshTokenHash = x.refreshTokenHash)
    (hcounter : y.rotationCounter = x.rotationCounter)
    (htokens : ∀ hash t, t.sessionId = id →
      (db'.token hash = some t ↔ db.token hash = some t)) : Live db' id y where
  current := by
    obtain ⟨t, ht, hid, hunused, hunrevoked⟩ := h.current
    rw [hcurrent]
    exact ⟨t, (htokens _ t hid).mpr ht, hid, hunused, hunrevoked⟩
  others hash t ht hid hne := h.others hash t ((htokens hash t hid).mp ht) hid (hcurrent ▸ hne)
  counter := by
    rw [hcounter, h.counter]
    refine ((List.perm_ext_iff_of_nodup (nodup_usedTokens id) (nodup_usedTokens id)).mpr
      fun hash => ?_).length_eq
    rw [mem_usedTokens, mem_usedTokens]
    constructor
    · rintro ⟨t, ht, hid, hused⟩
      exact ⟨t, (htokens hash t hid).mpr ht, hid, hused⟩
    · rintro ⟨t, ht, hid, hused⟩
      exact ⟨t, (htokens hash t hid).mp ht, hid, hused⟩

variable (h : ProcOk (machine cfg) (conduct cfg) Legal db p) (hobs : store.Observed db p)
  (hdue : Due p.calls) {id : Id} {x y : Session}

include h hobs hdue

/-- The tokens of a session stay when a transaction neither renews nor revokes it. -/
theorem tokens_kept (hfor : ∀ hash, ¬ TokenFor p hash id)
    (hy : Db.session (p.writes ++ db) id = some y) (hlive : y.revokedAt = none) {hash : Digest}
    {t : SessionRefreshToken} (hid : t.sessionId = id) :
    Db.token (p.writes ++ db) hash = some t ↔ db.token hash = some t := by
  have hback : ∀ t, t.sessionId = id → Db.token (p.writes ++ db) hash = some t →
      db.token hash = some t := by
    intro t hid ht
    cases token_after h ht with
    | kept hrow hfree => exact hrow
    | made hmade =>
        obtain ⟨-, -, hnew⟩ := made_token h hmade
        exact absurd (hid ▸ hnew) (hfor hash)
    | consumed u now hrow hdid htu =>
        obtain ⟨new, csrf, now', metadata, hrotated⟩ := rotated_of_consumed h hdue hdid hrow
        have huid : u.sessionId = id := by
          rw [htu] at hid
          exact hid
        rw [huid] at hrotated
        exact absurd (.rotated csrf now' metadata hrotated) (hfor new)
    | revoked u now hrow hdid htu =>
        obtain ⟨z, hz, hrevoked⟩ := revoked_owner h hobs hdid hrow
        have huid : u.sessionId = id := by
          rw [htu] at hid
          exact hid
        rw [huid] at hz
        cases hy.symm.trans hz
        exact absurd hlive hrevoked
  refine ⟨hback t hid, fun ht => ?_⟩
  obtain ⟨u, hu, hkept⟩ := (carries_of_suffix h.view (List.suffix_append _ _)).token ht
  cases ht.symm.trans (hback u (hkept.sessionId.trans hid) hu)
  exact hu

end Kept

section Renewed

variable (h : ProcOk (machine cfg) (conduct cfg) Legal db p) {id : Id} {hash : Digest}
  {t : SessionRefreshToken} {x : Session}

include h

theorem made_final (hmade : Made p.calls (.token hash) t) :
    Db.token (p.writes ++ db) hash = some t := by
  obtain ⟨newer, older, rows, base, hexec⟩ := exists_executed setup h hmade
  have hran := hexec.ran
  cases hran with
  | inserted hfresh hentries hcheck =>
      exact Executed.final_row setup h hexec rfl (row_cons_self ..)

/-- A new session has its one token. -/
theorem live_created (hI : TokenStore db) (hdue : Due p.calls)
    (hmade : Made p.calls (.session id) x) (hfresh : db.session id = none) :
    Live (p.writes ++ db) id x := by
  obtain ⟨newer, older, rows, base, hexec⟩ := exists_executed setup h hmade
  have hnew : NewSession p.op (older.map Event.call) x := hexec.before.2
  obtain ⟨t, ht, hid⟩ := hdue.created id x hmade
  obtain ⟨hunused, hunrevoked, -⟩ := made_token h ht
  -- the session had no tokens
  have hnone : ∀ hash u, db.token hash = some u → u.sessionId ≠ id := by
    rintro hash u hu rfl
    obtain ⟨y, hy⟩ := hI.owner hash u hu
    cases hfresh.symm.trans hy
  have honly : ∀ hash u, Db.token (p.writes ++ db) hash = some u → u.sessionId = id →
      hash = x.refreshTokenHash := by
    intro hash u hu huid
    cases token_after h hu with
    | kept hrow hfree => exact absurd huid (hnone hash u hrow)
    | made hmade' => exact made_token_unique h hmade' ht
    | consumed v now hrow hdid huv =>
        rw [huv] at huid
        exact absurd huid (hnone hash v hrow)
    | revoked v now hrow hdid huv =>
        rw [huv] at huid
        exact absurd huid (hnone hash v hrow)
  refine ⟨⟨t, made_final h ht, hid, hunused, hunrevoked⟩, fun hash u hu huid hne => ?_, ?_⟩
  · exact absurd (honly hash u hu huid) hne
  · rw [hnew.fresh.2.1, eq_comm, List.length_eq_zero_iff, List.eq_nil_iff_forall_not_mem]
    intro hash hmem
    obtain ⟨u, hu, huid, hused⟩ := mem_usedTokens.mp hmem
    have hsame := honly hash u hu huid
    subst hsame
    cases hu.symm.trans (made_final h ht)
    exact hused hunused

/-- A rotation replaces the current token of its session. -/
theorem live_rotated (hdue : Due p.calls) {csrf : Digest} {now : Time} {metadata : RequestMetadata}
    (hdid : Did p.calls (.session id) (.rotated hash csrf now metadata) 1) (hlive : Live db id x) :
    Live (p.writes ++ db) id (SessionChange.apply (.rotated hash csrf now metadata) x) := by
  obtain ⟨old, u, hrotation⟩ := rotation h hdid
  obtain ⟨used, hconsumed⟩ := hrotation.consumed
  obtain ⟨t, ht, hid⟩ := hdue.rotated id hash csrf now metadata hdid
  obtain ⟨hunused, hunrevoked, -⟩ := made_token h ht
  obtain ⟨u', hu', -, hafter⟩ := did_update setup h (k := .token old) rfl hconsumed
  cases hrotation.row.symm.trans hu'
  have hcases : ∀ hash' v, Db.token (p.writes ++ db) hash' = some v → v.sessionId = id →
      hash' = hash ∨ hash' = old ∧ v.usedAt ≠ none ∨ hash' ≠ old ∧ db.token hash' = some v := by
    intro hash' v hv hvid
    cases token_after h hv with
    | kept hrow hfree =>
        refine .inr (.inr ⟨?_, hrow⟩)
        rintro rfl
        obtain ⟨newer, older, rows, base, hexec⟩ := exists_executed setup h hconsumed
        exact hfree (hexec.written (hexec.wrote (.inr ⟨_, rfl⟩)))
    | made hmade => exact .inl (made_token_unique h hmade ht)
    | consumed w now' hrow hdid' hvw =>
        refine .inr (.inl ⟨hrotation.consumed_eq h hdid', ?_⟩)
        rw [hvw]
        exact Option.some_ne_none now'
    | revoked w now' hrow hdid' hvw =>
        obtain ⟨newer, older, rows, base, hexec⟩ := exists_executed setup h hdid'
        obtain ⟨scope, hashes, hsaw, -⟩ := hexec.before.2
        obtain ⟨mid, older', rows', base', hsplit, hscan⟩ := Executed.earlier setup h hexec hsaw
        have hsessions : SessionsRevoked (older'.map Event.call) scope := hscan.before.2
        obtain ⟨ids, hsaw', -⟩ := hsessions
        exact absurd (hscan.calls_subset hsaw') (no_scan_of_consumed h hconsumed)
  have hcurrent : old = x.refreshTokenHash := by
    by_contra hne
    exact hlive.others old u hrotation.row hrotation.owner hne hrotation.unused
  refine ⟨⟨t, made_final h ht, hid, hunused, hunrevoked⟩, fun hash' v hv hvid hne => ?_, ?_⟩
  · rcases hcases hash' v hv hvid with rfl | ⟨-, hused⟩ | ⟨hother, hrow⟩
    · exact absurd rfl hne
    · exact hused
    · exact hlive.others hash' v hrow hvid (hcurrent ▸ hother)
  · have hfresh : old ∉ db.usedTokens id := by
      intro hmem
      obtain ⟨v, hv, -, hused⟩ := mem_usedTokens.mp hmem
      cases hrotation.row.symm.trans hv
      exact hused hrotation.unused
    have hperm : (Db.usedTokens (p.writes ++ db) id).Perm (old :: db.usedTokens id) := by
      refine (List.perm_ext_iff_of_nodup (nodup_usedTokens id)
        (List.nodup_cons.mpr ⟨hfresh, nodup_usedTokens id⟩)).mpr fun hash' => ?_
      rw [List.mem_cons, mem_usedTokens, mem_usedTokens]
      constructor
      · rintro ⟨v, hv, hvid, hused⟩
        rcases hcases hash' v hv hvid with rfl | ⟨rfl, -⟩ | ⟨-, hrow⟩
        · cases hv.symm.trans (made_final h ht)
          exact absurd hunused hused
        · exact .inl rfl
        · exact .inr ⟨v, hrow, hvid, hused⟩
      · rintro (rfl | ⟨v, hv, hvid, hused⟩)
        · exact ⟨_, hafter, hrotation.owner, Option.some_ne_none used⟩
        · obtain ⟨w, hw, hkept⟩ := (carries_of_suffix h.view (List.suffix_append _ _)).token hv
          exact ⟨w, hw, hkept.sessionId.trans hvid, hkept.usedAt hused⟩
    rw [hperm.length_eq, List.length_cons, ← hlive.counter]
    rfl

end Renewed

section Results

variable (h : ProcOk (machine cfg) (conduct cfg) Legal db p) {id : Id} {hash : Digest}
  {t : SessionRefreshToken} {x y : Session}

include h

/-- A row that a transaction inserts was not there. -/
theorem made_fresh {k : Key} {v : Val k} (hk : k.internal = false) (hmade : Made p.calls k v) :
    row k db = none := by
  obtain ⟨newer, older, rows, base, hexec⟩ := exists_executed setup h hmade
  have hran := hexec.ran
  cases hran with
  | inserted hfresh hentries hcheck =>
      obtain ⟨hview, hbase⟩ := Executed.old_row setup h hexec hk List.mem_cons_self
      rw [← hbase, ← hview]
      exact row_eq_none.mpr hfresh

theorem TokenFor.written (hfor : TokenFor p hash id) : Key.session id ∈ p.writes.keys := by
  obtain ⟨⟨s, out⟩, hcall, hwrote, -⟩ := hfor.wrote
  obtain ⟨newer, older, rows, base, hexec⟩ := exists_executed setup h hcall
  exact hexec.written (hexec.wrote hwrote)

theorem newTokens_commit : NewTokens db (p.writes ++ db) := by
  refine ⟨p.writes, rfl, fun hash t ht => ?_⟩
  cases token_after h ht with
  | kept hrow hfree => exact .inl ⟨t, hrow⟩
  | made hmade =>
      obtain ⟨-, -, hfor⟩ := made_token h hmade
      exact .inr (hfor.written h)
  | consumed u now hrow hdid htu => exact .inl ⟨u, hrow⟩
  | revoked u now hrow hdid htu => exact .inl ⟨u, hrow⟩

theorem owner_commit (hI : TokenStore db) (ht : Db.token (p.writes ++ db) hash = some t) :
    ∃ x, Db.session (p.writes ++ db) t.sessionId = some x := by
  have hold : ∀ u, db.token hash = some u → u.sessionId = t.sessionId →
      ∃ x, Db.session (p.writes ++ db) t.sessionId = some x := by
    intro u hu hid
    obtain ⟨x, hx⟩ := hI.owner hash u hu
    obtain ⟨y, hy, -⟩ := (carries_of_suffix h.view (List.suffix_append _ _)).session hx
    exact ⟨y, hid ▸ hy⟩
  cases token_after h ht with
  | kept hrow hfree => exact hold t hrow rfl
  | made hmade =>
      obtain ⟨-, -, hfor⟩ := made_token h hmade
      obtain ⟨x, hx⟩ := exists_row_of_mem_keys (hfor.written h)
      exact ⟨x, row_append_of_row _ hx⟩
  | consumed u now hrow hdid htu => exact hold u hrow (by rw [htu])
  | revoked u now hrow hdid htu => exact hold u hrow (by rw [htu])

variable (hobs : store.Observed db p) (hdue : Due p.calls) (hI : TokenStore db)

include hdue hI

include hobs in
theorem live_commit (hx : Db.session (p.writes ++ db) id = some x) (hlive : x.revokedAt = none) :
    Live (p.writes ++ db) id x := by
  have hcommitted : Committed tables client (conduct cfg) db p (.session id) x :=
    commit_row setup h rfl hx
  cases hcommitted with
  | kept hfree hrow =>
      have hfor : ∀ hash, ¬ TokenFor p hash id := fun hash hfor => hfree (hfor.written h)
      exact (hI.live id x hrow hlive).same rfl rfl fun hash t hid =>
        tokens_kept h hobs hdue hfor hx hlive hid
  | made newer older rows base hexec hfresh hmem =>
      exact live_created h hI hdue hexec.call (row_eq_none.mpr hfresh)
  | changed newer older rows base c old hexec hold hbase happlies hnew hmem =>
      subst hnew
      cases c with
      | revoked now => cases hlive
      | rotated hash csrf now metadata =>
          exact live_rotated h hdue hexec.call (hI.live id old hold hlive)
      | verified now =>
          have hfor : ∀ hash, ¬ TokenFor p hash id := by
            intro hash hfor
            obtain ⟨csrf, now', metadata, heq⟩ := hfor.only h hexec.call
            cases heq
          exact (hI.live id old hold hlive).same rfl rfl fun hash t hid =>
            tokens_kept h hobs hdue hfor hx hlive hid

include hobs in
theorem revoked_commit (hx : Db.session (p.writes ++ db) id = some x)
    (hrevoked : x.revokedAt ≠ none) (ht : Db.token (p.writes ++ db) hash = some t)
    (hid : t.sessionId = id) : t.revokedAt ≠ none := by
  -- a session that was revoked before has no new tokens
  have hbefore : ∀ y, db.session id = some y → y.revokedAt ≠ none → t.revokedAt ≠ none := by
    intro y hy hyrevoked
    have hold : ∀ u, db.token hash = some u → u.sessionId = id → t.revokedAt ≠ none := by
      intro u hu huid
      obtain ⟨v, hv, hkept⟩ := (carries_of_suffix h.view (List.suffix_append _ _)).token hu
      cases ht.symm.trans hv
      exact hkept.revokedAt (hI.revoked id y hy hyrevoked hash u hu huid)
    cases token_after h ht with
    | kept hrow hfree => exact hold t hrow hid
    | made hmade =>
        obtain ⟨-, -, hfor⟩ := made_token h hmade
        rw [hid] at hfor
        cases hfor with
        | created z hmade' hhash =>
            cases (made_fresh h (k := .session id) rfl hmade').symm.trans hy
        | rotated csrf now metadata hdid =>
            obtain ⟨old, u, hrotation⟩ := rotation h hdid
            exact absurd hrotation.unrevoked
              (hI.revoked id y hy hyrevoked old u hrotation.row hrotation.owner)
    | consumed u now hrow hdid htu => exact hold u hrow (by rw [← hid, htu])
    | revoked u now hrow hdid htu => exact hold u hrow (by rw [← hid, htu])
  have hcommitted : Committed tables client (conduct cfg) db p (.session id) x :=
    commit_row setup h rfl hx
  cases hcommitted with
  | kept hfree hrow => exact hbefore x hrow hrevoked
  | made newer older rows base hexec hfresh hmem =>
      exact absurd (NewSession.fresh hexec.before.2).1 hrevoked
  | changed newer older rows base c old hexec hold hbase happlies hnew hmem =>
      subst hnew
      cases c with
      | revoked now => exact revoked_tokens h hobs hdue hexec.call ht hid
      | rotated new csrf now metadata => exact hbefore old hold hrevoked
      | verified now => exact hbefore old hold hrevoked

omit h hdue in
theorem TokenStore.outside {rows : Db} (hout : ∀ s ∈ rows, Key.outside s.1 = true) :
    TokenStore (rows ++ db) := by
  have hsession : ∀ id, Db.session (rows ++ db) id = db.session id := session_outside hout
  have htoken : ∀ hash, Db.token (rows ++ db) hash = db.token hash := fun hash =>
    outside_row (S := tables) hout rfl
  constructor
  · intro hash t ht
    rw [htoken] at ht
    rw [hsession]
    exact hI.owner hash t ht
  · intro id x hx hlive
    rw [hsession] at hx
    exact (hI.live id x hx hlive).same rfl rfl fun hash t _ => by rw [htoken]
  · intro id x hx hrevoked hash t ht hid
    rw [hsession] at hx
    rw [htoken] at ht
    exact hI.revoked id x hx hrevoked hash t ht hid

end Results

section Runs

/-- Revocations look for tokens when they have left no session of their scope unrevoked. -/
def complete (s : System) : SystemAction → Prop
  | .exec i _ => ∀ p q next, s.procs[i]? = some p → p.prog = .stmt q next →
      Complete p.current s.db q
  | _ => True

variable {s₀ s : System}

theorem store_respects : store.Respects (E := Failure) (R := Response) complete :=
  ⟨fun _ _ _ => trivial, fun _ _ _ p q next hok hp hq => hok p q next hp hq⟩

theorem store_sound : store.Sound (machine cfg) (conduct cfg) Legal complete s₀ where
  refl db := ⟨.refl db, .refl db⟩
  trans _ _ _ h h' := ⟨h.1.trans h'.2 h'.1, h.2.trans h'.2⟩
  keep _ _ _ _ _ _ _ _ := trivial
  commit _ _ _ _ _ _ hq h hobs hinv := by
    have hdue := due_of_commit h hq
    refine ⟨⟨fun _ _ ht => owner_commit h hinv ht,
      fun _ _ hx hlive => live_commit h hobs hdue hinv hx hlive,
      fun _ _ hx hrevoked _ _ ht hid => revoked_commit h hobs hdue hinv hx hrevoked ht hid⟩,
      ⟨newTokens_commit h, carries_of_suffix h.view (List.suffix_append _ _)⟩, fun _ _ => trivial⟩
  external db rows hc hout hinv := by
    refine ⟨TokenStore.outside hinv hout, ⟨rows, rfl, fun hash t ht => .inl ⟨t, ?_⟩⟩,
      carries_of_suffix hc (List.suffix_append _ _)⟩
    have hsame : Db.token (rows ++ db) hash = Db.token db hash :=
      outside_row (S := tables) hout rfl
    exact hsame.symm.trans ht

/-- In every run whose revocations leave no session of their scope unrevoked when they look for
tokens, each unrevoked session has one live token, which is its current one, and as many used tokens
as rotations, and a revoked session has no unrevoked token. -/
theorem token_store (h₀ : Idle Legal s₀) (hI : TokenStore s₀.db)
    (h : Run (machine cfg) complete s₀ s) : TokenStore s.db :=
  (store_sound.run store_respects discipline h₀ hI h).1

end Runs

section Sample

/-- Steps that are complete. -/
def completing (s : System) : SystemAction → Bool
  | .start _ => true
  | .exec i _ =>
      match s.procs[i]? with
      | none => true
      | some p =>
          match p.prog with
          | .stmt (.read (.unrevokedTokens scope)) _ =>
              (Db.sessions (p.writes ++ s.db)).all fun (_, x) =>
                scope.covers x = true → x.revokedAt ≠ none
          | _ => true
  | _ => false

theorem complete_of_completing (s : System) (a : SystemAction) (h : completing s a = true) :
    complete s a := by
  cases a with
  | exec i c =>
      rintro p q next hp hprog scope rfl id x hx hcovers
      simp only [completing, hp, hprog] at h
      exact of_decide_eq_true (List.all_eq_true.mp h _ (Db.mem_sessions.mpr hx)) hcovers
  | fault i e => trivial
  | kill i e => trivial
  | start op => trivial
  | env rows => trivial

theorem sampleStart_tokenStore : TokenStore sampleStart.db :=
  ⟨fun _ _ h => (by cases h), fun _ _ h => (by cases h), fun _ _ h => (by cases h)⟩

/-- A login whose token is rotated, and whose session is revoked. -/
theorem token_store_sample : ∃ s : System, TokenStore s.db ∧
    (Db.session s.db 11).any (fun x => x.rotationCounter = 1 ∧ x.revokedAt ≠ none) = true := by
  obtain ⟨s, hrun, hcheck⟩ := exists_run (M := machine sampleConfig) (s := sampleStart)
    (login 0 ++ .start (.rotate 5 ⟨none, none⟩) ::
      answers 1 [7, 0, 8, 0, 2, 0, 0, 0, 0, 0, 0, 0, 0, 0, 3, 0] ++
      .start (.revokeAll 1) :: answers 2 [4, 0, 0, 0, 0, 0, 0, 0])
    (fun s => (Db.session s.db 11).any (fun x => x.rotationCounter = 1 ∧ x.revokedAt ≠ none))
    complete_of_completing (by decide +kernel)
  exact ⟨s, token_store sampleStart_idle sampleStart_tokenStore hrun, hcheck⟩

/-- A login that is committed between the two updates of `revokeAll` keeps its session and loses
its token. -/
theorem login_loses_token : Idle Legal sampleStart ∧ TokenStore sampleStart.db ∧
    ∃ s : System, Run (machine sampleConfig) interrupted sampleStart s ∧ ¬ TokenStore s.db := by
  obtain ⟨s, hrun, hcheck⟩ := exists_run (M := machine sampleConfig) (s := sampleStart)
    (.start (.revokeAll 1) :: (answers 0 [1, 0, 0] ++ login 1 ++ answers 0 [0, 0, 0]))
    (fun s => (Db.session s.db 11).any (·.revokedAt = none) &&
      (Db.tokens s.db).all (·.2.revokedAt ≠ none))
    interrupted_of_uninterrupted (by decide +kernel)
  refine ⟨sampleStart_idle, sampleStart_tokenStore, s, hrun, fun hstore => ?_⟩
  obtain ⟨hsession, htokens⟩ := Bool.and_eq_true_iff.mp hcheck
  obtain ⟨x, hx, hlive⟩ := (Option.any_eq_true _ _).mp hsession
  obtain ⟨t, ht, -, -, hunrevoked⟩ := (hstore.live 11 x hx (of_decide_eq_true hlive)).current
  exact of_decide_eq_true (List.all_eq_true.mp htokens _ (Db.mem_tokens.mpr ht)) hunrevoked

end Sample

end BlocTrust.Identity
