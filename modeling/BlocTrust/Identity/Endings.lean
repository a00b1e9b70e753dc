import BlocTrust.Identity.Conduct
import BlocTrust.ReadCommitted.Outcomes

/-!
What a call has committed when it returns or throws.
A rotation that returns has consumed its token; one that reports a replay has revoked the family;
a revocation has revoked what it found; an authenticated call has seen its session unrevoked.
-/
namespace BlocTrust.Identity

open ReadCommitted Tables Prog

variable {cfg : Config}

section Faults

/-- The errors of the database, also for a transaction that a deadlock or a crash aborts. -/
def Failure.database : Failure → Prop
  | uniqueViolation | foreignKeyViolation | recordNotFound | unavailable _ => True
  | _ => False

/-- Statements, commits and processes fail with errors of the database. -/
def interrupted (_ : System) : SystemAction → Prop
  | .fault _ e => e.database
  | .kill _ e => e.database
  | _ => True

theorem check_database {k : Key} {db : Db} {old : Option (Val k)} {v : Val k} {e : Failure}
    (h : check k db old v = .error e) : e.database := by
  unfold check at h
  split at h
  all_goals first
    | (split at h
       · cases h
       · cases h
         trivial)
    | cases h

theorem faults : Faults (machine cfg) interrupted Failure.database where
  engine q c view e h := by
    have h : tables.engine client q c view = some (.error e) := h
    cases q with
    | read q =>
        obtain ⟨out, -, heq⟩ := Option.map_eq_some_iff.mp h
        cases heq
    | insert k v =>
        have h : tables.insertRow k v view = .error e := Option.some.inj h
        unfold insertRow at h
        split at h
        · cases h
          trivial
        · cases hcheck : tables.check k view none v with
          | ok u => simp [hcheck, Except.map] at h
          | error e' =>
              simp only [hcheck, Except.map, Except.error.injEq] at h
              exact h ▸ check_database hcheck
    | update k c =>
        have h : tables.updateRow k c view = .error e := Option.some.inj h
        unfold updateRow at h
        split at h
        · cases h
        · rename_i old hrow
          split at h
          · split at h
            · cases h
              trivial
            · cases hcheck : tables.check k view (some old) (tables.apply k c old) with
              | ok u => simp [hcheck, Except.map] at h
              | error e' =>
                  simp only [hcheck, Except.map, Except.error.injEq] at h
                  exact h ▸ check_database hcheck
          · cases h
    | call x =>
        have h : reply c view x = some (.error e) := h
        cases x with
        | clock => cases h
        | randomToken => cases h
        | randomUUID =>
            simp only [reply] at h
            split at h <;> cases h
  fault _ _ _ h := h
  kill _ _ _ h := h

end Faults

def replayed : Failure := .unauthorized "REFRESH_TOKEN_REUSED"

/-- What a call has committed when it returns. -/
def Returned (cfg : Config) (op : Op) (past : Calls Out) : Prop :=
  match op with
  | .rotate refreshToken _ => ∃ now, Did past (.token (cfg.hashOpaqueToken refreshToken))
      (.consumed now) 1
  | .revoke sessionId => ∃ found, Saw past (.findSession sessionId) found ∧
      ∀ x, found = some x → ∃ ids, Saw past (.unrevokedSessions (.family x.tokenFamilyId)) ids
  | .revokeAll userId => ∃ ids, Saw past (.unrevokedSessions (.user userId)) ids
  | op => ∀ accessToken, op.accessToken = some accessToken → ∃ payload x,
      cfg.openAccessToken accessToken = some payload ∧
        Saw past (.findSession payload.sessionId) (some x) ∧ x.revokedAt = none

/-- A rotation that reports a replay has found the family and scanned it. -/
def Reported (cfg : Config) (op : Op) (e : Failure) (past : Calls Out) : Prop :=
  e = replayed → ∃ refreshToken metadata t x ids, op = .rotate refreshToken metadata ∧
    Saw past (.findToken (cfg.hashOpaqueToken refreshToken)) (some t) ∧
    Saw past (.findSession t.sessionId) (some x) ∧
    Saw past (.unrevokedSessions (.family x.tokenFamilyId)) ids

theorem Failure.database.ne_replayed {e : Failure} (h : e.database) : e ≠ replayed := by
  rintro rfl
  exact h

variable {past cur : Calls Out} {op : Op}

theorem update_plain (k : Key) (c : Change k) : (update k c).Plain fun _ => True :=
  (plain_sql _).mpr trivial

theorem query_plain (q : Query) : (query q).Plain fun _ => True := (plain_sql _).mpr trivial

section Throws

variable {P : Failure → Prop}

theorem update_throws (k : Key) (c : Change k) : (update k c).Throws P := throws_sql _

theorem insert_throws (k : Key) (v : Val k) : (insert k v).Throws P := throws_sql _

theorem query_throws (q : Query) : (query q).Throws P := throws_sql _

theorem call_throws (x : External) : (call x).Throws P := throws_sql _

theorem external_throws (x : External) : (external x).Throws P := throws_auto _

theorem read_throws (q : Query) : (read q).Throws P := throws_auto _

end Throws

/-- A revocation goes on from its scan of the sessions and reports errors of the database. -/
theorem revokeScope_ends {scope : Scope} {now : Time}
    {Q : Unit → Calls Out → Calls Out → Prop} {F : Failure → Calls Out → Calls Out → Prop}
    (hF : ∀ e past cur, e.database → F e past cur)
    (hQ : ∀ ids cur', cur ⊆ cur' → Saw cur' (.unrevokedSessions scope) ids → Q () past cur') :
    (SessionService.revokeScope scope now).ends Failure.database Q F past cur := by
  rw [SessionService.revokeScope, ends_bind]
  refine ends_sql _ (fun ids => ?_) fun e => hF e past []
  have hplain : (each (fun id => update (.session id) (.revoked now)) ids >>= fun _ =>
      query (.unrevokedTokens scope) >>= fun tokens =>
        each (fun tokenHash => update (.token tokenHash) (.revoked now)) tokens >>= fun _ =>
          pure () : Program Unit).Plain fun _ => True :=
    (plain_each (fun _ => update_plain _ _) _).bind fun _ => (query_plain _).bind fun _ =>
      (plain_each (fun _ => update_plain _ _) _).bind fun _ => plain_pure _
  have hthrows : (each (fun id => update (.session id) (.revoked now)) ids >>= fun _ =>
      query (.unrevokedTokens scope) >>= fun tokens =>
        each (fun tokenHash => update (.token tokenHash) (.revoked now)) tokens >>= fun _ =>
          pure () : Program Unit).Throws Failure.database :=
    throws_bind (throws_each (fun _ => update_throws _ _) _) fun _ =>
      throws_bind (query_throws _) fun _ =>
        throws_bind (throws_each (fun _ => update_throws _ _) _) fun _ => trivial
  refine ends_mono ?_ (fun e past cur => hF e past cur)
    (hplain.ends hthrows (fun _ h => h) past (⟨.read (.unrevokedSessions scope), ids⟩ :: cur))
  rintro _ past' cur' ⟨rfl, hsub⟩
  exact hQ ids cur' (fun _ hm => hsub (List.mem_cons_of_mem _ hm)) (hsub List.mem_cons_self)

/-- What the transaction of a rotation has done with the presented token. -/
def Stored (suppliedHash : Digest) (cur : Calls Out) : SessionService.RotateResult → Prop
  | .invalid => True
  | .reused => ∃ t x ids, Saw cur (.findToken suppliedHash) (some t) ∧
      Saw cur (.findSession t.sessionId) (some x) ∧
      Saw cur (.unrevokedSessions (.family x.tokenFamilyId)) ids
  | .rotated _ _ => ∃ now, Did cur (.token suppliedHash) (.consumed now) 1

theorem stored_reused {suppliedHash : Digest} {t : SessionRefreshToken} {x : Session}
    {ids : List Id} {cur cur' : Calls Out} (hsub : cur ⊆ cur')
    (htoken : Saw cur (.findToken suppliedHash) (some t))
    (hsession : Saw cur (.findSession t.sessionId) (some x))
    (hscan : Saw cur' (.unrevokedSessions (.family x.tokenFamilyId)) ids) :
    Stored suppliedHash cur' .reused := ⟨t, x, ids, hsub htoken, hsub hsession, hscan⟩

theorem updateFound_ends {k : Key} {c : Change k} {Q : Unit → Calls Out → Calls Out → Prop}
    {F : Failure → Calls Out → Calls Out → Prop} (hF : ∀ e cur, e.database → F e past cur)
    (hQ : ∀ n : Nat, Q () past (⟨.update k c, n⟩ :: cur)) :
    (updateFound k c).ends Failure.database Q F past cur := by
  rw [updateFound, ends_bind]
  refine ends_sql _ (fun n => ?_) fun e he => hF e [] he
  exact ends_require _ _ (fun _ => hQ n) fun _ => hF _ _ trivial

theorem rotateStored_ends {suppliedHash newRefreshHash newCsrfHash : Digest}
    {metadata : RequestMetadata} {now : Time} {F : Failure → Calls Out → Calls Out → Prop}
    (hF : ∀ e past cur, e.database → F e past cur) :
    (SessionService.rotateStored suppliedHash newRefreshHash newCsrfHash metadata now).ends
      Failure.database (fun result _ cur => Stored suppliedHash cur result) F past [] := by
  rw [SessionService.rotateStored, ends_bind]
  refine ends_sql _ (fun found => ?_) fun e => hF e _ _
  cases found with
  | none => trivial
  | some t =>
      simp only
      rw [ends_bind]
      refine ends_sql _ (fun found => ?_) fun e => hF e _ _
      rw [ends_bind]
      refine ends_orThrow _ _ (fun x hx => ?_) fun _ => hF _ _ _ trivial
      subst hx
      split
      · rw [ends_bind]
        refine revokeScope_ends hF fun ids cur' hsub hscan => ?_
        exact stored_reused hsub (List.mem_cons_of_mem _ List.mem_cons_self) List.mem_cons_self
          hscan
      split
      · rw [ends_bind]
        exact revokeScope_ends hF fun _ _ _ _ => trivial
      rw [ends_bind]
      refine ends_sql _ (fun membership => ?_) fun e => hF e _ _
      rw [ends_bind]
      refine ends_sql _ (fun user => ?_) fun e => hF e _ _
      cases SessionService.admits now user membership with
      | none =>
          simp only
          rw [ends_bind]
          exact revokeScope_ends hF fun _ _ _ _ => trivial
      | some _ =>
          simp only
          rw [SessionService.consume, ends_bind]
          refine ends_sql _ (fun count => ?_) fun e => hF e _ _
          split
          · rename_i hcount
            subst hcount
            rw [ends_bind]
            refine updateFound_ends (fun e _ => hF e _ _) fun n => ?_
            rw [ends_bind]
            refine ends_sql _ (fun _ => ⟨now, ?_⟩) fun e => hF e _ _
            simp
          · rw [ends_bind]
            refine revokeScope_ends hF fun ids cur' hsub hscan => ?_
            exact stored_reused (t := t) (x := x) hsub (by simp) (by simp) hscan

section Programs

theorem bundle_throws {sessionId userId organizationId : Id} {refreshToken csrfToken : Nat}
    {refreshExpiresAt : Time} {P : Failure → Prop} :
    (SessionService.bundle cfg sessionId userId organizationId refreshToken csrfToken
      refreshExpiresAt).Throws P := throws_bind (external_throws _) fun _ => trivial

theorem create_throws {userId organizationId : Id} {metadata : RequestMetadata}
    {P : Failure → Prop} :
    (SessionService.create cfg userId organizationId metadata).Throws P :=
  throws_bind (external_throws _) fun _ => throws_bind (external_throws _) fun _ =>
    throws_bind (external_throws _) fun _ => throws_bind (throws_transaction <|
      throws_bind (call_throws _) fun _ => throws_bind (call_throws _) fun _ =>
        throws_bind (call_throws _) fun _ => throws_bind (insert_throws _ _) fun _ =>
          throws_bind (insert_throws _ _) fun _ => trivial) fun _ => bundle_throws

/-- What is committed stays so while the rest of a program runs. -/
theorem throws_ends {α : Type} {p : Program α} (h : p.Throws (· ≠ replayed)) {Q : Calls Out → Prop}
    {F : Failure → Calls Out → Prop} (hF : ∀ e past', e ≠ replayed → F e past')
    (hQ : ∀ past', past ⊆ past' → Q past') :
    p.ends Failure.database (fun _ past' _ => Q past') (fun e past' _ => F e past') past cur :=
  ends_mono (fun _ past' _ hsub => hQ past' hsub) (fun e past' _ => hF e past')
    (h.ends (fun _ he => he.ne_replayed) past cur)

theorem rotate_ends {refreshToken : Nat} {metadata : RequestMetadata} :
    (SessionService.rotate cfg refreshToken metadata).ends Failure.database
      (fun _ past _ => Returned cfg (.rotate refreshToken metadata) past)
      (fun e past _ => Reported cfg (.rotate refreshToken metadata) e past) [] [] := by
  have hF : ∀ e past (cur : Calls Out), e.database →
      Reported cfg (.rotate refreshToken metadata) e past := fun e _ _ he heq =>
    absurd heq he.ne_replayed
  rw [SessionService.rotate, ends_bind]
  refine ends_auto _ (fun newRefreshToken => ?_) fun e => hF e _ []
  rw [ends_bind]
  refine ends_auto _ (fun newCsrfToken => ?_) fun e => hF e _ []
  rw [ends_bind]
  refine ends_auto _ (fun now => ?_) fun e => hF e _ []
  rw [ends_bind, ends_transaction]
  refine ends_mono (fun result past cur hstored => ⟨?_, fun e => hF e past []⟩) (fun _ _ _ h => h)
    (rotateStored_ends hF)
  cases result with
  | invalid => exact fun heq => absurd heq (by simp [replayed, SessionService.invalidRefreshSession])
  | reused =>
      obtain ⟨t, x, ids, htoken, hsession, hscan⟩ := hstored
      exact fun _ => ⟨refreshToken, metadata, t, x, ids, rfl, List.mem_append_left _ htoken,
        List.mem_append_left _ hsession, List.mem_append_left _ hscan⟩
  | rotated sessionId session =>
      obtain ⟨now, hdid⟩ := hstored
      refine throws_ends (F := Reported cfg (.rotate refreshToken metadata)) bundle_throws
        (fun e _ hne heq => absurd heq hne) fun past' hsub => ?_
      exact ⟨now, hsub (List.mem_append_left _ hdid)⟩

theorem revoke_ends (cfg : Config) {sessionId : Id} {F : Failure → Calls Out → Calls Out → Prop}
    (hF : ∀ e past cur, e.database → F e past cur) :
    (SessionService.revoke sessionId).ends Failure.database
      (fun _ past _ => Returned cfg (.revoke sessionId) past) F [] [] := by
  rw [SessionService.revoke, ends_bind]
  refine ends_auto _ (fun now => ?_) fun e => hF e _ []
  rw [ends_bind]
  refine ends_auto _ (fun found => ?_) fun e => hF e _ []
  cases found with
  | none => exact ⟨none, List.mem_cons_self, by simp⟩
  | some x =>
      simp only
      rw [ends_transaction]
      refine revokeScope_ends (fun e past _ => hF e past []) fun ids cur' hsub hscan =>
        ⟨⟨some x, ?_, fun y hy => ⟨ids, ?_⟩⟩, fun e => hF e _ []⟩
      · exact List.mem_append_right _ List.mem_cons_self
      · cases hy
        exact List.mem_append_left _ hscan

theorem revokeAll_ends (cfg : Config) {userId : Id} {F : Failure → Calls Out → Calls Out → Prop}
    (hF : ∀ e past cur, e.database → F e past cur) :
    (SessionService.revokeAll userId).ends Failure.database
      (fun _ past _ => Returned cfg (.revokeAll userId) past) F [] [] := by
  rw [SessionService.revokeAll, ends_bind]
  refine ends_auto _ (fun now => ?_) fun e => hF e _ []
  rw [ends_transaction]
  exact revokeScope_ends (fun e past _ => hF e past []) fun ids cur' hsub hscan =>
    ⟨⟨ids, List.mem_append_left _ hscan⟩, fun e => hF e _ []⟩

/-- The session of an access token was found, and not revoked. -/
def Opened (cfg : Config) (accessToken : Text) (past : Calls Out) : Prop :=
  ∃ payload x, cfg.openAccessToken accessToken = some payload ∧
    Saw past (.findSession payload.sessionId) (some x) ∧ x.revokedAt = none

theorem authenticate_ends {accessToken : Text} {Q : AuthContext → Calls Out → Calls Out → Prop}
    (hF : ∀ e past cur, e ≠ replayed → F e past cur)
    (hQ : ∀ auth past, Opened cfg accessToken past → Q auth past []) :
    (SessionService.authenticateAccessToken cfg accessToken).ends Failure.database Q F [] [] := by
  have hF' : ∀ e past (cur : Calls Out), e.database → F e past cur :=
    fun e past cur he => hF e past cur he.ne_replayed
  rw [SessionService.authenticateAccessToken, SessionService.verifyAccessToken, ends_bind,
    ends_bind]
  refine ends_orThrow _ _ (fun payload hpayload => ?_) fun _ => hF _ _ _ (by simp [replayed])
  rw [ends_bind]
  refine ends_auto _ (fun now => ?_) fun e => hF' e _ []
  rw [ends_bind]
  refine ends_require _ _ (fun _ => ?_) fun _ => hF _ _ _ (by simp [replayed])
  show (read (.findSession payload.sessionId) >>= _).ends _ _ _ _ _
  rw [ends_bind]
  refine ends_auto _ (fun found => ?_) fun e => hF' e _ []
  rw [ends_bind]
  refine ends_orThrow _ _ (fun x hx => ?_) fun _ =>
    hF _ _ _ (by simp [replayed, SessionService.invalidAccessSession])
  rw [ends_bind]
  refine ends_auto _ (fun now => ?_) fun e => hF' e _ []
  rw [ends_bind]
  refine ends_require _ _ (fun hlive => ?_) fun _ =>
    hF _ _ _ (by simp [replayed, SessionService.invalidAccessSession])
  rw [ends_bind]
  refine ends_auto _ (fun user => ?_) fun e => hF' e _ []
  rw [ends_bind]
  refine ends_auto _ (fun membership => ?_) fun e => hF' e _ []
  rw [ends_bind]
  refine ends_auto _ (fun now => ?_) fun e => hF' e _ []
  rw [ends_bind]
  refine ends_orThrow _ _ (fun _ _ => hQ _ _ ⟨payload, x, hpayload, ?_, hlive.2.2.1⟩) fun _ =>
    hF _ _ _ (by simp [replayed, SessionService.invalidAccessSession])
  rw [hx]
  simp

section Passkeys

open PasskeyService

variable {auth : AuthContext} {L : Failure → Prop}

theorem replaceChallenge_throws {purpose : PasskeyChallengePurpose} {challenge : Nat} :
    (replaceChallenge auth purpose challenge).Throws L :=
  throws_bind (external_throws _) fun _ => throws_transaction <|
    throws_bind (query_throws _) fun _ =>
      throws_bind (throws_each (fun _ => update_throws _ _) _) fun _ =>
        throws_bind (call_throws _) fun _ =>
          throws_bind (call_throws _) fun _ => insert_throws _ _

variable (hL : ∀ e, e ≠ replayed → L e)

include hL

theorem registrationOptions_throws : (registrationOptions auth).Throws L := by
  refine throws_bind (read_throws _) fun found => throws_bind (throws_orThrow (hL _ ?_))
    fun user => throws_bind (read_throws _) fun credentials => throws_bind ?_ fun _ =>
      throws_bind (external_throws _) fun _ =>
        throws_bind replaceChallenge_throws fun _ => trivial
  · simp [replayed]
  · refine throws_bind (external_throws _) fun _ => throws_bind (external_throws _) fun _ =>
      throws_require (hL _ ?_)
    simp [replayed]

theorem stepUpOptions_throws : (stepUpOptions auth).Throws L := by
  refine throws_bind (read_throws _) fun credentials => throws_bind (throws_require (hL _ ?_))
    fun _ => throws_bind (external_throws _) fun _ =>
      throws_bind replaceChallenge_throws fun _ => trivial
  simp [replayed]

theorem activeChallenge_throws {purpose : PasskeyChallengePurpose} :
    (activeChallenge auth purpose).Throws L := by
  refine throws_bind (external_throws _) fun _ => throws_bind (read_throws _) fun found =>
    throws_orThrow (hL _ ?_)
  simp [replayed]

theorem verifyRegistration_throws {response : RegistrationResponse} {deviceName : Option Text} :
    (verifyRegistration cfg auth response deviceName).Throws L := by
  refine throws_bind (activeChallenge_throws hL) fun found => throws_bind
    (throws_orThrow (hL _ ?_)) fun info => throws_bind (throws_transaction ?_) fun consumed =>
      throws_orThrow (hL _ ?_)
  · simp [replayed, verificationFailed]
  · refine throws_bind (call_throws _) fun _ => throws_bind (call_throws _) fun _ =>
      throws_bind (update_throws _ _) fun count => ?_
    split
    · trivial
    · exact throws_bind (insert_throws _ _) fun _ => trivial
  · simp [replayed, challengeConsumed]

theorem verifyStepUp_throws {response : AuthenticationResponse} :
    (verifyStepUp cfg auth response).Throws L := by
  have hfailed : L verificationFailed := hL _ (by simp [replayed, verificationFailed])
  have hfound : ∀ k c, (updateFound k c).Throws L := fun k c =>
    throws_bind (update_throws k c) fun _ => throws_require (hL _ (by simp [replayed]))
  refine throws_bind (activeChallenge_throws hL) fun found => throws_bind (read_throws _)
    fun stored => throws_bind (throws_orThrow hfailed) fun credential =>
      throws_bind (throws_require hfailed) fun _ => throws_bind (throws_require hfailed) fun _ =>
        throws_bind (throws_orThrow hfailed) fun info => throws_bind (throws_require hfailed)
          fun _ => throws_bind (external_throws _) fun verifiedAt =>
            throws_bind (throws_transaction ?_) fun consumed =>
              throws_bind (throws_require (hL _ ?_)) fun _ => trivial
  · refine throws_bind (update_throws _ _) fun count => ?_
    split
    · trivial
    · exact throws_bind (hfound _ _) fun _ => throws_bind (hfound _ _) fun _ => trivial
  · simp [replayed, challengeConsumed]

end Passkeys

end Programs

theorem authenticated_ends {accessToken : Text} {handler : AuthContext → Program Response}
    {Q : Calls Out → Prop} {F : Failure → Calls Out → Prop}
    (hF : ∀ e past, e ≠ replayed → F e past)
    (hQ : ∀ past, Opened cfg accessToken past → Q past)
    (h : ∀ auth, (handler auth).Throws (· ≠ replayed)) :
    (authenticated cfg accessToken handler).ends Failure.database (fun _ past _ => Q past)
      (fun e past _ => F e past) [] [] := by
  rw [authenticated, ends_bind]
  refine authenticate_ends (fun e past _ => hF e past) fun auth past hopened => ?_
  refine throws_ends (h auth) hF fun past' hsub => hQ past' ?_
  obtain ⟨payload, x, hpayload, hsaw, hlive⟩ := hopened
  exact ⟨payload, x, hpayload, hsub hsaw, hlive⟩

/-- What every call ends in, by errors of the database and its own. -/
theorem program_ends (op : Op) : (program cfg op).ends Failure.database
    (fun _ past _ => Returned cfg op past) (fun e past _ => Reported cfg op e past) [] [] := by
  have hF : ∀ op e past, e ≠ replayed → Reported cfg op e past :=
    fun _ _ _ hne heq => absurd heq hne
  cases op with
  | create userId organizationId metadata =>
      refine throws_ends (throws_bind create_throws fun _ => throws_pure _)
        (fun e past => hF _ e past) fun past' _ => ?_
      intro accessToken heq
      cases heq
  | rotate refreshToken metadata => exact (ends_bind _ _).mpr rotate_ends
  | revoke sessionId =>
      exact (ends_bind _ _).mpr (revoke_ends cfg fun e past _ he => hF _ e past he.ne_replayed)
  | revokeAll userId =>
      exact (ends_bind _ _).mpr (revokeAll_ends cfg fun e past _ he => hF _ e past he.ne_replayed)
  | authenticate accessToken =>
      exact (ends_bind _ _).mpr (authenticate_ends (fun e past _ => hF _ e past)
        fun auth past h accessToken' heq => (Option.some.inj heq) ▸ h)
  | registrationOptions accessToken =>
      exact authenticated_ends (hF _) (fun _ h _ heq => Option.some.inj heq ▸ h)
        fun _ => throws_bind (registrationOptions_throws fun _ h => h) fun _ => throws_pure _
  | verifyRegistration accessToken response deviceName =>
      exact authenticated_ends (hF _) (fun _ h _ heq => Option.some.inj heq ▸ h)
        fun _ => throws_bind (verifyRegistration_throws fun _ h => h) fun _ => throws_pure _
  | stepUpOptions accessToken =>
      exact authenticated_ends (hF _) (fun _ h _ heq => Option.some.inj heq ▸ h)
        fun _ => throws_bind (stepUpOptions_throws fun _ h => h) fun _ => throws_pure _
  | verifyStepUp accessToken response =>
      exact authenticated_ends (hF _) (fun _ h _ heq => Option.some.inj heq ▸ h)
        fun _ => throws_bind (verifyStepUp_throws fun _ h => h) fun _ => throws_pure _

end BlocTrust.Identity
