import BlocTrust.Identity.Challenges

/-!
Passkeys beyond the first.
The options of a registration are issued to a session that has been stepped up, when they find a
passkey of the user; a session is stepped up by a call that verified a passkey of its user.
-/
namespace BlocTrust.Identity

open ReadCommitted Tables

variable {cfg : Config} {ok : System → SystemAction → Prop} {s₀ s s' : System}

section Marks

/-- A call of the session has verified a passkey of the user and marked the session. -/
def Marked (cfg : Config) (s : System) (sessionId userId : Id) : Prop :=
  ∃ (j : Nat) (q : Process) (accessToken : Text) (response : AuthenticationResponse)
    (challenge counter : Nat) (info : AuthenticationInfo) (k : WebAuthnCredential) (now : Time),
    s.procs[j]? = some q ∧ q.op = .verifyStepUp accessToken response ∧
      Did q.past (.session sessionId) (.verified now) 1 ∧
        Db.credential s.db response.id = some k ∧ k.userId = userId ∧
          cfg.verifyAuthenticationResponse response challenge response.id k.publicKey counter =
            some info

/-- The call that issued a challenge, which stays in its row. -/
def Issued (cfg : Config) (s : System) (cid : Id) (c : PasskeyChallenge) : Prop :=
  ∃ (j : Nat) (q : Process) (c₀ : PasskeyChallenge), s.procs[j]? = some q ∧
    Made q.past (.challenge cid) c₀ ∧ NewChallenge cfg q.op q.past c₀ ∧ ChallengeKept c₀ c

/-- Every mark of a session and every challenge has come from a call. -/
structure Explained (cfg : Config) (s : System) : Prop where
  marks : ∀ id x, Db.session s.db id = some x → x.stepUpVerifiedAt ≠ none →
    Marked cfg s id x.userId
  challenges : ∀ cid c, Db.challenge s.db cid = some c → Issued cfg s cid c

theorem NewChallenge.mono {op : Op} {past past' : Calls Out} (hsub : past ⊆ past')
    {c : PasskeyChallenge} (h : NewChallenge cfg op past c) : NewChallenge cfg op past' c := by
  obtain ⟨auth, x, hauth, huser, hsession, hunused, hkind⟩ := h
  refine ⟨auth, x, { hauth with session := hsub hauth.session }, huser, hsession, hunused, ?_⟩
  refine hkind.imp_left ?_
  rintro ⟨accessToken, credentials, hop, hpurpose, hfound, hstep⟩
  exact ⟨accessToken, credentials, hop, hpurpose, hsub hfound, hstep⟩

theorem Marked.step {a : SystemAction} (hs : Step (machine cfg) s a s')
    (hcarries : Carries s.db s'.db) {sessionId userId : Id} (h : Marked cfg s sessionId userId) :
    Marked cfg s' sessionId userId := by
  obtain ⟨j, q, accessToken, response, challenge, counter, info, k, now, hq, hop, hdid, hk, howner,
    hverified⟩ := h
  obtain ⟨q', hq', hop', hpast⟩ := hs.past_subset hq
  obtain ⟨k', hk', hkept⟩ := hcarries.credential hk
  refine ⟨j, q', accessToken, response, challenge, counter, info, k', now, hq', hop'.trans hop,
    hpast hdid, hk', hkept.userId.trans howner, ?_⟩
  rw [hkept.publicKey]
  exact hverified

theorem Issued.step {a : SystemAction} (hs : Step (machine cfg) s a s') {cid : Id}
    {c c' : PasskeyChallenge} (hkept : ChallengeKept c c') (h : Issued cfg s cid c) :
    Issued cfg s' cid c' := by
  obtain ⟨j, q, c₀, hq, hmade, hnew, hkept₀⟩ := h
  obtain ⟨q', hq', hop, hpast⟩ := hs.past_subset hq
  refine ⟨j, q', c₀, hq', hpast hmade, ?_, hkept₀.trans hkept⟩
  rw [hop]
  exact hnew.mono hpast

/-- The commit of a call that issues a challenge. -/
theorem issued_commit {p : Process} (h : ProcOk (machine cfg) (conduct cfg) Legal s.db p) {i : Nat}
    (hp : s.procs[i]? = some p) (prog : Program Response) {cid : Id} {c : PasskeyChallenge}
    (hnone : Db.challenge s.db cid = none) (hc : Db.challenge (p.writes ++ s.db) cid = some c) :
    Issued cfg ⟨p.writes ++ s.db, s.procs.set i (p.close prog)⟩ cid c := by
  have hcommitted : Committed tables client (conduct cfg) s.db p (.challenge cid) c :=
    commit_row setup h rfl hc
  cases hcommitted with
  | kept hfree hrow => cases hnone.symm.trans hrow
  | made newer older rows base hexec hnew hmem =>
      have hlt := (List.getElem?_eq_some_iff.mp hp).1
      have hchallenge : NewChallenge cfg p.op p.past c := hexec.before.2.1
      exact ⟨i, p.close prog, c, List.getElem?_set_self hlt, List.mem_append_left _ hexec.call,
        hchallenge.mono (List.subset_append_right _ _), .refl c⟩
  | changed newer older rows base ch old hexec hold hbase happlies hnew hmem =>
      cases hnone.symm.trans hold

theorem Explained.step (h₀ : Idle Legal s₀) (h : Run (machine cfg) ok s₀ s) {a : SystemAction}
    (hs : Step (machine cfg) s a s') (hexplained : Explained cfg s) : Explained cfg s' := by
  have hcons := Run.consistent discipline h₀.consistent h
  have hcarries := carries_of_suffix (hcons.step discipline hs).chain hs.suffix
  have hredeeming := Redeeming.step h₀ h hs
  constructor
  · intro id y hy hmark
    cases hx : Db.session s.db id with
    | none => exact absurd (hredeeming.created id y hx hy) hmark
    | some x =>
        obtain ⟨z, hz, hkept⟩ := hcarries.session hx
        cases hy.symm.trans hz
        rw [hkept.userId]
        by_cases hsame : y.stepUpVerifiedAt = x.stepUpVerifiedAt
        · exact (hexplained.marks id x hx (hsame ▸ hmark)).step hs hcarries
        · obtain ⟨i, now, -, -, p, cid, hp, hredeemed, hbound⟩ :=
            hredeeming.verified id x y hx hy hsame
          cases hbound with
          | stepUp hop hverified hc hcaller hpurpose hsession hx' hk howner =>
              cases hx.symm.trans hx'
              obtain ⟨k', hk', hkept'⟩ := hcarries.credential hk
              rw [← hkept'.publicKey] at hverified
              exact ⟨i, p, _, _, _, _, _, k', now, hp, hop, hredeemed.committed, hk',
                hkept'.userId.trans howner, hverified⟩
  · intro cid c hc
    cases hold : Db.challenge s.db cid with
    | some c₀ =>
        obtain ⟨d, hd, hkept⟩ := hcarries.challenge hold
        cases hc.symm.trans hd
        exact (hexplained.challenges cid c₀ hold).step hs hkept
    | none =>
        cases hs.effect with
        | quiet hdb hprocs =>
            rw [hdb, hold] at hc
            cases hc
        | answered i c p q next out rows hp hq hrun => cases hold.symm.trans hc
        | committed i c p next hp hq => exact issued_commit (hcons.proc i p hp) hp _ hold hc
        | outside rows hext =>
            have hsame : Db.challenge (rows ++ s.db) cid = Db.challenge s.db cid :=
              outside_row hext rfl
            cases (hold.symm.trans hsame.symm).trans hc

/-- No passkey has been used yet: no challenge is issued and no session is marked. -/
structure Unmarked (db : Db) : Prop where
  sessions : ∀ id x, db.session id = some x → x.stepUpVerifiedAt = none
  challenges : ∀ cid, db.challenge cid = none

theorem explained (h₀ : Idle Legal s₀) (hunmarked : Unmarked s₀.db)
    (h : Run (machine cfg) ok s₀ s) : Explained cfg s := by
  refine h.invariant (I := Explained cfg) ⟨fun id x hx hmark => ?_, fun cid c hc => ?_⟩
    fun s a s' hrun ih _ hs => ih.step h₀ hrun hs
  · exact absurd (hunmarked.sessions id x hx) hmark
  · rw [hunmarked.challenges cid] at hc
    cases hc

end Marks

section Condition

/-- The users for whom passkeys are stored. -/
def storedFor (calls : Calls Out) : List Id :=
  calls.filterMap fun
    | ⟨.insert (.credential _) k, _⟩ => some (k : WebAuthnCredential).userId
    | _ => none

def consumedIn (calls : Calls Out) : List Id :=
  calls.filterMap fun
    | ⟨.update (.challenge cid) (.consumed _ _), n⟩ => if n = (1 : Nat) then some cid else none
    | _ => none

def issuedIn (calls : Calls Out) : List Id :=
  calls.filterMap fun
    | ⟨.insert (.challenge cid) _, _⟩ => some cid
    | _ => none

/-- The call has found that the user has no passkey. -/
def countedNone (calls : Calls Out) (userId : Id) : Bool :=
  calls.any fun
    | ⟨.read (.findCredentials owner), found⟩ =>
        owner = userId ∧ (found : List (Text × WebAuthnCredential)) = []
    | _ => false

def hasPasskey (db : Db) (userId : Id) : Bool := db.credentials.any (·.2.userId = userId)

/-- A passkey is stored for a user who has none, or the call that issued its challenge had found
one. -/
def stillCounted (s : System) (p : Process) : Bool :=
  (storedFor p.calls).all fun userId => hasPasskey s.db userId = true →
    ∀ cid ∈ consumedIn (p.calls ++ p.past), ∀ q ∈ s.procs, cid ∈ issuedIn q.past →
      countedNone q.past userId = false

/-- Passkeys are stored while the number of passkeys is still one that the options allow. -/
def countsCurrent (s : System) : SystemAction → Prop
  | .exec i _ => ∀ p next, s.procs[i]? = some p → p.prog = .commit next → stillCounted s p = true
  | _ => True

variable {p q : Process} {credentialId : Text} {k : WebAuthnCredential} {cid : Id}
  {c : PasskeyChallenge} {first used : Time}

/-- The options of a registration that is stored beside another passkey had found one. -/
theorem stillCounted_found (h : stillCounted s p = true)
    (hstored : Made p.calls (.credential credentialId) k)
    (hhas : hasPasskey s.db k.userId = true)
    (hdid : Did (p.calls ++ p.past) (.challenge cid) (.consumed first used) 1) (hq : q ∈ s.procs)
    (hissued : Made q.past (.challenge cid) c) {found : List (Text × WebAuthnCredential)}
    (hfound : Saw q.past (.findCredentials k.userId) found) : found ≠ [] := by
  have huser : k.userId ∈ storedFor p.calls := List.mem_filterMap.mpr ⟨_, hstored, rfl⟩
  have hconsumed : cid ∈ consumedIn (p.calls ++ p.past) := List.mem_filterMap.mpr ⟨_, hdid, rfl⟩
  have hmade : cid ∈ issuedIn q.past := List.mem_filterMap.mpr ⟨_, hissued, rfl⟩
  have hcounted := of_decide_eq_true (List.all_eq_true.mp h _ huser) hhas cid hconsumed q hq hmade
  rintro rfl
  have hnone : countedNone q.past k.userId = true :=
    List.any_eq_true.mpr ⟨_, hfound, decide_eq_true ⟨rfl, rfl⟩⟩
  rw [hcounted] at hnone
  cases hnone

end Condition

section Results

/-- The session that stores a passkey beside another one has been stepped up with a passkey. -/
def NeedsPasskey (cfg : Config) (s s' : System) : Prop :=
  ∀ credentialId k, Db.credential s.db credentialId = none →
    Db.credential s'.db credentialId = some k → hasPasskey s.db k.userId = true →
      ∃ (i : Nat) (p : Process) (sessionId : Id) (x : Session), s'.procs[i]? = some p ∧
        Made p.past (.credential credentialId) k ∧ p.op.Of cfg sessionId ∧
          Db.session s.db sessionId = some x ∧ x.userId = k.userId ∧
            x.stepUpVerifiedAt ≠ none ∧ Marked cfg s sessionId k.userId

/-- A session to which a registration was issued, when the options had found a passkey. -/
theorem issued_marked (h₀ : Idle Legal s₀) (h : Run (machine cfg) ok s₀ s)
    (hexplained : Explained cfg s) {cid : Id} {c : PasskeyChallenge}
    (hc : Db.challenge s.db cid = some c) (hpurpose : c.purpose = .registration)
    (hfound : ∀ (j : Nat) q c₀ found, s.procs[j]? = some q → Made q.past (.challenge cid) c₀ →
      Saw q.past (.findCredentials c.userId) found → found ≠ []) :
    ∃ x, Db.session s.db c.sessionId = some x ∧ x.userId = c.userId ∧ x.stepUpVerifiedAt ≠ none ∧
      Marked cfg s c.sessionId c.userId := by
  obtain ⟨j, q, c₀, hq, hmade, hnew, hkept⟩ := hexplained.challenges cid c hc
  obtain ⟨auth, y, hauth, huser, hsession, -, hkind⟩ := hnew
  rcases hkind with ⟨accessToken, found, -, -, hsaw, hstep⟩ | ⟨accessToken, -, hother⟩
  · obtain ⟨x, hx, hkeptSession⟩ := seen_past h₀ h hq _ hauth.session
    have howner : auth.userId = c.userId := (hkept.userId.trans huser).symm
    have hmark : y.stepUpVerifiedAt ≠ none := by
      rw [← hauth.stepUpVerifiedAt]
      exact hstep (hfound j q c₀ found hq hmade (howner ▸ hsaw))
    have hmark' := hkeptSession.stepUpVerifiedAt hmark
    have hxuser : x.userId = c.userId := by
      rw [hkeptSession.userId, ← hauth.userId, howner]
    rw [← hsession, ← hkept.sessionId] at hx
    refine ⟨x, hx, hxuser, hmark', ?_⟩
    have hmarked := hexplained.marks _ x hx hmark'
    rwa [hxuser] at hmarked
  · rw [hkept.purpose, hother] at hpurpose
    cases hpurpose

theorem NeedsPasskey.step (h₀ : Idle Legal s₀) (h : Run (machine cfg) ok s₀ s)
    (hexplained : Explained cfg s) {a : SystemAction} (ha : countsCurrent s a)
    (hs : Step (machine cfg) s a s') : NeedsPasskey cfg s s' := by
  intro credentialId k hnone hk hhas
  obtain ⟨i, hbefore, p', cid, hp', hredeemed, hbound⟩ :=
    (Redeeming.step h₀ h hs).stored credentialId k hnone hk
  cases hbound with
  | @registration accessToken response deviceName c info k hop hverified hc hcaller hpurpose
      howner =>
      cases hs.past_cases hp' with
      | fresh hpast =>
          have hcommitted := hredeemed.committed
          rw [hpast] at hcommitted
          exact absurd hcommitted List.not_mem_nil
      | same p hp hop' hpast => exact absurd (hpast ▸ hredeemed.committed) (hbefore p hp)
      | commits p next ch hp hq haction hop' hpast hdb =>
          subst haction
          have hcommitted := hredeemed.committed
          rw [hpast] at hcommitted
          have hnew := (List.mem_append.mp hcommitted).resolve_right (hbefore p hp)
          obtain ⟨first, used, hdid⟩ := hredeemed.consumed
          rw [hpast] at hdid
          obtain ⟨x, hx, hxuser, hmark, hmarked⟩ := issued_marked h₀ h hexplained hc.row hpurpose
            fun j q c₀ found hq' hmade hsaw => stillCounted_found (ha p next hp hq) hnew hhas hdid
              (List.mem_of_getElem? hq') hmade (howner ▸ hsaw)
          rw [howner] at hxuser hmarked
          exact ⟨i, p', c.sessionId, x, hp', hredeemed.committed, hcaller, hx, hxuser, hmark,
            hmarked⟩

/-- In a run whose passkeys are all stored while the options of their registration still apply,
each passkey beside another one is stored by a session that has been stepped up with one. -/
theorem passkeys_need_a_passkey (h₀ : Idle Legal s₀) (hunmarked : Unmarked s₀.db)
    (h : Run (machine cfg) countsCurrent s₀ s) {a : SystemAction} (ha : countsCurrent s a)
    (hs : Step (machine cfg) s a s') : NeedsPasskey cfg s s' :=
  .step h₀ h (explained h₀ hunmarked h) ha hs

end Results

section Sample

/-- Two sessions of a user who has no passkey. -/
def sampleLogins : System :=
  ⟨[⟨.session 11, sampleSession 1⟩, ⟨.session 12, sampleSession 2⟩] ++ sampleDb, []⟩

theorem sampleLogins_idle : Idle Legal sampleLogins :=
  ⟨⟨trivial, trivial, trivial, trivial, trivial⟩, rfl⟩

theorem sampleLogins_unmarked : Unmarked sampleLogins.db := by
  refine ⟨fun id x hx => ?_, fun cid => rfl⟩
  have hall : (Db.sessions sampleLogins.db).all (·.2.stepUpVerifiedAt = none) = true := by decide
  exact of_decide_eq_true (List.all_eq_true.mp hall _ (Db.mem_sessions.mpr hx))

def accessTokenOf (sessionId : Id) : Text := [sessionId, 1, 1, 900].map Char.ofNat

/-- An endpoint authenticates its access token. -/
def admitted : List Nat := [10, 0, 0, 0, 10, 0, 0, 0, 0, 0, 10, 0]

/-- The options of a registration, with a challenge. -/
def registration (i : Nat) (sessionId : Id) (challenge cid : Nat) : List SystemAction :=
  .start (.registrationOptions (accessTokenOf sessionId)) :: answers i
    (admitted ++ [0, 0, 0, 0, 10, 0, 10, 0, challenge, 0, 10, 0, 0, cid, 10, 0, 0])

/-- A new passkey, up to the commit. -/
def registered (i : Nat) (sessionId : Id) (challenge : Nat) (name : UInt8) : List SystemAction :=
  .start (.verifyRegistration (accessTokenOf sessionId) ⟨challenge, [name]⟩ none) :: answers i
    (admitted ++ [10, 0, 0, 0, 10, 10, 0, 0])

def registers (p : Process) : Bool :=
  match p.op with
  | .registrationOptions _ => true
  | .verifyRegistration _ _ _ => true
  | _ => false

/-- A second passkey of the user is stored. -/
def addsSecond (s s' : System) : Bool :=
  hasPasskey s.db 1 && (Db.credential s.db ['b']).isNone &&
    (Db.credential s'.db ['b']).any (·.userId = 1)

theorem marked_of_addsSecond {cfg : Config} (h : addsSecond s s' = true)
    (hneeds : NeedsPasskey cfg s s') : ∃ sessionId x, Db.session s.db sessionId = some x ∧
      x.stepUpVerifiedAt ≠ none ∧ Marked cfg s sessionId 1 := by
  simp only [addsSecond, Bool.and_eq_true] at h
  obtain ⟨⟨hhas, hnone⟩, hnew⟩ := h
  obtain ⟨k, hk, howner⟩ := (Option.any_eq_true _ _).mp hnew
  have howner : k.userId = 1 := of_decide_eq_true howner
  obtain ⟨i, p, sessionId, x, -, -, -, hx, -, hmark, hmarked⟩ :=
    hneeds ['b'] k (Option.isNone_iff_eq_none.mp hnone) hk (howner ▸ hhas)
  exact ⟨sessionId, x, hx, hmark, howner ▸ hmarked⟩

/-- Steps that store a passkey while the options of its registration still apply. -/
def timely (s : System) : SystemAction → Bool
  | .start _ => true
  | .exec i _ => (s.procs[i]?).all (stillCounted s)
  | _ => false

theorem countsCurrent_of_timely (s : System) (a : SystemAction) (h : timely s a = true) :
    countsCurrent s a := by
  cases a with
  | exec i c =>
      intro p next hp hprog
      have hall : (s.procs[i]?).all (stillCounted s) = true := h
      rw [hp] at hall
      exact hall
  | fault i e => trivial
  | kill i e => trivial
  | start op => trivial
  | env rows => trivial

/-- A step-up with the passkey `a`. -/
def stepsUp (i j : Nat) (sessionId : Id) (challenge cid counter : Nat) : List SystemAction :=
  .start (.stepUpOptions (accessTokenOf sessionId)) :: answers i
    (admitted ++ [0, 0, challenge, 0, 10, 0, 0, cid, 10, 0, 0]) ++
  .start (.verifyStepUp (accessTokenOf sessionId) ⟨['a'], challenge, counter, [97]⟩) ::
    (verifies j ++ records j)

/-- A passkey, a step-up with it, and another passkey. -/
theorem passkeys_need_a_passkey_sample : ∃ s s' : System, addsSecond s s' = true ∧
    ∃ sessionId x, Db.session s.db sessionId = some x ∧ x.stepUpVerifiedAt ≠ none ∧
      Marked sampleConfig s sessionId 1 := by
  obtain ⟨s, s', hrun, hok, hstep, hcheck⟩ := exists_step (M := machine sampleConfig)
    (s := sampleLogins)
    (registration 0 11 31 21 ++ registered 1 11 31 97 ++ answers 1 [0] ++ stepsUp 2 3 11 33 23 1 ++
      registration 4 11 34 24 ++ registered 5 11 34 98) (.exec 5 0) addsSecond
    countsCurrent_of_timely (by decide +kernel)
  exact ⟨s, s', hcheck, marked_of_addsSecond hcheck
    (passkeys_need_a_passkey sampleLogins_idle sampleLogins_unmarked hrun hok hstep)⟩

/-- The second passkey, where no session has been stepped up. -/
def addsUnmarked (s s' : System) : Bool :=
  s'.procs.all registers && (Db.sessions s.db).all (·.2.stepUpVerifiedAt = none) && addsSecond s s'

/-- Both sessions get their options before either of them stores its passkey. -/
theorem passkey_added_unmarked : Idle Legal sampleLogins ∧ Unmarked sampleLogins.db ∧
    ∃ s a s', Run (machine sampleConfig) interrupted sampleLogins s ∧
      Step (machine sampleConfig) s a s' ∧ s'.procs.all registers = true ∧
        ¬ NeedsPasskey sampleConfig s s' := by
  obtain ⟨s, s', hrun, -, hstep, hcheck⟩ := exists_step (M := machine sampleConfig)
    (s := sampleLogins)
    (registration 0 11 31 21 ++ registration 1 12 32 22 ++ registered 2 11 31 97 ++
      answers 2 [0] ++ registered 3 12 32 98) (.exec 3 0) addsUnmarked interrupted_of_uninterrupted
    (by decide +kernel)
  obtain ⟨hboth, hsecond⟩ := Bool.and_eq_true_iff.mp hcheck
  obtain ⟨hregisters, hsessions⟩ := Bool.and_eq_true_iff.mp hboth
  refine ⟨sampleLogins_idle, sampleLogins_unmarked, s, .exec 3 0, s', hrun, hstep, hregisters,
    fun hneeds => ?_⟩
  obtain ⟨sessionId, x, hx, hmark, -⟩ := marked_of_addsSecond hsecond hneeds
  have hall := List.all_eq_true.mp hsessions _ (Db.mem_sessions.mpr hx)
  exact hmark (of_decide_eq_true hall)

end Sample
end BlocTrust.Identity
