import BlocTrust.Identity.Counters

/-!
Challenges are for one use, and for what they were issued for.
A call chooses a challenge of its session, and consumes it in the transaction that stores the
credential or marks the session.
-/
namespace BlocTrust.Identity

open ReadCommitted Tables

variable {cfg : Config} {ok : System → SystemAction → Prop} {s₀ s s' : System} {db : Db}
  {p : Process}

section Once

/-- A change that consumes a challenge. -/
def Spends : (k : Key) → Change k → Prop
  | .challenge _, .consumed _ _ => True
  | _, _ => False

def Spent : (k : Key) → Val k → Prop
  | .challenge _, c => c.usedAt ≠ none
  | _, _ => False

theorem spends_once : Once tables Spends Spent where
  key k c h := by
    cases k with
    | challenge id => rfl
    | _ => exact h.elim
  marks k c v h := by
    cases k with
    | challenge id =>
        cases c with
        | consumed first now => exact Option.some_ne_none now
        | replaced now => exact h.elim
    | _ => exact h.elim
  stays k old new h hlegal := by
    cases k with
    | challenge id => exact ChallengeKept.usedAt (persists.legal _ _ _ hlegal) h
    | _ => exact h.elim
  blocks k c v h hspent := by
    cases k with
    | challenge id =>
        cases c with
        | consumed first now => exact decide_eq_false fun hfree => hspent hfree.1
        | replaced now => exact h.elim
    | _ => exact h.elim

/-- A call stores one thing at most. -/
theorem yields_single : Single (conduct cfg) Yields := by
  intro op past cur q out h hy
  cases q with
  | read q => exact hy.elim
  | call x => exact hy.elim
  | insert k v =>
      cases k with
      | credential credentialId =>
          obtain ⟨auth, x, id, c, info, first, used, -, -, -, -, hnone⟩ := h.2
          exact hnone
      | _ => exact hy.elim
  | update k c =>
      cases k with
      | session id =>
          cases c with
          | verified now =>
              obtain ⟨auth, x, cid, c, credentialId, k, info, counter, backedUp, now', -, -, -, -,
                hnone⟩ := h.2
              exact hnone
          | _ => exact hy.elim
      | _ => exact hy.elim

end Once

section Bound

/-- The call has consumed the challenge for a statement that it has committed. -/
structure Redeemed (p : Process) (cid : Id) (call : Sigma Out) : Prop where
  consumed : ∃ first used, Did p.past (.challenge cid) (.consumed first used) 1
  committed : call ∈ p.past
  yields : Yields call

/-- The challenge was open and is consumed, before it expires. -/
structure Consumed (db db' : Db) (cid : Id) (c : PasskeyChallenge) : Prop where
  row : db.challenge cid = some c
  unused : c.usedAt = none
  used : ∃ first now, first < c.expiresAt ∧ db'.challenge cid = some { c with usedAt := some now }

/-- The call was made with an access token of the session. -/
def Op.Of (cfg : Config) (op : Op) (sessionId : Id) : Prop :=
  ∃ accessToken payload, op.accessToken = some accessToken ∧
    cfg.openAccessToken accessToken = some payload ∧ payload.sessionId = sessionId

/-- What a challenge is consumed for is what it was issued for, by a response to it: a step-up of
its session, verified with a credential of the session's user, or a credential of its user. -/
inductive Bound (cfg : Config) (op : Op) (db db' : Db) (cid : Id) : Sigma Out → Prop
  | stepUp {accessToken : Text} {response : AuthenticationResponse} {c : PasskeyChallenge} {id : Id}
      {now : Time} {x : Session} {k : WebAuthnCredential} {counter : Nat}
      {info : AuthenticationInfo}
      (hop : op = .verifyStepUp accessToken response)
      (hverified : cfg.verifyAuthenticationResponse response c.challenge response.id k.publicKey
        counter = some info)
      (hc : Consumed db db' cid c) (hcaller : op.Of cfg c.sessionId)
      (hpurpose : c.purpose = .stepUp) (hsession : c.sessionId = id)
      (hx : db.session id = some x) (hk : db.credential response.id = some k)
      (howner : k.userId = x.userId) :
      Bound cfg op db db' cid ⟨.update (.session id) (.verified now), (1 : Nat)⟩
  | registration {accessToken : Text} {response : RegistrationResponse} {deviceName : Option Text}
      {c : PasskeyChallenge} {info : RegistrationInfo} {k : WebAuthnCredential}
      (hop : op = .verifyRegistration accessToken response deviceName)
      (hverified : cfg.verifyRegistrationResponse response c.challenge = some info)
      (hc : Consumed db db' cid c) (hcaller : op.Of cfg c.sessionId)
      (hpurpose : c.purpose = .registration) (howner : c.userId = k.userId) :
      Bound cfg op db db' cid ⟨.insert (.credential info.credentialId) k, ()⟩

/-- What the calls have read is still there. -/
def readings : Account Val Out Op where
  fact _ call db := Seen call.1 call.2 db

theorem readings_sound : readings.Sound (machine cfg) (conduct cfg) Legal ok s₀ where
  refl _ := trivial
  trans _ _ _ _ _ := trivial
  keep _ _ _ _ hs hc _ h := h.carried (carries_of_suffix hc hs)
  commit _ _ _ _ _ _ _ h _ _ := ⟨trivial, trivial, fun _ he => seen_commit h he⟩
  external _ _ _ _ _ := ⟨trivial, trivial⟩

theorem seen_past (h₀ : Idle Legal s₀) (h : Run (machine cfg) ok s₀ s) {i : Nat}
    (hp : s.procs[i]? = some p) : ∀ call ∈ p.past, Seen call.1 call.2 s.db :=
  ((readings_sound.run ⟨fun _ _ _ => trivial, fun _ _ _ _ _ _ _ _ _ => trivial⟩ discipline h₀
    trivial h).2 i p hp).fact

/-- The challenge that a call has chosen, as it is when the call consumes it. -/
theorem chosen_consumed (h : ProcOk (machine cfg) (conduct cfg) Legal db p)
    (hseen : ∀ call ∈ p.past, Seen call.1 call.2 db) {purpose : PasskeyChallengePurpose}
    {auth : AuthContext} {x : Session} {cid : Id} {c : PasskeyChallenge} {first used : Time}
    (hchosen : Chosen cfg p.op p.past purpose auth x cid c)
    (hdid : Did p.calls (.challenge cid) (.consumed first used) 1) :
    ∃ d, Consumed db (p.writes ++ db) cid d ∧ p.op.Of cfg d.sessionId ∧ d.purpose = purpose ∧
      d.userId = auth.userId ∧ d.sessionId = auth.sessionId ∧ d.challenge = c.challenge := by
  obtain ⟨now, hactive⟩ := hchosen.active
  obtain ⟨huser, hsession, hpurpose, d, hd, hkept⟩ := hseen _ hactive
  obtain ⟨old, hold, happlies, hnew⟩ := did_update setup h (k := .challenge cid) rfl hdid
  cases hd.symm.trans hold
  obtain ⟨hunused, hbefore⟩ := of_decide_eq_true happlies
  obtain ⟨accessToken, payload, hop, hopen, hsame⟩ := hchosen.caller.token
  have hown : d.sessionId = auth.sessionId := hkept.sessionId.trans hsession
  exact ⟨d, ⟨hd, hunused, first, used, hbefore, hnew⟩,
    ⟨accessToken, payload, hop, hopen, hsame.trans hown.symm⟩, hkept.purpose.trans hpurpose,
    hkept.userId.trans huser, hown, hkept.challenge⟩

/-- A commit that stores something consumes a challenge that was issued for it. -/
theorem commit_bound (h : ProcOk (machine cfg) (conduct cfg) Legal db p)
    (hseen : ∀ call ∈ p.past, Seen call.1 call.2 db) {call : Sigma Out} (hcall : call ∈ p.calls)
    (hy : Yields call) : ∃ cid, (∃ first used, Did p.calls (.challenge cid)
      (.consumed first used) 1) ∧ Bound cfg p.op db (p.writes ++ db) cid call := by
  obtain ⟨q, out⟩ := call
  obtain ⟨newer, older, rows, base, hexec⟩ := exists_executed setup h hcall
  cases q with
  | read q => exact hy.elim
  | call x => exact hy.elim
  | insert key v =>
      cases key with
      | credential credentialId =>
          obtain ⟨auth, x, cid, c, info, first, used, hregisters, hdid, rfl, howner, -⟩ :=
            hexec.before.2
          have hdid := hexec.calls_subset hdid
          obtain ⟨accessToken, response, deviceName, hop, hverified⟩ := hregisters.op
          obtain ⟨d, hconsumed, hcaller, hpurpose, huser, -, hchallenge⟩ :=
            chosen_consumed h hseen hregisters.chosen hdid
          rw [← hchallenge] at hverified
          exact ⟨cid, ⟨first, used, hdid⟩,
            .registration hop hverified hconsumed hcaller hpurpose (huser.trans howner.symm)⟩
      | _ => exact hy.elim
  | update key change =>
      cases key with
      | session id =>
          cases change with
          | verified now =>
              have hone : out = (1 : Nat) := hy
              subst hone
              obtain ⟨auth, x, cid, c, credentialId, k, info, counter, backedUp, used, hsteps, rfl,
                hdid, -, -⟩ := hexec.before.2
              have hdid := hexec.calls_subset hdid
              obtain ⟨d, hconsumed, hcaller, hpurpose, -, hsession, hchallenge⟩ :=
                chosen_consumed h hseen hsteps.chosen hdid
              obtain ⟨y, hrow, hkept⟩ := hseen _ hsteps.chosen.caller.session
              obtain ⟨k', hk', hkeptKey⟩ := hseen _ hsteps.credential
              obtain ⟨accessToken, response, hop, rfl, hverified⟩ := hsteps.op
              rw [← hchallenge, ← hkeptKey.publicKey] at hverified
              refine ⟨cid, ⟨used, used, hdid⟩,
                .stepUp hop hverified hconsumed hcaller hpurpose hsession hrow hk' ?_⟩
              rw [hkeptKey.userId, hsteps.owner, hkept.userId, hsteps.chosen.caller.userId]
          | _ => exact hy.elim
      | _ => exact hy.elim

end Bound

section Steps

/-- Process `i` commits the statement in the step, for a challenge that was issued for it. -/
structure Redeems (cfg : Config) (s s' : System) (i : Nat) (call : Sigma Out) : Prop where
  before : ∀ p, s.procs[i]? = some p → call ∉ p.past
  after : ∃ p cid, s'.procs[i]? = some p ∧ Redeemed p cid call ∧
    Bound cfg p.op s.db s'.db cid call

/-- Whatever a step stores is committed for a challenge: a step-up of a session, also where the
session shows another instant than before, and a credential. -/
structure Redeeming (cfg : Config) (s s' : System) : Prop where
  committed : ∀ (i : Nat) p' call, s'.procs[i]? = some p' → call ∈ p'.past → Yields call →
    (∃ p, s.procs[i]? = some p ∧ call ∈ p.past) ∨ Redeems cfg s s' i call
  created : ∀ id y, Db.session s.db id = none → Db.session s'.db id = some y →
    y.stepUpVerifiedAt = none
  verified : ∀ id x y, Db.session s.db id = some x → Db.session s'.db id = some y →
    y.stepUpVerifiedAt ≠ x.stepUpVerifiedAt → ∃ i now, y.stepUpVerifiedAt = some now ∧
      Redeems cfg s s' i ⟨.update (.session id) (.verified now), (1 : Nat)⟩
  stored : ∀ credentialId k, Db.credential s.db credentialId = none →
    Db.credential s'.db credentialId = some k →
      ∃ i, Redeems cfg s s' i ⟨.insert (.credential credentialId) k, ()⟩

/-- A step that commits nothing, and leaves sessions and credentials alone. -/
theorem Redeeming.idle
    (hpast : ∀ (i : Nat) p', s'.procs[i]? = some p' →
      p'.past = [] ∨ ∃ p, s.procs[i]? = some p ∧ p'.past = p.past)
    (hsession : ∀ id, Db.session s'.db id = Db.session s.db id)
    (hcredential : ∀ id, Db.credential s'.db id = Db.credential s.db id) :
    Redeeming cfg s s' where
  committed i p' call hp hcall _ := by
    rcases hpast i p' hp with hnil | ⟨p, hold, hsame⟩
    · rw [hnil] at hcall
      exact absurd hcall List.not_mem_nil
    · exact .inl ⟨p, hold, hsame ▸ hcall⟩
  created id y hnone hy := by
    rw [hsession, hnone] at hy
    cases hy
  verified id x y hx hy hne := by
    rw [hsession, hx] at hy
    cases hy
    exact absurd rfl hne
  stored credentialId k hnone hk := by
    rw [hcredential, hnone] at hk
    cases hk

/-- The transaction of process `i` commits what it stores. -/
theorem redeems_commit (h : ProcOk (machine cfg) (conduct cfg) Legal s.db p)
    (hseen : ∀ call ∈ p.past, Seen call.1 call.2 s.db) {i : Nat} (hp : s.procs[i]? = some p)
    (prog : Program Response) {call : Sigma Out} (hcall : call ∈ p.calls) (hy : Yields call) :
    Redeems cfg s ⟨p.writes ++ s.db, s.procs.set i (p.close prog)⟩ i call where
  before q hq := by
    cases hp.symm.trans hq
    exact fun hold => yields_single.fresh setup h hcall hy call hold hy
  after := by
    obtain ⟨cid, ⟨first, used, hdid⟩, hbound⟩ := commit_bound h hseen hcall hy
    have hlt := (List.getElem?_eq_some_iff.mp hp).1
    exact ⟨p.close prog, cid, List.getElem?_set_self hlt,
      ⟨⟨first, used, List.mem_append_left _ hdid⟩, List.mem_append_left _ hcall, hy⟩, hbound⟩

/-- A commit marks sessions and stores credentials by such statements only. -/
theorem Redeeming.commit (h : ProcOk (machine cfg) (conduct cfg) Legal s.db p)
    (hseen : ∀ call ∈ p.past, Seen call.1 call.2 s.db) {i : Nat} (hp : s.procs[i]? = some p)
    (prog : Program Response) :
    Redeeming cfg s ⟨p.writes ++ s.db, s.procs.set i (p.close prog)⟩ where
  committed j p' call hj hcall hy := by
    rcases getElem?_set_cases hj with ⟨rfl, rfl⟩ | ⟨-, hold⟩
    · rcases List.mem_append.mp hcall with hnew | hold
      · exact .inr (redeems_commit h hseen hp prog hnew hy)
      · exact .inl ⟨p, hp, hold⟩
    · exact .inl ⟨p', hold, hcall⟩
  created id y hnone hy := by
    have hcommitted : Committed tables client (conduct cfg) s.db p (.session id) y :=
      commit_row setup h rfl hy
    cases hcommitted with
    | kept hfree hrow => cases hnone.symm.trans hrow
    | made newer older rows base hexec hnew hmem => exact NewSession.fresh hexec.before.2 |>.2.2
    | changed newer older rows base c old hexec hold hbase happlies hnew hmem =>
        cases hnone.symm.trans hold
  verified id x y hx hy hne := by
    have hcommitted : Committed tables client (conduct cfg) s.db p (.session id) y :=
      commit_row setup h rfl hy
    cases hcommitted with
    | kept hfree hrow =>
        cases hx.symm.trans hrow
        exact absurd rfl hne
    | made newer older rows base hexec hnew hmem => exact absurd (Log.mem_keys_of_row hx) hnew
    | changed newer older rows base c old hexec hold hbase happlies hnew hmem =>
        cases hx.symm.trans hold
        rw [hnew] at hne
        cases c with
        | rotated hash csrf now metadata => exact absurd rfl hne
        | revoked now => exact absurd rfl hne
        | verified now =>
            exact ⟨i, now, by rw [hnew]; rfl, redeems_commit h hseen hp prog hexec.call rfl⟩
  stored credentialId k hnone hk := by
    have hcommitted : Committed tables client (conduct cfg) s.db p (.credential credentialId) k :=
      commit_row setup h rfl hk
    cases hcommitted with
    | kept hfree hrow => cases hnone.symm.trans hrow
    | made newer older rows base hexec hnew hmem =>
        exact ⟨i, redeems_commit h hseen hp prog hexec.call trivial⟩
    | changed newer older rows base c old hexec hold hbase happlies hnew hmem =>
        cases hnone.symm.trans hold

theorem Redeeming.step (h₀ : Idle Legal s₀) (h : Run (machine cfg) ok s₀ s) {a : SystemAction}
    (hs : Step (machine cfg) s a s') : Redeeming cfg s s' := by
  have hcons := Run.consistent discipline h₀.consistent h
  cases hs.effect with
  | quiet hdb hprocs =>
      refine .idle (fun i p' hp' => ?_) (fun id => by rw [hdb]) fun id => by rw [hdb]
      rcases hprocs i p' hp' with hold | ⟨-, ⟨op, -, rfl⟩ | ⟨p, hp, -, hpast⟩⟩
      · exact .inr ⟨p', hold, rfl⟩
      · exact .inl rfl
      · exact .inr ⟨p, hp, hpast⟩
  | answered i c p q next out rows hp hq hrun =>
      refine .idle (fun j p' hp' => .inr ?_) (fun _ => rfl) fun _ => rfl
      rcases getElem?_set_cases hp' with ⟨rfl, rfl⟩ | ⟨-, hold⟩
      · exact ⟨p, hp, rfl⟩
      · exact ⟨p', hold, rfl⟩
  | committed i c p next hp hq => exact .commit (hcons.proc i p hp) (seen_past h₀ h hp) hp _
  | outside rows hext =>
      exact .idle (fun i p' hp' => .inr ⟨p', hp', rfl⟩) (fun id => outside_row hext rfl)
        fun id => outside_row hext rfl

/-- In every interleaving a challenge leads to one step-up or one credential at most, and whatever
is stored is committed by a call that consumes an unexpired challenge of the same purpose: for a
step-up one of the same session, with a credential of its user, and for a credential one of its
user. -/
theorem challenges_single_use (h₀ : Idle Legal s₀) (h : Run (machine cfg) ok s₀ s) :
    (∀ (i j : Nat) p q cid call call', s.procs[i]? = some p → s.procs[j]? = some q →
      Redeemed p cid call → Redeemed q cid call' → i = j ∧ call = call') ∧
    ∀ a s', Step (machine cfg) s a s' → Redeeming cfg s s' := by
  refine ⟨fun i j p q cid call call' hp hq hr hr' => ?_, fun a s' hs => .step h₀ h hs⟩
  obtain ⟨first, used, hdid⟩ := hr.consumed
  obtain ⟨first', used', hdid'⟩ := hr'.consumed
  have hspends : ∀ first used, Spends (.challenge cid) (.consumed first used) := fun _ _ => trivial
  have hij := spends_once.unique setup discipline h₀ h hp hq (hspends first used)
    (hspends first' used') hdid hdid'
  subst hij
  cases hp.symm.trans hq
  refine ⟨rfl, ?_⟩
  exact yields_single.unique setup discipline h₀ h i p hp call hr.committed call' hr'.committed
    hr.yields hr'.yields

end Steps

section Sample

def stepUpIs (verifiedAt : Option Time) (s : System) : Bool :=
  (Db.session s.db 11).any (·.stepUpVerifiedAt = verifiedAt)

/-- The commit of a step-up. -/
theorem challenges_single_use_sample : ∃ (s s' : System) (i : Nat) (now : Time),
    Redeems sampleConfig s s' i ⟨.update (.session 11) (.verified now), (1 : Nat)⟩ ∧
      ∀ (j k : Nat) p q cid call call', s.procs[j]? = some p → s.procs[k]? = some q →
        Redeemed p cid call → Redeemed q cid call' → j = k ∧ call = call' := by
  obtain ⟨s, s', hrun, -, hstep, hcheck⟩ := exists_step (M := machine sampleConfig)
    (s := sampleStepUps) (sampleStepUp 11 31 6 :: (verifies 0 ++ answers 0 [0, 0, 0])) (.exec 0 0)
    (fun s s' => stepUpIs none s && stepUpIs (some 10) s') interrupted_of_uninterrupted
    (by decide +kernel)
  obtain ⟨hbefore, hafter⟩ := Bool.and_eq_true_iff.mp hcheck
  obtain ⟨x, hx, hnone⟩ := (Option.any_eq_true _ _).mp hbefore
  obtain ⟨y, hy, hten⟩ := (Option.any_eq_true _ _).mp hafter
  obtain ⟨honce, hbound⟩ := challenges_single_use sampleStepUps_idle hrun
  have hne : y.stepUpVerifiedAt ≠ x.stepUpVerifiedAt := by
    rw [of_decide_eq_true hnone, of_decide_eq_true hten]
    exact Option.some_ne_none 10
  obtain ⟨i, now, -, hredeems⟩ := (hbound _ s' hstep).verified 11 x y hx hy hne
  exact ⟨s, s', i, now, hredeems, honce⟩

end Sample
end BlocTrust.Identity
