import BlocTrust.Identity.RefreshTokens

/-!
The counters of the credentials.
A step-up writes the counter of a response that the library checked against the counter it was
given, and that one was read before the transaction.
-/
namespace BlocTrust.Identity

open ReadCommitted Tables

/-- A response is accepted only with a greater counter, or where neither side counts. -/
def CountersChecked (cfg : Config) : Prop :=
  ∀ response challenge credentialId publicKey counter info,
    cfg.verifyAuthenticationResponse response challenge credentialId publicKey counter = some info →
      info.newCounter = response.counter ∧
        (counter < response.counter ∨ counter = 0 ∧ response.counter = 0)

/-- No credential has a smaller counter. -/
def CountersKept (db db' : Db) : Prop :=
  ∀ credentialId x, db.credential credentialId = some x →
    ∃ y, db'.credential credentialId = some y ∧ x.counter ≤ y.counter

theorem CountersKept.refl (db : Db) : CountersKept db db :=
  fun _ x hx => ⟨x, hx, Nat.le_refl _⟩

theorem CountersKept.trans {a b c : Db} (h : CountersKept a b) (h' : CountersKept b c) :
    CountersKept a c := by
  intro credentialId x hx
  obtain ⟨y, hy, hxy⟩ := h credentialId x hx
  obtain ⟨z, hz, hyz⟩ := h' credentialId y hy
  exact ⟨z, hz, hxy.trans hyz⟩

section Condition

/-- The counters of the credentials that a call has found. -/
def foundCounters (calls : Calls Out) : List (Text × Nat) :=
  calls.filterMap fun
    | ⟨.read (.findCredential credentialId), found⟩ =>
        (found : Option WebAuthnCredential).map fun x => (credentialId, x.counter)
    | _ => none

theorem mem_foundCounters {calls : Calls Out} {credentialId : Text} {x : WebAuthnCredential}
    (h : Saw calls (.findCredential credentialId) (some x)) :
    (credentialId, x.counter) ∈ foundCounters calls :=
  List.mem_filterMap.mpr ⟨_, h, rfl⟩

/-- What the process has found of the credentials that it writes is what is committed. -/
def upToDate (db : Db) (p : Process) : Bool :=
  (foundCounters p.past).all fun (credentialId, counter) =>
    Key.credential credentialId ∉ p.writes.keys ∨
      (db.credential credentialId).all (·.counter = counter)

theorem upToDate_counter {db : Db} {p : Process} (h : upToDate db p = true) {credentialId : Text}
    {x y : WebAuthnCredential} (hfound : Saw p.past (.findCredential credentialId) (some x))
    (hwritten : Key.credential credentialId ∈ p.writes.keys)
    (hy : db.credential credentialId = some y) : y.counter = x.counter := by
  have hall := List.all_eq_true.mp h _ (mem_foundCounters hfound)
  rcases of_decide_eq_true hall with hfree | hsame
  · exact absurd hwritten hfree
  · rw [hy] at hsame
    exact of_decide_eq_true hsame

/-- Step-ups are committed while the counter that they found is the one that is stored. -/
def countersUpToDate (s : System) : SystemAction → Prop
  | .exec i _ => ∀ p next, s.procs[i]? = some p → p.prog = .commit next → upToDate s.db p = true
  | _ => True

end Condition

section Runs

variable {cfg : Config} {s₀ s s' t : System} {a : SystemAction}

/-- A commit of a step-up that is up to date stores a counter that is not smaller. -/
theorem CountersKept.commit (hcfg : CountersChecked cfg) {db : Db} {p : Process}
    (h : ProcOk (machine cfg) (conduct cfg) Legal db p) (hfresh : upToDate db p = true) :
    CountersKept db (p.writes ++ db) := by
  intro credentialId x hx
  obtain ⟨y, hy, -⟩ := (carries_of_suffix h.view (List.suffix_append _ _)).credential hx
  refine ⟨y, hy, ?_⟩
  have hcommitted : Committed tables client (conduct cfg) db p (.credential credentialId) y :=
    commit_row setup h rfl hy
  cases hcommitted with
  | kept hfree hrow =>
      cases hx.symm.trans hrow
      exact Nat.le_refl _
  | made newer older rows base hexec hnew hmem => exact absurd (Log.mem_keys_of_row hx) hnew
  | changed newer older rows base c old hexec hold hbase happlies hnew hmem =>
      cases hx.symm.trans hold
      cases c with
      | used counter backedUp now =>
          obtain ⟨auth, session, cid, challenge, found, info, hsteps, -, hcounter⟩ := hexec.before.2
          obtain ⟨accessToken, response, -, -, hverified⟩ := hsteps.op
          obtain ⟨hresponse, hgreater⟩ := hcfg _ _ _ _ _ _ hverified
          have hsame : x.counter = found.counter :=
            upToDate_counter hfresh hsteps.credential (hexec.written hmem) hx
          have hstored : y.counter = response.counter := by
            rw [hnew, ← hresponse, ← hcounter]
            rfl
          rw [hsame, hstored]
          omega

theorem CountersKept.step (hcfg : CountersChecked cfg)
    (hc : Consistent (machine cfg) (conduct cfg) Legal s) (ha : countersUpToDate s a)
    (hs : Step (machine cfg) s a s') : CountersKept s.db s'.db := by
  cases hs with
  | commit i c p next hp hq => exact .commit hcfg (hc.proc i p hp) (ha p next hp hq)
  | env rows hext hfree =>
      intro credentialId x hx
      have hsame : Db.credential (rows ++ s.db) credentialId = Db.credential s.db credentialId :=
        outside_row hext rfl
      exact ⟨x, hsame.trans hx, Nat.le_refl _⟩
  | _ => exact CountersKept.refl s.db

/-- In a run whose step-ups are all committed while the counter that they found is the stored one,
no counter is smaller in a state than in an earlier one. -/
theorem counters_never_go_back (hcfg : CountersChecked cfg) (h₀ : Idle Legal s₀)
    (h : Run (machine cfg) countersUpToDate s₀ s) (hst : Run (machine cfg) countersUpToDate s t) :
    CountersKept s.db t.db := by
  have hs := Run.consistent discipline h₀.consistent h
  induction hst with
  | refl => exact CountersKept.refl s.db
  | step hr ha hstep ih => exact ih.trans (.step hcfg (Run.consistent discipline hs hr) ha hstep)

end Runs

section Sample

theorem sampleConfig_countersChecked : CountersChecked sampleConfig := by
  intro response challenge credentialId publicKey counter info h
  simp only [sampleConfig, Option.ite_none_right_eq_some] at h
  obtain ⟨⟨-, -, hcounter⟩, heq⟩ := h
  cases heq
  exact ⟨rfl, hcounter⟩

/-- A session of the user 1. -/
def sampleSession (tokenFamilyId : Id) : Session :=
  { userId := 1
    organizationId := 1
    tokenFamilyId := tokenFamilyId
    refreshTokenHash := tokenFamilyId
    csrfTokenHash := 0
    metadata := ⟨none, none⟩
    rotationCounter := 0
    stepUpVerifiedAt := none
    lastUsedAt := 1
    expiresAt := 9001
    revokedAt := none
    createdAt := 1 }

def sampleChallenge (sessionId : Id) (challenge : Nat) : PasskeyChallenge :=
  { userId := 1
    sessionId := sessionId
    purpose := .stepUp
    challenge := challenge
    expiresAt := 300
    usedAt := none
    createdAt := 2 }

/-- Two sessions of a user, each with a challenge, and a passkey that has counted to 5. -/
def sampleStepUps : System :=
  ⟨[⟨.credential ['k'], ⟨1, [7], 5, [], none, false, none⟩⟩,
    ⟨.challenge 21, sampleChallenge 11 31⟩, ⟨.challenge 22, sampleChallenge 12 32⟩,
    ⟨.session 11, sampleSession 1⟩, ⟨.session 12, sampleSession 2⟩] ++ sampleDb, []⟩

theorem sampleStepUps_idle : Idle Legal sampleStepUps :=
  ⟨⟨trivial, trivial, trivial, trivial, trivial, trivial, trivial, trivial⟩, rfl⟩

/-- The call of a session, with a response to its challenge. -/
def sampleStepUp (sessionId : Id) (challenge counter : Nat) : SystemAction :=
  .start (.verifyStepUp ([sessionId, 1, 1, 900].map Char.ofNat) ⟨['k'], challenge, counter, [7]⟩)

/-- Its statements up to the transaction. -/
def verifies (i : Nat) : List SystemAction :=
  answers i [10, 0, 0, 0, 10, 0, 0, 0, 0, 0, 10, 0, 10, 0, 0, 0, 0, 0, 10, 0]

def records (i : Nat) : List SystemAction := answers i [0, 0, 0, 0]

def usesPasskey (p : Process) : Bool :=
  match p.op with
  | .verifyStepUp _ response => response.id = ['k']
  | _ => false

def counterIs (counter : Nat) (s : System) : Bool :=
  (Db.credential s.db ['k']).any (·.counter = counter)

/-- Steps that are up to date. -/
def currently (s : System) : SystemAction → Bool
  | .start _ => true
  | .exec i _ => (s.procs[i]?).all (upToDate s.db)
  | _ => false

theorem countersUpToDate_of_currently (s : System) (a : SystemAction) (h : currently s a = true) :
    countersUpToDate s a := by
  cases a with
  | exec i c =>
      intro p next hp hprog
      have hall : (s.procs[i]?).all (upToDate s.db) = true := h
      rw [hp] at hall
      exact hall
  | fault i e => trivial
  | kill i e => trivial
  | start op => trivial
  | env rows => trivial

/-- One step-up after another. -/
theorem counters_never_go_back_sample : ∃ s t : System,
    counterIs 6 s = true ∧ counterIs 7 t = true ∧ CountersKept s.db t.db := by
  obtain ⟨s, hrun, hcheck⟩ := exists_run (M := machine sampleConfig) (s := sampleStepUps)
    (sampleStepUp 11 31 6 :: sampleStepUp 12 32 7 :: (verifies 0 ++ records 0))
    (fun s => counterIs 6 s && (perform (machine sampleConfig) currently
      (verifies 1 ++ records 1) s).any (counterIs 7))
    countersUpToDate_of_currently (by decide +kernel)
  obtain ⟨hsix, hrest⟩ := Bool.and_eq_true_iff.mp hcheck
  obtain ⟨t, hrun', hseven⟩ := exists_run _ _ countersUpToDate_of_currently hrest
  exact ⟨s, t, hsix, hseven,
    counters_never_go_back sampleConfig_countersChecked sampleStepUps_idle hrun hrun'⟩

/-- Both sessions find the counter 5, and the response with the smaller counter is recorded last. -/
theorem counters_go_back : CountersChecked sampleConfig ∧ Idle Legal sampleStepUps ∧
    ∃ s t : System, Run (machine sampleConfig) interrupted sampleStepUps s ∧
      Run (machine sampleConfig) interrupted s t ∧
        (t.procs.all usesPasskey = true ∧ counterIs 7 s = true ∧ counterIs 6 t = true) ∧
          ¬ CountersKept s.db t.db := by
  obtain ⟨s, hrun, hcheck⟩ := exists_run (M := machine sampleConfig) (s := sampleStepUps)
    (sampleStepUp 11 31 6 :: sampleStepUp 12 32 7 :: (verifies 0 ++ verifies 1 ++ records 1))
    (fun s => counterIs 7 s && (perform (machine sampleConfig) uninterrupted (records 0) s).any
      fun t => t.procs.all usesPasskey && counterIs 6 t)
    interrupted_of_uninterrupted (by decide +kernel)
  obtain ⟨hseven, hrest⟩ := Bool.and_eq_true_iff.mp hcheck
  obtain ⟨t, hrun', hcheck'⟩ := exists_run _ _ interrupted_of_uninterrupted hrest
  obtain ⟨hall, hsix⟩ := Bool.and_eq_true_iff.mp hcheck'
  refine ⟨sampleConfig_countersChecked, sampleStepUps_idle, s, t, hrun, hrun',
    ⟨hall, hseven, hsix⟩, fun hkept => ?_⟩
  obtain ⟨x, hx, hxcounter⟩ := (Option.any_eq_true _ _).mp hseven
  obtain ⟨z, hz, hzcounter⟩ := (Option.any_eq_true _ _).mp hsix
  obtain ⟨y, hy, hle⟩ := hkept _ x hx
  cases hz.symm.trans hy
  have hx7 := of_decide_eq_true hxcounter
  have hz6 := of_decide_eq_true hzcounter
  omega

end Sample
end BlocTrust.Identity
