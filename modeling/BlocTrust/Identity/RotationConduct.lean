import BlocTrust.Identity.Conforms
import BlocTrust.ReadCommitted.Extend

/-!
Why a rotation revokes a family.
Only the transaction of `rotate` decides by itself to revoke: it has found the token spent or its
session ended, expired or no longer admitted, or another call has consumed the token before it.
-/
namespace BlocTrust.Identity

open ReadCommitted Tables Prog

variable {cfg : Config} {op : Op} {past cur : Calls Out} {hash : Digest}
  {t : SessionRefreshToken} {x : Session}

/-- What a rotation has against the token `t` of the session `x`. -/
inductive Objection (past cur : Calls Out) (hash : Digest) (t : SessionRefreshToken)
    (x : Session) : Prop
  | spent (h : t.usedAt ≠ none ∨ t.revokedAt ≠ none)
  | ended (h : x.revokedAt ≠ none)
  | expired (now : Time) (hclock : Called past .clock now)
      (h : x.expiresAt ≤ now ∨ t.expiresAt ≤ now)
  | excluded (now : Time) (user : Option User) (membership : Option Membership)
      (hclock : Called past .clock now)
      (hmembership : Saw cur (.findMembership x.organizationId x.userId) membership)
      (huser : Saw cur (.findUser x.userId) user)
      (h : SessionService.admits now user membership = none)
  | overtaken (now : Time) (h : Did cur (.token hash) (.consumed now) 0)

/-- Calls, but no statements of the database. -/
def OnlyCalls (past : Calls Out) : Prop := ∀ c ∈ past, ∃ x out, c = ⟨.call x, out⟩

/-- What a rotation has found when it looks for the sessions of a family. -/
structure Objects (cfg : Config) (refreshToken : Nat) (past cur : Calls Out) (scope : Scope) :
    Prop where
  calls : OnlyCalls past
  found : ∃ t x, Saw cur (.findToken (cfg.hashOpaqueToken refreshToken)) (some t) ∧
    Saw cur (.findSession t.sessionId) (some x) ∧ scope = .family x.tokenFamilyId ∧
      Objection past cur (cfg.hashOpaqueToken refreshToken) t x

/-- Every statement but the first scan of a revocation. -/
def Unscanning : Stmt → Prop
  | .read (.unrevokedSessions _) => False
  | _ => True

def rotationConduct (cfg : Config) (op : Op) : Conduct Out where
  before past cur s := ∀ refreshToken metadata scope, op = .rotate refreshToken metadata →
    s = .read (.unrevokedSessions scope) → Objects cfg refreshToken past cur scope
  due _ _ := True
  answers := Answers

section Other

theorem before_of_unscanning {s : Stmt} (h : Unscanning s) :
    (rotationConduct cfg op).before past cur s := by
  intro refreshToken metadata scope hop hs
  rw [hs] at h
  exact h.elim

/-- A program that does not look for sessions to revoke. -/
theorem wp_of_issues {α : Type} {p : Program α} (h : p.Issues Unscanning) :
    p.wp (rotationConduct cfg op) (fun _ _ _ => True) (fun _ _ _ => True) past [] :=
  wp_mono (fun _ _ _ _ => trivial) (fun _ _ _ _ => trivial)
    (h.keeps (fun _ hs _ _ => before_of_unscanning hs) (fun _ _ _ => trivial)
      fun _ hc => absurd hc List.not_mem_nil)

theorem sql_objects {s : Stmt} {Q : Out s → Calls Out → Calls Out → Prop} (hs : Unscanning s)
    (hQ : ∀ out, Answers s out → Q out past (⟨s, out⟩ :: cur)) :
    (Prog.sql s : Program (Out s)).wp (rotationConduct cfg op) Q (fun _ _ _ => True) past cur :=
  ⟨before_of_unscanning hs, hQ, fun _ => trivial⟩

end Other

section Walk

/-- The rest of a revocation follows its first scan. -/
theorem revokeScope_objects {scope : Scope} {now : Time}
    (h : ∀ refreshToken metadata, op = .rotate refreshToken metadata →
      Objects cfg refreshToken past cur scope) :
    (SessionService.revokeScope scope now).wp (rotationConduct cfg op)
      (fun _ _ _ => True) (fun _ _ _ => True) past cur := by
  rw [SessionService.revokeScope, wp_bind]
  refine ⟨fun r m scope' hop hs => ?_, fun ids _ => ?_, fun _ => trivial⟩
  · have hscope := Stmt.read.inj hs
    cases hscope
    exact h r m hop
  · have hrest : Prog.Plain Unscanning (do
        let _ ← each (fun id => update (.session id) (.revoked now)) ids
        let tokens ← query (.unrevokedTokens scope)
        let _ ← each (fun tokenHash => update (.token tokenHash) (.revoked now)) tokens
        return () : Program Unit) := by
      have hsession : ∀ id, (update (.session id) (.revoked now)).Plain Unscanning :=
        fun id => (plain_sql _).mpr trivial
      have htoken : ∀ hash, (update (.token hash) (.revoked now)).Plain Unscanning :=
        fun hash => (plain_sql _).mpr trivial
      refine (plain_each hsession ids).bind fun _ => ?_
      refine Plain.bind ((plain_sql _).mpr trivial) fun hashes => ?_
      exact (plain_each htoken hashes).bind fun _ => trivial
    exact wp_mono (fun _ _ _ _ => trivial) (fun _ _ _ _ => trivial)
      (hrest.keeps (fun s hs cur => before_of_unscanning hs) _)

theorem revoking {scope : Scope} {now : Time} {result : SessionService.RotateResult}
    {refreshToken : Nat} {metadata : RequestMetadata} (hop : op = .rotate refreshToken metadata)
    (h : Objects cfg refreshToken past cur scope) :
    (SessionService.revokeScope scope now >>= fun _ => pure result : Program _).wp
      (rotationConduct cfg op) (fun _ _ _ => True) (fun _ _ _ => True) past cur := by
  rw [wp_bind]
  refine wp_mono (fun _ _ _ _ => trivial) (fun _ _ _ h => h)
    (revokeScope_objects fun r m hop' => ?_)
  cases hop.symm.trans hop'
  exact h

theorem consume_objects {refreshToken : Nat} {metadata : RequestMetadata} {now : Time}
    {newRefreshHash newCsrfHash : Digest} (hop : op = .rotate refreshToken metadata)
    (hcalls : OnlyCalls past)
    (htoken : Saw cur (.findToken (cfg.hashOpaqueToken refreshToken)) (some t))
    (hsession : Saw cur (.findSession t.sessionId) (some x)) :
    (SessionService.consume (cfg.hashOpaqueToken refreshToken) newRefreshHash newCsrfHash metadata
      now t.sessionId x).wp (rotationConduct cfg op) (fun _ _ _ => True) (fun _ _ _ => True)
      past cur := by
  rw [SessionService.consume, wp_bind]
  refine sql_objects trivial fun n hn => ?_
  rw [wp_ite]
  refine ⟨fun _ => ?_, fun hone => ?_⟩
  · have hrest : Prog.Plain Unscanning (do
        updateFound (.session t.sessionId) (.rotated newRefreshHash newCsrfHash now metadata)
        insert (.token newRefreshHash)
          { sessionId := t.sessionId
            expiresAt := x.expiresAt
            usedAt := none
            revokedAt := none }
        return .rotated t.sessionId x : Program SessionService.RotateResult) := by
      refine Plain.bind (Plain.bind ((plain_sql _).mpr trivial) fun _ =>
        plain_require _ _) fun _ => ?_
      exact Plain.bind ((plain_sql _).mpr trivial) fun _ => trivial
    exact wp_mono (fun _ _ _ _ => trivial) (fun _ _ _ _ => trivial)
      (hrest.keeps (fun s hs cur => before_of_unscanning hs) _)
  · rcases hn with rfl | rfl
    · refine revoking hop ⟨hcalls, t, x, List.mem_cons_of_mem _ htoken,
        List.mem_cons_of_mem _ hsession, rfl, ?_⟩
      exact .overtaken now List.mem_cons_self
    · exact absurd rfl hone

theorem rotateStored_objects {refreshToken : Nat} {metadata : RequestMetadata} {now : Time}
    {newRefreshHash newCsrfHash : Digest} (hop : op = .rotate refreshToken metadata)
    (hcalls : OnlyCalls past) (hclock : Called past .clock now) :
    (SessionService.rotateStored (cfg.hashOpaqueToken refreshToken) newRefreshHash newCsrfHash
      metadata now).wp (rotationConduct cfg op) (fun _ _ _ => True) (fun _ _ _ => True)
      past [] := by
  rw [SessionService.rotateStored, wp_bind]
  refine sql_objects trivial fun found _ => ?_
  cases found with
  | none => trivial
  | some t =>
      simp only
      rw [wp_bind]
      refine sql_objects trivial fun found _ => ?_
      rw [wp_bind, wp_orThrow]
      refine ⟨fun x hx => ?_, fun _ => trivial⟩
      subst hx
      rw [wp_ite]
      refine ⟨fun hspent => ?_, fun _ => ?_⟩
      · exact revoking hop ⟨hcalls, t, x, by simp, by simp, rfl, .spent hspent⟩
      rw [wp_ite]
      refine ⟨fun hinactive => ?_, fun _ => ?_⟩
      · refine revoking hop ⟨hcalls, t, x, by simp, by simp, rfl, ?_⟩
        rcases hinactive with hended | hexpired
        · exact .ended hended
        · exact .expired now hclock hexpired
      rw [wp_bind]
      refine sql_objects trivial fun membership _ => ?_
      rw [wp_bind]
      refine sql_objects trivial fun user _ => ?_
      cases hadmits : SessionService.admits now user membership with
      | none =>
          simp only
          refine revoking hop ⟨hcalls, t, x, by simp, by simp, rfl, ?_⟩
          exact .excluded now user membership hclock (by simp) (by simp) hadmits
      | some m =>
          simp only
          exact consume_objects hop hcalls (by simp) (by simp)

theorem OnlyCalls.cons (h : OnlyCalls past) (c : External) (out : c.Out) :
    OnlyCalls (⟨.call c, out⟩ :: past) := by
  intro d hd
  rcases List.mem_cons.mp hd with heq | hold
  · exact ⟨c, out, heq⟩
  · exact h d hold

theorem external_objects {c : External} {Q : c.Out → Calls Out → Calls Out → Prop}
    (hQ : ∀ out, Q out (⟨.call c, out⟩ :: past) []) :
    (external c).wp (rotationConduct cfg op) Q (fun _ _ _ => True) past [] :=
  ⟨before_of_unscanning trivial, fun out _ => ⟨trivial, hQ out, fun _ => trivial⟩,
    fun _ => trivial⟩

theorem rotate_objects {refreshToken : Nat} {metadata : RequestMetadata}
    (hop : op = .rotate refreshToken metadata) :
    (SessionService.rotate cfg refreshToken metadata).wp (rotationConduct cfg op)
      (fun _ _ _ => True) (fun _ _ _ => True) [] [] := by
  rw [SessionService.rotate, wp_bind]
  refine external_objects fun newRefreshToken => ?_
  rw [wp_bind]
  refine external_objects fun newCsrfToken => ?_
  rw [wp_bind]
  refine external_objects fun now => ?_
  have hcalls : OnlyCalls ([] : Calls Out) := fun c hc => absurd hc List.not_mem_nil
  have hpast := ((hcalls.cons .randomToken newRefreshToken).cons .randomToken newCsrfToken).cons
    .clock now
  rw [wp_bind, wp_transaction]
  refine wp_mono (fun result past' cur' _ => ⟨trivial, ?_, fun _ => trivial⟩)
    (fun _ _ _ _ => trivial) (rotateStored_objects hop hpast List.mem_cons_self)
  cases result with
  | invalid => trivial
  | reused => trivial
  | rotated sessionId session =>
      have hclock : (external .clock).Issues Unscanning := issues_auto trivial
      exact wp_of_issues (hclock.bind fun _ => trivial)

theorem wp_of_other (hop : ∀ refreshToken metadata, op ≠ .rotate refreshToken metadata)
    {p : Program Response} :
    p.wp (rotationConduct cfg op) (fun _ _ _ => True) (fun _ _ _ => True) [] [] :=
  wp_mono (fun _ _ _ _ => trivial) (fun _ _ _ _ => trivial)
    ((issues_any p).keeps (fun _ _ _ _ r m _ heq => absurd heq (hop r m)) (fun _ _ _ => trivial)
      fun _ hc => absurd hc List.not_mem_nil)

theorem program_objects (op : Op) : (program cfg op).wp (rotationConduct cfg op)
    (fun _ _ _ => True) (fun _ _ _ => True) [] [] := by
  cases op with
  | rotate refreshToken metadata =>
      exact (wp_bind _ _).mpr
        (wp_mono (fun _ _ _ _ => trivial) (fun _ _ _ h => h) (rotate_objects rfl))
  | _ => exact wp_of_other fun _ _ h => by cases h

end Walk

theorem rotations (cfg : Config) : Discipline (machine cfg) (rotationConduct cfg) Legal :=
  Tables.discipline client_internal program_objects fun _ _ _ _ _ h => answers_of_ran h

end BlocTrust.Identity
