import BlocTrust.Identity.Families

/-!
What a committed revocation has done.
Every session that its scan could see is revoked, by the transaction itself or by another one
that was faster.
-/
namespace BlocTrust.Identity

open ReadCommitted Tables Log

variable {cfg : Config} {db : Db} {p : Process}

theorem due_of_commit (h : ProcOk (machine cfg) (conduct cfg) Legal db p) {next}
    (hq : p.prog = .commit next) : Due p.calls := by
  have hconforms := h.conforms
  rw [hq] at hconforms
  exact hconforms.1

section Scans

variable {view : Db} {scope : Scope}

theorem mem_unrevokedSessions {choice : Nat} {ids : List Id}
    (h : answer choice view (.unrevokedSessions scope) = some ids) {id : Id} :
    id ∈ ids ↔ ∃ x, view.session id = some x ∧ scope.covers x = true ∧ x.revokedAt = none := by
  cases h
  rw [(arrange_perm choice _).mem_iff, List.mem_map]
  constructor
  · rintro ⟨⟨id, x⟩, hmem, rfl⟩
    obtain ⟨hrow, hkeep⟩ := List.mem_filter.mp hmem
    have hkeep := of_decide_eq_true hkeep
    exact ⟨x, Db.mem_sessions.mp hrow, hkeep.1, hkeep.2⟩
  · rintro ⟨x, hx, hcovers, hlive⟩
    refine ⟨(id, x), List.mem_filter.mpr ⟨Db.mem_sessions.mpr hx, ?_⟩, rfl⟩
    exact decide_eq_true ⟨hcovers, hlive⟩

theorem mem_unrevokedTokens {choice : Nat} {hashes : List Digest}
    (h : answer choice view (.unrevokedTokens scope) = some hashes) {hash : Digest} :
    hash ∈ hashes ↔ ∃ t x, view.token hash = some t ∧ view.session t.sessionId = some x ∧
      scope.covers x = true ∧ t.revokedAt = none := by
  cases h
  rw [(arrange_perm choice _).mem_iff, List.mem_map]
  constructor
  · rintro ⟨⟨hash, t⟩, hmem, rfl⟩
    obtain ⟨hrow, hkeep⟩ := List.mem_filter.mp hmem
    obtain ⟨hany, hlive⟩ := of_decide_eq_true hkeep
    obtain ⟨x, hx, hcovers⟩ := (Option.any_eq_true _ _).mp hany
    exact ⟨t, x, Db.mem_tokens.mp hrow, hx, hcovers, hlive⟩
  · rintro ⟨t, x, ht, hx, hcovers, hlive⟩
    refine ⟨(hash, t), List.mem_filter.mpr ⟨Db.mem_tokens.mpr ht, ?_⟩, rfl⟩
    refine decide_eq_true ⟨?_, hlive⟩
    rw [hx]
    exact hcovers

end Scans

variable {newer older : List (Event Val Out)} {rows base : Db}

/-- A scan of sessions is answered over the committed log. -/
theorem scan_base (h : ProcOk (machine cfg) (conduct cfg) Legal db p) {scope : Scope}
    {ids : List Id} (hx : Executed tables client (conduct cfg) p (.read (.unrevokedSessions scope))
      ids newer older rows base) : writes older = [] :=
  silent_writes setup h hx.current hx.before.2.2.1

/-- A scan of a family sees a session of it. -/
theorem scan_family (h : ProcOk (machine cfg) (conduct cfg) Legal db p) {familyId : Id}
    {ids : List Id} (hx : Executed tables client (conduct cfg) p
      (.read (.unrevokedSessions (.family familyId))) ids newer older rows base)
    (hknown : ∀ sessionId x, Saw p.past (.findSession sessionId) (some x) →
      ∃ y, Db.session base sessionId = some y ∧ SessionKept x y) :
    ∃ id x, Db.session base id = some x ∧ x.tokenFamilyId = familyId := by
  obtain ⟨hrevokes, -⟩ := hx.before.2
  cases hop : p.op with
  | rotate refreshToken metadata =>
      rw [hop] at hrevokes
      obtain ⟨t, x, -, hsaw, heq⟩ := hrevokes
      cases heq
      obtain ⟨mid, older', rows', base', hold, hfound⟩ := Executed.earlier setup h hx hsaw
      obtain ⟨⟨choice, hanswer⟩, -⟩ := hfound.ran.answer
      obtain ⟨y, hy, hkept⟩ := Executed.sees persists h hx hold (Option.some.inj hanswer)
      rw [scan_base h hx] at hy
      exact ⟨t.sessionId, y, hy, SessionKept.tokenFamilyId hkept⟩
  | revoke sessionId =>
      rw [hop] at hrevokes
      obtain ⟨x, hsaw, heq⟩ := hrevokes
      cases heq
      obtain ⟨y, hy, hkept⟩ := hknown sessionId x hsaw
      exact ⟨sessionId, y, hy, hkept.tokenFamilyId⟩
  | revokeAll userId =>
      rw [hop] at hrevokes
      cases hrevokes
  | _ =>
      rw [hop] at hrevokes
      exact hrevokes.elim

section Revoked

variable (h : ProcOk (machine cfg) (conduct cfg) Legal db p)

include h

theorem did_revoked_session {id : Id} {now : Time} {n : Nat}
    (hdid : Did p.calls (.session id) (.revoked now) n) :
    ∃ y, Db.session (p.writes ++ db) id = some y ∧ y.revokedAt ≠ none := by
  refine did_settled setup persists h rfl hdid (P := fun y => y.revokedAt ≠ none) ?_
    (fun _ _ hkept => SessionKept.revokedAt hkept) (fun _ _ => Option.some_ne_none now)
    (fun v happlies => of_decide_eq_false happlies)
  intro newer older rows base hx
  obtain ⟨⟨scope, ids, hsaw, hid⟩, -⟩ := hx.before.2
  obtain ⟨mid, older', rows', base', hold, hscan⟩ := Executed.earlier setup h hx hsaw
  obtain ⟨⟨choice, hanswer⟩, -⟩ := hscan.ran.answer
  obtain ⟨x, hx', -⟩ := (mem_unrevokedSessions hanswer).mp hid
  obtain ⟨y, hy, -⟩ := Executed.sees persists h hx hold hx'
  exact ⟨y, hy⟩

/-- A transaction scans the sessions once. -/
theorem scan_unique {scope scope' : Scope} {ids ids' : List Id}
    (hsaw : Saw p.calls (.unrevokedSessions scope) ids)
    (hsaw' : Saw p.calls (.unrevokedSessions scope') ids') : scope = scope' ∧ ids = ids' := by
  have heq := only_once setup h
    (A := fun c => ∃ scope ids, c = ⟨.read (.unrevokedSessions scope), ids⟩) ?_ hsaw hsaw'
    ⟨scope, ids, rfl⟩ ⟨scope', ids', rfl⟩
  · cases heq
    exact ⟨rfl, rfl⟩
  · rintro cur s out hbefore ⟨scope, ids, heq⟩ c hc ⟨scope', ids', rfl⟩
    cases heq
    exact hbefore.2.2.2 scope' ids' hc

/-- A covered session that the scan could see is revoked when the transaction commits. -/
theorem scan_revokes (hdue : Due p.calls) {scope : Scope} {ids : List Id}
    (hscan : Executed tables client (conduct cfg) p (.read (.unrevokedSessions scope)) ids
      newer older rows base) {id : Id} {x : Session} (hx : Db.session base id = some x)
    (hcovers : scope.covers x = true) :
    ∃ y, Db.session (p.writes ++ db) id = some y ∧ y.revokedAt ≠ none := by
  have hview : Db.session (writes older ++ base) id = some x := by
    rw [scan_base h hscan]
    exact hx
  by_cases hlive : x.revokedAt = none
  · obtain ⟨⟨choice, hanswer⟩, -⟩ := hscan.ran.answer
    have hid := (mem_unrevokedSessions hanswer).mpr ⟨x, hview, hcovers, hlive⟩
    obtain ⟨ids', hsaw, hall⟩ := (hdue.revoked scope ids hscan.call).sessions
    obtain ⟨-, rfl⟩ := scan_unique h hscan.call hsaw
    obtain ⟨now, n, hdid⟩ := hall id hid
    exact did_revoked_session h hdid
  · obtain ⟨y, hy, hkept⟩ := (carries_commit h hscan).session hview
    exact ⟨y, hy, hkept.revokedAt hlive⟩

end Revoked
end BlocTrust.Identity
