import BlocTrust.Identity.Persistence

/-!
Every session starts a token family of its own.
-/
namespace BlocTrust.Identity

open ReadCommitted Tables Log

variable {cfg : Config} {db db' : Db} {p : Process} {id : Id} {x : Session}

/-- The family of a session is an identifier that was drawn for it. -/
structure Families (db : Db) : Prop where
  drawn : ∀ id x, db.session id = some x → Key.drawn x.tokenFamilyId ∈ db.keys
  unique : ∀ id id' x x', db.session id = some x → db.session id' = some x' →
    x.tokenFamilyId = x'.tokenFamilyId → id = id'

/-- New sessions are of families that had not been drawn. -/
structure NewFamilies (db db' : Db) : Prop where
  suffix : db <:+ db'
  carries : Carries db db'
  fresh : ∀ id x, db'.session id = some x →
    (∃ y, db.session id = some y) ∨ Key.drawn x.tokenFamilyId ∉ db.keys

theorem NewFamilies.refl (db : Db) : NewFamilies db db :=
  ⟨List.suffix_refl _, .refl db, fun _ x h => .inl ⟨x, h⟩⟩

theorem NewFamilies.trans {a b c : Db} (h : NewFamilies a b) (h' : NewFamilies b c) :
    NewFamilies a c := by
  refine ⟨h.suffix.trans h'.suffix, h.carries.trans h'.carries, fun id x hx => ?_⟩
  rcases h'.fresh id x hx with ⟨y, hy⟩ | hnew
  · obtain ⟨z, hz, hkept⟩ := h'.carries.session hy
    cases hx.symm.trans hz
    rcases h.fresh id y hy with hold | hnew
    · exact .inl hold
    · rw [hkept.tokenFamilyId]
      exact .inr hnew
  · exact .inr fun hmem => hnew (Log.keys_subset_of_suffix h.suffix hmem)

section Commit

/-- An identifier that a transaction drew was not there before it. -/
theorem drawn_commit (h : ProcOk (machine cfg) (conduct cfg) Legal db p) {drawn : Id}
    (hcalled : Called p.calls .randomUUID drawn) :
    Key.drawn drawn ∉ db.keys ∧ Key.drawn drawn ∈ p.writes.keys := by
  obtain ⟨newer, older, rows, base, hx⟩ := exists_executed setup h hcalled
  obtain ⟨choice, hreply⟩ := hx.ran.reply
  have hreply : reply choice (writes older ++ base) .randomUUID = some (.ok (drawn, rows)) := hreply
  simp only [reply] at hreply
  split at hreply
  · cases hreply
  · rename_i hfresh
    cases hreply
    have hmem : Key.drawn drawn ∈ List.keys [(⟨Key.drawn drawn, ()⟩ : Sigma Val)] :=
      List.mem_cons_self
    refine ⟨row_eq_none.mp ((h.held hx.mem hmem).symm.trans (row_eq_none.mpr fun hold => ?_)),
      hx.written hmem⟩
    rw [keys_append] at hfresh
    exact hfresh (List.mem_append_right _ hold)

/-- A session of the log after a commit was there before, or is a new one of a new family. -/
theorem session_commit (h : ProcOk (machine cfg) (conduct cfg) Legal db p)
    (hx : Db.session (p.writes ++ db) id = some x) :
    (∃ y, db.session id = some y ∧ SessionKept y x) ∨
      (db.session id = none ∧ Made p.calls (.session id) x ∧
        Key.drawn x.tokenFamilyId ∉ db.keys ∧ Key.drawn x.tokenFamilyId ∈ p.writes.keys) := by
  cases commit_row setup h rfl hx with
  | kept hfree hrow => exact .inl ⟨x, hrow, .refl x⟩
  | made newer older rows base hexec hfresh hmem =>
      have hnew : NewSession p.op (older.map Event.call) x := hexec.before.2
      have hcalled : Called p.calls .randomUUID x.tokenFamilyId := hexec.calls_subset hnew.family
      exact .inr ⟨Log.row_eq_none.mpr hfresh, hexec.call, drawn_commit h hcalled⟩
  | changed newer older rows base c old hexec hold hbase happlies hvalue hmem =>
      subst hvalue
      exact .inl ⟨old, hold, SessionChange.kept c old⟩

/-- A transaction inserts one session at most. -/
theorem made_session_unique (h : ProcOk (machine cfg) (conduct cfg) Legal db p) {id' : Id}
    {x' : Session} (hmade : Made p.calls (.session id) x) (hmade' : Made p.calls (.session id') x') :
    id = id' := by
  have heq := only_once setup h
    (A := fun c => ∃ id x, c = ⟨.insert (.session id) x, ()⟩) ?_ hmade hmade' ⟨id, x, rfl⟩
    ⟨id', x', rfl⟩
  · cases heq
    rfl
  · rintro cur s out hbefore ⟨id, x, heq⟩ c hc ⟨id', x', rfl⟩
    cases heq
    exact hbefore.2.first _ _ hc

theorem families_commit (h : ProcOk (machine cfg) (conduct cfg) Legal db p) (hF : Families db) :
    Families (p.writes ++ db) := by
  constructor
  · intro id x hx
    rw [keys_append]
    rcases session_commit h hx with ⟨y, hy, hkept⟩ | ⟨-, -, -, hdrawn⟩
    · rw [hkept.tokenFamilyId]
      exact List.mem_append_right _ (hF.drawn id y hy)
    · exact List.mem_append_left _ hdrawn
  · intro id id' x x' hx hx' hfamily
    rcases session_commit h hx with ⟨y, hy, hkept⟩ | ⟨-, hmade, hfresh, -⟩
    · rcases session_commit h hx' with ⟨y', hy', hkept'⟩ | ⟨-, hmade', hfresh', -⟩
      · exact hF.unique id id' y y' hy hy'
          (hkept.tokenFamilyId.symm.trans (hfamily.trans hkept'.tokenFamilyId))
      · refine absurd (hF.drawn id y hy) ?_
        rw [← hkept.tokenFamilyId, hfamily]
        exact hfresh'
    · rcases session_commit h hx' with ⟨y', hy', hkept'⟩ | ⟨-, hmade', -, -⟩
      · refine absurd (hF.drawn id' y' hy') ?_
        rw [← hkept'.tokenFamilyId, ← hfamily]
        exact hfresh
      · exact made_session_unique h hmade hmade'

theorem newFamilies_commit (h : ProcOk (machine cfg) (conduct cfg) Legal db p) :
    NewFamilies db (p.writes ++ db) := by
  refine ⟨List.suffix_append _ _, carries_of_suffix h.view (List.suffix_append _ _),
    fun id x hx => ?_⟩
  rcases session_commit h hx with ⟨y, hy, -⟩ | ⟨-, -, hfresh, -⟩
  · exact .inl ⟨y, hy⟩
  · exact .inr hfresh

end Commit

section Outside

variable {rows : Db}

/-- Users and memberships change from outside, sessions and tokens do not. -/
theorem session_outside (hout : ∀ s ∈ rows, Key.outside s.1 = true) (id : Id) :
    Db.session (rows ++ db) id = db.session id := outside_row (S := tables) hout rfl

theorem families_outside (hout : ∀ s ∈ rows, Key.outside s.1 = true) (hF : Families db) :
    Families (rows ++ db) := by
  constructor
  · intro id x hx
    rw [session_outside hout] at hx
    rw [keys_append]
    exact List.mem_append_right _ (hF.drawn id x hx)
  · intro id id' x x' hx hx'
    rw [session_outside hout] at hx hx'
    exact hF.unique id id' x x' hx hx'

theorem newFamilies_outside (hc : Chain Legal (rows ++ db))
    (hout : ∀ s ∈ rows, Key.outside s.1 = true) : NewFamilies db (rows ++ db) := by
  refine ⟨List.suffix_append _ _, carries_of_suffix hc (List.suffix_append _ _),
    fun id x hx => .inl ⟨x, ?_⟩⟩
  rwa [session_outside hout] at hx

end Outside
end BlocTrust.Identity
